import Mathlib
import Scripting.Proofs.FollowedParsing
import Scripting.Session

/-!
# Programs in pieces and joined

Two sources that are read without an error can be joined by a semicolon on a line of its own: the
statements of the whole are those of the first and those of the second, with an empty one between
them at most. Running the whole is running the first and then, on the machine that it leaves, the
second.
-/

namespace Scripting

theorem Stmt.isEmpty_erase {α : Type} (s : Stmt α) : s.erase.isEmpty = s.isEmpty := by
  cases s with
  | expression m e =>
    cases e with
    | conditional m c y no => cases no <;> rfl
    | _ => rfl
  | _ => rfl

/-- No word of a text is its end. -/
theorem Token.ne_endOfFile_of_mem_sequence {text : List Char} {t : Token}
    (member : t ∈ sequence text) : t ≠ .endOfFile := by
  fun_induction sequence text with
  | case1 => cases member
  | case2 text c rest _ ih =>
    rcases List.mem_cons.mp member with rfl | member
    · exact (scan_proper c rest).2
    · exact ih member

/-- The words of two texts with a semicolon on a line of its own between them. -/
theorem Token.sequence_join {first second : List Char}
    (proper : ∀ t ∈ sequence first, t.isProper) :
    sequence (first ++ "\n;\n".toList ++ second) =
      sequence first ++ .sign .semicolon :: sequence second := by
  have line : "\n;\n".toList ++ second =
      '\n' :: (Sign.semicolon.spelling.toList ++ '\n' :: second) := rfl
  rw [List.append_assoc, line, sequence_append_newline proper,
    sequence_sign .semicolon (fun _ _ => rfl), sequence_blank rfl]

namespace Parser

variable {tokens : List SpannedToken} {finish : Position} {tail : List Token}

/-- Whether the token is the end of the source. -/
def endsProgram (t : Token) : Bool := t = .endOfFile

/-- Tokens that are read without an error are read to their end, in front of others too. -/
theorem cleanRun_of_parseTokens (inside : ∀ t ∈ tokens, t.token ≠ .endOfFile)
    (clean : (parseTokens tokens finish).2 = [])
    (opens : Opens tail) {n' : Nat} (more : tokens.length + 2 ≤ n') :
    ∃ t, t.tokens = [] ∧ CleanRun tail (partsAt n') endsProgram ⟨tokens, finish, #[]⟩
      (parseTokens tokens finish).1.stmts t := by
  have parts : PartsFollow tail tokens.length (partsAt (tokens.length + 2)) (partsAt n') :=
    follows_parts opens (by omega) more
  have all : ReadsAll tail (partsAt (tokens.length + 2)) (partsAt n') endsProgram
      (tokens.length + 2) ⟨tokens, finish, #[]⟩ :=
    readsAll opens (fun _ => parts) rfl (Nat.le_refl _) (by simp)
  obtain ⟨new, t, ran, suffix, stop, cleanRun⟩ := all []
  have whole : parseTokens tokens finish = (⟨new⟩, t.errors.toList) := by
    unfold parseTokens
    rw [show program (tokens.length + 2) ⟨tokens, finish, #[]⟩ = .done new t from ran]
  have ended : t.tokens = [] := by
    cases here : t.tokens with
    | nil => rfl
    | cons x xs =>
      have last : x.token = .endOfFile := by simpa [endsProgram, State.current, here] using stop
      exact absurd last (inside x (suffix.mem (by rw [here]; exact List.mem_cons_self)))
  rw [whole] at clean ⊢
  exact ⟨t, ended, cleanRun (by simpa using clean)⟩

/-- Statements that end with the tokens are read by the other reader with fuel to spare. -/
theorem CleanRun.to_end {p' : Parts} {s t : State} {new : List (Stmt Span)}
    (run : CleanRun tail p' endsProgram s new t) (ended : t.tokens = []) {s' : State}
    (before : Before tail s s') {fuel spare : Nat} (enough : s.tokens.length + spare ≤ fuel)
    (read : List (Stmt Span)) :
    ∃ (new' : List (Stmt Span)) (left : Nat) (t' : State),
      statements p' endsProgram fuel read s' =
        statements p' endsProgram left (new'.reverse ++ read) t' ∧
      spare ≤ left ∧ new'.map Stmt.erase = new.map Stmt.erase ∧ t'.errors = s'.errors ∧
      (t'.tokens.map (·.token) = tail ∨ t'.tokens.map (·.token) = tail.tail) := by
  obtain ⟨new', left, t', same, room, erased, errors, after⟩ :=
    run.same s' fuel spare read before enough
  refine ⟨new', left, t', same, room, erased, errors, after.imp (fun behind => ?_) And.right⟩
  unfold Before at behind
  rwa [ended] at behind

/-- A semicolon is an empty statement. -/
theorem statement_semicolon {n : Nat} {s : State} {x : SpannedToken} {xs : List SpannedToken}
    (here : s.tokens = x :: xs) (semicolon : x.token = .sign .semicolon) :
    ∃ a, statement (partsAt (n + 1)) s = .done a s ∧ a.isEmpty := by
  obtain ⟨tokens, finish, errors⟩ := s
  cases here
  have missing : expression (n + 1) .lowest ⟨x :: xs, finish, errors⟩ =
      .done (.missing x.span) ⟨x :: xs, finish, errors⟩ := by
    rw [expression, Attempt.deepen_eq, bind_done current_run, if_pos semicolon]
    rfl
  have plain : x.token ∉ [.keyword .letWord, .keyword .deleteWord, .keyword .returnWord] := by
    rw [semicolon]
    decide
  exact ⟨_, statement_expression_run plain missing, rfl⟩

/-- A reader in front of a semicolon passes over it. One that has taken it up already is there. -/
theorem statements_semicolon {n left spare : Nat} {s : State} {more : List Token}
    (behind : s.tokens.map (·.token) = .sign .semicolon :: more ∨ s.tokens.map (·.token) = more)
    (room : spare + 1 ≤ left) (read : List (Stmt Span)) :
    ∃ (blank : List (Stmt Span)) (left' : Nat) (t : State), (∀ a ∈ blank, a.isEmpty) ∧
      statements (partsAt (n + 1)) endsProgram left read s =
        statements (partsAt (n + 1)) endsProgram left' (blank ++ read) t ∧
      t.tokens.map (·.token) = more ∧ t.errors = s.errors ∧ spare ≤ left' := by
  rcases behind with semicolon | past
  · obtain ⟨x, xs, here, word, rest⟩ := List.map_eq_cons_iff.mp semicolon
    obtain ⟨a, ran, empty⟩ := statement_semicolon (n := n) here word
    have further : endsProgram s.current.token = false := by
      simp only [State.current, here, List.headD_cons, word]
      rfl
    obtain ⟨left, rfl⟩ := Nat.exists_eq_add_of_le' (Nat.le_of_add_left_le room)
    refine ⟨[a], left, { s with tokens := s.tokens.tail }, by simpa using empty,
      statements_step further ran, ?_, rfl, by omega⟩
    rw [here]
    exact rest
  · exact ⟨[], left, s, by simp, rfl, past, rfl, by omega⟩

/-- Tokens with a semicolon between them are read as the first ones and then the others. -/
theorem parseTokens_join {first second joined : List SpannedToken}
    (finish finish₁ finish₂ : Position) (inside₁ : ∀ t ∈ first, t.token ≠ .endOfFile)
    (inside₂ : ∀ t ∈ second, t.token ≠ .endOfFile)
    (tokens : joined.map (·.token) =
      first.map (·.token) ++ .sign .semicolon :: second.map (·.token))
    (clean₁ : (parseTokens first finish₁).2 = []) (clean₂ : (parseTokens second finish₂).2 = []) :
    ∃ stmts blank : List (Stmt Span), parseTokens joined finish = (⟨stmts⟩, []) ∧
      (∀ a ∈ blank, a.isEmpty) ∧
      stmts.map Stmt.erase = (parseTokens first finish₁).1.stmts.map Stmt.erase ++
        blank.map Stmt.erase ++ (parseTokens second finish₂).1.stmts.map Stmt.erase := by
  have count : joined.length = first.length + (second.length + 1) := by
    simpa using congrArg List.length tokens
  have room₁ : first.length + 2 ≤ joined.length + 2 := by omega
  have room₂ : second.length + 2 ≤ joined.length + 2 := by omega
  have opens : Opens (.sign .semicolon :: second.map (·.token)) := by simp [Opens]
  obtain ⟨t₁, ended₁, run₁⟩ := cleanRun_of_parseTokens inside₁ clean₁ opens room₁
  have closes : Opens [] := nofun
  obtain ⟨t₂, ended₂, run₂⟩ := cleanRun_of_parseTokens inside₂ clean₂ closes room₂
  have start : Before (.sign .semicolon :: second.map (·.token)) ⟨first, finish₁, #[]⟩
      ⟨joined, finish, #[]⟩ := tokens
  have enough : first.length + (second.length + 2) ≤ joined.length + 2 := by omega
  obtain ⟨new₁, left₁, u₁, ran₁, spare₁, erased₁, errors₁, behind₁⟩ :=
    run₁.to_end ended₁ start enough []
  obtain ⟨blank, left, u, empty, ran, tokens', errors, spare⟩ :=
    statements_semicolon (n := joined.length + 1) behind₁ spare₁ (new₁.reverse ++ [])
  have again : Before [] ⟨second, finish₂, #[]⟩ u := by
    unfold Before
    rw [tokens', List.append_nil]
  obtain ⟨new₂, left₂, u₂, ran₂, spare₂, erased₂, errors₂, behind₂⟩ :=
    run₂.to_end ended₂ again spare (blank ++ (new₁.reverse ++ []))
  have stop : endsProgram u₂.current.token := by
    have none : u₂.tokens = [] := by simpa using behind₂
    simp only [State.current, none]
    rfl
  obtain ⟨left₂, rfl⟩ := Nat.exists_eq_add_of_le' spare₂
  have whole : program (joined.length + 2) ⟨joined, finish, #[]⟩ =
      .done (new₁ ++ blank.reverse ++ new₂) u₂ :=
    calc program (joined.length + 2) ⟨joined, finish, #[]⟩
      _ = statements (partsAt (joined.length + 2)) endsProgram left₁ (new₁.reverse ++ []) u₁ := ran₁
      _ = statements (partsAt (joined.length + 2)) endsProgram left
          (blank ++ (new₁.reverse ++ [])) u := ran
      _ = statements (partsAt (joined.length + 2)) endsProgram (left₂ + 1)
          (new₂.reverse ++ (blank ++ (new₁.reverse ++ []))) u₂ := ran₂
      _ = .done (new₁ ++ blank.reverse ++ new₂) u₂ := by
        rw [statements_stop stop]
        simp
  have none : u₂.errors = #[] := errors₂.trans (errors.trans errors₁)
  refine ⟨new₁ ++ blank.reverse ++ new₂, blank.reverse, ?_, by simpa using empty, ?_⟩
  · unfold parseTokens
    rw [whole]
    simp only [none]
  · rw [List.map_append, List.map_append, erased₁, erased₂]

end Parser

section Sources

/-- The tokens of a source. -/
def tokensOf (source : String) : List SpannedToken := (Cursor.ofString source).tokens.1

/-- The place after the last token of a source. -/
def finishOf (source : String) : Position :=
  (Cursor.ofString source).tokens.2.next.1.span.start

theorem parse_eq (source : String) :
    parse source = parseTokens (tokensOf source) (finishOf source) := rfl

theorem map_token_tokensOf (source : String) :
    (tokensOf source).map (·.token) = Token.sequence source.toList :=
  Cursor.tokens_eq_sequence _

theorem token_ne_endOfFile {source : String} :
    ∀ t ∈ tokensOf source, t.token ≠ .endOfFile := by
  intro t member
  have word : t.token ∈ Token.sequence source.toList :=
    map_token_tokensOf source ▸ List.mem_map_of_mem member
  exact Token.ne_endOfFile_of_mem_sequence word

variable {first second : String}

/-- Every word of a source that is read without an error is proper. -/
theorem isProper_of_parse (clean : (parse first).2 = []) :
    ∀ w ∈ Token.sequence first.toList, w.isProper := by
  rw [parse_eq] at clean
  have closes : Parser.Opens [] := nofun
  obtain ⟨t, ended, run⟩ :=
    Parser.cleanRun_of_parseTokens token_ne_endOfFile clean closes (Nat.le_refl _)
  have proper := run.proper (by unfold Parser.State.Proper; rw [ended]; nofun)
  intro w member
  rw [← map_token_tokensOf] at member
  obtain ⟨x, inside, rfl⟩ := List.mem_map.mp member
  exact proper x inside

/-- Two sources are read as one with a semicolon on a line of its own between them. -/
theorem parse_join (clean₁ : (parse first).2 = []) (clean₂ : (parse second).2 = []) :
    ∃ stmts blank : List (Stmt Span), parse (first ++ "\n;\n" ++ second) = (⟨stmts⟩, []) ∧
      (∀ a ∈ blank, a.isEmpty) ∧
      stmts.map Stmt.erase = (parse first).1.stmts.map Stmt.erase ++
        blank.map Stmt.erase ++ (parse second).1.stmts.map Stmt.erase := by
  have words : (tokensOf (first ++ "\n;\n" ++ second)).map (·.token) =
      (tokensOf first).map (·.token) ++ .sign .semicolon :: (tokensOf second).map (·.token) := by
    rw [map_token_tokensOf, map_token_tokensOf, map_token_tokensOf, String.toList_append,
      String.toList_append, Token.sequence_join (isProper_of_parse clean₁)]
  exact Parser.parseTokens_join _ _ _ token_ne_endOfFile token_ne_endOfFile words clean₁ clean₂

theorem parseProgram_eq_ok_iff {source : String} {program : Program Unit} :
    parseProgram source = .ok program ↔ (parse source).2 = [] ∧
      program.stmts = (parse source).1.stmts.map Stmt.erase := by
  have erased (read : Program Span) : read.erase.stmts = read.stmts.map Stmt.erase :=
    Stmt.mapList_eq _ _
  unfold parseProgram
  obtain ⟨read, errors⟩ := parse source
  cases errors with
  | nil =>
    constructor
    · rintro ⟨⟩
      exact ⟨rfl, erased read⟩
    · rintro ⟨_, same⟩
      rw [← erased read] at same
      cases program
      exact congrArg Except.ok (congrArg Program.mk same.symm)
  | cons e es => exact ⟨nofun, nofun⟩

end Sources

namespace Evaluation

variable {p : Parts}

/-- Statements are evaluated in two parts, the second one with the value of the first. -/
theorem statements_append (v : Value) (ss ts : List (Stmt Unit)) :
    statements p v (ss ++ ts) = statements p v ss >>= fun w => statements p w ts := by
  induction ss generalizing v with
  | nil => rfl
  | cons s ss ih =>
    rw [List.cons_append, statements, statements]
    split
    · exact ih v
    · rw [Attempt.bind_assoc]
      simp only [ih]

/-- Empty statements are passed over. -/
theorem statements_of_isEmpty (v : Value) {ss : List (Stmt Unit)} (empty : ∀ s ∈ ss, s.isEmpty) :
    statements p v ss = pure v := by
  induction ss with
  | nil => rfl
  | cons s ss ih =>
    rw [statements, if_pos (empty s List.mem_cons_self)]
    exact ih fun t member => empty t (List.mem_cons_of_mem _ member)

/-- The value before the first statement counts only where all statements are empty. -/
theorem statements_of_not_isEmpty (v w : Value) {ss : List (Stmt Unit)}
    (some : ∃ s ∈ ss, s.isEmpty = false) : statements p v ss = statements p w ss := by
  induction ss with
  | nil =>
    obtain ⟨s, member, _⟩ := some
    cases member
  | cons s ss ih =>
    rw [statements, statements]
    split
    · rename_i empty
      apply ih
      obtain ⟨t, member, full⟩ := some
      rcases List.mem_cons.mp member with rfl | member
      · rw [empty] at full
        cases full
      · exact ⟨t, member, full⟩
    · rfl

end Evaluation

namespace Machine

variable {m m₁ : Machine} {v : Value} {ss ts blank : List (Stmt Unit)}

/-- After statements that gave a value, others are evaluated from where those have come to. -/
theorem statements_join (completed : m.evalStatements ss = some (.value v, m₁))
    (empty : ∀ s ∈ blank, s.isEmpty) :
    Evaluation.statements (Evaluation.parts fuel) .null (ss ++ blank ++ ts) m =
      Evaluation.statements (Evaluation.parts fuel) v ts m₁ := by
  have ran : Evaluation.statements (Evaluation.parts fuel) .null ss m = .done v m₁ := by
    rcases complete_cases completed with ⟨w, same, ran⟩ | ⟨stop, same, _⟩
    · cases same
      exact ran
    · cases stop <;> cases same
  rw [List.append_assoc, Evaluation.statements_append, Attempt.bind_run, ran]
  dsimp only
  rw [Evaluation.statements_append, Evaluation.statements_of_isEmpty v empty]
  rfl

theorem evalProgram_join (completed : m.evalStatements ss = some (.value v, m₁))
    (empty : ∀ s ∈ blank, s.isEmpty) :
    (m.evalProgram ⟨ss ++ blank ++ ts⟩).map Prod.snd = (m₁.evalProgram ⟨ts⟩).map Prod.snd ∧
      ((∃ s ∈ ts, s.isEmpty = false) →
        m.evalProgram ⟨ss ++ blank ++ ts⟩ = m₁.evalProgram ⟨ts⟩) := by
  have joined : Evaluation.statements (Evaluation.parts fuel) .null (ss ++ blank ++ ts) m =
      Evaluation.statements (Evaluation.parts fuel) v ts m₁ := statements_join completed empty
  have same (some : ∃ s ∈ ts, s.isEmpty = false) :
      m.evalProgram ⟨ss ++ blank ++ ts⟩ = m₁.evalProgram ⟨ts⟩ := by
    unfold evalProgram evalStatements complete
    rw [joined, Evaluation.statements_of_not_isEmpty v .null some]
  refine ⟨?_, same⟩
  by_cases some : ∃ s ∈ ts, s.isEmpty = false
  · rw [same some]
  · have none : ∀ s ∈ ts, s.isEmpty := by simpa using some
    unfold evalProgram evalStatements complete
    rw [joined, Evaluation.statements_of_isEmpty _ none, Evaluation.statements_of_isEmpty _ none]
    rfl

/-- Two sources that are read without an error are read without one when they are joined by a
semicolon on a line of its own, as the statements of the first, at most empty ones, and those of the
second. If the first program gives a value on a machine, then running the joined one leaves the
machine that running the second one after the first leaves, with all that was printed, the frames
and the heap. Its result is that of the second one, unless this has only empty statements. -/
theorem running_joined_is_running_in_pieces (first second : String) (p q : Program Unit)
    (parsed₁ : parseProgram first = .ok p) (parsed₂ : parseProgram second = .ok q) :
    ∃ (joined : Program Unit) (blank : List (Stmt Unit)),
      parseProgram (first ++ "\n;\n" ++ second) = .ok joined ∧
      (∀ s ∈ blank, s.isEmpty) ∧ joined.stmts = p.stmts ++ blank ++ q.stmts ∧
      ∀ (m m₁ : Machine) (v : Value), m.evalStatements p.stmts = some (.value v, m₁) →
        m.evalProgram p = some (v, m₁) ∧
        (m.evalProgram joined).map Prod.snd = (m₁.evalProgram q).map Prod.snd ∧
        ((∃ s ∈ q.stmts, s.isEmpty = false) → m.evalProgram joined = m₁.evalProgram q) := by
  obtain ⟨clean₁, stmts₁⟩ := parseProgram_eq_ok_iff.mp parsed₁
  obtain ⟨clean₂, stmts₂⟩ := parseProgram_eq_ok_iff.mp parsed₂
  obtain ⟨stmts, blank, read, empty, erased⟩ := parse_join clean₁ clean₂
  have empty' : ∀ s ∈ blank.map Stmt.erase, s.isEmpty := by
    intro s member
    obtain ⟨a, inside, rfl⟩ := List.mem_map.mp member
    rw [Stmt.isEmpty_erase]
    exact empty a inside
  refine ⟨⟨p.stmts ++ blank.map Stmt.erase ++ q.stmts⟩, blank.map Stmt.erase, ?_, empty', rfl, ?_⟩
  · rw [parseProgram_eq_ok_iff, read]
    exact ⟨rfl, by rw [erased, stmts₁, stmts₂]⟩
  · intro m m₁ v completed
    refine ⟨?_, evalProgram_join completed empty'⟩
    unfold evalProgram
    rw [completed]
    rfl

/-- A comment ends the first source, and the second one uses what the first one binds. -/
theorem running_joined_is_running_in_pieces_after_comment :
    let m := new fun _ => ""
    ∃ p q joined m₁ m₂, parseProgram "let x = 2 // two" = .ok p ∧ parseProgram "x * 21" = .ok q ∧
      parseProgram ("let x = 2 // two" ++ "\n;\n" ++ "x * 21") = .ok joined ∧
      m.evalProgram p = some (.integer 2, m₁) ∧ m₁.evalProgram q = some (.integer 42, m₂) ∧
      m.evalProgram joined = some (.integer 42, m₂) := by
  intro m
  let name : Expr Unit := .identifier () ⟨"x", ()⟩
  let p : Program Unit := ⟨[.letBinding () ⟨"x", ()⟩ (.literal () (.integer 2))]⟩
  let q : Program Unit := ⟨[.expression () (.binary () .multiply name (.literal () (.integer 21)))]⟩
  have parsed₁ : parseProgram "let x = 2 // two" = .ok p := by cbv
  have parsed₂ : parseProgram "x * 21" = .ok q := by cbv
  obtain ⟨m₁, m₂, completed, ended⟩ : ∃ m₁ m₂,
      m.evalStatements p.stmts = some (.value (.integer 2), m₁) ∧
      m₁.evalProgram q = some (.integer 42, m₂) := ⟨_, _, rfl, rfl⟩
  obtain ⟨joined, _, parsed, _, _, runs⟩ :=
    running_joined_is_running_in_pieces _ _ p q parsed₁ parsed₂
  obtain ⟨alone, _, same⟩ := runs m m₁ _ completed
  exact ⟨p, q, joined, m₁, m₂, parsed₁, parsed₂, parsed, alone, ended,
    (same ⟨_, List.mem_cons_self, rfl⟩).trans ended⟩

end Machine

end Scripting
