import Scripting.Proofs.FollowedParsing
import Scripting.Proofs.Reading

/-!
# Parsers build trees in their tokens

Every construct takes up the tokens of one of the forms: one lemma for each, over parts that do. A
row of statements takes up all tokens up to the one that ends it; where a statement fails, its
tokens are passed over and an error stays behind. `takes_parts` ties the knot by induction on fuel.
-/

namespace Scripting.Parser

open Parsed

/-- Expressions and blocks are taken up whole. -/
structure PartsTake (p : Parts) : Prop where
  expression : ∀ level s, Meets (p.expression level) s fun e t => Took s [.expr e] t
  block : ∀ s, s.current.token = .sign .leftBrace → Meets p.block s fun b t => Took s [.block b] t

/-- A word of the language is not the end of the tokens. -/
theorem inside_of {t word : Token} (here : t = word) (proper : word.isProper) :
    t ≠ .endOfFile := by
  rintro rfl
  rw [← here] at proper
  cases proper

/-- The nodes of the pairs of a hash. -/
abbrev pairNodes (ps : List (Expr Span × Expr Span)) : List Parsed.Node :=
  ps.flatMap fun p => [.expr p.1, .expr p.2]

section Constructs

variable {p : Parts} {n : Nat} {s s₀ : State} (parts : PartsTake p)

include parts

theorem meets_listRest {items inner : List Item} {read : List (Expr Span)}
    (took : Took s₀ (items ++ inner) s) (strung : Strung isComma (read.reverse.map .expr) inner) :
    Meets (listRest p n read) s fun es t =>
      ∃ inner, Took s₀ (items ++ inner) t ∧ Strung isComma (es.map .expr) inner := by
  induction n generalizing s inner read with
  | zero => exact .outOfFuel
  | succ n ih =>
    rw [listRest]
    refine .peekIs (fun comma => .bump (.bump ?_)) fun _ => .pure ⟨inner, took, strung⟩
    refine (parts.expression _ _).bind fun e t more => ?_
    have longer : Took s₀ (items ++ (inner ++ [.token s.bump.current, .expr e])) t := by
      simpa using (took.token (inside_of comma rfl)).next more
    refine ih longer ?_
    rw [List.reverse_cons, List.map_append]
    exact strung.append (.token comma (.node .nil))

/-- A list is taken up from the opening sign through the closing one. -/
theorem meets_listUntil {close : Sign} (inside : s.current.token ≠ .endOfFile) :
    Meets (listUntil p n close) s fun es t =>
      ∃ inner, Took s (.token s.current :: (inner ++ [.token t.current])) t ∧
        Strung isComma (es.map .expr) inner ∧ t.current.token = .sign close := by
  unfold listUntil
  refine .peekIs (fun closing => .bump (.pure ?_)) fun _ => .bump ?_
  · exact ⟨[], (Took.here inside).token (inside_of closing rfl), .nil, closing⟩
  · refine (parts.expression _ _).bind fun e t took => ?_
    refine (meets_listRest parts ((Took.here inside).next took) (.node .nil)).bind
      fun es u ⟨inner, more, strung⟩ => .expectPeek fun closing => .pure ?_
    exact ⟨inner, more.token (inside_of closing rfl), strung, closing⟩

theorem meets_pairsRest {items inner : List Item} {read : List (Expr Span × Expr Span)}
    (took : Took s₀ (items ++ inner) s)
    (strung : Strung isPairMark (pairNodes read.reverse) inner) :
    Meets (pairsRest p n read) s fun ps t =>
      ∃ inner, Took s₀ (items ++ (inner ++ [.token t.current])) t ∧
        Strung isPairMark (pairNodes ps) inner ∧ t.current.token = .sign .rightBrace := by
  induction n generalizing s inner read with
  | zero => exact .outOfFuel
  | succ n ih =>
    rw [pairsRest]
    refine .bump ((parts.expression _ _).bind fun k t key => .expectPeek fun colon => .bump ?_)
    refine (parts.expression _ _).bind fun v u value => ?_
    have longer := ((took.next key).token (inside_of colon rfl)).next value
    have pair : Strung isPairMark (pairNodes ((k, v) :: read).reverse)
        (inner ++ [.expr k, .token t.bump.current, .expr v]) := by
      rw [List.reverse_cons, pairNodes, List.flatMap_append]
      exact strung.append (.node (.token (.inr colon) (.node .nil)))
    refine .peekIs (fun comma => .bump ?_) fun _ => .expectPeek fun closing => .pure ?_
    · have further : Took s₀ (items ++ (inner ++ [.expr k, .token t.bump.current, .expr v] ++
          [.token u.bump.current])) u.bump := by
        simpa using longer.token (inside_of comma rfl)
      refine ih further ?_
      simpa using pair.append (.token (.inl comma) .nil)
    · refine ⟨_, ?_, pair, closing⟩
      simpa using longer.token (inside_of closing rfl)

theorem meets_pairs (inside : s.current.token ≠ .endOfFile) :
    Meets (pairs p n) s fun ps t =>
      ∃ inner, Took s (.token s.current :: (inner ++ [.token t.current])) t ∧
        Strung isPairMark (pairNodes ps) inner ∧ t.current.token = .sign .rightBrace := by
  unfold pairs
  refine .peekIs (fun closing => .bump (.pure ?_)) fun _ => ?_
  · exact ⟨[], (Took.here inside).token (inside_of closing rfl), .nil, closing⟩
  · have opening : Took s ([.token s.current] ++ []) s := .here inside
    exact meets_pairsRest parts opening .nil

omit parts in
/-- A name that follows is taken up as a node. -/
theorem took_name {name : String} (here : s.current.token = .identifier name) :
    Took s [.name ⟨name, s.current.span⟩] s :=
  (Took.here (inside_of here rfl)).form (.name here)

omit parts in
theorem meets_parametersRest {items inner : List Item} {read : List (Identifier Span)}
    (took : Took s₀ (items ++ inner) s) (strung : Strung isComma (read.reverse.map .name) inner) :
    Meets (parametersRest n read) s fun ps t =>
      ∃ inner, Took s₀ (items ++ inner) t ∧ Strung isComma (ps.map .name) inner := by
  induction n generalizing s inner read with
  | zero => exact .outOfFuel
  | succ n ih =>
    rw [parametersRest]
    refine .peekIs (fun comma => .bump (.nameAfter fun name here => ?_)) fun _ =>
      .pure ⟨inner, took, strung⟩
    have longer : Took s₀ (items ++ (inner ++
        [.token s.bump.current, .name ⟨name, s.bump.bump.current.span⟩])) s.bump.bump := by
      simpa using (took.token (inside_of comma rfl)).next (took_name here)
    refine ih longer ?_
    rw [List.reverse_cons, List.map_append]
    exact strung.append (.token comma (.node .nil))

omit parts in
/-- Parameters are taken up from the opening parenthesis through the closing one. -/
theorem meets_parameters (inside : s.current.token ≠ .endOfFile) :
    Meets (parameters n) s fun ps t =>
      ∃ inner, Took s (.token s.current :: (inner ++ [.token t.current])) t ∧
        Strung isComma (ps.map .name) inner ∧ t.current.token = .sign .rightParen := by
  unfold parameters
  refine .peekIs (fun closing => .bump (.pure ?_)) fun _ => .nameAfter fun name here => ?_
  · exact ⟨[], (Took.here inside).token (inside_of closing rfl), .nil, closing⟩
  · refine (meets_parametersRest ((Took.here inside).next (took_name here)) (.node .nil)).bind
      fun ps t ⟨inner, took, strung⟩ => .expectPeek fun closing => .pure ?_
    exact ⟨inner, took.token (inside_of closing rfl), strung, closing⟩

theorem meets_function (word : s.current.token = .keyword .functionWord) :
    Meets (function p n) s fun e t => Took s [.expr e] t := by
  unfold function
  refine .current (.expectPeek fun opening => ?_)
  refine (meets_parameters (inside_of opening rfl)).bind fun ps t ⟨inner, took, strung, closing⟩ =>
    .expectPeek fun brace => ?_
  refine (parts.block _ brace).bind fun b u body => .spanFrom (.pure ?_)
  have whole : Took s (.token s.current :: .token s.bump.current ::
      (inner ++ [.token t.current, .block b])) u := by
    simpa using ((Took.here (inside_of word rfl)).next took).next body
  exact (whole.form (.parameters word opening strung closing)).form .function

/-- A condition is taken up with its parentheses. -/
theorem meets_condition : Meets (condition p) s fun c t => Took s.bump [.expr c] t := by
  unfold condition
  refine .expectPeek fun _ => (parts.expression _ _).bind fun c t took => ?_
  exact .expectCurrent fun _ => .pure took

theorem meets_conditional (word : s.current.token = .keyword .ifWord) :
    Meets (conditional p) s fun e t => Took s [.expr e] t := by
  unfold conditional
  refine .current ((meets_condition parts).bind fun c t condition => .expectPeek fun brace => ?_)
  refine (parts.block _ brace).bind fun yes u body => .peek ?_
  have took := ((Took.here (inside_of word rfl)).next condition).next body
  split
  · rename_i other
    refine .bump (.expectPeek fun brace => (parts.block _ brace).bind fun no v body => ?_)
    refine .spanFrom (.pure ?_)
    exact ((took.token (inside_of other rfl)).next body).form (.alternative word other)
  · exact .spanFrom (.pure (took.form (.conditional word)))

theorem meets_whileLoop (word : s.current.token = .keyword .whileWord) :
    Meets (whileLoop p) s fun e t => Took s [.expr e] t := by
  unfold whileLoop
  refine .current ((meets_condition parts).bind fun c t condition => .expectPeek fun brace => ?_)
  refine (parts.block _ brace).bind fun b u body => .spanFrom (.pure ?_)
  exact (((Took.here (inside_of word rfl)).next condition).next body).form (.whileLoop word)

theorem meets_binding : Meets (binding p) s fun b t =>
    ∃ sign : SpannedToken, sign.token = .sign .equals ∧
      Took s.bump [.name b.1, .token sign, .expr b.2] t := by
  unfold binding
  refine .nameAfter fun name here => .expectPeek fun sign => .bump ?_
  refine (parts.expression _ _).bind fun v t value => .pure ?_
  exact ⟨_, sign, ((took_name here).token (inside_of sign rfl)).next value⟩

theorem meets_letStatement (word : s.current.token = .keyword .letWord) :
    Meets (do let (name, value) ← binding p
              return Stmt.letBinding (← spanFrom s.current.span) name value) s
      fun a t => Took s [.stmt a] t ∧ a.isClause := by
  refine (meets_binding parts).bind fun b t ⟨sign, equals, took⟩ => .spanFrom (.pure ?_)
  exact ⟨((Took.here (inside_of word rfl)).next took).form (.letBinding word equals), rfl⟩

theorem meets_expressionStatement :
    Meets (do let e ← p.expression .lowest
              return Stmt.expression (← spanFrom s.current.span) e) s
      fun a t => Took s [.stmt a] t ∧ a.isClause :=
  (parts.expression _ _).bind fun _ _ took => .spanFrom (.pure ⟨took.form .expression, rfl⟩)

/-- The first clause of a loop is taken up with the semicolon behind it. -/
theorem meets_firstClause : Meets (firstClause p) s fun i t =>
    Took s (i.toList.map .stmt ++ [.token t.current]) t ∧
      t.current.token = .sign .semicolon ∧ ∀ a ∈ i, a.isClause := by
  unfold firstClause
  refine .currentIs (fun semicolon => .pure ⟨.here (inside_of semicolon rfl), semicolon, nofun⟩)
    fun _ => .current ?_
  have last {x : Parse (Stmt Span)}
      (meets : Meets x s fun a t => Took s [.stmt a] t ∧ a.isClause) :
      Meets (x >>= fun a => expectPeek .semicolon >>= fun _ => pure (some a)) s fun i t =>
        Took s (i.toList.map .stmt ++ [.token t.current]) t ∧
          t.current.token = .sign .semicolon ∧ ∀ a ∈ i, a.isClause :=
    meets.bind fun a t ⟨took, clause⟩ => .expectPeek fun semicolon => .pure
      ⟨took.token (inside_of semicolon rfl), semicolon, by simpa using clause⟩
  split
  · exact last (meets_letStatement parts ‹_›)
  · exact last (meets_expressionStatement parts)

/-- Another clause is taken up with the sign behind it. -/
theorem meets_clause {close : Sign} : Meets (clause p close) s fun c t =>
    Took s.bump (c.toList.map .expr ++ [.token t.current]) t ∧ t.current.token = .sign close := by
  unfold clause
  refine .bump (.currentIs (fun closing => .pure ⟨.here (inside_of closing rfl), closing⟩) ?_)
  refine fun _ => (parts.expression _ _).bind fun c t took => .expectPeek fun closing => .pure ?_
  exact ⟨took.token (inside_of closing rfl), closing⟩

theorem meets_forLoop (word : s.current.token = .keyword .forWord) :
    Meets (forLoop p) s fun e t => Took s [.expr e] t := by
  unfold forLoop
  have first := Took.here (inside_of word rfl)
  refine .current (.peekIs (fun brace => .bump ?_) fun _ => .expectPeek fun opening => .bump ?_)
  · refine (parts.block _ brace).bind fun b t body => .spanFrom (.pure ?_)
    exact (first.next body).form (.endless word)
  · refine (meets_firstClause parts).bind fun i t ⟨init, semicolon₁, clause⟩ => ?_
    refine (meets_clause parts).bind fun c u ⟨condition, semicolon₂⟩ => ?_
    refine (meets_clause parts).bind fun d v ⟨update, closing⟩ => .expectPeek fun brace => ?_
    refine (parts.block _ brace).bind fun b w body => .spanFrom (.pure ?_)
    have whole := ((((first.token (inside_of opening rfl)).next init).next condition).next
      update).next body
    refine Took.form ?_ (.forLoop word opening semicolon₁ semicolon₂ closing clause)
    simpa using whole

/-- An expression in parentheses is taken up with them. -/
theorem meets_grouping (opening : s.current.token = .sign .leftParen) :
    Meets (grouping p) s fun e t => Took s [.expr e] t := by
  unfold grouping
  refine .bump ((parts.expression _ _).bind fun e t took => .expectPeek fun closing => .pure ?_)
  exact took.grouped opening closing

theorem meets_prefixed : Meets (prefixed p) s fun e t => Took s [.expr e] t := by
  unfold prefixed
  refine .current ?_
  split
  · rename_i op sign
    have inside : s.current.token ≠ .endOfFile := by
      intro ended
      rw [ended] at sign
      cases sign
    refine .bump ((parts.expression _ _).bind fun e t took => .spanFrom (.pure ?_))
    exact ((Took.here inside).next took).form (.unary sign)
  · exact .failAt

theorem meets_operand : Meets (operand p n) s fun e t => Took s [.expr e] t := by
  unfold operand
  refine .current ?_
  -- A token that is an expression by itself ends where it starts.
  have atom {e : Expr Span} {word : Token} (here : s.current.token = word) (proper : word.isProper)
      (found : atom? s.current = some e) : Meets (pure e) s fun e t => Took s [.expr e] t :=
    .pure ((Took.here (inside_of here proper)).form (.atom found))
  split
  case h_2 digits here | h_3 digits here =>
    split
    · exact atom here rfl (by simp only [atom?, Option.map_some, *])
    · exact .failAt
  case h_4 | h_5 | h_6 | h_7 | h_8 | h_9 =>
    rename_i here
    exact atom here rfl (by simp only [atom?, here])
  · rename_i name here
    exact .pure ((took_name here).form (.identifier here))
  · exact meets_grouping parts ‹_›
  · rename_i here
    refine (meets_listUntil parts (inside_of here rfl)).bind
      fun es t ⟨inner, took, strung, closing⟩ => .spanFrom (.pure ?_)
    exact took.form (.array here strung closing)
  · rename_i here
    refine (meets_pairs parts (inside_of here rfl)).bind
      fun ps t ⟨inner, took, strung, closing⟩ => .spanFrom (.pure ?_)
    exact took.form (.hash here strung closing)
  · exact meets_function parts ‹_›
  · exact meets_conditional parts ‹_›
  · exact meets_whileLoop parts ‹_›
  · exact meets_forLoop parts ‹_›
  · rename_i here
    refine .bump ((parts.expression _ _).bind fun e t took => .spanFrom (.pure ?_))
    exact ((Took.here (inside_of here rfl)).next took).form (.typeof here)
  · exact meets_prefixed parts

/-- A slice goes on from its lower bound, which may have taken up the bracket in front. -/
theorem meets_slice {low : Expr Span} {opened : List Sign}
    (took : Took s₀ [.node (.expr low) opened] s) (colon : s.bump.current.token = .sign .colon) :
    Meets (slice p low) s.bump fun e t => Took s₀ [.node (.expr e) opened] t := by
  unfold slice
  have bound := took.token (inside_of colon rfl)
  refine .peekIs (fun _ => .spanFrom (.pure (bound.form (.slice colon)))) fun _ => .bump ?_
  refine (parts.expression _ _).bind fun high t more => .spanFrom (.pure ?_)
  exact (bound.next more).form (.slice colon)

/-- A method is taken up from the token after the dot. -/
theorem meets_methodCall : Meets (methodCall p n) s fun e t =>
    Took s.bump [.expr e] t ∧ e.isMember := by
  unfold methodCall
  refine .nameAfter fun name here => ?_
  have callee := (took_name here).form (.identifier here)
  refine .peekIs (fun opening => .bump ?_) fun _ => .pure ⟨callee, rfl⟩
  refine (meets_listUntil parts (inside_of opening rfl)).bind
    fun es t ⟨inner, took, strung, closing⟩ => .spanFrom (.pure ?_)
  exact ⟨(callee.next took).form (.call (c := .identifier _ _) opening strung closing), rfl⟩

/-- A key is taken up behind the opening bracket, or with it if it is a slice from the start. -/
theorem meets_key (opening : s.current.token = .sign .leftBracket) :
    Meets (key p) s fun k t => Took s [.token s.current, .expr k] t ∨
      Took s [.node (.expr k) [.leftBracket]] t := by
  unfold key
  have bracket := Took.here (inside_of opening rfl)
  refine .peekIs (fun colon => .current (.bump ?_)) fun _ => .bump ?_
  · refine (meets_slice parts (bracket.form (.fromStart opening)) colon).mono fun k t took => ?_
    exact .inr took
  · refine (parts.expression _ _).mono fun k t took => ?_
    exact .inl (bracket.next took)

omit parts in
/-- No continuation starts at the end of the tokens. -/
theorem inside_of_continuation {t : Token} {c : Continuation}
    (starts : Continuation.ofToken? t = some c) : t ≠ .endOfFile := by
  rintro rfl
  cases starts

omit parts in
/-- The signs that start a call, a method, an index and a slice. -/
theorem sign_of_continuation {t : Token} {c : Continuation}
    (starts : Continuation.ofToken? t = some c) :
    (c = .call → t = .sign .leftParen) ∧ (c = .method → t = .sign .dot) ∧
      (c = .index → t = .sign .leftBracket) ∧ (c = .slice → t = .sign .colon) := by
  unfold Continuation.ofToken? at starts
  split at starts <;> cases starts <;> simp

theorem meets_continuation {left : Expr Span} {c : Continuation} (took : Took s₀ [.expr left] s)
    (starts : Continuation.ofToken? s.bump.current.token = some c) :
    Meets (continuation p n c left) s.bump fun e t => Took s₀ [.expr e] t := by
  unfold continuation
  have inside := inside_of_continuation starts
  obtain ⟨call, method, index, colon⟩ := sign_of_continuation starts
  cases c with
  | operate op =>
    refine .bump ((parts.expression _ _).bind fun e t right => .spanFrom (.pure ?_))
    exact ((took.token inside).next right).form (.binary starts)
  | step op => exact .spanFrom (.pure ((took.token inside).form (.step starts)))
  | assign op =>
    refine .current (.bump ((parts.expression _ _).bind fun e t value => ?_))
    split
    · exact .spanFrom (.pure (((took.token inside).next value).form (.assign starts ‹_›)))
    · exact .failAt
  | call =>
    refine (meets_listUntil parts inside).bind
      fun es t ⟨inner, more, strung, closing⟩ => .spanFrom (.pure ?_)
    exact (took.next more).form (.call (call rfl) strung closing)
  | method =>
    refine (meets_methodCall parts).bind fun e t ⟨more, member⟩ => .spanFrom (.pure ?_)
    exact ((took.token inside).next more).form (.method (method rfl) member)
  | index =>
    refine (meets_key parts (index rfl)).bind fun k t more => .expectPeek fun closing =>
      .spanFrom (.pure ?_)
    rcases more with more | more
    · exact ((took.next more).token (inside_of closing rfl)).form (.index (index rfl) closing)
    · exact ((took.next more).token (inside_of closing rfl)).form (.indexFromStart closing)
  | slice => exact meets_slice parts took (colon rfl)

theorem meets_climb {size : Nat} {level : Precedence} {left : Expr Span}
    (took : Took s₀ [.expr left] s) :
    Meets (climb p size level n left) s fun e t => Took s₀ [.expr e] t := by
  induction n generalizing s left with
  | zero => exact .outOfFuel
  | succ n ih =>
    rw [climb]
    refine .peek ?_
    split
    · rename_i c starts
      split
      · refine .bump ((meets_continuation parts took starts).bind fun e t grown => ?_)
        exact ih grown
      · exact .pure took
    · exact .pure took

/-- A return is taken up with its value, or with the semicolon that follows where there is none. -/
theorem meets_returned (inside : s.current.token ≠ .endOfFile) :
    Meets (returned p) s fun v t => Took s (.token s.current :: v.toList.map .expr) t ∨
      v = none ∧ t.current.token = .sign .semicolon ∧
        Took s [.token s.current, .token t.current] t := by
  unfold returned
  have first := Took.here inside
  refine .peek ?_
  split
  · rename_i semicolon
    exact .bump (.pure (.inr ⟨rfl, semicolon, first.token (inside_of semicolon rfl)⟩))
  · exact .pure (.inl first)
  · exact .pure (.inl first)
  · refine .bump ((parts.expression _ _).bind fun e t took => .pure ?_)
    exact .inl (first.next took)

theorem meets_statement : Meets (statement p) s fun a t => Took s [.stmt a] t := by
  unfold statement
  refine .current ?_
  split
  · exact (meets_letStatement parts ‹_›).mono fun _ _ => And.left
  · rename_i word
    refine .bump ((parts.expression _ _).bind fun e t took => .spanFrom (.pure ?_))
    exact ((Took.here (inside_of word rfl)).next took).form (.deletion word)
  · rename_i word
    refine (meets_returned parts (inside_of word rfl)).bind fun v t took => .spanFrom (.pure ?_)
    rcases took with took | ⟨rfl, semicolon, took⟩
    · exact took.form (.returning word)
    · exact took.form (.returningNothing word semicolon)
  · exact (meets_expressionStatement parts).mono fun _ _ => And.left

end Constructs

/-- From the first place on, statements were read up to the second one. Those that failed left
tokens among the others, and every statement and every error has a token for itself. -/
structure ReadRow (s : State) (new : List (Stmt Span)) (t : State) : Prop where
  suffix : t.tokens <:+ s.tokens
  passed : ∃ items, Passed s items t ∧
    Strung (fun _ => t.errors.size ≠ s.errors.size) (new.map .stmt) items
  load : new.length + t.errors.size + t.tokens.length ≤ s.errors.size + s.tokens.length

namespace ReadRow

variable {s t u : State} {a : Stmt Span} {new : List (Stmt Span)}

theorem refl (s : State) : ReadRow s [] s where
  suffix := List.suffix_refl _
  passed := ⟨[], ⟨Nat.le_refl _, [], rfl, .nil⟩, .nil⟩
  load := by simp

/-- A statement was read, and then others. -/
theorem cons (inside : s.current.token ≠ .endOfFile) (onward : Onward s u)
    (took : Took s [.stmt a] u) (row : ReadRow u.bump new t) : ReadRow s (a :: new) t where
  suffix := (row.suffix.trans (List.tail_suffix _)).trans onward.suffix
  passed := by
    obtain ⟨items, passed, strung⟩ := row.passed
    have grown := passed.1
    have before := onward.errors
    rw [State.errors_bump] at grown strung
    refine ⟨_, took.passed.trans passed, .node (strung.mono fun _ more => ?_)⟩
    omega
  load := by
    obtain ⟨rest, here⟩ := State.exists_cons inside
    have load := row.load
    have paid := onward.load
    simp only [State.bump, List.length_tail] at load
    -- The token where the statement starts pays for it; errors inside are paid for behind that one.
    rw [here, List.length_cons] at paid ⊢
    rw [List.length_cons]
    omega

/-- A statement failed, and then others were read. -/
theorem failed {e : SyntaxError} (inside : s.current.token ≠ .endOfFile) (onward : Onward s u)
    (row : ReadRow ⟨u.tokens.tail, u.finish, u.errors.push e⟩ new t) : ReadRow s new t where
  suffix := (row.suffix.trans (List.tail_suffix _)).trans onward.suffix
  passed := by
    obtain ⟨items, passed, strung⟩ := row.passed
    obtain ⟨skipped, here⟩ := (List.tail_suffix u.tokens).trans onward.suffix
    have grown := passed.1
    have before := onward.errors
    rw [Array.size_push] at grown
    have dropped : Passed s (skipped.map .token) ⟨u.tokens.tail, u.finish, u.errors.push e⟩ :=
      ⟨by rw [Array.size_push]; omega, skipped, here.symm, .of_tokens _⟩
    refine ⟨_, dropped.trans passed, .append (.of_tokens fun _ _ => ?_) (strung.mono fun _ _ => ?_)⟩
    all_goals omega
  load := by
    obtain ⟨rest, here⟩ := State.exists_cons inside
    have load := row.load
    have paid := onward.load
    simp only [Array.size_push, List.length_tail] at load
    -- Here the same token pays for the error.
    rw [here, List.length_cons] at paid ⊢
    omega

/-- The token in front of the row pays for an error behind it. -/
theorem onward (row : ReadRow s.bump new t) : Onward s t where
  suffix := row.suffix.trans (List.tail_suffix _)
  errors := row.passed.elim fun _ found => found.1.1
  load := by
    have load := row.load
    simp only [State.bump, List.length_tail] at load
    omega

end ReadRow

section Statements

variable {p : Parts} {n : Nat} {s : State}

/-- Statements are read up to a token that ends them, unless fuel runs out. -/
theorem statements_readRow (parts : PartsTake p) (ends : Token → Bool) (stops : ends .endOfFile)
    (read : List (Stmt Span)) : statements p ends n read s = .exhausted ∨
      ∃ new t, statements p ends n read s = .done (read.reverse ++ new) t ∧ ReadRow s new t ∧
        ends t.current.token := by
  induction n generalizing s read with
  | zero => exact .inl rfl
  | succ n ih =>
    by_cases stop : ends s.current.token
    · exact .inr ⟨[], s, by rw [statements_stop stop, List.append_nil], .refl s, stop⟩
    have further : ends s.current.token = false := Bool.eq_false_iff.mpr stop
    have inside : s.current.token ≠ .endOfFile := fun ended => stop (ended ▸ stops)
    have meets := meets_statement (s := s) parts
    unfold Meets at meets
    cases run : statement p s with
    | exhausted =>
      have captured : (statement p).capture s = .exhausted := by rw [Attempt.capture, run]
      left
      rw [statements, bind_done (current_at s), if_neg stop, Attempt.bind_run, captured]
    | done a u =>
      rw [run] at meets
      rw [statements_step further run]
      refine (ih (a :: read)).imp_right ?_
      rintro ⟨new, t, ran, row, ended⟩
      exact ⟨a :: new, t, by rw [ran]; simp, .cons inside meets.1 meets.2 row, ended⟩
    | failed e u =>
      rw [run] at meets
      rw [statements_failed further run]
      refine (ih read).imp_right ?_
      rintro ⟨new, t, ran, row, ended⟩
      exact ⟨new, t, ran, .failed inside meets row, ended⟩

theorem meets_braced (parts : PartsTake p) (opening : s.current.token = .sign .leftBrace) :
    Meets (braced p n) s fun b t => Took s [.block b] t := by
  unfold braced
  refine .current ?_
  rcases statements_readRow (n := n) (s := s.bump) parts endsBlock rfl [] with
    none | ⟨new, t, ran, row, _⟩
  · unfold Meets
    rw [bind_done (bump_at s), Attempt.bind_run, none]
    trivial
  · have same (f : List (Stmt Span) → Parse (Block Span)) :
        (bump >>= fun _ => statements p endsBlock n [] >>= f) s = f new t := by
      rw [bind_done (bump_at s), bind_done ran]
      rfl
    refine .from_earlier row.onward ?_ (same _)
    refine .expectCurrent fun closing => ?_
    refine .spanFrom (.pure ?_)
    obtain ⟨items, passed, strung⟩ := row.passed
    have first := (Took.here (inside_of opening rfl)).passed
    exact (Took.of_passed (first.trans passed) (.here (inside_of closing rfl))).form
      (.block opening strung closing)

/-- The parsers of expressions and blocks take up what they read, with any fuel. -/
theorem takes_parts (n : Nat) : PartsTake (partsAt n) := by
  induction n with
  | zero => exact ⟨fun _ _ => .outOfFuel, fun _ _ => .outOfFuel⟩
  | succ n ih =>
    refine ⟨fun level s => ?_, fun s opening => ?_⟩
    · show Meets (expression (n + 1) level) s _
      rw [expression, Attempt.deepen_eq]
      refine .current ?_
      split
      · rename_i semicolon
        refine .pure ((Took.here (inside_of semicolon rfl)).form (.atom ?_))
        simp only [atom?, semicolon]
      · exact (meets_operand ih).bind fun left t took => meets_climb ih took
    · show Meets (block (n + 1)) s _
      rw [block, Attempt.deepen_eq]
      exact meets_braced ih opening

end Statements

end Scripting.Parser
