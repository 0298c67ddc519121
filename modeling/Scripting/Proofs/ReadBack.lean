import Scripting.Proofs.Parsing
import Scripting.Proofs.PlainText

/-!
# Rendering is undone by parsing

The words of a plain expression are read as that expression, in every place that binds no tighter
than a prefix operator does. Which places there are is told apart by what has to follow: the words
of `ReadsAs` may be followed by anything and leave the parser ready to go on, those of
`ReadsInside` have to be followed by a token that ends an expression, as a closing parenthesis does.
-/

namespace Scripting

namespace Token

/-- The tokens that a plain expression may start with. -/
def opensOperand : Token → Bool
  | identifier _ | integer _ => true
  | keyword k => k = .trueWord || k = .falseWord || k = .nullWord
  | sign s => s = .leftParen || s = .leftBracket || s = .leftBrace
  | _ => false

theorem ne_sign_of_opensOperand {t : Token} {s : Sign} (opens : t.opensOperand)
    (other : (sign s).opensOperand = false) : t ≠ sign s := by
  rintro rfl
  rw [other] at opens
  cases opens

/-- Words in groups, with a comma before each of the groups. -/
def afterCommas (groups : List (List Token)) : List Token := groups.flatMap (sign .comma :: ·)

theorem afterCommas_cons (group : List Token) (groups : List (List Token)) :
    afterCommas (group :: groups) = sign .comma :: (group ++ afterCommas groups) := rfl

theorem commas_cons (group : List Token) (groups : List (List Token)) :
    commas (group :: groups) = group ++ afterCommas groups := by
  unfold commas afterCommas
  induction groups generalizing group with
  | nil => simp
  | cons other groups ih => simp [ih]

end Token

namespace Parser

variable {words words' : List Token} {tree : Expr Unit}

/-- The parser reads the tokens up to the last of them, whatever place the tokens end at and
whatever errors there were before, and gives the tree. -/
def Reads (p : Parse (Expr Span)) (tokens rest : List SpannedToken) (tree : Expr Unit) : Prop :=
  ∀ finish errors, ∃ e last, e.erase = tree ∧
    p ⟨tokens ++ rest, finish, errors⟩ = .done e ⟨last :: rest, finish, errors⟩

/-- The words are read as the tree and may then be carried on by whatever binds tighter than the
place they stand in. -/
structure ReadsAs (words : List Token) (tree : Expr Unit) : Prop where
  opening : ∃ t ts, words = t :: ts ∧ t.opensOperand
  reads : ∀ (fuel : Nat) (level : Precedence) (tokens rest : List SpannedToken) (finish : Position)
    (errors : Array SyntaxError), tokens.map (·.token) = words → words.length ≤ fuel →
    level.level ≤ Precedence.prefixed.level →
    ∃ e last left, e.erase = tree ∧ fuel < left + words.length ∧
      expression (fuel + 1) level ⟨tokens ++ rest, finish, errors⟩ =
        climb (partsAt fuel) fuel level left e ⟨last :: rest, finish, errors⟩

/-- The words are read as the tree where an expression has to end after them. -/
def ReadsInside (words : List Token) (tree : Expr Unit) : Prop :=
  ∀ (fuel : Nat) (tokens rest : List SpannedToken), tokens.map (·.token) = words →
    words.length < fuel → StopsAt .lowest rest →
    Reads ((partsAt fuel).expression .lowest) tokens rest tree

/-- The words are an operand, as long as what follows fits. -/
def OperandReads (fits : List SpannedToken → Prop) (words : List Token) (tree : Expr Unit) : Prop :=
  ∀ (fuel : Nat) (tokens rest : List SpannedToken), tokens.map (·.token) = words →
    words.length ≤ fuel → fits rest → Reads (operand (partsAt fuel) fuel) tokens rest tree

/-- The words carry a left operand on to a larger tree, as long as what follows fits. -/
def ContinuationReads (fits : List SpannedToken → Prop) (c : Continuation) (words : List Token)
    (build : Expr Unit → Expr Unit) : Prop :=
  ∀ (fuel : Nat) (left : Expr Span) (tokens rest : List SpannedToken),
    tokens.map (·.token) = words → words.length ≤ fuel → fits rest →
    Reads (continuation (partsAt fuel) fuel c left) tokens rest (build left.erase)

namespace ReadsAs

/-- Before a token that does not carry it on, an expression ends. -/
theorem whole (read : ReadsAs words tree) {fuel : Nat} {level : Precedence}
    {tokens rest : List SpannedToken} (same : tokens.map (·.token) = words)
    (fit : words.length < fuel) (low : level.level ≤ Precedence.prefixed.level)
    (stops : StopsAt level rest) : Reads ((partsAt fuel).expression level) tokens rest tree := by
  intro finish errors
  obtain ⟨fuel, rfl⟩ : ∃ n, fuel = n + 1 := ⟨fuel - 1, by omega⟩
  obtain ⟨e, last, left, erased, enough, run⟩ :=
    read.reads fuel level tokens rest finish errors same (by omega) low
  obtain ⟨left, rfl⟩ : ∃ n, left = n + 1 := ⟨left - 1, by omega⟩
  refine ⟨e, last, erased, ?_⟩
  rw [climb_stop stops] at run
  exact run

theorem inside (read : ReadsAs words tree) : ReadsInside words tree := by
  intro fuel tokens rest same fit stops
  exact read.whole same fit (Nat.zero_le _) stops

theorem of_operand {t : Token} {ts : List Token} (opens : t.opensOperand)
    (read : OperandReads (fun _ => True) (t :: ts) tree) : ReadsAs (t :: ts) tree where
  opening := ⟨t, ts, rfl, opens⟩
  reads := by
    intro fuel level tokens rest finish errors same fit low
    obtain ⟨e, last, erased, run⟩ := read fuel tokens rest same fit trivial finish errors
    obtain ⟨u, us, rfl, first, _⟩ := List.map_eq_cons_iff.mp same
    refine ⟨e, last, fuel, erased, by simp, ?_⟩
    exact expression_run (first ▸ Token.ne_sign_of_opensOperand opens rfl) run

/-- An expression with a continuation that binds tighter than a prefix operator. -/
theorem of_continuation {t : Token} {ts : List Token} {c : Continuation}
    {build : Expr Unit → Expr Unit} (read : ReadsAs words tree)
    (follows : Continuation.ofToken? t = some c)
    (binds : Precedence.prefixed.level < c.precedence.level)
    (grown : ContinuationReads (fun _ => True) c (t :: ts) build) :
    ReadsAs (words ++ t :: ts) (build tree) where
  opening := by
    obtain ⟨u, us, rfl, opens⟩ := read.opening
    exact ⟨u, us ++ t :: ts, rfl, opens⟩
  reads := by
    intro fuel level tokens rest finish errors same fit low
    obtain ⟨front, back, rfl, sameFront, sameBack⟩ := List.map_eq_append_iff.mp same
    rw [List.length_append, List.length_cons] at fit
    obtain ⟨e, last, left, erased, enough, run⟩ := read.reads fuel level front (back ++ rest) finish
      errors sameFront (by omega) low
    obtain ⟨left, rfl⟩ : ∃ n, left = n + 1 := ⟨left - 1, by omega⟩
    obtain ⟨e', last', erased', run'⟩ := grown fuel e back rest sameBack
      (by rw [List.length_cons]; omega) trivial finish errors
    obtain ⟨u, us, rfl, first, _⟩ := List.map_eq_cons_iff.mp sameBack
    refine ⟨e', last', left, by rw [erased', erased], ?_, ?_⟩
    · rw [List.length_append, List.length_cons]
      omega
    · rw [List.append_assoc, run]
      exact climb_step (first ▸ follows) (by omega) run'

end ReadsAs

namespace ReadsInside

theorem of_operand {t : Token} {ts : List Token} (noSemicolon : t ≠ .sign .semicolon)
    (read : OperandReads (StopsAt .lowest) (t :: ts) tree) : ReadsInside (t :: ts) tree := by
  intro fuel tokens rest same fit stops finish errors
  rw [List.length_cons] at fit
  obtain ⟨fuel, rfl⟩ : ∃ n, fuel = n + 1 + 1 := ⟨fuel - 2, by omega⟩
  obtain ⟨e, last, erased, run⟩ :=
    read (fuel + 1) tokens rest same (by rw [List.length_cons]; omega) stops finish errors
  obtain ⟨u, us, rfl, first, _⟩ := List.map_eq_cons_iff.mp same
  refine ⟨e, last, erased, ?_⟩
  exact (expression_run (first ▸ noSemicolon) run).trans (climb_stop stops)

theorem of_continuation {t : Token} {ts : List Token} {c : Continuation}
    {build : Expr Unit → Expr Unit} (read : ReadsAs words tree)
    (follows : Continuation.ofToken? t = some c)
    (grown : ContinuationReads (StopsAt .lowest) c (t :: ts) build) :
    ReadsInside (words ++ t :: ts) (build tree) := by
  intro fuel tokens rest same fit stops finish errors
  obtain ⟨front, back, rfl, sameFront, sameBack⟩ := List.map_eq_append_iff.mp same
  rw [List.length_append, List.length_cons] at fit
  obtain ⟨fuel, rfl⟩ : ∃ n, fuel = n + 1 := ⟨fuel - 1, by omega⟩
  obtain ⟨e, last, left, erased, enough, run⟩ := read.reads fuel .lowest front (back ++ rest) finish
    errors sameFront (by omega) (Nat.zero_le _)
  obtain ⟨left, rfl⟩ : ∃ n, left = n + 1 + 1 := ⟨left - 2, by omega⟩
  obtain ⟨e', last', erased', run'⟩ := grown fuel e back rest sameBack
    (by rw [List.length_cons]; omega) stops finish errors
  obtain ⟨u, us, rfl, first, _⟩ := List.map_eq_cons_iff.mp sameBack
  have binds : Precedence.lowest.level < c.precedence.level := by
    cases c with
    | operate op => cases op <;> decide
    | _ => exact Nat.zero_lt_succ _
  refine ⟨e', last', by rw [erased', erased], ?_⟩
  rw [List.append_assoc]
  exact run.trans ((climb_step (first ▸ follows) binds run').trans (climb_stop stops))

end ReadsInside

/-! ### Operands -/

theorem ReadsAs.of_token {w : Token} (opens : w.opensOperand)
    (run : ∀ (t : SpannedToken), t.token = w → ∀ fuel ts finish errors, ∃ e, e.erase = tree ∧
      operand (partsAt fuel) fuel ⟨t :: ts, finish, errors⟩ = .done e ⟨t :: ts, finish, errors⟩) :
    ReadsAs [w] tree := by
  apply of_operand opens
  intro fuel tokens rest same _ _ finish errors
  obtain ⟨t, ts, rfl, token, none⟩ := List.map_eq_cons_iff.mp same
  obtain rfl := List.map_eq_nil_iff.mp none
  obtain ⟨e, erased, done⟩ := run t token fuel rest finish errors
  exact ⟨e, t, erased, done⟩

theorem ReadsAs.of_name (name : String) :
    ReadsAs [.identifier name] (.identifier () ⟨name, ()⟩) := by
  apply of_token rfl
  intro t token fuel ts finish errors
  refine ⟨.identifier t.span ⟨name, t.span⟩, rfl, ?_⟩
  unfold operand
  rw [bind_done current_run, token]
  rfl

theorem ReadsAs.of_digits {digits : String} {n : Int64}
    (value : Decimal.readInteger digits = some n) :
    ReadsAs [.integer digits] (.literal () (.integer n)) := by
  apply of_token rfl
  intro t token fuel ts finish errors
  refine ⟨.literal t.span (.integer n), rfl, ?_⟩
  unfold operand
  rw [bind_done current_run, token]
  dsimp only
  rw [value]
  rfl

theorem ReadsAs.of_integer (n : Int64) :
    ReadsAs [.integer (integerText n)] (.literal () (.integer n)) :=
  .of_digits (readInteger_integerText n)

theorem ReadsAs.of_boolean (b : Bool) :
    ReadsAs [.keyword (if b then .trueWord else .falseWord)] (.literal () (.boolean b)) := by
  apply of_token (by cases b <;> rfl)
  intro t token fuel ts finish errors
  refine ⟨.literal t.span (.boolean b), rfl, ?_⟩
  unfold operand
  rw [bind_done current_run, token]
  cases b <;> rfl

theorem ReadsAs.of_null : ReadsAs [.keyword .nullWord] (.literal () .null) := by
  apply of_token rfl
  intro t token fuel ts finish errors
  refine ⟨.literal t.span .null, rfl, ?_⟩
  unfold operand
  rw [bind_done current_run, token]
  rfl

/-- Parentheses may be put around what stands inside them. -/
theorem ReadsInside.grouped (inside : ReadsInside words tree) :
    ReadsAs (.sign .leftParen :: (words ++ [.sign .rightParen])) tree := by
  apply ReadsAs.of_operand rfl
  intro fuel tokens rest same fit _ finish errors
  obtain ⟨t, ts, rfl, opening, sameRest⟩ := List.map_eq_cons_iff.mp same
  obtain ⟨inner, last, rfl, sameInner, sameLast⟩ := List.map_eq_append_iff.mp sameRest
  obtain ⟨u, us, rfl, closing, none⟩ := List.map_eq_cons_iff.mp sameLast
  obtain rfl := List.map_eq_nil_iff.mp none
  rw [List.length_cons, List.length_append] at fit
  have stops : StopsAt .lowest (u :: rest) := .of_lowest (by rw [closing]; rfl)
  obtain ⟨e, v, erased, run⟩ := inside fuel inner (u :: rest) sameInner (by omega) stops finish
    errors
  refine ⟨e, u, erased, ?_⟩
  unfold operand
  rw [List.cons_append, bind_done current_run, opening]
  dsimp only
  unfold grouping
  rw [bind_done bump_run, List.append_assoc, List.singleton_append, bind_done run,
    bind_done (expectPeek_run closing)]
  rfl

/-- A prefix operator takes the expression behind it, at its own level. -/
theorem operand_prefix_run {p : Parts} {size : Nat} {op : PrefixOperator} {e : Expr Span}
    {t last : SpannedToken} {ts rest : List SpannedToken} {finish : Position}
    {errors : Array SyntaxError} (token : t.token = .sign op.sign)
    (run : p.expression .prefixed ⟨ts, finish, errors⟩ = .done e ⟨last :: rest, finish, errors⟩) :
    operand p size ⟨t :: ts, finish, errors⟩ =
      .done (.unary (t.span.extend last.span) op e) ⟨last :: rest, finish, errors⟩ := by
  have first : operand p size ⟨t :: ts, finish, errors⟩ =
      prefixed p ⟨t :: ts, finish, errors⟩ := by
    unfold operand
    rw [bind_done current_run, token]
    cases op <;> rfl
  rw [first]
  unfold prefixed
  rw [bind_done current_run, token, PrefixOperator.ofToken_sign]
  dsimp only
  rw [bind_done bump_run, bind_done run, bind_done (spanFrom_run _)]
  rfl

theorem ReadsAs.after_operator (read : ReadsAs words tree) (op : PrefixOperator) :
    ReadsInside (.sign op.sign :: words) (.unary () op tree) := by
  apply ReadsInside.of_operand (by cases op <;> exact nofun)
  intro fuel tokens rest same fit stops finish errors
  obtain ⟨t, ts, rfl, token, sameRest⟩ := List.map_eq_cons_iff.mp same
  obtain ⟨e, last, erased, run⟩ := read.whole sameRest fit (Nat.le_refl _)
    (stops.mono (Nat.zero_le _)) finish errors
  refine ⟨.unary (t.span.extend last.span) op e, last, by simp [Expr.erase, Expr.map, ← erased], ?_⟩
  exact operand_prefix_run token run

/-! ### Continuations -/

/-- An infix operator takes the expression behind it, at its own level. -/
theorem continuation_infix_run {p : Parts} {size : Nat} {op : InfixOperator} {left e : Expr Span}
    {t last : SpannedToken} {ts rest : List SpannedToken} {finish : Position}
    {errors : Array SyntaxError}
    (run : p.expression op.precedence ⟨ts, finish, errors⟩ =
      .done e ⟨last :: rest, finish, errors⟩) :
    continuation p size (.operate op) left ⟨t :: ts, finish, errors⟩ =
      .done (.binary (left.mark.extend last.span) op left e) ⟨last :: rest, finish, errors⟩ := by
  unfold continuation
  dsimp only
  rw [bind_done bump_run, bind_done run, bind_done (spanFrom_run _)]
  rfl

theorem ReadsAs.operated (right : ReadsAs words tree) (op : InfixOperator) :
    ContinuationReads (StopsAt .lowest) (.operate op) (.sign op.sign :: words)
      fun left => .binary () op left tree := by
  intro fuel left tokens rest same fit stops finish errors
  obtain ⟨t, ts, rfl, token, sameRest⟩ := List.map_eq_cons_iff.mp same
  have low : op.precedence.level ≤ Precedence.prefixed.level := by cases op <;> decide
  obtain ⟨e, last, erased, run⟩ := right.whole sameRest fit low (stops.mono (Nat.zero_le _))
    finish errors
  refine ⟨.binary (left.mark.extend last.span) op left e, last,
    by simp [Expr.erase, Expr.map, ← erased], ?_⟩
  exact continuation_infix_run run

theorem stepped {fits : List SpannedToken → Prop} (op : PostfixOperator) :
    ContinuationReads fits (.step op) [.sign op.sign] fun left => .step () op left := by
  intro fuel left tokens rest same fit _ finish errors
  obtain ⟨t, ts, rfl, token, none⟩ := List.map_eq_cons_iff.mp same
  obtain rfl := List.map_eq_nil_iff.mp none
  exact ⟨.step (left.mark.extend t.span) op left, t, rfl, rfl⟩

/-- Both ends of a slice. -/
theorem ReadsAs.sliced (high : ReadsAs words tree) :
    ContinuationReads (StopsAt .lowest) .slice (.sign .colon :: words)
      fun left => .slice () left (some tree) := by
  intro fuel left tokens rest same fit stops finish errors
  obtain ⟨t, ts, rfl, token, sameRest⟩ := List.map_eq_cons_iff.mp same
  obtain ⟨e, last, erased, run⟩ := high.inside fuel ts rest sameRest fit stops finish errors
  obtain ⟨w, ws, rfl, opens⟩ := high.opening
  obtain ⟨u, us, rfl, first, _⟩ := List.map_eq_cons_iff.mp sameRest
  have noBracket : u.token ≠ .sign .rightBracket := first ▸ Token.ne_sign_of_opensOperand opens rfl
  refine ⟨.slice (left.mark.extend last.span) left (some e), last,
    by simp [Expr.erase, Expr.map, Expr.mapOption, ← erased], ?_⟩
  unfold continuation
  dsimp only
  unfold slice
  rw [List.cons_append, List.cons_append, bind_done (peekIs_run _),
    if_neg (by simpa using noBracket), bind_done bump_run]
  rw [List.cons_append] at run
  rw [bind_done run, bind_done (spanFrom_run _)]
  rfl

theorem ReadsInside.indexed (key : ReadsInside words tree)
    (opening : ∃ w ws, words = w :: ws ∧ w ≠ .sign .colon) :
    ContinuationReads (StopsAt .lowest) .index
      (.sign .leftBracket :: (words ++ [.sign .rightBracket])) fun left => .index () left tree := by
  intro fuel left tokens rest same fit _ finish errors
  obtain ⟨t, ts, rfl, token, sameRest⟩ := List.map_eq_cons_iff.mp same
  obtain ⟨inner, last, rfl, sameInner, sameLast⟩ := List.map_eq_append_iff.mp sameRest
  obtain ⟨u, us, rfl, closing, none⟩ := List.map_eq_cons_iff.mp sameLast
  obtain rfl := List.map_eq_nil_iff.mp none
  rw [List.length_cons, List.length_append] at fit
  have stops : StopsAt .lowest (u :: rest) := .of_lowest (by rw [closing]; rfl)
  obtain ⟨e, v, erased, run⟩ := key fuel inner (u :: rest) sameInner (by omega) stops finish errors
  obtain ⟨w, ws, rfl, noColon⟩ := opening
  obtain ⟨x, xs, rfl, first, _⟩ := List.map_eq_cons_iff.mp sameInner
  refine ⟨.index (left.mark.extend u.span) left e, u, by simp [Expr.erase, Expr.map, ← erased], ?_⟩
  have keyRun : Parser.key (partsAt fuel) ⟨t :: (x :: xs ++ u :: rest), finish, errors⟩ =
      .done e ⟨v :: u :: rest, finish, errors⟩ := by
    unfold Parser.key
    rw [List.cons_append, bind_done (peekIs_run _), if_neg (by simpa [first] using noColon),
      bind_done bump_run]
    exact run
  unfold continuation
  dsimp only
  rw [List.cons_append, List.append_assoc, List.singleton_append, bind_done keyRun,
    bind_done (expectPeek_run closing), bind_done (spanFrom_run _)]
  rfl

/-! ### Lists -/

/-- Signs that end a list: no expression starts with them or goes on with them. -/
structure ClosesList (s : Sign) : Prop where
  noOperand : (Token.sign s).opensOperand = false
  loose : (Token.sign s).precedence = .lowest
  noComma : s ≠ .comma

theorem ClosesList.rightParen : ClosesList .rightParen := ⟨rfl, rfl, nofun⟩

theorem ClosesList.rightBracket : ClosesList .rightBracket := ⟨rfl, rfl, nofun⟩

theorem ClosesList.rightBrace : ClosesList .rightBrace := ⟨rfl, rfl, nofun⟩

section Lists

variable {parts : List (List Token × Expr Unit)} {fuel : Nat} {close : Sign} {t u : SpannedToken}
  {tokens us : List SpannedToken}

/-- After an element of a list stands a comma or the closing sign. -/
theorem stopsAt_afterCommas {level : Precedence} {groups : List (List Token)}
    (closes : ClosesList close) (closing : u.token = .sign close)
    (same : tokens.map (·.token) = Token.afterCommas groups) :
    StopsAt level (tokens ++ u :: us) := by
  cases groups with
  | nil =>
    obtain rfl := List.map_eq_nil_iff.mp same
    exact .of_lowest (by rw [closing, closes.loose])
  | cons group groups =>
    rw [Token.afterCommas_cons] at same
    obtain ⟨c, cs, rfl, comma, _⟩ := List.map_eq_cons_iff.mp same
    exact .of_lowest (by rw [comma]; rfl)

theorem listRest_reads (each : ∀ p ∈ parts, ReadsAs p.1 p.2) (closes : ClosesList close)
    (closing : u.token = .sign close)
    (same : tokens.map (·.token) = Token.afterCommas (parts.map (·.1)))
    (fit : tokens.length < fuel) {n : Nat} (enough : tokens.length < n) (read : List (Expr Span))
    (finish : Position) (errors : Array SyntaxError) :
    ∃ es last, es.map Expr.erase = parts.map (·.2) ∧
      listRest (partsAt fuel) n read ⟨t :: (tokens ++ u :: us), finish, errors⟩ =
        .done (read.reverse ++ es) ⟨last :: u :: us, finish, errors⟩ := by
  obtain ⟨n, rfl⟩ : ∃ k, n = k + 1 := ⟨n - 1, by omega⟩
  induction parts generalizing tokens n read t with
  | nil =>
    obtain rfl := List.map_eq_nil_iff.mp same
    refine ⟨[], t, rfl, ?_⟩
    have noComma : ¬(decide (u.token = .sign .comma) = true) := by
      simpa [closing] using closes.noComma
    rw [listRest, List.nil_append, bind_done (peekIs_run _), if_neg noComma, List.append_nil]
    rfl
  | cons p ps ih =>
    rw [List.map_cons, Token.afterCommas_cons] at same
    obtain ⟨c, cs, rfl, comma, sameRest⟩ := List.map_eq_cons_iff.mp same
    obtain ⟨front, back, rfl, sameFront, sameBack⟩ := List.map_eq_append_iff.mp sameRest
    rw [List.length_cons, List.length_append] at fit enough
    obtain ⟨n, rfl⟩ : ∃ k, n = k + 1 := ⟨n - 1, by omega⟩
    have short : p.1.length < fuel := by
      rw [← sameFront, List.length_map]
      omega
    obtain ⟨e, last, erased, run⟩ := (each p List.mem_cons_self).inside fuel front
      (back ++ u :: us) sameFront short (stopsAt_afterCommas closes closing sameBack) finish errors
    obtain ⟨es, last', erasedRest, runRest⟩ := ih (t := last)
      (fun q member => each q (List.mem_cons_of_mem _ member)) sameBack (by omega) (e :: read) n
      (by omega)
    refine ⟨e :: es, last', by rw [List.map_cons, List.map_cons, erased, erasedRest], ?_⟩
    rw [listRest, List.cons_append, bind_done (peekIs_run _), if_pos (by simpa using comma),
      bind_done bump_run, bind_done bump_run, List.append_assoc, bind_done run, runRest]
    simp

/-- Expressions with commas between them, up to the closing sign, from the token before them on. -/
theorem listUntil_reads (each : ∀ p ∈ parts, ReadsAs p.1 p.2) (closes : ClosesList close)
    (same : tokens.map (·.token) = Token.commas (parts.map (·.1)) ++ [.sign close])
    (fit : tokens.length ≤ fuel) (us : List SpannedToken) (finish : Position)
    (errors : Array SyntaxError) :
    ∃ es last, es.map Expr.erase = parts.map (·.2) ∧
      listUntil (partsAt fuel) fuel close ⟨t :: (tokens ++ us), finish, errors⟩ =
        .done es ⟨last :: us, finish, errors⟩ := by
  obtain ⟨inner, final, rfl, sameInner, sameFinal⟩ := List.map_eq_append_iff.mp same
  obtain ⟨u, none, rfl, closing, empty⟩ := List.map_eq_cons_iff.mp sameFinal
  obtain rfl := List.map_eq_nil_iff.mp empty
  rw [List.append_assoc, List.singleton_append]
  cases parts with
  | nil =>
    obtain rfl := List.map_eq_nil_iff.mp sameInner
    refine ⟨[], u, rfl, ?_⟩
    unfold listUntil
    rw [List.nil_append, bind_done (peekIs_run _), if_pos (by simpa using closing),
      bind_done bump_run]
    rfl
  | cons p ps =>
    rw [List.map_cons, Token.commas_cons] at sameInner
    obtain ⟨front, back, rfl, sameFront, sameBack⟩ := List.map_eq_append_iff.mp sameInner
    rw [List.length_append, List.length_append, List.length_singleton] at fit
    have short : p.1.length < fuel := by
      rw [← sameFront, List.length_map]
      omega
    have read := each p List.mem_cons_self
    obtain ⟨e, last, erased, run⟩ := read.inside fuel front (back ++ u :: us) sameFront short
      (stopsAt_afterCommas closes closing sameBack) finish errors
    obtain ⟨es, last', erasedRest, runRest⟩ := listRest_reads (t := last) (n := fuel)
      (fun q member => each q (List.mem_cons_of_mem _ member)) closes closing sameBack
      (Nat.lt_of_lt_of_le (by omega) fit) (by omega) [e] finish errors
    obtain ⟨w, ws, opening, opens⟩ := read.opening
    rw [opening] at sameFront
    obtain ⟨x, xs, rfl, first, _⟩ := List.map_eq_cons_iff.mp sameFront
    have noClose : x.token ≠ .sign close :=
      first ▸ Token.ne_sign_of_opensOperand opens closes.noOperand
    refine ⟨e :: es, u, by rw [List.map_cons, List.map_cons, erased, erasedRest], ?_⟩
    rw [List.cons_append] at run
    unfold listUntil
    rw [List.append_assoc, List.cons_append, bind_done (peekIs_run _),
      if_neg (by simpa using noClose), bind_done bump_run, bind_done run, bind_done runRest,
      bind_done (expectPeek_run closing)]
    rfl

/-- The words of a pair: its key and its value with a colon between them. -/
def pairWords (pair : (List Token × Expr Unit) × (List Token × Expr Unit)) : List Token :=
  pair.1.1 ++ .sign .colon :: pair.2.1

/-- One round of reading pairs. A key binds tighter than the colon after it. -/
theorem pairsRest_step {pair : (List Token × Expr Unit) × (List Token × Expr Unit)}
    (key : ReadsAs pair.1.1 pair.1.2) (value : ReadsAs pair.2.1 pair.2.2)
    (same : tokens.map (·.token) = pairWords pair) (fit : tokens.length < fuel)
    (stops : StopsAt .lowest us) (n : Nat) (read : List (Expr Span × Expr Span)) (finish : Position)
    (errors : Array SyntaxError) :
    ∃ k v last, k.erase = pair.1.2 ∧ v.erase = pair.2.2 ∧
      pairsRest (partsAt fuel) (n + 1) read ⟨t :: (tokens ++ us), finish, errors⟩ =
        (do
          if ← peekIs .comma then
            bump
            pairsRest (partsAt fuel) n ((k, v) :: read)
          else
            expectPeek .rightBrace
            return ((k, v) :: read).reverse : Parse (List (Expr Span × Expr Span)))
          ⟨last :: us, finish, errors⟩ := by
  obtain ⟨front, back, rfl, sameKey, sameBack⟩ := List.map_eq_append_iff.mp same
  obtain ⟨c, valueTokens, rfl, colon, sameValue⟩ := List.map_eq_cons_iff.mp sameBack
  rw [List.length_append, List.length_cons] at fit
  have shortKey : pair.1.1.length < fuel := by
    rw [← sameKey, List.length_map]
    omega
  have shortValue : pair.2.1.length < fuel := by
    rw [← sameValue, List.length_map]
    omega
  have atColon : StopsAt .slice (c :: (valueTokens ++ us)) := by
    intro u member
    cases member
    rw [colon]
    exact Nat.le_refl _
  obtain ⟨k, lastKey, erasedKey, runKey⟩ := key.whole sameKey shortKey (by decide) atColon finish
    errors
  obtain ⟨v, last, erasedValue, runValue⟩ := value.inside fuel valueTokens us sameValue shortValue
    stops finish errors
  refine ⟨k, v, last, erasedKey, erasedValue, ?_⟩
  rw [pairsRest, List.append_assoc, List.cons_append, bind_done bump_run, bind_done runKey,
    bind_done (expectPeek_run colon), bind_done bump_run, bind_done runValue]

theorem pairsRest_reads {first : (List Token × Expr Unit) × (List Token × Expr Unit)}
    {others : List ((List Token × Expr Unit) × (List Token × Expr Unit))}
    (each : ∀ p ∈ first :: others, ReadsAs p.1.1 p.1.2 ∧ ReadsAs p.2.1 p.2.2)
    (closing : u.token = .sign .rightBrace)
    (same : tokens.map (·.token) = pairWords first ++ Token.afterCommas (others.map pairWords))
    (fit : tokens.length < fuel) {n : Nat} (enough : tokens.length < n)
    (read : List (Expr Span × Expr Span)) (finish : Position) (errors : Array SyntaxError) :
    ∃ ps, Expr.mapPairs (fun _ => ()) ps = (first :: others).map (fun p => (p.1.2, p.2.2)) ∧
      pairsRest (partsAt fuel) n read ⟨t :: (tokens ++ u :: us), finish, errors⟩ =
        .done (read.reverse ++ ps) ⟨u :: us, finish, errors⟩ := by
  obtain ⟨key, value⟩ := each first List.mem_cons_self
  induction others generalizing first tokens n read t with
  | nil =>
    obtain ⟨n, rfl⟩ : ∃ k, n = k + 1 := ⟨n - 1, by omega⟩
    have stops : StopsAt .lowest (u :: us) := .of_lowest (by rw [closing]; rfl)
    have alone : tokens.map (·.token) = pairWords first := by simpa [Token.afterCommas] using same
    obtain ⟨k, v, last, erasedKey, erasedValue, run⟩ := pairsRest_step (t := t) key
      value alone fit stops n read finish errors
    refine ⟨[(k, v)], by simp [Expr.mapPairs, ← erasedKey, ← erasedValue, Expr.erase], ?_⟩
    have noComma : ¬(decide (u.token = .sign .comma) = true) := by simp [closing]
    rw [run, bind_done (peekIs_run _), if_neg noComma, bind_done (expectPeek_run closing),
      List.reverse_cons]
    rfl
  | cons next others ih =>
    obtain ⟨n, rfl⟩ : ∃ k, n = k + 1 := ⟨n - 1, by omega⟩
    obtain ⟨front, back, rfl, sameFront, sameBack⟩ := List.map_eq_append_iff.mp same
    have stops : StopsAt .lowest (back ++ u :: us) :=
      stopsAt_afterCommas .rightBrace closing sameBack
    rw [List.length_append] at fit enough
    obtain ⟨k, v, last, erasedKey, erasedValue, run⟩ := pairsRest_step (t := t) key
      value sameFront (Nat.lt_of_le_of_lt (Nat.le_add_right _ _) fit) stops n read finish errors
    rw [List.map_cons, Token.afterCommas_cons] at sameBack
    obtain ⟨c, cs, rfl, comma, sameRest⟩ := List.map_eq_cons_iff.mp sameBack
    rw [List.length_cons] at fit enough
    have others := fun p member => each p (List.mem_cons_of_mem _ member)
    obtain ⟨ps, erased, runRest⟩ := ih (t := c) (n := n) others sameRest (by omega) (by omega)
      ((k, v) :: read) (others _ List.mem_cons_self).1 (others _ List.mem_cons_self).2
    refine ⟨(k, v) :: ps, ?_, ?_⟩
    · simp [Expr.mapPairs, erased, ← erasedKey, ← erasedValue, Expr.erase]
    · rw [List.append_assoc, run, List.cons_append, bind_done (peekIs_run _),
        if_pos (by simpa using comma), bind_done bump_run, runRest]
      simp

end Lists

/-! ### Expressions with lists in them -/

section Compounds

variable {parts : List (List Token × Expr Unit)}

theorem arrayReads (each : ∀ p ∈ parts, ReadsAs p.1 p.2) :
    ReadsAs (.sign .leftBracket :: (Token.commas (parts.map (·.1)) ++ [.sign .rightBracket]))
      (.array () (parts.map (·.2))) := by
  apply ReadsAs.of_operand rfl
  intro fuel tokens rest same fit _ finish errors
  obtain ⟨t, ts, rfl, opening, sameRest⟩ := List.map_eq_cons_iff.mp same
  rw [← same, List.length_map, List.length_cons] at fit
  have short : ts.length ≤ fuel := by omega
  obtain ⟨es, last, erased, run⟩ := listUntil_reads (t := t) each .rightBracket sameRest short rest
    finish errors
  refine ⟨.array (t.span.extend last.span) es, last, ?_, ?_⟩
  · simp [Expr.erase, Expr.map, ← erased]
  · unfold operand
    rw [List.cons_append, bind_done current_run, opening]
    dsimp only
    rw [bind_done run, bind_done (spanFrom_run _)]
    rfl

theorem hashReads {pairs : List ((List Token × Expr Unit) × (List Token × Expr Unit))}
    (each : ∀ p ∈ pairs, ReadsAs p.1.1 p.1.2 ∧ ReadsAs p.2.1 p.2.2) :
    ReadsAs (.sign .leftBrace :: (Token.commas (pairs.map pairWords) ++ [.sign .rightBrace]))
      (.hash () (pairs.map fun p => (p.1.2, p.2.2))) := by
  apply ReadsAs.of_operand rfl
  intro fuel tokens rest same fit _ finish errors
  obtain ⟨t, ts, rfl, opening, sameRest⟩ := List.map_eq_cons_iff.mp same
  obtain ⟨inner, final, rfl, sameInner, sameFinal⟩ := List.map_eq_append_iff.mp sameRest
  obtain ⟨u, none, rfl, closing, empty⟩ := List.map_eq_cons_iff.mp sameFinal
  obtain rfl := List.map_eq_nil_iff.mp empty
  rw [← same, List.length_map, List.length_cons, List.length_append] at fit
  have run : ∃ ps, Expr.mapPairs (fun _ => ()) ps = pairs.map (fun p => (p.1.2, p.2.2)) ∧
      Parser.pairs (partsAt fuel) fuel ⟨t :: (inner ++ u :: rest), finish, errors⟩ =
        .done ps ⟨u :: rest, finish, errors⟩ := by
    unfold Parser.pairs
    cases pairs with
    | nil =>
      obtain rfl := List.map_eq_nil_iff.mp sameInner
      refine ⟨[], rfl, ?_⟩
      rw [List.nil_append, bind_done (peekIs_run _), if_pos (by simpa using closing),
        bind_done bump_run]
      rfl
    | cons p ps =>
      rw [List.map_cons, Token.commas_cons] at sameInner
      obtain ⟨qs, erased, run⟩ := pairsRest_reads (t := t) each closing sameInner
        (Nat.lt_of_lt_of_le (by omega) fit) (n := fuel) (by omega) [] finish errors
      refine ⟨qs, erased, ?_⟩
      obtain ⟨w, ws, starts, opens⟩ := (each p List.mem_cons_self).1.opening
      rw [pairWords, starts] at sameInner
      obtain ⟨x, xs, rfl, first, _⟩ := List.map_eq_cons_iff.mp sameInner
      have noClose : x.token ≠ .sign .rightBrace :=
        first ▸ Token.ne_sign_of_opensOperand opens rfl
      rw [List.cons_append] at run ⊢
      rw [bind_done (peekIs_run _), if_neg (by simpa using noClose)]
      exact run
  obtain ⟨ps, erased, run⟩ := run
  refine ⟨.hash (t.span.extend u.span) ps, u, ?_, ?_⟩
  · rw [Expr.erase, Expr.map, erased]
  · unfold operand
    rw [List.cons_append, bind_done current_run, opening]
    dsimp only
    rw [List.append_assoc, List.singleton_append, bind_done run, bind_done (spanFrom_run _)]
    rfl

theorem callReads (each : ∀ p ∈ parts, ReadsAs p.1 p.2) :
    ContinuationReads (fun _ => True) .call
      (.sign .leftParen :: (Token.commas (parts.map (·.1)) ++ [.sign .rightParen]))
      fun left => .call () left (parts.map (·.2)) := by
  intro fuel left tokens rest same fit _ finish errors
  obtain ⟨t, ts, rfl, opening, sameRest⟩ := List.map_eq_cons_iff.mp same
  rw [← same, List.length_map, List.length_cons] at fit
  have short : ts.length ≤ fuel := by omega
  obtain ⟨es, last, erased, run⟩ := listUntil_reads (t := t) each .rightParen sameRest short rest
    finish errors
  refine ⟨.call (left.mark.extend last.span) left es, last, ?_, ?_⟩
  · simp [Expr.erase, Expr.map, ← erased]
  · unfold continuation
    dsimp only
    rw [List.cons_append, bind_done run, bind_done (spanFrom_run _)]
    rfl

theorem nameAfter_run {t u : SpannedToken} {ts : List SpannedToken} {finish : Position}
    {errors : Array SyntaxError} {name : String} (token : u.token = .identifier name) :
    nameAfter ⟨t :: u :: ts, finish, errors⟩ =
      .done ⟨name, u.span⟩ ⟨u :: ts, finish, errors⟩ := by
  unfold nameAfter
  rw [bind_done peek_run, token]
  rfl

theorem methodReads (name : String) (each : ∀ p ∈ parts, ReadsAs p.1 p.2) :
    ContinuationReads (fun _ => True) .method
      (.sign .dot :: .identifier name :: .sign .leftParen ::
        (Token.commas (parts.map (·.1)) ++ [.sign .rightParen]))
      fun left => .method () left
        (.call () (.identifier () ⟨name, ()⟩) (parts.map (·.2))) := by
  intro fuel left tokens rest same fit _ finish errors
  obtain ⟨t, ts, rfl, dot, sameName⟩ := List.map_eq_cons_iff.mp same
  obtain ⟨u, us, rfl, named, sameParen⟩ := List.map_eq_cons_iff.mp sameName
  obtain ⟨v, vs, rfl, opening, sameRest⟩ := List.map_eq_cons_iff.mp sameParen
  rw [← same, List.length_map, List.length_cons, List.length_cons, List.length_cons] at fit
  have short : vs.length ≤ fuel := by omega
  obtain ⟨es, last, erased, run⟩ := listUntil_reads (t := v) each .rightParen sameRest short rest
    finish errors
  have called : methodCall (partsAt fuel) fuel ⟨t :: u :: v :: (vs ++ rest), finish, errors⟩ =
      .done (.call (u.span.extend last.span) (.identifier u.span ⟨name, u.span⟩) es)
        ⟨last :: rest, finish, errors⟩ := by
    unfold methodCall
    rw [bind_done (nameAfter_run named), bind_done (peekIs_run _), if_pos (by simpa using opening),
      bind_done bump_run, bind_done run, bind_done (spanFrom_run _)]
    rfl
  refine ⟨.method (left.mark.extend last.span) left (.call (u.span.extend last.span)
    (.identifier u.span ⟨name, u.span⟩) es), last, ?_, ?_⟩
  · simp [Expr.erase, Expr.map, Identifier.map, ← erased]
  · unfold continuation
    dsimp only
    rw [List.cons_append, List.cons_append, List.cons_append, bind_done called,
      bind_done (spanFrom_run _)]
    rfl

end Compounds

end Parser

open Scripting.Parser

variable {α : Type} {e : Expr α}

namespace Expr

theorem mapPairs_eq {β : Type} (f : α → β) (ps : List (Expr α × Expr α)) :
    mapPairs f ps = ps.map fun p => (p.1.map f, p.2.map f) := by
  induction ps with
  | nil => rfl
  | cons p ps ih => rw [mapPairs, ih, List.map_cons]

theorem readsAs_each {es : List (Expr α)} (each : ∀ e ∈ es, ReadsAs e.words e.erase) :
    ∀ p ∈ es.map fun e => (e.words, e.erase), ReadsAs p.1 p.2 := by
  intro p member
  obtain ⟨e, inside, rfl⟩ := List.mem_map.mp member
  exact each e inside

theorem readsAs_pairs {ps : List (Expr α × Expr α)} (keys : ∀ p ∈ ps, ReadsAs p.1.words p.1.erase)
    (values : ∀ p ∈ ps, ReadsAs p.2.words p.2.erase) :
    ∀ q ∈ ps.map fun p => ((p.1.words, p.1.erase), (p.2.words, p.2.erase)),
      ReadsAs q.1.1 q.1.2 ∧ ReadsAs q.2.1 q.2.2 := by
  intro q member
  obtain ⟨p, inside, rfl⟩ := List.mem_map.mp member
  exact ⟨keys p inside, values p inside⟩

theorem readsAs_index {c k : Expr α} (m : α) (container : ReadsAs c.words c.erase)
    (key : ReadsInside k.words k.erase)
    (opening : ∃ w ws, k.words = w :: ws ∧ w ≠ .sign .colon) :
    ReadsAs (index m c k).words (index m c k).erase := by
  have whole := ReadsInside.of_continuation container (c := .index) rfl (key.indexed opening)
  simpa [words, erase, map] using whole.grouped

/-- The words of a plain expression are read as that expression. -/
theorem Plain.readsAs (plain : e.Plain) : ReadsAs e.words e.erase := by
  induction plain with
  | identifier m name => exact .of_name _
  | integer m nonneg => exact .of_integer _
  | boolean m b => exact .of_boolean b
  | null m => exact .of_null
  | array m _ elements =>
    have read := arrayReads (readsAs_each elements)
    simpa [words, wordsList_eq, erase, map, Function.comp_def] using read
  | hash m _ _ keys values =>
    have read := hashReads (readsAs_pairs keys values)
    simpa [words, wordsPairs_eq, mapPairs_eq, erase, map, Function.comp_def, pairWords] using read
  | unary m op _ operand => exact (operand.after_operator op).grouped
  | binary m op _ _ left right =>
    have inside := ReadsInside.of_continuation left (Continuation.ofToken_infix op)
      (right.operated op)
    simpa [words, erase, map] using inside.grouped
  | step m op _ operand =>
    have inside := ReadsInside.of_continuation operand (Continuation.ofToken_postfix op)
      (stepped op)
    simpa [words, erase, map] using inside.grouped
  | call m _ _ callee arguments =>
    have read := callee.of_continuation (c := .call) rfl (by decide)
      (callReads (readsAs_each arguments))
    simpa [words, wordsList_eq, erase, map, Function.comp_def] using read
  | @method m n k o i as _ noInteger name _ object arguments =>
    have read := object.of_continuation (c := .method) rfl (by decide)
      (methodReads i.name (readsAs_each arguments))
    simpa [words, wordsList_eq, erase, map, Identifier.map, Function.comp_def] using read
  | index m _ _ container key =>
    obtain ⟨w, ws, starts, opens⟩ := key.opening
    exact readsAs_index m container key.inside
      ⟨w, ws, starts, Token.ne_sign_of_opensOperand opens rfl⟩
  | sliced m n _ _ _ container low high =>
    have key := (ReadsInside.of_continuation low (c := .slice) rfl high.sliced).grouped.inside
    apply readsAs_index m container
    · simpa [words, wordsOption, erase, map, mapOption] using key
    · exact ⟨_, _, rfl, by simp⟩

end Expr

namespace Parser

variable {t last : SpannedToken} {ts rest : List SpannedToken} {finish : Position}
  {errors : Array SyntaxError}

/-- A statement is an expression, unless it starts with a keyword of its own. -/
theorem statement_expression_run {p : Parts} {e : Expr Span}
    (plain : t.token ∉ [.keyword .letWord, .keyword .deleteWord, .keyword .returnWord])
    (run : p.expression .lowest ⟨t :: ts, finish, errors⟩ =
      .done e ⟨last :: rest, finish, errors⟩) :
    statement p ⟨t :: ts, finish, errors⟩ =
      .done (.expression (t.span.extend last.span) e) ⟨last :: rest, finish, errors⟩ := by
  have whole : statement p ⟨t :: ts, finish, errors⟩ = (do
      let e ← p.expression .lowest
      return .expression (← spanFrom t.span) e : Parse (Stmt Span)) ⟨t :: ts, finish, errors⟩ := by
    unfold statement
    rw [bind_done current_run]
    cases word : t.token with
    | keyword k =>
      rw [word] at plain
      cases k <;> first | rfl | exact absurd (by decide) plain
    | _ => rfl
  rw [whole, bind_done run, bind_done (spanFrom_run _)]
  rfl

theorem statement_run {p : Parts} {e : Expr Span} (opens : t.token.opensOperand)
    (run : p.expression .lowest ⟨t :: ts, finish, errors⟩ =
      .done e ⟨last :: rest, finish, errors⟩) :
    statement p ⟨t :: ts, finish, errors⟩ =
      .done (.expression (t.span.extend last.span) e) ⟨last :: rest, finish, errors⟩ := by
  apply statement_expression_run _ run
  intro member
  revert opens
  simp only [List.mem_cons, List.not_mem_nil, or_false] at member
  rcases member with word | word | word <;> rw [word] <;> decide

theorem program_run {fuel : Nat} {s : Stmt Span} (notEnd : t.token ≠ .endOfFile)
    (run : statement (partsAt (fuel + 2)) ⟨t :: ts, finish, errors⟩ =
      .done s ⟨[last], finish, errors⟩) :
    program (fuel + 2) ⟨t :: ts, finish, errors⟩ = .done [s] ⟨[], finish, errors⟩ := by
  have captured : (statement (partsAt (fuel + 2))).capture ⟨t :: ts, finish, errors⟩ =
      .done (.ok s) ⟨[last], finish, errors⟩ := by
    unfold Attempt.capture
    rw [run]
  unfold program
  rw [statements, bind_done current_run, if_neg (by simpa using notEnd)]
  exact (bind_done captured).trans rfl

end Parser

/-- Reading the text of a plain expression reports no error and gives back the expression, as the
one statement of a program, up to places. -/
theorem Expr.Plain.parse_render (plain : e.Plain) :
    ∃ (mark : Span) (e' : Expr Span), parse e.render = (⟨[.expression mark e']⟩, []) ∧
      e'.erase = e.erase := by
  have read := plain.readsAs
  have lexed : (Cursor.ofString e.render).tokens.1.map (·.token) = e.words := by
    rw [Cursor.tokens_eq_sequence]
    exact plain.sequence_render
  obtain ⟨w, ws, starts, opens⟩ := read.opening
  cases scanned : (Cursor.ofString e.render).tokens with
  | mk tokens final =>
    rw [scanned] at lexed
    dsimp only at lexed
    obtain ⟨t, ts, rfl, first, _⟩ := List.map_eq_cons_iff.mp (lexed.trans starts)
    have short : e.words.length < (t :: ts).length + 2 := by
      rw [← lexed, List.length_map]
      omega
    obtain ⟨e', last, erased, run⟩ := read.inside _ (t :: ts) [] lexed short nofun
      final.next.1.span.start #[]
    rw [List.append_nil] at run
    have whole := program_run (by rw [first]; rintro rfl; cases opens)
      (statement_run (first ▸ opens) run)
    refine ⟨t.span.extend last.span, e', ?_, erased⟩
    unfold parse parseTokens
    rw [scanned]
    dsimp only
    rw [whole]

/-- Adds a method's result to a sliced hash, with a negative number and a stepped name inside. -/
theorem parse_render_method_and_slice :
    let name (s : String) : Expr Unit := .identifier () ⟨s, ()⟩
    let integer (n : Int64) : Expr Unit := .literal () (.integer n)
    let e : Expr Unit := .binary () .add
      (.method () (name "xs") (.call () (name "push") [integer 7, .step () .increment (name "i")]))
      (.index () (.hash () [(name "k", .unary () .negate (integer 9))])
        (.slice () (integer 0) (some (.array () [.literal () .null]))))
    e.Plain ∧ e.render = "(xs.push(7, (i++)) + (\x7bk:(-9)\x7d[(0:[null])]))" ∧
      ∃ (mark : Span) (e' : Expr Span), parse e.render = (⟨[.expression mark e']⟩, []) ∧
        e'.erase = e.erase := by
  intro name integer e
  have word : ∀ s ∈ ["xs", "push", "i", "k"], IsName s := by
    simp only [List.forall_mem_cons]
    refine ⟨?_, ?_, ?_, ?_, nofun⟩ <;> exact ⟨⟨_, _, rfl, by decide, by decide⟩, by decide⟩
  have number : ∀ n ∈ [7, 9, 0], (integer n).Plain := by
    simp only [List.forall_mem_cons]
    refine ⟨?_, ?_, ?_, nofun⟩ <;> exact .integer () (by decide)
  have plain : e.Plain := by
    apply Expr.Plain.binary
    · apply Expr.Plain.method () () () (.identifier () (word _ (by simp))) rfl (word _ (by simp))
      simp only [List.forall_mem_cons]
      exact ⟨number _ (by simp), .step () _ (.identifier () (word _ (by simp))), nofun⟩
    · apply Expr.Plain.sliced
      · apply Expr.Plain.hash
        · simpa using .identifier () (word _ (by simp))
        · simpa using .unary () _ (number _ (by simp))
      · exact number _ (by simp)
      · exact .array () (by simpa using .null ())
  exact ⟨plain, by decide, plain.parse_render⟩

end Scripting
