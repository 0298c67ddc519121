import Scripting.Proofs.ReadBack

/-!
# Chains of operators

A chain is a row of operands with infix operators between them. It is read as one expression that
keeps the order of the chain, `Expr.inorder`, and in which operators that bind tighter stand further
down and those that bind alike stand to the left, `Expr.Grouped`.

An expression at some level takes the links of a chain up to the first whose operator binds no
tighter than the level. This is one induction on the links, in `climb_reads`.
-/

namespace Scripting

/-- A row of digits whose value fits an integer. -/
structure Numeral where
  digits : List Char
  nonempty : digits ≠ []
  isDigit : ∀ c ∈ digits, c.isDigit
  fits : (Nat.ofDigitChars 10 digits 0 : Int) ≤ Int64.maxValue.toInt

/-- The number that the digits denote. -/
def Numeral.value (n : Numeral) : Int64 := .ofNat (Nat.ofDigitChars 10 n.digits 0)

/-- What an operand is made of besides operators. -/
inductive Atom where
  | name (name : String)
  | integer (numeral : Numeral)

namespace Atom

/-- The token of an atom. -/
def word : Atom → Token
  | name n => .identifier n
  | integer n => .integer (String.ofList n.digits)

/-- The expression that an atom is read as. -/
def tree : Atom → Expr Unit
  | name n => .identifier () ⟨n, ()⟩
  | integer n => .literal () (.integer n.value)

end Atom

/-- A name or an integer with operators before and after it. -/
structure Operand where
  prefixes : List PrefixOperator
  atom : Atom
  postfixes : List PostfixOperator

namespace Operand

/-- The tokens of an operand, in order. -/
def words (u : Operand) : List Token :=
  u.prefixes.map (fun op => .sign op.sign) ++
    ([u.atom.word] ++ u.postfixes.map (fun op => .sign op.sign))

/-- The prefix operators are applied outside the postfix operators. -/
def tree (u : Operand) : Expr Unit :=
  u.prefixes.foldr (.unary ()) (u.postfixes.foldl (fun e op => .step () op e) u.atom.tree)

end Operand

/-- An infix operator and the operand behind it. -/
abbrev Link := InfixOperator × Operand

/-- Operands with infix operators between them. -/
structure Chain where
  first : Operand
  links : List Link

namespace Chain

/-- An operator or an operand of a chain. -/
inductive Item where
  | operator (op : InfixOperator)
  | operand (e : Expr Unit)

/-- The tokens behind the first operand. -/
def linkWords (links : List Link) : List Token :=
  links.flatMap fun l => .sign l.1.sign :: l.2.words

/-- The operators and operands behind the first operand. -/
def linkItems (links : List Link) : List Item :=
  links.flatMap fun l => [.operator l.1, .operand l.2.tree]

theorem linkWords_append (links links' : List Link) :
    linkWords (links ++ links') = linkWords links ++ linkWords links' :=
  List.flatMap_append

/-- The tokens of a chain. -/
def words (c : Chain) : List Token := c.first.words ++ linkWords c.links

/-- The operands and operators of a chain, from left to right. -/
def items (c : Chain) : List Item := .operand c.first.tree :: linkItems c.links

end Chain

namespace Expr

/-- The infix operator at the root of a tree. -/
def operator? : Expr Unit → Option InfixOperator
  | binary _ op _ _ => some op
  | _ => none

/-- The infix operators of a tree and what they are applied to, from left to right. -/
def inorder : Expr Unit → List Chain.Item
  | binary _ op l r => l.inorder ++ .operator op :: r.inorder
  | e => [.operand e]

/-- Every infix operator binds no tighter than one at the root of its left operand, and looser than
one at the root of its right operand. -/
def Grouped : Expr Unit → Prop
  | binary _ op l r =>
    (∀ p ∈ l.operator?, op.precedence.level ≤ p.precedence.level) ∧
      (∀ p ∈ r.operator?, op.precedence.level < p.precedence.level) ∧ l.Grouped ∧ r.Grouped
  | unary _ _ e | step _ _ e => e.Grouped
  | _ => True

theorem erase_binary {α : Type} (m : α) (op : InfixOperator) (l r : Expr α) :
    (binary m op l r).erase = binary () op l.erase r.erase := by
  simp [erase, map]

theorem inorder_of_operator?_eq_none {e : Expr Unit} (plain : e.operator? = none) :
    e.inorder = [.operand e] := by
  unfold inorder
  split
  · cases plain
  · rfl

end Expr

namespace Operand

/-- No infix operator stands in an operand. -/
theorem tree_plain (u : Operand) : u.tree.operator? = none ∧ u.tree.Grouped := by
  unfold tree
  apply List.foldrRecOn (motive := fun e : Expr Unit => e.operator? = none ∧ e.Grouped)
  · apply List.foldlRecOn (motive := fun e : Expr Unit => e.operator? = none ∧ e.Grouped)
    · cases u.atom <;> exact ⟨rfl, trivial⟩
    · intro e plain op _
      exact ⟨rfl, plain.2⟩
  · intro e plain op _
    exact ⟨rfl, plain.2⟩

theorem words_length_pos (u : Operand) : 0 < u.words.length := by
  rw [words, List.length_append, List.length_append, List.length_singleton]
  omega

theorem inorder_tree (u : Operand) : u.tree.inorder = [.operand u.tree] :=
  Expr.inorder_of_operator?_eq_none u.tree_plain.1

end Operand

theorem Numeral.readInteger_digits (n : Numeral) :
    Decimal.readInteger (String.ofList n.digits) = some n.value := by
  apply Decimal.readInteger_of_split _ n.nonempty n.isDigit
  · rw [if_neg Bool.false_ne_true, Decimal.digitsValue_eq_ofDigitChars]
    refine (Int64.toInt_ofNat_of_lt ?_).symm
    have fits := n.fits
    rw [Int64.toInt_maxValue] at fits
    omega
  · rw [String.toList_ofList, Decimal.splitSign_of_isDigit n.isDigit]

theorem InfixOperator.level_lt_prefixed (op : InfixOperator) :
    op.precedence.level < Precedence.prefixed.level := by
  cases op <;> decide

theorem InfixOperator.lowest_lt_level (op : InfixOperator) :
    Precedence.lowest.level < op.precedence.level := by
  cases op <;> decide

theorem InfixOperator.precedence_sign (op : InfixOperator) :
    (Token.sign op.sign).precedence = op.precedence := by
  rw [Token.precedence, Continuation.ofToken_infix]
  rfl

namespace Parser

variable {words : List Token} {tree : Expr Unit}

/-! ### Operands of a chain -/

/-- The words are read as the tree before what binds no tighter than a prefix operator, and may
then be carried on. -/
def ReadsBefore (words : List Token) (tree : Expr Unit) : Prop :=
  ∀ (fuel : Nat) (level : Precedence) (tokens rest : List SpannedToken) (finish : Position)
    (errors : Array SyntaxError), tokens.map (·.token) = words → words.length ≤ fuel →
    level.level ≤ Precedence.prefixed.level → StopsAt .prefixed rest →
    ∃ e last left, e.erase = tree ∧ fuel < left + words.length ∧
      expression (fuel + 1) level ⟨tokens ++ rest, finish, errors⟩ =
        climb (partsAt fuel) fuel level left e ⟨last :: rest, finish, errors⟩

theorem ReadsAs.readsBefore (read : ReadsAs words tree) : ReadsBefore words tree := by
  intro fuel level tokens rest finish errors same fit low _
  exact read.reads fuel level tokens rest finish errors same fit low

/-- The operand of a prefix operator ends where nothing binds tighter than the operator. -/
theorem ReadsBefore.after_prefix (read : ReadsBefore words tree) (op : PrefixOperator) :
    ReadsBefore (.sign op.sign :: words) (.unary () op tree) := by
  intro fuel level tokens rest finish errors same fit low stops
  obtain ⟨t, ts, rfl, token, sameRest⟩ := List.map_eq_cons_iff.mp same
  rw [List.length_cons] at fit
  obtain ⟨fuel, rfl⟩ : ∃ n, fuel = n + 1 := ⟨fuel - 1, by omega⟩
  obtain ⟨e, last, left, erased, enough, run⟩ :=
    read fuel .prefixed ts rest finish errors sameRest (by omega) (Nat.le_refl _) stops
  obtain ⟨left, rfl⟩ : ∃ n, left = n + 1 := ⟨left - 1, by omega⟩
  rw [climb_stop stops] at run
  refine ⟨.unary (t.span.extend last.span) op e, last, fuel + 1,
    by simp [Expr.erase, Expr.map, ← erased], by simp, ?_⟩
  have noSemicolon : t.token ≠ .sign .semicolon := by
    rw [token]
    cases op <;> simp [PrefixOperator.sign]
  exact expression_run noSemicolon (operand_prefix_run token run)

theorem ReadsAs.before_postfixes (read : ReadsAs words tree) (ops : List PostfixOperator) :
    ReadsAs (words ++ ops.map fun op => .sign op.sign)
      (ops.foldl (fun e op => .step () op e) tree) := by
  induction ops generalizing words tree with
  | nil => rwa [List.map_nil, List.append_nil]
  | cons op ops ih =>
    have one := read.of_continuation (Continuation.ofToken_postfix op) (by cases op <;> decide)
      (stepped op)
    have all := ih one
    rwa [List.append_assoc] at all

theorem readsAs_atom (a : Atom) : ReadsAs [a.word] a.tree := by
  cases a with
  | name n => exact .of_name n
  | integer n => exact .of_digits n.readInteger_digits

theorem readsBefore_operand (u : Operand) : ReadsBefore u.words u.tree := by
  have stem := ((readsAs_atom u.atom).before_postfixes u.postfixes).readsBefore
  unfold Operand.words Operand.tree
  induction u.prefixes with
  | nil => exact stem
  | cons op ops ih => exact ih.after_prefix op

/-! ### Links of a chain -/

/-- A tree that may be the left operand of the links in a place with this level: its root binds
tighter than the level, and no looser than the next link. -/
structure Leads (level : Precedence) (e : Expr Unit) (links : List Link) : Prop where
  grouped : e.Grouped
  binds : ∀ op ∈ e.operator?, level.level < op.precedence.level
  next : ∀ op ∈ e.operator?, ∀ l ∈ links.head?, l.1.precedence.level ≤ op.precedence.level

theorem Leads.of_operand (level : Precedence) (u : Operand) (links : List Link) :
    Leads level u.tree links := by
  obtain ⟨plain, grouped⟩ := u.tree_plain
  refine ⟨grouped, ?_, ?_⟩ <;> rw [plain] <;> exact nofun

/-- Reading the links ends before one that binds no tighter than the level. The tree has what came
before them and those that were taken, in order. -/
def TakesLinks (level : Precedence) (before : List Chain.Item) (links : List Link)
    (finish : Position) (errors : Array SyntaxError)
    (outcome : Outcome State SyntaxError (Expr Span)) : Prop :=
  ∃ e last rest taken left, outcome = .done e ⟨last :: rest, finish, errors⟩ ∧
    links = taken ++ left ∧ rest.map (·.token) = Chain.linkWords left ∧
    e.erase.inorder = before ++ Chain.linkItems taken ∧ Leads level e.erase left ∧
    ∀ l ∈ left.head?, l.1.precedence.level ≤ level.level

/-- The links are taken one by one behind every tree that may be their left operand. -/
def Climbs (links : List Link) : Prop :=
  ∀ (fuel n : Nat) (level : Precedence) (e : Expr Span) (last : SpannedToken)
    (tokens : List SpannedToken) (finish : Position) (errors : Array SyntaxError),
    tokens.map (·.token) = Chain.linkWords links → tokens.length < fuel → tokens.length < n →
    Leads level e.erase links →
    TakesLinks level e.erase.inorder links finish errors
      (climb (partsAt fuel) fuel level n e ⟨last :: tokens, finish, errors⟩)

/-- Links are left alone where the first of them binds no tighter than the level. -/
theorem stopsAt_linkWords {links : List Link} {tokens : List SpannedToken}
    (same : tokens.map (·.token) = Chain.linkWords links) {level : Precedence}
    (loose : ∀ l ∈ links.head?, l.1.precedence.level ≤ level.level) : StopsAt level tokens := by
  cases links with
  | nil =>
    obtain rfl := List.map_eq_nil_iff.mp same
    exact nofun
  | cons l links =>
    obtain ⟨t, ts, rfl, token, _⟩ := List.map_eq_cons_iff.mp same
    intro u member
    cases member
    rw [token, InfixOperator.precedence_sign]
    exact loose l rfl

/-- An operand and the links behind it are read as an expression. -/
theorem expression_reads {links : List Link} (climbs : Climbs links) (u : Operand) (fuel : Nat)
    (level : Precedence) {tokens : List SpannedToken}
    (same : tokens.map (·.token) = u.words ++ Chain.linkWords links)
    (fit : tokens.length < fuel) (low : level.level ≤ Precedence.prefixed.level)
    (finish : Position) (errors : Array SyntaxError) :
    TakesLinks level [.operand u.tree] links finish errors
      ((partsAt fuel).expression level ⟨tokens, finish, errors⟩) := by
  obtain ⟨fuel, rfl⟩ : ∃ n, fuel = n + 1 := ⟨fuel - 1, by omega⟩
  obtain ⟨front, back, rfl, sameFront, sameBack⟩ := List.map_eq_append_iff.mp same
  have stops : StopsAt .prefixed back :=
    stopsAt_linkWords sameBack fun l _ => Nat.le_of_lt l.1.level_lt_prefixed
  have size : front.length = u.words.length := by rw [← sameFront, List.length_map]
  have nonempty := u.words_length_pos
  rw [List.length_append] at fit
  obtain ⟨e, last, left, erased, enough, run⟩ := readsBefore_operand u fuel level front back finish
    errors sameFront (by omega) low stops
  have leads : Leads level e.erase links := by
    rw [erased]
    exact .of_operand level u links
  have taken := climbs fuel left level e last back finish errors sameBack (by omega)
    (by omega) leads
  rw [erased, u.inorder_tree, ← run] at taken
  exact taken

/-- An operator that binds tighter than the place takes its right operand, and the tree of both may
be the left operand of the links that are left. -/
theorem Leads.operate {level : Precedence} {op : InfixOperator} {u : Operand} {l r : Expr Unit}
    {links left : List Link} (lead : Leads level l ((op, u) :: links))
    (binds : level.level < op.precedence.level) (right : Leads op.precedence r left)
    (stops : ∀ l ∈ left.head?, l.1.precedence.level ≤ op.precedence.level) :
    Leads level (.binary () op l r) left where
  grouped := ⟨fun p root => lead.next p root (op, u) rfl, right.binds, lead.grouped, right.grouped⟩
  binds := by
    intro p root
    cases root
    exact binds
  next := by
    intro p root
    cases root
    exact stops

/-- The links that are left have no more tokens than all of them. -/
theorem length_le_of_linkWords {u : Operand} {taken left : List Link}
    {tokens rest : List SpannedToken}
    (same : tokens.map (·.token) = u.words ++ Chain.linkWords (taken ++ left))
    (sameRest : rest.map (·.token) = Chain.linkWords left) : rest.length ≤ tokens.length := by
  have all := congrArg List.length same
  have some := congrArg List.length sameRest
  rw [Chain.linkWords_append, List.length_append, List.length_append, List.length_map] at all
  rw [List.length_map] at some
  omega

/-- Every chain of links is taken up to where the level allows. -/
theorem climb_reads (links : List Link) : Climbs links := by
  induction size : links.length using Nat.strongRecOn generalizing links with
  | ind count ih =>
    intro fuel n level e last tokens finish errors same fit enough leads
    obtain ⟨n, rfl⟩ : ∃ k, n = k + 1 := ⟨n - 1, by omega⟩
    by_cases loose : ∀ l ∈ links.head?, l.1.precedence.level ≤ level.level
    · rw [climb_stop (stopsAt_linkWords same loose)]
      exact ⟨e, last, tokens, [], links, rfl, rfl, same, by simp [Chain.linkItems], leads, loose⟩
    · cases links with
      | nil => exact absurd (by simp) loose
      | cons l links =>
        obtain ⟨op, u⟩ := l
        have binds : level.level < op.precedence.level := by simpa using loose
        obtain ⟨t, ts, rfl, token, sameRest⟩ := List.map_eq_cons_iff.mp same
        rw [List.length_cons] at fit enough size
        obtain ⟨r, last', rest, taken, left, run, rfl, sameLeft, ordered, right, stops⟩ :=
          expression_reads (ih links.length (by omega) links rfl) u fuel op.precedence sameRest
            (by omega) (Nat.le_of_lt op.level_lt_prefixed) finish errors
        have shorter := length_le_of_linkWords sameRest sameLeft
        have fewer : left.length < count := by
          rw [List.length_append] at size
          omega
        -- The operator and its right operand join the tree, and the climb goes on behind them.
        have joined : Leads level (Expr.binary (e.mark.extend last'.span) op e r).erase left := by
          rw [Expr.erase_binary]
          exact leads.operate binds right stops
        obtain ⟨e', last'', rest', taken', left', run', rfl, same', ordered', leads', stops'⟩ :=
          ih left.length fewer left rfl fuel n level _ last' rest finish errors sameLeft (by omega)
            (by omega) joined
        have follows : Continuation.ofToken? t.token = some (.operate op) := by
          rw [token, Continuation.ofToken_infix]
        refine ⟨e', last'', rest', (op, u) :: (taken ++ taken'), left', ?_, by simp, same', ?_,
          leads', stops'⟩
        · rw [climb_step follows binds (continuation_infix_run run), run']
        · rw [ordered', Expr.erase_binary, Expr.inorder, ordered]
          simp [Chain.linkItems]

/-- At the lowest level every link is taken. -/
theorem TakesLinks.all {before : List Chain.Item} {links : List Link} {finish : Position}
    {errors : Array SyntaxError} {outcome : Outcome State SyntaxError (Expr Span)}
    (taking : TakesLinks .lowest before links finish errors outcome) :
    ∃ e last, outcome = .done e ⟨[last], finish, errors⟩ ∧
      e.erase.inorder = before ++ Chain.linkItems links ∧ e.erase.Grouped := by
  obtain ⟨e, last, rest, taken, left, done, rfl, same, ordered, leads, loose⟩ := taking
  cases left with
  | nil =>
    obtain rfl := List.map_eq_nil_iff.mp same
    rw [List.append_nil]
    exact ⟨e, last, done, ordered, leads.grouped⟩
  | cons l left => exact absurd (loose l rfl) (Nat.not_le_of_lt l.1.lowest_lt_level)

end Parser

open Scripting.Parser

/-- An operand starts no statement of another kind, and does not end the source. -/
theorem Operand.words_head (u : Operand) : ∃ w ws, u.words = w :: ws ∧ w ≠ .endOfFile ∧
    w ∉ [.keyword .letWord, .keyword .deleteWord, .keyword .returnWord] := by
  unfold words
  cases u.prefixes with
  | nil =>
    refine ⟨u.atom.word, _, rfl, ?_⟩
    cases u.atom <;> simp [Atom.word]
  | cons op ops => exact ⟨.sign op.sign, _, rfl, by simp, by simp⟩

namespace Chain

/-- The program is one expression without errors, which has the operands and operators of the chain
in their order and groups them by precedence. -/
def IsReadAs (c : Chain) (result : Program Span × List SyntaxError) : Prop :=
  ∃ (mark : Span) (e : Expr Span), result = (⟨[.expression mark e]⟩, []) ∧
    e.erase.inorder = c.items ∧ e.erase.Grouped

theorem isReadAs_parseTokens {c : Chain} {tokens : List SpannedToken}
    (same : tokens.map (·.token) = c.words) (finish : Position) :
    c.IsReadAs (parseTokens tokens finish) := by
  obtain ⟨e, last, run, ordered, grouped⟩ := (expression_reads (climb_reads c.links) c.first
    (tokens.length + 2) .lowest same (by omega) (Nat.zero_le _) finish #[]).all
  obtain ⟨w, ws, starts, proper, plain⟩ := c.first.words_head
  rw [words, starts] at same
  obtain ⟨t, ts, rfl, token, _⟩ := List.map_eq_cons_iff.mp same
  have whole := program_run (token ▸ proper) (statement_expression_run (token ▸ plain) run)
  refine ⟨t.span.extend last.span, e, ?_, ordered, grouped⟩
  unfold parseTokens
  rw [whole]

/-- A chain is read as one expression that groups it by precedence and to the left, both from its
tokens and from a source that is made of them. -/
theorem parse_grouped (c : Chain) :
    (∀ (tokens : List SpannedToken) (finish : Position), tokens.map (·.token) = c.words →
      c.IsReadAs (parseTokens tokens finish)) ∧
    ∀ source : String, (Cursor.ofString source).tokens.1.map (·.token) = c.words →
      c.IsReadAs (parse source) := by
  refine ⟨fun tokens finish same => isReadAs_parseTokens same finish, ?_⟩
  intro source same
  exact isReadAs_parseTokens same _

/-- Levels that rise and fall, operators on both sides of an operand, and a minus of either kind. -/
theorem parse_grouped_rise_and_fall :
    let name (s : String) : Operand := ⟨[], .name s, []⟩
    let ten : Numeral := ⟨['1', '0'], nofun, List.all_eq_true.mp rfl, by decide⟩
    let c : Chain := ⟨⟨[.negate, .logicalNot], .name "a", [.increment]⟩,
      [(.subtract, ⟨[.negate], .integer ten, []⟩), (.multiply, name "b"), (.divide, name "c"),
        (.lessThan, name "d"), (.or, ⟨[.decrement], .name "e", [.decrement, .increment]⟩),
        (.and, name "f"), (.equalTo, name "g"), (.or, name "h")]⟩
    let source := "-!a++ - -10 * b / c < d || --e-- ++ && f == g || h"
    (Cursor.ofString source).tokens.1.map (·.token) = c.words ∧ c.IsReadAs (parse source) := by
  intro name ten c source
  have lexed : (Cursor.ofString source).tokens.1.map (·.token) = c.words := by decide
  exact ⟨lexed, (parse_grouped c).2 source lexed⟩

end Chain

end Scripting
