import Scripting.Proofs.PairedParsing
import Scripting.Proofs.ParsedSources

/-!
# Where errors are reported

An error is reported at the start of a token, the one at the end of the file included. A statement
fails at the token where its reading stands or at the next one, and reading then goes on behind the
former. So the places of errors never go back, with one exception: that something cannot be assigned
to is noticed when the value has been read, and reported at the sign before it. `Told` is what the
errors are known to be at every moment; it is kept as a bond of the reading to itself.
-/

namespace Scripting

/-- The fault is that something cannot be assigned to. -/
def SyntaxFault.isTarget : SyntaxFault → Bool
  | invalidAssignTarget _ => true
  | _ => false

namespace Cursor

/-- When all tokens are collected, only the end is left, and it stands behind them. -/
theorem collect_end (n : Nat) (c : Cursor) (read : List SpannedToken) (enough : c.rest.length ≤ n)
    (before : ∀ t ∈ read, t.span.stop ≤ c.position) :
    (c.collect n read).2.next.1.token = .endOfFile ∧
      ∀ t ∈ (c.collect n read).1, t.span.stop ≤ (c.collect n read).2.position := by
  induction n generalizing c read with
  | zero =>
    have empty : c.rest = [] := List.eq_nil_of_length_eq_zero (Nat.le_zero.mp enough)
    refine ⟨next_of_nil ?_, before⟩
    rw [collect, empty]
    rfl
  | succ n ih =>
    obtain ⟨after, spread, reached⟩ := c.next_places
    unfold collect
    dsimp only
    cases here : c.rest.drop (gapLength false c.rest) with
    | nil =>
      rw [if_pos (next_of_nil here)]
      exact ⟨next_of_nil here, before⟩
    | cons ch rest =>
      have proper := (Token.scan_proper ch rest).2
      have shorter := length_rest_next_lt here
      rw [if_neg ((next_of_cons here).1 ▸ proper)]
      refine ih _ _ (by omega) fun t member => ?_
      rcases List.mem_cons.mp member with rfl | member
      · exact reached.le
      · exact (before t member).trans (after.trans (spread.trans reached.le))

theorem tokens_end (c : Cursor) : c.tokens.2.next.1.token = .endOfFile ∧
    ∀ t ∈ c.tokens.1, t.span.stop ≤ c.tokens.2.position := by
  obtain ⟨ended, behind⟩ := collect_end _ c [] (Nat.le_refl _) (by simp)
  exact ⟨ended, fun t member => behind t (List.mem_reverse.mp member)⟩

end Cursor

/-- The token that ends a source. -/
def endTokenOf (source : String) : SpannedToken := (Cursor.ofString source).tokens.2.next.1

theorem token_endTokenOf (source : String) : (endTokenOf source).token = .endOfFile :=
  (Cursor.tokens_end _).1

/-- The end of a source stands behind all its tokens. -/
theorem stop_le_finishOf {source : String} {t : SpannedToken} (member : t ∈ tokensOf source) :
    t.span.stop ≤ finishOf source :=
  ((Cursor.tokens_end (Cursor.ofString source)).2 t member).trans (Cursor.next_places _).1

namespace Parser

/-- A row of tokens in front of their end. -/
structure Row (tokens : List SpannedToken) (finish : Position) : Prop where
  ordered : Ordered tokens
  behind : ∀ t ∈ tokens, t.span.stop ≤ finish

/-- The start of a token, or the end. -/
def Placed (tokens : List SpannedToken) (finish p : Position) : Prop :=
  p = finish ∨ ∃ t ∈ tokens, p = t.span.start

/-- Errors stand at tokens. Those that are not about a target are in order, and none of them stands
behind the current token. -/
structure Told (tokens : List SpannedToken) (finish : Position) (s : State) : Prop where
  suffix : s.tokens <:+ tokens
  bound : s.finish = finish
  placed : ∀ e ∈ s.errors.toList, Placed tokens finish e.position
  sorted : (s.errors.toList.filter fun e => !e.fault.isTarget).Pairwise (·.position ≤ ·.position)
  before : ∀ e ∈ s.errors.toList, e.fault.isTarget = false → e.position ≤ s.current.span.start

/-- What is known of an error with which reading fails. It stands at a token and, if it is not about
a target, at the current one or between it and the next. -/
structure Raised (tokens : List SpannedToken) (finish : Position) (e : SyntaxError) (s : State) :
    Prop where
  told : Told tokens finish s
  placed : Placed tokens finish e.position
  near : e.fault.isTarget = false →
    s.current.span.start ≤ e.position ∧ e.position ≤ s.bump.current.span.start

section

variable {tokens : List SpannedToken} {finish : Position} {s : State} {e : SyntaxError}

theorem Told.placed_current (told : Told tokens finish s) :
    Placed tokens finish s.current.span.start := by
  unfold State.current
  cases here : s.tokens with
  | nil => exact .inl told.bound
  | cons t ts => exact .inr ⟨t, told.suffix.subset (by simp [here]), rfl⟩

/-- The next token does not start before the current one. -/
theorem Told.start_le (row : Row tokens finish) (told : Told tokens finish s) :
    s.current.span.start ≤ s.bump.current.span.start := by
  have ordered := row.ordered.sublist told.suffix.sublist
  unfold State.bump State.current
  match here : s.tokens with
  | [] => exact le_refl _
  | [t] =>
    have member : t ∈ tokens := told.suffix.subset (by simp [here])
    show t.span.start ≤ s.finish
    rw [told.bound]
    exact (row.ordered.each t member).trans (row.behind t member)
  | t :: u :: ts =>
    rw [here] at ordered
    exact ordered.start_le rfl (by simp)

theorem Told.bump (row : Row tokens finish) (told : Told tokens finish s) :
    Told tokens finish s.bump where
  suffix := (List.tail_suffix _).trans told.suffix
  bound := told.bound
  placed := told.placed
  sorted := told.sorted
  before := fun e held other => (told.before e held other).trans (told.start_le row)

/-- A reported error comes after those before it, and reading goes on behind it. -/
theorem Raised.report (row : Row tokens finish) (raised : Raised tokens finish e s) :
    Told tokens finish (s.report e).bump where
  suffix := (raised.told.bump row).suffix
  bound := raised.told.bound
  placed := by
    intro f held
    rcases List.mem_append.mp (Array.toList_push ▸ held) with old | new
    · exact raised.told.placed f old
    · exact List.mem_singleton.mp new ▸ raised.placed
  sorted := by
    show ((s.errors.push e).toList.filter _).Pairwise _
    rw [Array.toList_push, List.filter_append, List.pairwise_append]
    refine ⟨raised.told.sorted, List.Pairwise.filter _ (List.pairwise_singleton _ _), ?_⟩
    intro f old g new
    simp only [List.mem_filter, Bool.not_eq_true', List.mem_singleton] at old new
    obtain ⟨rfl, other⟩ := new
    exact (raised.told.before f old.1 old.2).trans (raised.near other).1
  before := by
    intro f held other
    rcases List.mem_append.mp (Array.toList_push ▸ held) with old | new
    · exact (raised.told.bump row).before f old other
    · obtain rfl := List.mem_singleton.mp new
      exact (raised.near other).2

theorem Told.raised (told : Told tokens finish s) (fault : SyntaxFault) {p : Position}
    (placed : Placed tokens finish p) (after : s.current.span.start ≤ p)
    (near : p ≤ s.bump.current.span.start) : Raised tokens finish ⟨p, fault⟩ s :=
  ⟨told, placed, fun _ => ⟨after, near⟩⟩

/-- A reading is bonded to itself by what is known of its errors. -/
def tellingBond (row : Row tokens finish) : Bond where
  Linked s s' := s' = s ∧ Told tokens finish s
  Failed e s e' s' := e' = e ∧ s' = s ∧ Raised tokens finish e s
  current := fun ⟨same, _⟩ => same ▸ rfl
  bump := fun ⟨same, told⟩ => ⟨same ▸ rfl, told.bump row⟩
  here := by
    rintro s _ fault ⟨rfl, told⟩
    exact ⟨rfl, rfl, told.raised fault told.placed_current (le_refl _) (told.start_le row)⟩
  ahead := by
    rintro s _ fault ⟨rfl, told⟩
    exact ⟨rfl, rfl, told.raised fault (told.bump row).placed_current (told.start_le row)
      (le_refl _)⟩
  behind := by
    rintro s _ t _ literal ⟨rfl, told⟩ ⟨rfl, later⟩
    exact ⟨rfl, rfl, later, told.placed_current, nofun⟩
  report := by
    rintro s _ e _ ⟨rfl, rfl, raised⟩
    exact ⟨rfl, raised.report row⟩

theorem told_program (row : Row tokens finish) {n : Nat} {stmts : List (Stmt Span)} {t : State}
    (run : program n ⟨tokens, finish, #[]⟩ = .done stmts t) : Told tokens finish t := by
  have start : Told tokens finish ⟨tokens, finish, #[]⟩ :=
    ⟨List.suffix_refl _, rfl, by simp, by simp, by simp⟩
  have paired := paired_program (tellingBond row) n ⟨rfl, start⟩
  unfold Paired at paired
  rw [run] at paired
  cases paired with
  | done _ linked => exact linked.2

end

end Parser

/-- Every syntax error of a source stands at the start of one of its tokens, of which the last is
the end of the file. Leaving out those about a target that cannot be assigned to, they are reported
in the order of their places. -/
theorem errors_point_at_tokens_in_order (source : String) :
    (endTokenOf source).token = .endOfFile ∧
    (∀ e ∈ (parse source).2,
      ∃ t ∈ tokensOf source ++ [endTokenOf source], e.position = t.span.start) ∧
    ((parse source).2.filter fun e => !e.fault.isTarget).Pairwise (·.position ≤ ·.position) := by
  obtain ⟨t, run, errors, _⟩ := parse_row source
  have row : Parser.Row (tokensOf source) (finishOf source) :=
    ⟨ordered_tokensOf source, fun _ member => stop_le_finishOf member⟩
  have told := Parser.told_program row run
  rw [errors]
  refine ⟨token_endTokenOf source, fun e held => ?_, told.sorted⟩
  rcases told.placed e held with final | ⟨t, member, start⟩
  · exact ⟨endTokenOf source, by simp, final⟩
  · exact ⟨t, List.mem_append_left _ member, start⟩

end Scripting
