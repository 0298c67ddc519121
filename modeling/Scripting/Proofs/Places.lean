import Mathlib.Data.Prod.Lex
import Scripting.Proofs.Layout

/-!
# Places in order

Positions are in line, and the tokens of a source follow one another without overlap: `Ordered`. In
such a row the span that is extended from one token to a later one starts with the first and stops
with the last.
-/

namespace Scripting

namespace Position

/-- What a position is compared by: its byte, then its line, then its column. -/
def rank (p : Position) : ℕ ×ₗ ℕ ×ₗ ℕ := toLex (p.byte, toLex (p.line, p.column))

theorem rank_injective : Function.Injective rank := by
  rintro ⟨_, _, _⟩ ⟨_, _, _⟩ same
  cases same
  rfl

instance : LinearOrder Position := LinearOrder.lift' rank rank_injective

theorem lt_iff {p q : Position} : p < q ↔ p.byte < q.byte ∨
    p.byte = q.byte ∧ (p.line < q.line ∨ p.line = q.line ∧ p.column < q.column) := by
  show rank p < rank q ↔ _
  simp only [rank, Prod.Lex.toLex_lt_toLex]

/-- The order is the one that positions are compared by. -/
theorem order_eq_gt {p q : Position} : p.order q = .gt ↔ q < p := by
  rw [lt_iff, @eq_comm _ q.byte, @eq_comm _ q.line]
  simp only [order, Ordering.then_eq_gt, Nat.compare_eq_gt, Nat.compare_eq_eq]

theorem earlier_eq_min (p q : Position) : p.earlier q = min p q := by
  unfold earlier
  by_cases after : q < p
  · rw [if_pos (order_eq_gt.mpr after), min_eq_right after.le]
  · rw [if_neg (mt order_eq_gt.mp after), min_eq_left (not_lt.mp after)]

theorem later_eq_max (p q : Position) : p.later q = max p q := by
  unfold later
  by_cases after : q < p
  · rw [if_pos (order_eq_gt.mpr after), max_eq_left after.le]
  · rw [if_neg (mt order_eq_gt.mp after), max_eq_right (not_lt.mp after)]

theorem le_after (p : Position) (text : List Char) : p ≤ p.after text := by
  induction text generalizing p with
  | nil => exact le_refl p
  | cons c cs ih =>
    have further : p < p.advance c := by
      rw [lt_iff, byte_advance]
      exact .inl (Nat.lt_add_of_pos_right c.utf8Size_pos)
    exact further.le.trans (ih _)

end Position

/-- Reaching as far as it already does changes nothing. -/
@[simp] theorem Span.extend_self (s : Span) : s.extend s = s := by
  simp only [extend, Position.earlier_eq_min, Position.later_eq_max, min_self, max_self]

theorem Span.extend_of_le {s t : Span} (start : s.start ≤ t.start) (stop : s.stop ≤ t.stop) :
    s.extend t = ⟨s.start, t.stop⟩ := by
  simp only [extend, Position.earlier_eq_min, Position.later_eq_max, min_eq_left start,
    max_eq_right stop]

theorem Span.start_extend_le (s t : Span) : (s.extend t).start ≤ s.start := by
  simp only [extend, Position.earlier_eq_min, min_le_left]

theorem Span.stop_le_extend (s t : Span) : t.stop ≤ (s.extend t).stop := by
  simp only [extend, Position.later_eq_max, le_max_right]

/-- The span goes from the start of the first of the tokens to the end of the last one. -/
def Span.RunsOver (s : Span) (ts : List SpannedToken) : Prop :=
  ∃ first last, ts.head? = some first ∧ ts.getLast? = some last ∧
    s = ⟨first.span.start, last.span.stop⟩

/-- The span runs over some tokens in the row. -/
def Span.RunsWithin (s : Span) (ts : List SpannedToken) : Prop :=
  ∃ run, run <:+: ts ∧ s.RunsOver run

theorem Span.RunsWithin.mono {s : Span} {ts us : List SpannedToken} (runs : s.RunsWithin us)
    (part : us <:+: ts) : s.RunsWithin ts := by
  obtain ⟨run, inside, whole⟩ := runs
  exact ⟨run, inside.trans part, whole⟩

/-- The tokens follow one another without overlap. -/
structure Ordered (ts : List SpannedToken) : Prop where
  each : ∀ t ∈ ts, t.span.start ≤ t.span.stop
  apart : ts.Pairwise fun t u => t.span.stop ≤ u.span.start

namespace Ordered

variable {ts us : List SpannedToken} {t first last : SpannedToken}

theorem sublist (ordered : Ordered ts) (part : us.Sublist ts) : Ordered us where
  each t member := ordered.each t (part.subset member)
  apart := ordered.apart.sublist part

theorem append (front : Ordered ts) (back : Ordered us)
    (between : ∀ t ∈ ts, ∀ u ∈ us, t.span.stop ≤ u.span.start) : Ordered (ts ++ us) where
  each t member := (List.mem_append.mp member).elim (front.each t) (back.each t)
  apart := List.pairwise_append.mpr ⟨front.apart, back.apart, between⟩

/-- No token starts before the first one. -/
theorem start_le (ordered : Ordered ts) (head : ts.head? = some first) (member : t ∈ ts) :
    first.span.start ≤ t.span.start := by
  obtain ⟨rest, rfl⟩ := List.head?_eq_some_iff.mp head
  rcases List.mem_cons.mp member with rfl | later
  · exact le_refl _
  · exact (ordered.each first List.mem_cons_self).trans
      (List.rel_of_pairwise_cons ordered.apart later)

/-- No token stops after the last one. -/
theorem le_stop (ordered : Ordered ts) (final : ts.getLast? = some last) (member : t ∈ ts) :
    t.span.stop ≤ last.span.stop := by
  obtain ⟨front, rfl⟩ := List.getLast?_eq_some_iff.mp final
  rcases List.mem_append.mp member with earlier | here
  · exact ((List.pairwise_append.mp ordered.apart).2.2 t earlier last (by simp)).trans
      (ordered.each last (by simp))
  · rw [List.mem_singleton.mp here]

/-- A span that is extended from the first token to the last one runs over all of them. -/
theorem runsOver (ordered : Ordered ts) (head : ts.head? = some first)
    (final : ts.getLast? = some last) : (first.span.extend last.span).RunsOver ts :=
  ⟨first, last, head, final, Span.extend_of_le
    (ordered.start_le head (List.mem_of_getLast? final))
    (ordered.le_stop final (List.mem_of_head? head))⟩

/-- A span over some of the tokens that is extended to the last one runs over all tokens from where
it starts. -/
theorem runsWithin_extend {s : Span} (ordered : Ordered ts) (runs : s.RunsWithin ts)
    (final : ts.getLast? = some last) : (s.extend last.span).RunsWithin ts := by
  obtain ⟨run, ⟨before, after, rfl⟩, begin, finish, starts, ends, rfl⟩ := runs
  rw [List.append_assoc] at ordered final ⊢
  -- The new run goes on through the rest of the row, not only up to where the span ended.
  have suffix := List.suffix_append before (run ++ after)
  have onward := ordered.sublist suffix.sublist
  have head : (run ++ after).head? = some begin := by rw [List.head?_append, starts, Option.some_or]
  have last : (run ++ after).getLast? = some last := by
    rw [List.getLast?_append, Option.or_eq_some_iff] at final
    refine final.resolve_right fun ⟨empty, _⟩ => ?_
    rw [List.getLast?_eq_none_iff.mp empty] at head
    cases head
  refine ⟨run ++ after, suffix.isInfix, begin, _, head, last, Span.extend_of_le ?_ ?_⟩
  · exact onward.start_le head (List.mem_of_getLast? last)
  · exact onward.le_stop last (List.mem_append_left after (List.mem_of_getLast? ends))

/-- A span that runs over some of the tokens keeps within them. -/
theorem bounds {s : Span} (ordered : Ordered ts) (runs : s.RunsWithin ts)
    (head : ts.head? = some first) (final : ts.getLast? = some last) :
    first.span.start ≤ s.start ∧ s.start ≤ s.stop ∧ s.stop ≤ last.span.stop := by
  obtain ⟨run, part, begin, finish, starts, ends, rfl⟩ := runs
  have within := ordered.sublist part.sublist
  have here := List.mem_of_head? starts
  refine ⟨ordered.start_le head (part.subset here), ?_,
    ordered.le_stop final (part.subset (List.mem_of_getLast? ends))⟩
  exact (within.each begin here).trans (within.le_stop ends here)

/-- Spans over tokens of two rows, one of which follows the other, do not overlap. -/
theorem stop_le_start {s t : Span} (ordered : Ordered (ts ++ us)) (front : s.RunsWithin ts)
    (back : t.RunsWithin us) : s.stop ≤ t.start := by
  obtain ⟨_, part, _, finish, _, ends, rfl⟩ := front
  obtain ⟨_, part', begin, _, starts, _, rfl⟩ := back
  have between := (List.pairwise_append.mp ordered.apart).2.2
  exact between finish (part.subset (List.mem_of_getLast? ends)) begin
    (part'.subset (List.mem_of_head? starts))

end Ordered

namespace Cursor

/-- A token stands between the place where it was asked for and the place that is reached. -/
theorem next_places (c : Cursor) : c.position ≤ c.next.1.span.start ∧
    c.next.1.span.start ≤ c.next.1.span.stop ∧ c.next.1.span.stop = c.next.2.position := by
  have gap : c.position ≤ c.skipGap.position := by
    rw [skipGap, position_skip]
    exact Position.le_after _ _
  unfold next
  dsimp only
  split
  · exact ⟨gap, le_refl _, rfl⟩
  · refine ⟨gap, ?_, rfl⟩
    dsimp only
    rw [position_skip]
    exact Position.le_after _ _

theorem ordered_collect (n : Nat) (c : Cursor) (read : List SpannedToken)
    (ordered : Ordered read.reverse) (before : ∀ t ∈ read, t.span.stop ≤ c.position) :
    Ordered (c.collect n read).1.reverse := by
  induction n generalizing c read with
  | zero => exact ordered
  | succ n ih =>
    obtain ⟨after, spread, reached⟩ := c.next_places
    unfold collect
    dsimp only
    split
    · exact ordered
    · apply ih
      · rw [List.reverse_cons]
        refine ordered.append ⟨by simpa using spread, List.pairwise_singleton _ _⟩ ?_
        intro t member u here
        rw [List.mem_singleton.mp here]
        exact (before t (List.mem_reverse.mp member)).trans after
      · intro t member
        rcases List.mem_cons.mp member with rfl | member
        · exact reached.le
        · exact (before t member).trans (after.trans (spread.trans reached.le))

/-- The tokens of a text follow one another without overlap. -/
theorem ordered_tokens (c : Cursor) : Ordered c.tokens.1 :=
  ordered_collect _ c [] ⟨nofun, List.Pairwise.nil⟩ nofun

end Cursor

end Scripting
