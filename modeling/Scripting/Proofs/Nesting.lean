import Scripting.Proofs.ParsedSources

/-!
# Spans inside spans

With or without errors, the span of a node runs over tokens of the source, the spans of the nodes
right below it are inside, and these follow one another without overlap. Not every span reaches over
all tokens that its node takes up: parentheses around the first node in it are left out.
-/

namespace Scripting

namespace Parsed

/-- The span of the node runs over some of the tokens and encloses those of the nodes right below,
each of which ends before the next one starts. -/
structure Node.WellPlaced (ts : List SpannedToken) (n : Node) : Prop where
  runs : n.mark.RunsWithin ts
  inside : ∀ c ∈ n.children, n.mark.start ≤ c.mark.start ∧ c.mark.stop ≤ n.mark.stop
  apart : n.children.Pairwise fun c d => c.mark.stop ≤ d.mark.start

variable {clean : Prop} {n : Node} {opened : List Sign} {items : List Item}
  {first last : SpannedToken} {ts : List SpannedToken}

theorem Form.runsWithin (form : Form clean n opened items first last) (ordered : Ordered ts)
    (head : ts.head? = some first) (final : ts.getLast? = some last)
    (deeper : ∀ m ∈ nodes items, m.mark.RunsWithin ts) : n.mark.RunsWithin ts := by
  obtain ⟨start, mark, rfl | ⟨m, _, _, rfl, rfl⟩⟩ := form.mark_eq
  · rw [mark]
    exact ⟨ts, List.infix_refl ts, ordered.runsOver head final⟩
  · rw [mark]
    exact ordered.runsWithin_extend (deeper m List.mem_cons_self) final

/-- Every node in a row has a span over some of its tokens. -/
theorem Fills.runsWithin (fills : Fills clean items ts) (ordered : Ordered ts)
    (member : n ∈ nodes items) : n.mark.RunsWithin ts := by
  have placed : ∃ us, us <:+: ts ∧ (Ordered us → n.mark.RunsWithin us) := by
    refine fills.each (fun n us => Ordered us → n.mark.RunsWithin us) ?_ member
    intro n _ _ _ _ us form _ head final deeper ordered
    refine form.runsWithin ordered head final fun m below => ?_
    obtain ⟨vs, part, runs⟩ := deeper m below
    exact (runs (ordered.sublist part.sublist)).mono part
  obtain ⟨us, part, runs⟩ := placed
  exact (runs (ordered.sublist part.sublist)).mono part

/-- The spans of the nodes in a row follow one another. -/
theorem Fills.apart (fills : Fills clean items ts) (ordered : Ordered ts) :
    (nodes items).Pairwise fun c d => c.mark.stop ≤ d.mark.start := by
  induction items generalizing ts with
  | nil => exact List.Pairwise.nil
  | cons item items ih =>
    rw [← List.singleton_append] at fills
    obtain ⟨us, vs, rfl, front, back⟩ := fills.split
    have earlier := ordered.sublist (List.sublist_append_left us vs)
    have later := ordered.sublist (List.sublist_append_right us vs)
    cases item with
    | token => exact ih back later
    | node n =>
      refine List.pairwise_cons.mpr ⟨fun d member => ?_, ih back later⟩
      exact ordered.stop_le_start (front.runsWithin earlier List.mem_cons_self)
        (back.runsWithin later member)

/-- A node encloses what it is put together from. -/
theorem Occupies.wellPlaced (occupied : Occupies clean n ts) (ordered : Ordered ts) :
    n.WellPlaced ts := by
  obtain ⟨opened, items, first, last, form, fills, head, final⟩ := occupied
  have apart := fills.apart ordered
  have runs : ∀ m ∈ nodes items, m.mark.RunsWithin ts := fun m => fills.runsWithin ordered
  refine ⟨form.runsWithin ordered head final runs, ?_, form.nodes_eq ▸ apart⟩
  rw [← form.nodes_eq]
  intro c member
  obtain ⟨after, _, before⟩ := ordered.bounds (runs c member) head final
  obtain ⟨start, mark, origin⟩ := form.mark_eq
  have starts : start.start ≤ c.mark.start := by
    obtain rfl | ⟨m, _, _, rfl, rfl⟩ := origin
    · exact after
    -- Parentheses in front of the first node are left out, so the others are compared with it.
    · rcases List.mem_cons.mp member with rfl | later
      · exact le_refl _
      · have spread := (ordered.bounds (runs m List.mem_cons_self) head final).2.1
        exact spread.trans (List.rel_of_pairwise_cons apart later)
  rw [mark]
  exact ⟨(Span.start_extend_le _ _).trans starts, before.trans (Span.stop_le_extend _ _)⟩

end Parsed

open Parsed

/-- The spans of a program are nested and in order, also if there are errors. The statements follow
one another, and every node has a span that goes from a token to the same or a later one, encloses
those of the nodes right below it and keeps them apart in the order in which they are written. -/
theorem spans_nested_in_order (source : String) :
    ((parse source).1.stmts.Pairwise fun s t => s.mark.stop ≤ t.mark.start) ∧
      ∀ n : Parsed.Node, (parse source).1.Holds n → n.WellPlaced (tokensOf source) := by
  have ordered := ordered_tokensOf source
  constructor
  · obtain ⟨items, filled, strung⟩ := parse_fills source
    have apart := filled.apart ordered
    rw [strung.nodes_eq, List.pairwise_map] at apart
    exact apart
  · intro n held
    obtain ⟨ts, part, occupied⟩ := occupies_of_holds held
    obtain ⟨runs, inside, apart⟩ := occupied.wellPlaced (ordered.sublist part.sublist)
    exact ⟨runs.mono part, inside, apart⟩

/-- A slice from the start, whose lower bound stands on the bracket, after two errors. -/
theorem spans_nested_in_order_of_slice :
    let source := "let = 1 a[:n]"
    (parse source).2.length = 2 ∧ ∃ e l h : Expr Span, ∃ mark₁ mark₂,
      (parse source).1.Holds (.expr (.index mark₁ e (.slice mark₂ l (some h)))) ∧
      mark₁.start ≤ e.mark.start ∧ e.mark.stop ≤ mark₂.start ∧ mark₂.stop ≤ mark₁.stop := by
  intro source
  obtain ⟨e, l, h, mark, mark₁, mark₂, s, error₁, error₂, read⟩ :
      ∃ e l h mark mark₁ mark₂ s error₁ error₂, parse source =
        (⟨[s, .expression mark (.index mark₁ e (.slice mark₂ l (some h)))]⟩, [error₁, error₂]) :=
    ⟨_, _, _, _, _, _, _, _, _, by cbv⟩
  have errors : (parse source).2.length = 2 := by rw [read]; rfl
  have held : (parse source).1.Holds (.expr (.index mark₁ e (.slice mark₂ l (some h)))) := by
    rw [read]
    exact ⟨_, List.mem_cons_of_mem _ List.mem_cons_self, .single List.mem_cons_self⟩
  obtain ⟨_, inside, apart⟩ := (spans_nested_in_order source).2 _ held
  have slice : Parsed.Node.expr (.slice mark₂ l (some h)) ∈
      (Parsed.Node.expr (.index mark₁ e (.slice mark₂ l (some h)))).children :=
    List.mem_cons_of_mem _ List.mem_cons_self
  exact ⟨errors, e, l, h, mark₁, mark₂, held, (inside _ List.mem_cons_self).1,
    List.rel_of_pairwise_cons apart List.mem_cons_self, (inside _ slice).2⟩

end Scripting
