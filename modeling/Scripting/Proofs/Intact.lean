import Scripting.Proofs.CallEffects
import Scripting.Proofs.Sessions

/-!
# Collections that stay intact

In a session every value that is held anywhere leads to something that is there, every array lies
within its storage and the index of every hash is exact.
-/

namespace Scripting

namespace Heap

/-- Links lead to what is there, arrays lie within their storages, and indices are exact. -/
structure Intact (h : Heap) : Prop where
  formed : (sparing fun _ => False).Sound h
  arrays : h.arrays.Sound (Finset.range h.arrays.views.size)
  tables : ∀ id, (h.table id).Indexed

/-- The value leads to something that is there. -/
abbrev Leads (h : Heap) (v : Value) : Prop := (sparing fun _ => False).Allowed h v

variable {h h' : Heap}

theorem Leads.array_mem {a : ArrayId} (leads : h.Leads (.array a)) :
    a ∈ Finset.range h.arrays.views.size := by
  have there : h.Has (.view a) := (leads _ rfl).1
  rw [Finset.mem_range]
  simpa [Has, cell?] using there

namespace Intact

variable (intact : h.Intact)
include intact

/-- Only the frames or the functions have changed. -/
theorem of_collections (formed : (sparing fun _ => False).Sound h') (arrays : h'.arrays = h.arrays)
    (tables : h'.tables = h.tables) : h'.Intact where
  formed := formed
  arrays := by
    rw [arrays]
    exact intact.arrays
  tables := by
    intro id
    have indexed := intact.tables id
    unfold table at indexed ⊢
    rwa [tables]

/-- Only the arrays have changed. -/
theorem of_arrays (formed : (sparing fun _ => False).Sound h')
    (arrays : h'.arrays.Sound (Finset.range h'.arrays.views.size))
    (tables : h'.tables = h.tables) : h'.Intact where
  formed := formed
  arrays := arrays
  tables := by
    intro id
    have indexed := intact.tables id
    unfold table at indexed ⊢
    rwa [tables]

theorem newArray_arrays (elements : Array Value) :
    (h.newArray elements).2.arrays.Sound
      (Finset.range (h.newArray elements).2.arrays.views.size) := by
  have made := intact.arrays.new elements
  rw [← Finset.range_add_one] at made
  change (h.arrays.new elements).2.Sound (Finset.range (h.arrays.new elements).2.views.size)
  rwa [ArrayStore.size_views_new]

theorem newView_arrays {a : ArrayId} (leads : h.Leads (.array a)) {low high : Nat}
    (ordered : low ≤ high) (bounded : high ≤ h.arrays.length a) :
    (h.newView a low high).2.arrays.Sound
      (Finset.range (h.newView a low high).2.arrays.views.size) := by
  have made := intact.arrays.slice leads.array_mem ordered bounded
  rw [← Finset.range_add_one] at made
  change (h.arrays.slice a low high).2.Sound
    (Finset.range (h.arrays.slice a low high).2.views.size)
  rwa [ArrayStore.size_views_slice]

theorem set_arrays (a : ArrayId) (i : Nat) (x : Value) :
    (h.arrays.set a i x).2.Sound (Finset.range (h.arrays.set a i x).2.views.size) := by
  rw [ArrayStore.size_views_set]
  exact intact.arrays.set a i x

theorem push_arrays {a : ArrayId} (leads : h.Leads (.array a)) (x : Value) :
    (h.arrays.push a x).2.Sound (Finset.range (h.arrays.push a x).2.views.size) := by
  rw [ArrayStore.size_views_push]
  exact intact.arrays.push leads.array_mem x

theorem pop_arrays {a : ArrayId} (leads : h.Leads (.array a)) :
    (h.arrays.pop a).2.Sound (Finset.range (h.arrays.pop a).2.views.size) := by
  rw [ArrayStore.size_views_pop]
  exact intact.arrays.pop leads.array_mem

theorem newHash_tables {t : Table} (indexed : t.Indexed) (id : HashId) :
    ((h.newHash t).2.table id).Indexed := by
  change ((h.tables.push t).getD id default).Indexed
  rw [getD_push]
  split
  · exact indexed
  · exact intact.tables id

theorem modifyTable_tables (id : HashId) {g : Table → Table}
    (kept : ∀ t : Table, t.Indexed → (g t).Indexed) (n : HashId) :
    ((h.modifyTable id g).table n).Indexed := by
  change ((h.tables.modify id g).getD n default).Indexed
  rw [getD_modify]
  split
  · exact kept _ (intact.tables n)
  · exact intact.tables n

end Intact

/-- Evaluation keeps the heap intact. -/
def keepingIntact : Discipline :=
  let base := sparing fun _ => False
  { base with
    Sound := Intact
    parent := fun intact => base.parent intact.formed
    binding := fun intact => base.binding intact.formed
    captured := fun intact => base.captured intact.formed
    slot := fun intact => base.slot intact.formed
    entry := fun intact => base.entry intact.formed
    child := by
      intro h f bs intact opened bound
      obtain ⟨⟨formed, step⟩, made⟩ := base.child intact.formed opened bound
      exact ⟨⟨intact.of_collections formed rfl rfl, step⟩, made⟩
    bind := by
      intro h f name v intact opened value
      obtain ⟨formed, step⟩ := base.bind intact.formed opened value
      exact ⟨intact.of_collections formed rfl rfl, step⟩
    unbind := by
      intro h f name intact opened
      obtain ⟨formed, step⟩ := base.unbind intact.formed opened
      exact ⟨intact.of_collections formed rfl rfl, step⟩
    newArray := by
      intro h elements intact held
      obtain ⟨⟨formed, step⟩, made⟩ := base.newArray intact.formed held
      exact ⟨⟨intact.of_arrays formed (intact.newArray_arrays elements) rfl, step⟩, made⟩
    newView := by
      intro h a low high intact leads ordered bounded
      obtain ⟨⟨formed, step⟩, made⟩ := base.newView intact.formed leads ordered bounded
      exact ⟨⟨intact.of_arrays formed (intact.newView_arrays leads ordered bounded) rfl, step⟩, made⟩
    set := by
      intro h a i v intact leads inside value
      obtain ⟨formed, step⟩ := base.set intact.formed leads inside value
      exact ⟨intact.of_arrays formed (intact.set_arrays a i v) rfl, step⟩
    push := by
      intro h a v intact leads value
      obtain ⟨formed, step⟩ := base.push intact.formed leads value
      exact ⟨intact.of_arrays formed (intact.push_arrays leads v) rfl, step⟩
    pop := by
      intro h a intact leads
      obtain ⟨formed, step⟩ := base.pop intact.formed leads
      exact ⟨intact.of_arrays formed (intact.pop_arrays leads) rfl, step⟩
    newHash := by
      intro h t intact indexed held
      obtain ⟨⟨formed, step⟩, made⟩ := base.newHash intact.formed indexed held
      exact ⟨⟨⟨formed, intact.arrays, intact.newHash_tables indexed⟩, step⟩, made⟩
    putEntry := by
      intro h id k name v intact leads named value
      obtain ⟨formed, step⟩ := base.putEntry intact.formed leads named value
      exact ⟨⟨formed, intact.arrays,
        intact.modifyTable_tables id fun t indexed => indexed.put k name v⟩, step⟩
    eraseEntry := by
      intro h id k intact leads
      obtain ⟨formed, step⟩ := base.eraseEntry intact.formed leads
      exact ⟨⟨formed, intact.arrays,
        intact.modifyTable_tables id fun t indexed => indexed.erase k⟩, step⟩
    newFunction := by
      intro h c intact opened
      obtain ⟨⟨formed, step⟩, made⟩ := base.newFunction intact.formed opened
      exact ⟨⟨intact.of_collections formed rfl rfl, step⟩, made⟩ }

end Heap

namespace Machine

theorem keepingIntact_new (clock : Nat → String) :
    Heap.keepingIntact.Ready (new clock).heap (new clock).scope := by
  have formed := wellFormed_new clock
  refine ⟨⟨Heap.separated_nothing.mpr formed.heap, .empty, fun id => ?_⟩, formed.scope, id⟩
  exact .empty

/-- Every machine of a session is intact. -/
theorem Session.intact {m : Machine} (session : Session m) :
    Heap.keepingIntact.Ready m.heap m.scope := session.ready keepingIntact_new

end Machine

end Scripting
