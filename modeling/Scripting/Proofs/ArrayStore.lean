import Scripting.ArrayStore

/-!
# What the operations on arrays do to views and storages

A store is seen through two observers: the view that an array is, `view`, and the storage of a
number, `storageAt`. Every operation is described by what it does to these two, so that no later
proof has to open an operation.
-/

namespace Scripting

theorem getD_modify {α : Type} (xs : Array α) (i n : Nat) (f : α → α) (d : α) :
    (xs.modify i f).getD n d = if n = i ∧ i < xs.size then f (xs.getD n d) else xs.getD n d := by
  simp only [Array.getD_eq_getD_getElem?, Array.getElem?_modify]
  by_cases same : i = n
  · subst same
    by_cases inside : i < xs.size <;> simp [inside]
  · simp [same, Ne.symm same]

/-- Where the change leaves the default alone it does not matter that the place exists. -/
theorem getD_modify_of_fixed {α : Type} (xs : Array α) (i n : Nat) (f : α → α) (d : α)
    (fixed : f d = d) :
    (xs.modify i f).getD n d = if n = i then f (xs.getD n d) else xs.getD n d := by
  rw [getD_modify]
  by_cases inside : i < xs.size
  · simp only [inside, and_true]
  · by_cases same : n = i
    · subst same
      simp [inside, fixed]
    · simp [same]

theorem getD_push {α : Type} (xs : Array α) (x : α) (n : Nat) (d : α) :
    (xs.push x).getD n d = if n = xs.size then x else xs.getD n d := by
  simp only [Array.getD_eq_getD_getElem?, Array.getElem?_push]
  split <;> simp

namespace ArrayStore

variable (s : ArrayStore)

/-- The storage of a number. -/
def storageAt (n : Nat) : Storage := s.storages.getD n default

theorem slots_eq (a : ArrayId) : s.slots a = (s.storageAt (s.view a).storage).slots := rfl

theorem get?_eq (a : ArrayId) (i : Nat) :
    s.get? a i = if i < s.length a then (s.slots a)[(s.view a).start + i]? else none := rfl

/-- The elements of an array are what reading gives at each index. -/
theorem getElem?_elements (a : ArrayId) (i : Nat) : (s.elements a)[i]? = s.get? a i := by
  simp only [elements, get?, List.getElem?_take, List.getElem?_drop, Array.getElem?_toList]

/-! ## Making arrays -/

@[simp] theorem size_views_new (xs : Array Value) :
    (s.new xs).2.views.size = s.views.size + 1 := by simp [new]

@[simp] theorem size_storages_new (xs : Array Value) :
    (s.new xs).2.storages.size = s.storages.size + 1 := by simp [new]

theorem view_new (xs : Array Value) (b : ArrayId) :
    (s.new xs).2.view b =
      if b = s.views.size then ⟨s.storages.size, 0, xs.size⟩ else s.view b :=
  getD_push _ _ _ _

theorem storageAt_new (xs : Array Value) (n : Nat) :
    (s.new xs).2.storageAt n = if n = s.storages.size then ⟨xs, 1⟩ else s.storageAt n :=
  getD_push _ _ _ _

@[simp] theorem size_views_slice (a : ArrayId) (low high : Nat) :
    (s.slice a low high).2.views.size = s.views.size + 1 := by simp [slice]

@[simp] theorem size_storages_slice (a : ArrayId) (low high : Nat) :
    (s.slice a low high).2.storages.size = s.storages.size := by simp [slice]

theorem view_slice (a : ArrayId) (low high : Nat) (b : ArrayId) :
    (s.slice a low high).2.view b =
      if b = s.views.size then ⟨(s.view a).storage, (s.view a).start + low, high - low⟩
      else s.view b :=
  getD_push _ _ _ _

theorem storageAt_slice (a : ArrayId) (low high n : Nat) :
    (s.slice a low high).2.storageAt n =
      if n = (s.view a).storage ∧ (s.view a).storage < s.storages.size then
        ⟨(s.storageAt n).slots, (s.storageAt n).views + 1⟩
      else s.storageAt n :=
  getD_modify _ _ _ _ _

/-- A slice counts as one more view and leaves the slots as they are. -/
@[simp] theorem slots_storageAt_slice (a : ArrayId) (low high n : Nat) :
    ((s.slice a low high).2.storageAt n).slots = (s.storageAt n).slots := by
  rw [storageAt_slice]
  split <;> rfl

/-! ## Writing a slot -/

@[simp] theorem size_views_write (storage slot : Nat) (x : Value) :
    (s.write storage slot x).views.size = s.views.size := rfl

@[simp] theorem size_storages_write (storage slot : Nat) (x : Value) :
    (s.write storage slot x).storages.size = s.storages.size := by simp [write]

@[simp] theorem view_write (storage slot : Nat) (x : Value) (a : ArrayId) :
    (s.write storage slot x).view a = s.view a := rfl

theorem storageAt_write (storage slot : Nat) (x : Value) (n : Nat) :
    (s.write storage slot x).storageAt n =
      if n = storage then ⟨(s.storageAt n).slots.setIfInBounds slot x, (s.storageAt n).views⟩
      else s.storageAt n :=
  getD_modify_of_fixed _ _ _ _ _ rfl

/-- An element outside of the view is not written. -/
theorem set_eq (a : ArrayId) (i : Nat) (x : Value) :
    s.set a i x = (s.get? a i,
      if (s.get? a i).isSome then s.write (s.view a).storage ((s.view a).start + i) x else s) := by
  unfold set
  cases found : s.get? a i <;> simp

@[simp] theorem size_views_set (a : ArrayId) (i : Nat) (x : Value) :
    (s.set a i x).2.views.size = s.views.size := by
  rw [set_eq]
  dsimp only
  split <;> rfl

@[simp] theorem size_storages_set (a : ArrayId) (i : Nat) (x : Value) :
    (s.set a i x).2.storages.size = s.storages.size := by
  rw [set_eq]
  dsimp only
  split <;> simp

@[simp] theorem view_set (a : ArrayId) (i : Nat) (x : Value) (b : ArrayId) :
    (s.set a i x).2.view b = s.view b := by
  rw [set_eq]
  dsimp only
  split <;> rfl

/-! ## Growing -/

@[simp] theorem size_views_resize (a : ArrayId) (n : Nat) :
    (s.resize a n).views.size = s.views.size := by simp [resize]

@[simp] theorem size_storages_resize (a : ArrayId) (n : Nat) :
    (s.resize a n).storages.size = s.storages.size := rfl

@[simp] theorem storageAt_resize (a : ArrayId) (n m : Nat) :
    (s.resize a n).storageAt m = s.storageAt m := rfl

theorem view_resize (a : ArrayId) (n : Nat) (b : ArrayId) :
    (s.resize a n).view b =
      if b = a ∧ a < s.views.size then ⟨(s.view b).storage, (s.view b).start, n⟩ else s.view b :=
  getD_modify _ _ _ _ _

@[simp] theorem size_views_writeOrAppend (storage slot : Nat) (x : Value) :
    (s.writeOrAppend storage slot x).views.size = s.views.size := rfl

@[simp] theorem size_storages_writeOrAppend (storage slot : Nat) (x : Value) :
    (s.writeOrAppend storage slot x).storages.size = s.storages.size := by simp [writeOrAppend]

@[simp] theorem view_writeOrAppend (storage slot : Nat) (x : Value) (a : ArrayId) :
    (s.writeOrAppend storage slot x).view a = s.view a := rfl

theorem storageAt_writeOrAppend (storage slot : Nat) (x : Value) (n : Nat) :
    (s.writeOrAppend storage slot x).storageAt n =
      if n = storage ∧ storage < s.storages.size then
        if slot < (s.storageAt n).slots.size then
          ⟨(s.storageAt n).slots.setIfInBounds slot x, (s.storageAt n).views⟩
        else ⟨(s.storageAt n).slots.push x, (s.storageAt n).views⟩
      else s.storageAt n :=
  getD_modify _ _ _ _ _

@[simp] theorem size_views_push (a : ArrayId) (x : Value) :
    (s.push a x).2.views.size = s.views.size := by simp [push]

@[simp] theorem size_storages_push (a : ArrayId) (x : Value) :
    (s.push a x).2.storages.size = s.storages.size := by simp [push]

theorem view_push (a : ArrayId) (x : Value) (b : ArrayId) :
    (s.push a x).2.view b =
      if b = a ∧ a < s.views.size then
        ⟨(s.view b).storage, (s.view b).start, s.length a + 1⟩
      else s.view b := by
  rw [push, view_resize]
  rfl

/-- Growing moves no view to another place. -/
@[simp] theorem storage_view_push (a : ArrayId) (x : Value) (b : ArrayId) :
    ((s.push a x).2.view b).storage = (s.view b).storage := by
  rw [view_push]
  split <;> rfl

@[simp] theorem start_view_push (a : ArrayId) (x : Value) (b : ArrayId) :
    ((s.push a x).2.view b).start = (s.view b).start := by
  rw [view_push]
  split <;> rfl

theorem storageAt_push (a : ArrayId) (x : Value) (n : Nat) :
    (s.push a x).2.storageAt n =
      (s.writeOrAppend (s.view a).storage ((s.view a).start + s.length a) x).storageAt n := rfl

/-! ## Shrinking -/

@[simp] theorem size_views_release (storage slot : Nat) :
    (s.release storage slot).views.size = s.views.size := rfl

@[simp] theorem size_storages_release (storage slot : Nat) :
    (s.release storage slot).storages.size = s.storages.size := by simp [release]

@[simp] theorem view_release (storage slot : Nat) (a : ArrayId) :
    (s.release storage slot).view a = s.view a := rfl

theorem storageAt_release (storage slot n : Nat) :
    (s.release storage slot).storageAt n =
      if n = storage ∧ (s.storageAt n).views = 1 then
        ⟨(s.storageAt n).slots.take slot, (s.storageAt n).views⟩
      else s.storageAt n := by
  refine (getD_modify_of_fixed _ _ _ _ _ rfl).trans ?_
  by_cases same : n = storage
  · simp only [same, true_and]
    rfl
  · simp [same, storageAt]

theorem pop_eq (a : ArrayId) :
    s.pop a =
      if s.length a = 0 then (none, s)
      else ((s.slots a)[(s.view a).start + (s.length a - 1)]?,
        (s.resize a (s.length a - 1)).release (s.view a).storage
          ((s.view a).start + (s.length a - 1))) := rfl

@[simp] theorem size_views_pop (a : ArrayId) : (s.pop a).2.views.size = s.views.size := by
  rw [pop_eq]
  split <;> simp

@[simp] theorem size_storages_pop (a : ArrayId) :
    (s.pop a).2.storages.size = s.storages.size := by
  rw [pop_eq]
  split <;> simp

theorem view_pop (a b : ArrayId) :
    (s.pop a).2.view b =
      if b = a ∧ a < s.views.size then
        ⟨(s.view b).storage, (s.view b).start, s.length a - 1⟩
      else s.view b := by
  rw [pop_eq]
  by_cases empty : s.length a = 0
  · simp only [if_pos empty]
    split
    · rename_i here
      have unchanged : s.length a - 1 = (s.view b).length := by rw [here.1, ← length]; omega
      rw [unchanged]
    · rfl
  · rw [if_neg empty, view_release, view_resize]

/-- Shrinking moves no view to another storage. -/
@[simp] theorem storage_view_pop (a b : ArrayId) :
    ((s.pop a).2.view b).storage = (s.view b).storage := by
  rw [view_pop]
  split <;> rfl

theorem storageAt_pop (a : ArrayId) (n : Nat) :
    (s.pop a).2.storageAt n =
      if s.length a ≠ 0 ∧ n = (s.view a).storage ∧ (s.storageAt n).views = 1 then
        ⟨(s.storageAt n).slots.take ((s.view a).start + (s.length a - 1)), (s.storageAt n).views⟩
      else s.storageAt n := by
  rw [pop_eq]
  by_cases empty : s.length a = 0
  · simp [empty]
  · rw [if_neg empty, storageAt_release, storageAt_resize]
    by_cases single : n = (s.view a).storage ∧ (s.storageAt n).views = 1
    · rw [if_pos single, if_pos ⟨empty, single⟩]
    · rw [if_neg single, if_neg (fun both => single both.2)]

/-- A storage that the shrinking array does not look at stays as it is. -/
theorem storageAt_pop_of_ne (a : ArrayId) {n : Nat} (other : n ≠ (s.view a).storage) :
    (s.pop a).2.storageAt n = s.storageAt n := by
  rw [storageAt_pop, if_neg (fun same => other same.2.1)]

/-- Releasing slots behind the last one of a view never moves or adds a slot. -/
theorem views_storageAt_pop (a : ArrayId) (n : Nat) :
    ((s.pop a).2.storageAt n).views = (s.storageAt n).views := by
  rw [storageAt_pop]
  split <;> rfl

end ArrayStore

end Scripting
