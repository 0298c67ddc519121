import Scripting.Proofs.Aliasing

/-!
# Storages of different length

Taking the last element off an array cuts its storage off where no other array looks at it. Beside a
store that does so stands one that leaves all storage as it is, `popKeeping`. The two have the same
views, and what is left of a storage is a prefix of what it would be if nothing had been cut off:
`ArrayStore.Mirrors`. No view that is in use reaches further, so reading gives the same on both
sides, and where one of them has to append, the other overwrites a slot or appends as well.
-/

namespace Scripting

section Prefixes

variable {α : Type} {xs ys : List α}

theorem prefix_set (front : xs <+: ys) {i : Nat} (inside : i < xs.length) (x : α) :
    xs.set i x <+: ys.set i x := by
  obtain ⟨rest, rfl⟩ := front
  rw [List.set_append_left i x inside]
  exact List.prefix_append _ _

/-- Where the shorter row ends, the longer one is overwritten or ends as well. -/
theorem prefix_append_set (front : xs <+: ys) (x : α) :
    xs ++ [x] <+: if xs.length < ys.length then ys.set xs.length x else ys ++ [x] := by
  obtain ⟨rest, rfl⟩ := front
  cases rest with
  | nil => simp
  | cons y rest => simp

end Prefixes

namespace ArrayStore

/-- Takes the last element off a view, gives it, and leaves the storage as it is. -/
def popKeeping (s : ArrayStore) (a : ArrayId) : Option Value × ArrayStore :=
  if s.length a = 0 then (none, s)
  else ((s.slots a)[(s.view a).start + (s.length a - 1)]?, s.resize a (s.length a - 1))

/-- The stores have the same views, and a storage of the second one starts with all that the first
one has in it. -/
structure Mirrors (s t : ArrayStore) : Prop where
  views : t.views = s.views
  storages : t.storages.size = s.storages.size
  slots : ∀ n, (s.storageAt n).slots.toList <+: (t.storageAt n).slots.toList

namespace Mirrors

variable {s t : ArrayStore} {live : Finset ArrayId} {a : ArrayId} {n slot : Nat}
  (mirrors : Mirrors s t)

include mirrors

theorem view (a : ArrayId) : t.view a = s.view a := by
  rw [ArrayStore.view, mirrors.views]
  rfl

theorem length (a : ArrayId) : t.length a = s.length a :=
  congrArg View.length (mirrors.view a)

theorem getElem?_slots {i : Nat} (inside : i < (s.slots a).size) :
    (t.slots a)[i]? = (s.slots a)[i]? := by
  rw [slots_eq] at inside
  obtain ⟨rest, whole⟩ := mirrors.slots (s.view a).storage
  rw [slots_eq, slots_eq, mirrors.view, ← Array.getElem?_toList, ← Array.getElem?_toList, ← whole,
    List.getElem?_append_left inside]

theorem get? (sound : s.Sound live) (held : a ∈ live) (i : Nat) : t.get? a i = s.get? a i := by
  rw [get?_eq, get?_eq, mirrors.length, mirrors.view]
  split
  · rename_i inside
    exact mirrors.getElem?_slots (sound.slot_lt held inside)
  · rfl

theorem elements (sound : s.Sound live) (held : a ∈ live) : t.elements a = s.elements a := by
  apply List.ext_getElem?
  intro i
  rw [getElem?_elements, getElem?_elements, mirrors.get? sound held]

/-! ### One change on both sides -/

theorem new (xs : Array Value) : Mirrors (s.new xs).2 (t.new xs).2 where
  views := by
    change t.views.push ⟨t.storages.size, 0, xs.size⟩ = s.views.push ⟨s.storages.size, 0, xs.size⟩
    rw [mirrors.views, mirrors.storages]
  storages := by rw [size_storages_new, size_storages_new, mirrors.storages]
  slots n := by
    rw [storageAt_new, storageAt_new, mirrors.storages]
    split
    · exact List.prefix_refl _
    · exact mirrors.slots n

theorem slice (a : ArrayId) (low high : Nat) :
    Mirrors (s.slice a low high).2 (t.slice a low high).2 where
  views := by
    change t.views.push ⟨(t.view a).storage, (t.view a).start + low, high - low⟩ =
      s.views.push ⟨(s.view a).storage, (s.view a).start + low, high - low⟩
    rw [mirrors.views, mirrors.view]
  storages := by rw [size_storages_slice, size_storages_slice, mirrors.storages]
  slots n := by
    rw [slots_storageAt_slice, slots_storageAt_slice]
    exact mirrors.slots n

theorem write (inside : slot < (s.storageAt n).slots.size) (x : Value) :
    Mirrors (s.write n slot x) (t.write n slot x) where
  views := mirrors.views
  storages := by rw [size_storages_write, size_storages_write, mirrors.storages]
  slots m := by
    rw [storageAt_write, storageAt_write]
    split
    · rename_i here
      subst here
      simp only [Array.toList_setIfInBounds]
      exact prefix_set (mirrors.slots m) inside x
    · exact mirrors.slots m

theorem writeOrAppend (fits : slot ≤ (s.storageAt n).slots.size) (x : Value) :
    Mirrors (s.writeOrAppend n slot x) (t.writeOrAppend n slot x) where
  views := mirrors.views
  storages := by rw [size_storages_writeOrAppend, size_storages_writeOrAppend, mirrors.storages]
  slots m := by
    have front := mirrors.slots m
    have longer := front.length_le
    rw [Array.length_toList, Array.length_toList] at longer
    rw [storageAt_writeOrAppend, storageAt_writeOrAppend, mirrors.storages]
    by_cases here : m = n ∧ n < s.storages.size
    · rw [if_pos here, if_pos here]
      obtain ⟨rfl, _⟩ := here
      by_cases room : slot < (s.storageAt m).slots.size
      · rw [if_pos room, if_pos (by omega)]
        simp only [Array.toList_setIfInBounds]
        exact prefix_set front room x
      · have full : slot = (s.storageAt m).slots.toList.length := by
          rw [Array.length_toList]
          omega
        have grown := prefix_append_set front x
        rw [← full, Array.length_toList] at grown
        rw [if_neg room]
        split
        · rename_i more
          rw [if_pos more] at grown
          simpa using grown
        · rename_i same
          rw [if_neg same] at grown
          simpa using grown
    · rw [if_neg here, if_neg here]
      exact front

theorem resize (a : ArrayId) (n : Nat) : Mirrors (s.resize a n) (t.resize a n) where
  views := congrArg (fun views => views.modify a fun v => ⟨v.storage, v.start, n⟩) mirrors.views
  storages := mirrors.storages
  slots := mirrors.slots

/-! ### What is cut off or given up on one side -/

theorem release (n slot : Nat) : Mirrors (s.release n slot) t where
  views := mirrors.views
  storages := by rw [size_storages_release, mirrors.storages]
  slots m := by
    rw [storageAt_release]
    split
    · rw [Array.take_eq_extract, Array.toList_extract]
      exact (List.take_prefix _ _).trans (mirrors.slots m)
    · exact mirrors.slots m

theorem drop (a : ArrayId) : Mirrors (s.drop a) t where
  views := mirrors.views
  storages := by rw [ArrayStore.drop, Array.size_modify, mirrors.storages]
  slots m := by
    rw [storageAt_drop]
    split <;> exact mirrors.slots m

/-! ### Operations -/

theorem set (sound : s.Sound live) (held : a ∈ live) (i : Nat) (x : Value) :
    (t.set a i x).1 = (s.set a i x).1 ∧ Mirrors (s.set a i x).2 (t.set a i x).2 := by
  rw [set_eq, set_eq, mirrors.get? sound held]
  refine ⟨rfl, ?_⟩
  dsimp only
  split
  · rename_i there
    have inside : i < s.length a := by
      rw [get?_eq] at there
      split at there
      · assumption
      · cases there
    have slot := sound.slot_lt held inside
    rw [slots_eq] at slot
    rw [mirrors.view]
    exact mirrors.write slot x
  · exact mirrors

theorem push (sound : s.Sound live) (held : a ∈ live) (x : Value) :
    (t.push a x).1 = (s.push a x).1 ∧ Mirrors (s.push a x).2 (t.push a x).2 := by
  have fits := sound.fits a held
  rw [slots_eq] at fits
  unfold ArrayStore.push
  rw [mirrors.view]
  exact ⟨rfl, (mirrors.writeOrAppend fits x).resize a _⟩

theorem popKeeping (sound : s.Sound live) (held : a ∈ live) :
    (t.popKeeping a).1 = (s.popKeeping a).1 ∧
      Mirrors (s.popKeeping a).2 (t.popKeeping a).2 := by
  unfold ArrayStore.popKeeping
  rw [mirrors.length, mirrors.view]
  split
  · exact ⟨rfl, mirrors⟩
  · rename_i nonempty
    have last := sound.slot_lt held (Nat.pred_lt nonempty)
    exact ⟨mirrors.getElem?_slots last, mirrors.resize a _⟩

end Mirrors

/-! ## With and without releasing -/

section Pop

variable (s : ArrayStore) (a : ArrayId)

/-- Releasing is all that taking an element off does besides. -/
theorem pop_eq_popKeeping :
    s.pop a = ((s.popKeeping a).1, if s.length a = 0 then s else
      (s.popKeeping a).2.release (s.view a).storage ((s.view a).start + (s.length a - 1))) := by
  rw [pop_eq, popKeeping]
  split <;> rfl

theorem Mirrors.pop {s t : ArrayStore} {a : ArrayId} (mirrors : Mirrors (s.popKeeping a).2 t) :
    Mirrors (s.pop a).2 t := by
  rw [pop_eq_popKeeping]
  dsimp only
  split
  · rename_i empty
    rwa [ArrayStore.popKeeping, if_pos empty] at mirrors
  · exact mirrors.release _ _

@[simp] theorem storageAt_popKeeping (n : Nat) :
    (s.popKeeping a).2.storageAt n = s.storageAt n := by
  rw [popKeeping]
  split <;> rfl

theorem view_popKeeping (b : ArrayId) : (s.popKeeping a).2.view b = (s.pop a).2.view b := by
  rw [pop_eq_popKeeping]
  dsimp only
  split
  · rename_i empty
    rw [popKeeping, if_pos empty]
  · rfl

@[simp] theorem storage_view_popKeeping (b : ArrayId) :
    ((s.popKeeping a).2.view b).storage = (s.view b).storage := by
  rw [view_popKeeping, storage_view_pop]

end Pop

protected theorem Sound.popKeeping {s : ArrayStore} {live : Finset ArrayId} (sound : s.Sound live)
    (a : ArrayId) : (s.popKeeping a).2.Sound live := by
  have sizes : (s.popKeeping a).2.views.size = s.views.size ∧
      (s.popKeeping a).2.storages.size = s.storages.size := by
    rw [popKeeping]
    split <;> simp
  refine sound.of_grown sizes.1 sizes.2 (by simp) (by simp) ?_
  intro b held
  have fits := sound.fits b held
  rw [slots_eq, storage_view_popKeeping, storageAt_popKeeping, ← slots_eq, length,
    view_popKeeping, view_pop]
  split
  · rename_i here
    rw [here.1] at fits ⊢
    dsimp only
    omega
  · exact fits

/-- Where an array is the only one to look at its storage, it is counted so. -/
theorem Sound.views_eq_one_iff {s : ArrayStore} {live : Finset ArrayId} (sound : s.Sound live)
    {a : ArrayId} (held : a ∈ live) :
    (s.storageAt (s.view a).storage).views = 1 ↔
      ∀ b ∈ live, (s.view b).storage = (s.view a).storage → b = a := by
  constructor
  · intro single b other same
    by_contra different
    exact sound.views_ne_one held other different same single
  · intro alone
    rw [sound.counted, Finset.card_eq_one]
    refine ⟨a, Finset.eq_singleton_iff_unique_mem.mpr ⟨?_, ?_⟩⟩
    · exact Finset.mem_filter.mpr ⟨held, rfl⟩
    · intro b member
      obtain ⟨other, same⟩ := Finset.mem_filter.mp member
      exact alone b other same

end ArrayStore

end Scripting
