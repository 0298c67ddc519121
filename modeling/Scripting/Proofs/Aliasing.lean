import Mathlib.Data.Finset.Card
import Scripting.Proofs.ArrayStore
import Scripting.Value.Indexing

/-!
# Arrays alias exactly where they overlap

Any number of views look at the same storage. A view may be dropped again, and a storage counts the
views that are left. `ArrayStore.Sound` ties the two together: every view in use lies within its
storage, and the count of a storage is the number of views in use that look at it. The last point
is what makes it safe to cut a storage off when an element is taken off its only view.

The main statement is `aliasing_after_run`: after any sequence of operations, what one view does is
seen through another one at the very slots that both of them cover, and nowhere else.
-/

namespace Scripting

namespace ArrayStore

/-- Stops counting an array as a view of its storage. -/
def drop (s : ArrayStore) (a : ArrayId) : ArrayStore :=
  ⟨s.views, s.storages.modify (s.view a).storage fun c => ⟨c.slots, c.views - 1⟩⟩

@[simp] theorem view_drop (s : ArrayStore) (a b : ArrayId) : (s.drop a).view b = s.view b := rfl

theorem storageAt_drop (s : ArrayStore) (a : ArrayId) (n : Nat) :
    (s.drop a).storageAt n =
      if n = (s.view a).storage then ⟨(s.storageAt n).slots, (s.storageAt n).views - 1⟩
      else s.storageAt n :=
  getD_modify_of_fixed _ _ _ _ _ rfl

@[simp] theorem slots_drop (s : ArrayStore) (a b : ArrayId) : (s.drop a).slots b = s.slots b := by
  rw [slots_eq, slots_eq, view_drop, storageAt_drop]
  split <;> rfl

/-- The arrays in use that look at a storage. -/
def viewers (s : ArrayStore) (live : Finset ArrayId) (n : Nat) : Finset ArrayId :=
  live.filter fun a => (s.view a).storage = n

/-- Every array in use lies within its storage, and storages know how many arrays look at them. -/
structure Sound (s : ArrayStore) (live : Finset ArrayId) : Prop where
  known : ∀ a ∈ live, a < s.views.size
  stored : ∀ a ∈ live, (s.view a).storage < s.storages.size
  fits : ∀ a ∈ live, (s.view a).start + s.length a ≤ (s.slots a).size
  counted : ∀ n, (s.storageAt n).views = (s.viewers live n).card

namespace Sound

variable {s : ArrayStore} {live : Finset ArrayId}

theorem length_elements (sound : s.Sound live) {a : ArrayId} (held : a ∈ live) :
    (s.elements a).length = s.length a := by
  have fits := sound.fits a held
  simp only [elements, List.length_take, List.length_drop, Array.length_toList, length] at fits ⊢
  omega

/-- An index below the length names a slot of the storage. -/
theorem slot_lt (sound : s.Sound live) {a : ArrayId} (held : a ∈ live) {i : Nat}
    (inside : i < s.length a) : (s.view a).start + i < (s.slots a).size := by
  have fits := sound.fits a held
  omega

theorem get?_isSome (sound : s.Sound live) {a : ArrayId} (held : a ∈ live) {i : Nat}
    (inside : i < s.length a) : (s.get? a i).isSome := by
  rw [get?_eq, if_pos inside, Array.getElem?_eq_getElem (sound.slot_lt held inside)]
  rfl

/-! ## What is seen through another view -/

theorem get?_set (sound : s.Sound live) {v : ArrayId} (held : v ∈ live) {i : Nat}
    (inside : i < s.length v) (x : Value) (w : ArrayId) {j : Nat} (covered : j < s.length w) :
    (s.set v i x).2.get? w j =
      if (s.view w).storage = (s.view v).storage ∧ (s.view w).start + j = (s.view v).start + i
      then some x else s.get? w j := by
  have bound := sound.slot_lt held inside
  have kept : j < (s.set v i x).2.length w := by rwa [length, view_set]
  rw [get?_eq, if_pos kept, slots_eq, view_set, set_eq, if_pos (sound.get?_isSome held inside),
    storageAt_write, get?_eq, if_pos covered]
  by_cases same : (s.view w).storage = (s.view v).storage
  · have shared : s.slots w = s.slots v := by rw [slots_eq, slots_eq, same]
    rw [if_pos same, Array.getElem?_setIfInBounds, ← slots_eq, shared]
    by_cases here : (s.view w).start + j = (s.view v).start + i
    · rw [if_pos here.symm, if_pos bound, if_pos ⟨same, here⟩]
    · rw [if_neg (Ne.symm here), if_neg (fun both => here both.2)]
  · rw [if_neg same, if_neg (fun both => same both.1), ← slots_eq]

theorem get?_push (sound : s.Sound live) {v : ArrayId} (held : v ∈ live) (x : Value) (w : ArrayId)
    {j : Nat} (covered : j < (s.push v x).2.length w) :
    (s.push v x).2.get? w j =
      if (s.view w).storage = (s.view v).storage ∧
        (s.view w).start + j = (s.view v).start + s.length v
      then some x else (s.slots w)[(s.view w).start + j]? := by
  have fits := sound.fits v held
  rw [get?_eq, if_pos covered, slots_eq, storage_view_push, start_view_push, storageAt_push,
    storageAt_writeOrAppend]
  by_cases same : (s.view w).storage = (s.view v).storage
  · have grown : s.slots w = s.slots v := by rw [slots_eq, slots_eq, same]
    rw [if_pos ⟨same, sound.stored v held⟩, ← slots_eq, grown]
    by_cases room : (s.view v).start + s.length v < (s.slots v).size
    · rw [if_pos room, Array.getElem?_setIfInBounds]
      by_cases here : (s.view w).start + j = (s.view v).start + s.length v
      · rw [if_pos here.symm, if_pos room, if_pos ⟨same, here⟩]
      · rw [if_neg (Ne.symm here), if_neg (fun both => here both.2)]
    · -- The view ends where its storage does, so the new slot is the one after the last.
      have full : (s.slots v).size = (s.view v).start + s.length v := by omega
      rw [if_neg room, Array.getElem?_push, full]
      by_cases here : (s.view w).start + j = (s.view v).start + s.length v
      · rw [if_pos here, if_pos ⟨same, here⟩]
      · rw [if_neg here, if_neg (fun both => here both.2)]
  · rw [if_neg (fun both => same both.1), if_neg (fun both => same both.1), ← slots_eq]

/-- Two arrays in use that look at one storage make it count more than one view. -/
theorem views_ne_one (sound : s.Sound live) {v w : ArrayId} (held : v ∈ live) (other : w ∈ live)
    (different : w ≠ v) (same : (s.view w).storage = (s.view v).storage) :
    (s.storageAt (s.view v).storage).views ≠ 1 := by
  rw [sound.counted]
  intro single
  obtain ⟨only, all⟩ := Finset.card_eq_one.mp single
  have first : v ∈ s.viewers live (s.view v).storage := Finset.mem_filter.mpr ⟨held, rfl⟩
  have second : w ∈ s.viewers live (s.view v).storage := Finset.mem_filter.mpr ⟨other, same⟩
  rw [all, Finset.mem_singleton] at first second
  exact different (second.trans first.symm)

/-- Taking an element off a view leaves the slots that another view looks at as they are. -/
theorem slots_pop_of_ne (sound : s.Sound live) {v w : ArrayId} (held : v ∈ live) (other : w ∈ live)
    (different : w ≠ v) : (s.pop v).2.slots w = s.slots w := by
  have window : (s.pop v).2.view w = s.view w := by
    rw [view_pop, if_neg (fun both => different both.1)]
  rw [slots_eq, slots_eq, window]
  by_cases same : (s.view w).storage = (s.view v).storage
  · have shared := sound.views_ne_one held other different same
    rw [storageAt_pop, if_neg]
    intro released
    exact shared (same ▸ released.2.2)
  · rw [storageAt_pop_of_ne s v same]

theorem elements_pop_of_ne (sound : s.Sound live) {v w : ArrayId} (held : v ∈ live)
    (other : w ∈ live) (different : w ≠ v) : (s.pop v).2.elements w = s.elements w := by
  have window : (s.pop v).2.view w = s.view w := by
    rw [view_pop, if_neg (fun both => different both.1)]
  simp only [elements, sound.slots_pop_of_ne held other different, window]

/-! ## What is seen through the view itself -/

theorem length_push (sound : s.Sound live) {v : ArrayId} (held : v ∈ live) (x : Value) :
    (s.push v x).2.length v = s.length v + 1 := by
  rw [length, view_push, if_pos ⟨rfl, sound.known v held⟩]

theorem elements_push (sound : s.Sound live) {v : ArrayId} (held : v ∈ live) (x : Value) :
    (s.push v x).2.elements v = s.elements v ++ [x] := by
  have grown := sound.length_push held x
  apply List.ext_getElem?
  intro j
  rw [getElem?_elements, List.getElem?_append, sound.length_elements held, getElem?_elements]
  by_cases old : j < s.length v
  · have apart : (s.view v).start + j ≠ (s.view v).start + s.length v := by omega
    rw [sound.get?_push held x v (by omega), if_neg (fun both => apart both.2), if_pos old, get?_eq,
      if_pos old]
  · rw [if_neg old]
    by_cases last : j = s.length v
    · subst last
      rw [sound.get?_push held x v (by omega), if_pos ⟨rfl, rfl⟩]
      simp
    · have beyond : ¬ j < (s.push v x).2.length v := by omega
      have past : [x].length ≤ j - s.length v := by simp only [List.length_singleton]; omega
      rw [get?_eq, if_neg beyond, List.getElem?_eq_none past]

theorem length_pop (sound : s.Sound live) {v : ArrayId} (held : v ∈ live) :
    (s.pop v).2.length v = s.length v - 1 := by
  rw [length, view_pop, if_pos ⟨rfl, sound.known v held⟩]

theorem pop_fst (sound : s.Sound live) {v : ArrayId} (held : v ∈ live) :
    (s.pop v).1 = (s.elements v).getLast? := by
  rw [List.getLast?_eq_getElem?, sound.length_elements held, getElem?_elements, get?_eq, pop_eq]
  by_cases empty : s.length v = 0
  · simp [empty]
  · rw [if_neg empty, if_pos (by omega)]

theorem elements_pop (sound : s.Sound live) {v : ArrayId} (held : v ∈ live) :
    (s.pop v).2.elements v = (s.elements v).dropLast := by
  have window := view_pop s v v
  rw [if_pos ⟨rfl, sound.known v held⟩] at window
  apply List.ext_getElem?
  intro j
  rw [getElem?_elements, List.getElem?_dropLast, sound.length_elements held, getElem?_elements,
    get?_eq, sound.length_pop held, get?_eq]
  by_cases old : j < s.length v - 1
  · rw [if_pos old, if_pos old, if_pos (by omega), slots_eq, window, slots_eq, storageAt_pop]
    dsimp only
    split
    · have inside : (s.view v).start + j < (s.slots v).size := sound.slot_lt held (by omega)
      rw [slots_eq] at inside
      rw [Array.take_eq_extract, Array.getElem?_extract, if_pos (by omega), Nat.zero_add]
    · rfl
  · rw [if_neg old, if_neg old]

/-! ## Every operation keeps the arrays sound -/

theorem viewers_congr {s t : ArrayStore} {live : Finset ArrayId}
    (same : ∀ a ∈ live, (t.view a).storage = (s.view a).storage) (n : Nat) :
    t.viewers live n = s.viewers live n :=
  Finset.filter_congr fun a held => by rw [same a held]

protected theorem empty : ArrayStore.empty.Sound ∅ where
  known := by simp
  stored := by simp
  fits := by simp
  counted _ := rfl

protected theorem new (sound : s.Sound live) (xs : Array Value) :
    (s.new xs).2.Sound (insert s.views.size live) := by
  have old : ∀ a ∈ live, (s.new xs).2.view a = s.view a := by
    intro a held
    rw [view_new, if_neg (Nat.ne_of_lt (sound.known a held))]
  have kept : ∀ a ∈ live, (s.new xs).2.slots a = s.slots a := by
    intro a held
    rw [slots_eq, slots_eq, old a held, storageAt_new, if_neg (Nat.ne_of_lt (sound.stored a held))]
  have made : (s.new xs).2.view s.views.size = ⟨s.storages.size, 0, xs.size⟩ := by
    rw [view_new, if_pos rfl]
  have filled : (s.new xs).2.slots s.views.size = xs := by
    rw [slots_eq, made, storageAt_new, if_pos rfl]
  refine ⟨?_, ?_, ?_, ?_⟩
  · intro a held
    rcases Finset.mem_insert.mp held with rfl | held
    · simp
    · rw [size_views_new]
      exact Nat.lt_succ_of_lt (sound.known a held)
  · intro a held
    rw [size_storages_new]
    rcases Finset.mem_insert.mp held with rfl | held
    · rw [made]
      exact Nat.lt_succ_self _
    · rw [old a held]
      exact Nat.lt_succ_of_lt (sound.stored a held)
  · intro a held
    rcases Finset.mem_insert.mp held with rfl | held
    · rw [filled, length, made, Nat.zero_add]
    · rw [kept a held, length, old a held]
      exact sound.fits a held
  · intro n
    have rest : (s.new xs).2.viewers live n = s.viewers live n :=
      viewers_congr (fun a held => by rw [old a held]) n
    rw [viewers, Finset.filter_insert, made, storageAt_new, ← viewers, rest]
    by_cases fresh : n = s.storages.size
    · -- No view that was there before looks at the new storage.
      have unseen : s.viewers live n = ∅ := by
        apply Finset.filter_false_of_mem
        intro a held
        have stored := sound.stored a held
        omega
      rw [if_pos fresh, if_pos fresh.symm, unseen]
      rfl
    · rw [if_neg fresh, if_neg (Ne.symm fresh), sound.counted]

protected theorem slice (sound : s.Sound live) {a : ArrayId} (held : a ∈ live) {low high : Nat}
    (ordered : low ≤ high) (bounded : high ≤ s.length a) :
    (s.slice a low high).2.Sound (insert s.views.size live) := by
  have old : ∀ b ∈ live, (s.slice a low high).2.view b = s.view b := by
    intro b other
    rw [view_slice, if_neg (Nat.ne_of_lt (sound.known b other))]
  have made : (s.slice a low high).2.view s.views.size =
      ⟨(s.view a).storage, (s.view a).start + low, high - low⟩ := by
    rw [view_slice, if_pos rfl]
  refine ⟨?_, ?_, ?_, ?_⟩
  · intro b other
    rcases Finset.mem_insert.mp other with rfl | other
    · simp
    · rw [size_views_slice]
      exact Nat.lt_succ_of_lt (sound.known b other)
  · intro b other
    rw [size_storages_slice]
    rcases Finset.mem_insert.mp other with rfl | other
    · rw [made]
      exact sound.stored a held
    · rw [old b other]
      exact sound.stored b other
  · intro b other
    rw [slots_eq, slots_storageAt_slice, length]
    rcases Finset.mem_insert.mp other with rfl | other
    · have fits := sound.fits a held
      rw [made, ← slots_eq]
      dsimp only
      omega
    · rw [old b other]
      exact sound.fits b other
  · intro n
    have rest : (s.slice a low high).2.viewers live n = s.viewers live n :=
      viewers_congr (fun b other => by rw [old b other]) n
    rw [viewers, Finset.filter_insert, made, storageAt_slice, ← viewers, rest]
    by_cases same : n = (s.view a).storage
    · have fresh : s.views.size ∉ s.viewers live n := by
        intro member
        exact Nat.lt_irrefl _ (sound.known _ (Finset.mem_filter.mp member).1)
      rw [if_pos ⟨same, sound.stored a held⟩, if_pos same.symm, Finset.card_insert_of_notMem fresh,
        sound.counted]
    · rw [if_neg (fun both => same both.1), if_neg (Ne.symm same), sound.counted]

/-- An operation that moves no view and only lets storages grow keeps the arrays sound, as long as
it leaves room for the view that it is applied to. -/
theorem of_grown (sound : s.Sound live) {t : ArrayStore}
    (views : t.views.size = s.views.size) (storages : t.storages.size = s.storages.size)
    (storage : ∀ a, (t.view a).storage = (s.view a).storage)
    (counts : ∀ n, (t.storageAt n).views = (s.storageAt n).views)
    (fits : ∀ a ∈ live, (t.view a).start + t.length a ≤ (t.slots a).size) : t.Sound live where
  known a held := views ▸ sound.known a held
  stored a held := by
    rw [storages, storage]
    exact sound.stored a held
  fits := fits
  counted n := by rw [counts, viewers_congr (fun a _ => storage a), sound.counted]

protected theorem set (sound : s.Sound live) (a : ArrayId) (i : Nat) (x : Value) :
    (s.set a i x).2.Sound live := by
  have counts : ∀ n, ((s.set a i x).2.storageAt n).views = (s.storageAt n).views := by
    intro n
    rw [set_eq]
    dsimp only
    split
    · rw [storageAt_write]
      split <;> rfl
    · rfl
  have sizes : ∀ b, ((s.set a i x).2.slots b).size = (s.slots b).size := by
    intro b
    rw [slots_eq, slots_eq, view_set, set_eq]
    dsimp only
    split
    · rw [storageAt_write]
      split <;> simp
    · rfl
  refine sound.of_grown (by simp) (by simp) (by simp) counts ?_
  intro b other
  rw [sizes, length, view_set]
  exact sound.fits b other

/-- No storage shrinks when an element is appended. -/
theorem size_slots_push (s : ArrayStore) (v : ArrayId) (x : Value) (a : ArrayId) :
    (s.slots a).size ≤ ((s.push v x).2.slots a).size := by
  rw [slots_eq, slots_eq, storage_view_push, storageAt_push, storageAt_writeOrAppend]
  split
  · split <;> simp
  · exact Nat.le_refl _

/-- The slot of the appended element is one of the storage. -/
theorem slot_lt_push (sound : s.Sound live) {v : ArrayId} (held : v ∈ live) (x : Value) :
    (s.view v).start + s.length v < ((s.push v x).2.slots v).size := by
  have fits := sound.fits v held
  rw [slots_eq] at fits
  rw [slots_eq, storage_view_push, storageAt_push, storageAt_writeOrAppend,
    if_pos ⟨rfl, sound.stored v held⟩]
  split
  · rwa [Array.size_setIfInBounds]
  · rw [Array.size_push]
    omega

protected theorem push (sound : s.Sound live) {v : ArrayId} (held : v ∈ live) (x : Value) :
    (s.push v x).2.Sound live := by
  have counts : ∀ n, ((s.push v x).2.storageAt n).views = (s.storageAt n).views := by
    intro n
    rw [storageAt_push, storageAt_writeOrAppend]
    split
    · split <;> rfl
    · rfl
  refine sound.of_grown (by simp) (by simp) (by simp) counts ?_
  intro a other
  by_cases same : a = v
  · subst same
    rw [sound.length_push held x, start_view_push]
    exact sound.slot_lt_push held x
  · have fits := sound.fits a other
    have grown := size_slots_push s v x a
    rw [length, view_push, if_neg (fun both => same both.1), ← length]
    omega

protected theorem pop (sound : s.Sound live) {v : ArrayId} (held : v ∈ live) :
    (s.pop v).2.Sound live := by
  refine sound.of_grown (by simp) (by simp) (by simp) (views_storageAt_pop s v) ?_
  intro a other
  by_cases different : a = v
  · subst different
    have fits := sound.fits a held
    have window := view_pop s a a
    rw [if_pos ⟨rfl, sound.known a held⟩] at window
    rw [slots_eq, length, window, storageAt_pop]
    dsimp only
    rw [slots_eq] at fits
    split
    · rw [Array.take_eq_extract, Array.size_extract]
      omega
    · omega
  · rw [sound.slots_pop_of_ne held other different, length, view_pop,
      if_neg (fun both => different both.1)]
    exact sound.fits a other

protected theorem drop (sound : s.Sound live) {a : ArrayId} (held : a ∈ live) :
    (s.drop a).Sound (live.erase a) where
  known b other := sound.known b (Finset.mem_of_mem_erase other)
  stored b other := by
    rw [view_drop, ArrayStore.drop, Array.size_modify]
    exact sound.stored b (Finset.mem_of_mem_erase other)
  fits b other := by
    rw [slots_drop]
    exact sound.fits b (Finset.mem_of_mem_erase other)
  counted n := by
    have rest : (s.drop a).viewers (live.erase a) n = (s.viewers live n).erase a :=
      Finset.filter_erase _ _ _
    rw [rest, storageAt_drop]
    by_cases same : n = (s.view a).storage
    · have counted : a ∈ s.viewers live n := Finset.mem_filter.mpr ⟨held, same.symm⟩
      rw [if_pos same, Finset.card_erase_of_mem counted, sound.counted]
    · have absent : a ∉ s.viewers live n := fun member =>
        same (Finset.mem_filter.mp member).2.symm
      rw [if_neg same, Finset.erase_eq_of_notMem absent, sound.counted]

end Sound

end ArrayStore

/-! ## Slices that are checked -/

/-- A place of an element lies before the end, and a place where a slice ends not after it. -/
theorem place_bounds {length p : Nat} {index : Value} {asEnd : Bool}
    (found : place length index asEnd = .ok p) : p < length + if asEnd then 1 else 0 := by
  cases index with
  | integer n =>
    simp only [place] at found
    generalize limitEq : (length : Int) + (if asEnd then 1 else 0) = limit at found
    generalize (if n.toInt < 0 then n.toInt + limit else n.toInt) = q at found
    by_cases late : limit ≤ q
    · rw [if_pos late] at found
      cases found
    · rw [if_neg late] at found
      by_cases early : q < 0
      · rw [if_pos early] at found
        cases found
      · rw [if_neg early] at found
        cases found
        cases asEnd <;> simp only [if_true, if_false, Bool.false_eq_true] at limitEq ⊢ <;> omega
  | _ => cases found

theorem sliceBounds_ordered {length first last : Nat} {low : Value} {high : Option Value}
    (found : sliceBounds length low high = .ok (first, last)) : first ≤ last ∧ last ≤ length := by
  simp only [sliceBounds, bind, Except.bind, pure, Except.pure] at found
  split at found
  · cases found
  · cases high with
    | none =>
      simp only [throw, throwThe, MonadExceptOf.throw] at found
      split at found
      · cases found
      · cases found
        omega
    | some index =>
      dsimp only at found
      split at found
      · cases found
      · rename_i p located
        have bound := place_bounds located
        simp only [throw, throwThe, MonadExceptOf.throw] at found
        split at found
        · cases found
        · cases found
          simp only [if_true] at bound
          omega

/-- Slicing an array makes a view between the two places that its bounds name. -/
theorem Heap.slice_array (h : Heap) (a : ArrayId) (low : Value) (high : Option Value) :
    h.slice (.array a) low high =
      (sliceBounds (h.arrays.length a) low high).map fun r => h.newView a r.1 r.2 := by
  simp only [Heap.slice, Heap.cut]
  cases sliceBounds (h.arrays.length a) low high <;> rfl

/-! ## Sequences of operations -/

/-- An operation on arrays. -/
inductive ArrayOp where
  | new (elements : Array Value)
  | slice (a : ArrayId) (low : Value) (high : Option Value)
  | get (a : ArrayId) (i : Nat)
  | set (a : ArrayId) (i : Nat) (x : Value)
  | push (a : ArrayId) (x : Value)
  | pop (a : ArrayId)
  /-- Nothing refers to the array any more. -/
  | drop (a : ArrayId)

/-- The array that an operation makes longer or shorter. -/
def ArrayOp.resized? : ArrayOp → Option ArrayId
  | push a _ | pop a => some a
  | _ => none

/-- The operation writes no element. -/
def ArrayOp.isQuiet : ArrayOp → Bool
  | set _ _ _ | push _ _ | pop _ => false
  | _ => true

/-- A heap and the arrays on it that are in use. -/
structure ArrayUse where
  heap : Heap
  live : Finset ArrayId

namespace ArrayUse

/-- The arrays of the heap. -/
abbrev store (u : ArrayUse) : ArrayStore := u.heap.arrays

/-- Nothing was made yet. -/
def start : ArrayUse := ⟨.empty, ∅⟩

/-- Takes a new array into use. -/
def hold (live : Finset ArrayId) : Value × Heap → ArrayUse
  | (.array a, h) => ⟨h, insert a live⟩
  | (_, h) => ⟨h, live⟩

/-- Carries out one operation. Only an array in use can be operated on. -/
def step (u : ArrayUse) : ArrayOp → ArrayUse
  | .new xs => hold u.live (u.heap.newArray xs)
  | .slice a low high =>
    if a ∈ u.live then
      match u.heap.slice (.array a) low high with
      | .ok made => hold u.live made
      | .error _ => u
    else u
  | .get _ _ => u
  | .set a i x => if a ∈ u.live then ⟨(u.heap.onArrays (·.set a i x)).2, u.live⟩ else u
  | .push a x => if a ∈ u.live then ⟨(u.heap.onArrays (·.push a x)).2, u.live⟩ else u
  | .pop a => if a ∈ u.live then ⟨(u.heap.onArrays (·.pop a)).2, u.live⟩ else u
  | .drop a => if a ∈ u.live then ⟨{ u.heap with arrays := u.store.drop a }, u.live.erase a⟩ else u

/-- Carries out operations in turn. -/
def run (ops : List ArrayOp) : ArrayUse := ops.foldl step start

/-- A slice of an array in use whose bounds pass. -/
theorem step_slice {u : ArrayUse} {a : ArrayId} (held : a ∈ u.live) {low : Value}
    {high : Option Value} {first last : Nat}
    (found : sliceBounds (u.store.length a) low high = .ok (first, last)) :
    u.step (.slice a low high) =
      ⟨{ u.heap with arrays := (u.store.slice a first last).2 },
        insert u.store.views.size u.live⟩ := by
  simp only [step, if_pos held, Heap.slice_array, found]
  rfl

/-- Bounds that do not pass leave everything as it is. -/
theorem step_slice_error {u : ArrayUse} {a : ArrayId} {low : Value} {high : Option Value}
    {e : RuntimeError} (refused : sliceBounds (u.store.length a) low high = .error e) :
    u.step (.slice a low high) = u := by
  simp only [step, Heap.slice_array, refused]
  split <;> rfl

/-- One operation keeps the arrays sound. -/
theorem sound_step {u : ArrayUse} (sound : u.store.Sound u.live) (op : ArrayOp) :
    (u.step op).store.Sound (u.step op).live := by
  cases op with
  | new xs => exact sound.new xs
  | get a i => exact sound
  | slice a low high =>
    by_cases held : a ∈ u.live
    · cases found : sliceBounds (u.store.length a) low high with
      | ok ends =>
        obtain ⟨ordered, bounded⟩ := sliceBounds_ordered found
        rw [step_slice held found]
        exact sound.slice held ordered bounded
      | error e =>
        rw [step_slice_error found]
        exact sound
    · simp only [step, if_neg held]
      exact sound
  | set a i x =>
    simp only [step]
    split
    · exact sound.set a i x
    · exact sound
  | push a x =>
    simp only [step]
    split
    · rename_i held
      exact sound.push held x
    · exact sound
  | pop a =>
    simp only [step]
    split
    · rename_i held
      exact sound.pop held
    · exact sound
  | drop a =>
    simp only [step]
    split
    · rename_i held
      exact sound.drop held
    · exact sound

/-- Every sequence of operations leaves the arrays sound. -/
theorem sound_run (ops : List ArrayOp) : (run ops).store.Sound (run ops).live := by
  have general : ∀ u : ArrayUse, u.store.Sound u.live →
      (ops.foldl step u).store.Sound (ops.foldl step u).live := by
    induction ops with
    | nil => exact fun _ sound => sound
    | cons op ops ih => exact fun u sound => ih _ (sound_step sound op)
  exact general start .empty

/-- An operation that writes no element leaves every array in use as it is. -/
theorem elements_step_of_isQuiet {u : ArrayUse} (sound : u.store.Sound u.live) {op : ArrayOp}
    (quiet : op.isQuiet = true) {w : ArrayId} (held : w ∈ u.live) :
    (u.step op).store.view w = u.store.view w ∧
      (u.step op).store.elements w = u.store.elements w := by
  have known := Nat.ne_of_lt (sound.known w held)
  have stored := Nat.ne_of_lt (sound.stored w held)
  have of_slots : ∀ {t : ArrayStore}, t.view w = u.store.view w → t.slots w = u.store.slots w →
      t.view w = u.store.view w ∧ t.elements w = u.store.elements w := by
    intro t view slots
    exact ⟨view, by simp only [ArrayStore.elements, view, slots]⟩
  cases op with
  | new xs =>
    have view : (u.store.new xs).2.view w = u.store.view w := by
      rw [ArrayStore.view_new, if_neg known]
    apply of_slots view
    rw [ArrayStore.slots_eq, view, ArrayStore.slots_eq]
    exact congrArg Storage.slots ((u.store.storageAt_new xs _).trans (if_neg stored))
  | get a i => exact ⟨rfl, rfl⟩
  | slice a low high =>
    by_cases owned : a ∈ u.live
    · cases found : sliceBounds (u.store.length a) low high with
      | ok ends =>
        rw [step_slice owned found]
        have view : (u.store.slice a ends.1 ends.2).2.view w = u.store.view w := by
          rw [ArrayStore.view_slice, if_neg known]
        apply of_slots view
        rw [ArrayStore.slots_eq, view, ArrayStore.slots_eq]
        exact u.store.slots_storageAt_slice a ends.1 ends.2 _
      | error e => rw [step_slice_error found]; exact ⟨rfl, rfl⟩
    · simp only [step, if_neg owned]
      trivial
  | drop a =>
    simp only [step]
    split
    · exact of_slots rfl (u.store.slots_drop a w)
    · exact ⟨rfl, rfl⟩
  | set a i x => cases quiet
  | push a x => cases quiet
  | pop a => cases quiet

/-- How the arrays in use share their elements. -/
structure Aliasing (u : ArrayUse) : Prop where
  /-- Every view lies within its storage. -/
  fits : ∀ v ∈ u.live, (u.store.view v).start + u.store.length v ≤ (u.store.slots v).size
  /-- Every element can be read and replaced. -/
  access : ∀ v ∈ u.live, ∀ i < u.store.length v, ∀ x,
    ∃ old, u.store.get? v i = some old ∧ (u.store.set v i x).1 = some old
  /-- There is nothing to read or to replace behind the last element. -/
  outside : ∀ v ∈ u.live, ∀ i, u.store.length v ≤ i → ∀ x,
    u.store.get? v i = none ∧ u.store.set v i x = (none, u.store)
  /-- A slice looks at the same storage, between its two ends. -/
  slice : ∀ v ∈ u.live, ∀ low high first last,
    sliceBounds (u.store.length v) low high = .ok (first, last) →
    ∃ w ∈ (u.step (.slice v low high)).live,
      w ∉ u.live ∧ (u.step (.slice v low high)).store.view w =
        ⟨(u.store.view v).storage, (u.store.view v).start + first, last - first⟩
  /-- A replaced element is seen through every view that covers its slot, and only there. -/
  set : ∀ v ∈ u.live, ∀ i < u.store.length v, ∀ x, ∀ w ∈ u.live, ∀ j < u.store.length w,
    (u.step (.set v i x)).store.get? w j =
      if (u.store.view w).storage = (u.store.view v).storage ∧
        (u.store.view w).start + j = (u.store.view v).start + i
      then some x else u.store.get? w j
  /-- An appended element comes last. Another view sees it if it covers the slot after the old end,
  and sees no other change. -/
  push : ∀ v ∈ u.live, ∀ x,
    (u.store.push v x).1 = u.store.length v + 1 ∧
    (u.step (.push v x)).store.elements v = u.store.elements v ++ [x] ∧
    ∀ w ∈ u.live, w ≠ v → ∀ j < u.store.length w,
      (u.step (.push v x)).store.get? w j =
        if (u.store.view w).storage = (u.store.view v).storage ∧
          (u.store.view w).start + j = (u.store.view v).start + u.store.length v
        then some x else u.store.get? w j
  /-- The last element is taken off and given, and no other view sees a change. -/
  pop : ∀ v ∈ u.live,
    (u.store.pop v).1 = (u.store.elements v).getLast? ∧
    (u.step (.pop v)).store.elements v = (u.store.elements v).dropLast ∧
    (u.step (.pop v)).store.length v = u.store.length v - 1 ∧
    ∀ w ∈ u.live, w ≠ v → (u.step (.pop v)).store.elements w = u.store.elements w
  /-- All other operations leave the elements of every view as they are. -/
  quiet : ∀ op : ArrayOp, op.isQuiet = true → ∀ w ∈ u.live,
    (u.step op).store.elements w = u.store.elements w
  /-- Only a view that grows or shrinks changes its length. -/
  length : ∀ op : ArrayOp, ∀ w ∈ u.live, op.resized? ≠ some w →
    (u.step op).store.length w = u.store.length w

/-- Only growing and shrinking change a length, and only that of the array operated on. -/
theorem length_step {u : ArrayUse} (sound : u.store.Sound u.live) {op : ArrayOp} {w : ArrayId}
    (held : w ∈ u.live) (kept : op.resized? ≠ some w) :
    (u.step op).store.length w = u.store.length w := by
  cases op with
  | set a i x =>
    simp only [step]
    split
    · exact congrArg View.length (u.store.view_set a i x w)
    · rfl
  | push a x =>
    have other : w ≠ a := fun same => kept (congrArg some same.symm)
    simp only [step]
    split
    · exact congrArg View.length ((u.store.view_push a x w).trans (if_neg fun both => other both.1))
    · rfl
  | pop a =>
    have other : w ≠ a := fun same => kept (congrArg some same.symm)
    simp only [step]
    split
    · exact congrArg View.length ((u.store.view_pop a w).trans (if_neg fun both => other both.1))
    · rfl
  | new xs | get a i | slice a low high | drop a =>
    exact congrArg View.length (elements_step_of_isQuiet sound rfl held).1

/-- Whatever operations came before, arrays share their elements exactly where they overlap. -/
theorem aliasing_after_run (ops : List ArrayOp) : (run ops).Aliasing := by
  have sound := sound_run ops
  generalize run ops = u at sound
  have step_set : ∀ v ∈ u.live, ∀ i x, (u.step (.set v i x)).store = (u.store.set v i x).2 := by
    intro v held i x
    simp only [step, if_pos held]
    rfl
  have step_push : ∀ v ∈ u.live, ∀ x, (u.step (.push v x)).store = (u.store.push v x).2 := by
    intro v held x
    simp only [step, if_pos held]
    rfl
  have step_pop : ∀ v ∈ u.live, (u.step (.pop v)).store = (u.store.pop v).2 := by
    intro v held
    simp only [step, if_pos held]
    rfl
  refine
    { fits := sound.fits
      access := ?_
      outside := ?_
      slice := ?_
      set := ?_
      push := ?_
      pop := ?_
      quiet := fun _ quiet _ held => (elements_step_of_isQuiet sound quiet held).2
      length := fun _ _ held kept => length_step sound held kept }
  · intro v held i inside x
    obtain ⟨old, found⟩ := Option.isSome_iff_exists.mp (sound.get?_isSome held inside)
    exact ⟨old, found, by rw [ArrayStore.set_eq]; exact found⟩
  · intro v _ i beyond x
    have missing : u.store.get? v i = none := by
      rw [ArrayStore.get?_eq, if_neg (Nat.not_lt.mpr beyond)]
    refine ⟨missing, ?_⟩
    rw [ArrayStore.set_eq, missing]
    rfl
  · intro v held low high first last found
    rw [step_slice held found]
    refine ⟨u.store.views.size, Finset.mem_insert_self _ _, ?_, ?_⟩
    · intro member
      exact Nat.lt_irrefl _ (sound.known _ member)
    · exact (u.store.view_slice v first last _).trans (if_pos rfl)
  · intro v held i inside x w _ j covered
    rw [step_set v held]
    exact sound.get?_set held inside x w covered
  · intro v held x
    rw [step_push v held]
    refine ⟨rfl, sound.elements_push held x, ?_⟩
    intro w _ different j covered
    have kept : j < (u.store.push v x).2.length w := by
      rwa [ArrayStore.length, ArrayStore.view_push, if_neg (fun both => different both.1)]
    rw [sound.get?_push held x w kept, u.store.get?_eq w j, if_pos covered]
  · intro v held
    rw [step_pop v held]
    exact ⟨sound.pop_fst held, sound.elements_pop held, sound.length_pop held,
      fun w other different => sound.elements_pop_of_ne held other different⟩

example : ((run [.new #[.integer 1, .integer 2, .integer 3],
    .slice 0 (.integer 1) (some (.integer 2)),
    .push 1 (.integer 9)]).store.elements 0) = [.integer 1, .integer 2, .integer 9] := by
  rfl

end ArrayUse

end Scripting
