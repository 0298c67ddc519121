import Scripting.Proofs.Mirroring

/-!
# Storage is released unseen

A program holds handles on arrays, and so do the elements of arrays. An array that no handle leads
to is given up: `reclaim`. Then fewer arrays look at its storage, and the next array that shrinks
may be the only one, so that the storage is cut off. Whether any of this is done, `Upkeep`, cannot
be told from what the operations give back: `releasing_unobservable`.

Arrays that a handle leads to are never given up, `Kept`, and so the store of a program that gives
up and cuts off what it can is at all times mirrored by that of one that keeps everything: `Hoards`.
-/

namespace Scripting

/-- The array that a value is a handle on. -/
def Value.handles : Value → List ArrayId
  | .array a => [a]
  | _ => []

/-- An operation of a program that holds handles on arrays. -/
inductive HandleOp where
  | new (elements : List Value)
  | slice (a : ArrayId) (low : Value) (high : Option Value)
  | get (a : ArrayId) (i : Nat)
  | set (a : ArrayId) (i : Nat) (x : Value)
  | push (a : ArrayId) (x : Value)
  | pop (a : ArrayId)
  | elements (a : ArrayId)
  | length (a : ArrayId)
  /-- The program lets go of one of its handles on the array. -/
  | drop (a : ArrayId)

namespace HandleOp

/-- The array that is operated on. -/
def on? : HandleOp → Option ArrayId
  | new _ => none
  | slice a _ _ | get a _ | set a _ _ | push a _ | pop a | elements a | length a | drop a => some a

/-- The values that are handed over. -/
def given : HandleOp → List Value
  | new xs => xs
  | set _ _ x | push _ x => [x]
  | _ => []

/-- The arrays that the program must have a handle on. -/
def needs (op : HandleOp) : List ArrayId := op.on?.toList ++ op.given.flatMap Value.handles

end HandleOp

/-- What an operation gives back. -/
inductive HandleAnswer where
  /-- A new array. -/
  | made (a : ArrayId)
  | refused (e : RuntimeError)
  | element (x : Option Value)
  | row (xs : List Value)
  | number (n : Nat)
  | done
  /-- The program has no handle on an array that it names, and nothing is done. -/
  | notHeld

namespace HandleAnswer

/-- The elements that are given back. -/
def values : HandleAnswer → List Value
  | element x => x.toList
  | row xs => xs
  | _ => []

/-- The new array. -/
def made? : HandleAnswer → Option ArrayId
  | made a => some a
  | _ => none

/-- The arrays with the new one. -/
def addTo (r : HandleAnswer) (live : Finset ArrayId) : Finset ArrayId :=
  match r.made? with
  | some a => insert a live
  | none => live

/-- The handles that the program gets. -/
def handles (r : HandleAnswer) : List ArrayId := r.made?.toList ++ r.values.flatMap Value.handles

theorem subset_addTo (r : HandleAnswer) (live : Finset ArrayId) : live ⊆ r.addTo live := by
  unfold addTo
  split
  · exact Finset.subset_insert _ _
  · exact Finset.Subset.refl _

theorem mem_addTo_of_mem_made? {r : HandleAnswer} {live : Finset ArrayId} {a : ArrayId}
    (made : a ∈ r.made?) : a ∈ r.addTo live := by
  rw [addTo, Option.mem_def.mp made]
  exact Finset.mem_insert_self _ _

end HandleAnswer

namespace ArrayStore

/-- Carries out an operation, with or without releasing storage. -/
def act (releases : Bool) (s : ArrayStore) : HandleOp → HandleAnswer × ArrayStore
  | .new xs => (.made (s.new xs.toArray).1, (s.new xs.toArray).2)
  | .slice a low high =>
    match sliceBounds (s.length a) low high with
    | .ok (first, last) => (.made (s.slice a first last).1, (s.slice a first last).2)
    | .error e => (.refused e, s)
  | .get a i => (.element (s.get? a i), s)
  | .set a i x => (.element (s.set a i x).1, (s.set a i x).2)
  | .push a x => (.number (s.push a x).1, (s.push a x).2)
  | .pop a =>
    if releases then (.element (s.pop a).1, (s.pop a).2)
    else (.element (s.popKeeping a).1, (s.popKeeping a).2)
  | .elements a => (.row (s.elements a), s)
  | .length a => (.number (s.length a), s)
  | .drop _ => (.done, s)

end ArrayStore

/-- What is done about storage that is not needed any more. -/
structure Upkeep where
  /-- A storage that only one array looks at is cut off when that array shrinks. -/
  releases : Bool
  /-- An array that no handle leads to is given up. -/
  reclaims : Bool

/-- Everything is left as it is. -/
def Upkeep.none : Upkeep := ⟨false, false⟩

/-- Arrays and the handles on them. -/
structure HeldArrays where
  store : ArrayStore
  /-- The arrays that are not given up. -/
  live : Finset ArrayId
  /-- The handles that are not elements of arrays, as often as the program has them. -/
  held : List ArrayId

namespace HeldArrays

/-- Nothing was made yet. -/
def start : HeldArrays := ⟨.empty, ∅, []⟩

/-- The program has a handle on the array, or an element that an array may still look at is one. -/
def Refers (u : HeldArrays) (a : ArrayId) : Prop :=
  a ∈ u.held ∨ ∃ b ∈ u.live, ∃ x ∈ (u.store.slots b).toList, a ∈ x.handles

instance (u : HeldArrays) (a : ArrayId) : Decidable (u.Refers a) :=
  inferInstanceAs (Decidable (_ ∨ _))

/-- Gives an array up. -/
def giveUp (u : HeldArrays) (a : ArrayId) : HeldArrays :=
  { u with store := u.store.drop a, live := u.live.erase a }

/-- An array that nothing refers to and that is not given up. -/
def lost? (u : HeldArrays) : Option ArrayId :=
  (List.range u.store.views.size).find? fun a => a ∈ u.live ∧ ¬u.Refers a

/-- Gives up arrays that nothing refers to, at most `n` of them. What an array referred to may be
the next one. -/
def reclaim : Nat → HeldArrays → HeldArrays
  | 0, u => u
  | n + 1, u =>
    match u.lost? with
    | none => u
    | some a => reclaim n (u.giveUp a)

/-- The arrays after an operation, with the handles that it gave and took away. -/
def after (releases : Bool) (u : HeldArrays) (op : HandleOp) : HeldArrays where
  store := (u.store.act releases op).2
  live := (u.store.act releases op).1.addTo u.live
  held :=
    match op with
    | .drop a => u.held.erase a
    | _ => (u.store.act releases op).1.handles ++ u.held

/-- Gives up what is to be given up. -/
def tend (k : Upkeep) (u : HeldArrays) : HeldArrays :=
  if k.reclaims then u.reclaim u.live.card else u

/-- Carries out one operation and what is to be done after it. -/
def step (k : Upkeep) (u : HeldArrays) (op : HandleOp) : HandleAnswer × HeldArrays :=
  if ∀ a ∈ op.needs, a ∈ u.held then
    ((u.store.act k.releases op).1, (u.after k.releases op).tend k)
  else (.notHeld, u)

/-- Carries out operations in turn, and gives back their answers. -/
def run (k : Upkeep) : HeldArrays → List HandleOp → List HandleAnswer × HeldArrays
  | u, [] => ([], u)
  | u, op :: ops => ((u.step k op).1 :: (run k (u.step k op).2 ops).1,
      (run k (u.step k op).2 ops).2)

end HeldArrays

/-! ## What one operation does -/

namespace ArrayStore

variable {s t : ArrayStore} {live : Finset ArrayId} {op : HandleOp}

/-- Without releasing, an operation on the longer storages gives the same answer. -/
theorem Mirrors.act (mirrors : Mirrors s t) (sound : s.Sound live)
    (needed : ∀ a ∈ op.on?, a ∈ live) (releases : Bool) :
    (t.act false op).1 = (s.act releases op).1 ∧
      Mirrors (s.act releases op).2 (t.act false op).2 := by
  cases op with
  | new xs =>
    refine ⟨?_, mirrors.new _⟩
    change HandleAnswer.made t.views.size = .made s.views.size
    rw [mirrors.views]
  | slice a low high =>
    simp only [ArrayStore.act, mirrors.length]
    cases sliceBounds (s.length a) low high with
    | error e => exact ⟨rfl, mirrors⟩
    | ok ends =>
      refine ⟨?_, mirrors.slice a _ _⟩
      change HandleAnswer.made t.views.size = .made s.views.size
      rw [mirrors.views]
  | get a i => exact ⟨congrArg HandleAnswer.element (mirrors.get? sound (needed a rfl) i), mirrors⟩
  | set a i x =>
    obtain ⟨old, after⟩ := mirrors.set sound (needed a rfl) i x
    exact ⟨congrArg HandleAnswer.element old, after⟩
  | push a x =>
    obtain ⟨count, after⟩ := mirrors.push sound (needed a rfl) x
    exact ⟨congrArg HandleAnswer.number count, after⟩
  | pop a =>
    obtain ⟨last, after⟩ := mirrors.popKeeping sound (needed a rfl)
    cases releases with
    | false => exact ⟨congrArg HandleAnswer.element last, after⟩
    | true =>
      refine ⟨?_, after.pop⟩
      change HandleAnswer.element (t.popKeeping a).1 = .element (s.pop a).1
      rw [last, pop_eq_popKeeping]
  | elements a => exact ⟨congrArg HandleAnswer.row (mirrors.elements sound (needed a rfl)), mirrors⟩
  | length a => exact ⟨congrArg HandleAnswer.number (mirrors.length a), mirrors⟩
  | drop a => exact ⟨rfl, mirrors⟩

/-- Any operation keeps the arrays sound. -/
theorem Sound.act (sound : s.Sound live) (needed : ∀ a ∈ op.on?, a ∈ live) (releases : Bool) :
    (s.act releases op).2.Sound ((s.act releases op).1.addTo live) := by
  cases op with
  | new xs => exact sound.new xs.toArray
  | slice a low high =>
    simp only [ArrayStore.act]
    cases found : sliceBounds (s.length a) low high with
    | error e => exact sound
    | ok ends =>
      obtain ⟨ordered, bounded⟩ := sliceBounds_ordered found
      exact sound.slice (needed a rfl) ordered bounded
  | set a i x => exact sound.set a i x
  | push a x => exact sound.push (needed a rfl) x
  | pop a =>
    cases releases with
    | false => exact sound.popKeeping a
    | true => exact sound.pop (needed a rfl)
  | get | elements | length | drop => exact sound

/-! ### Where values come from -/

/-- What is in a storage was there before or is handed over. -/
theorem mem_storageAt_act {releases : Bool} {n : Nat} {x : Value}
    (member : x ∈ ((s.act releases op).2.storageAt n).slots) :
    x ∈ (s.storageAt n).slots ∨ x ∈ op.given := by
  cases op with
  | new xs =>
    replace member : x ∈ ((s.new xs.toArray).2.storageAt n).slots := member
    rw [storageAt_new] at member
    split at member
    · exact .inr (List.mem_toArray.mp member)
    · exact .inl member
  | slice a low high =>
    simp only [act] at member
    split at member
    · rw [slots_storageAt_slice] at member
      exact .inl member
    · exact .inl member
  | set a i y =>
    replace member : x ∈ ((s.set a i y).2.storageAt n).slots := member
    rw [set_eq] at member
    dsimp only at member
    split at member
    · rw [storageAt_write] at member
      split at member
      · exact (Array.mem_or_eq_of_mem_setIfInBounds member).imp_right List.mem_singleton.mpr
      · exact .inl member
    · exact .inl member
  | push a y =>
    replace member : x ∈ ((s.push a y).2.storageAt n).slots := member
    rw [storageAt_push, storageAt_writeOrAppend] at member
    split at member
    · split at member
      · exact (Array.mem_or_eq_of_mem_setIfInBounds member).imp_right List.mem_singleton.mpr
      · exact (Array.mem_push.mp member).imp_right List.mem_singleton.mpr
    · exact .inl member
  | pop a =>
    simp only [act] at member
    split at member
    · rw [storageAt_pop] at member
      split at member
      · rw [Array.take_eq_extract, ← Array.mem_toList_iff, Array.toList_extract] at member
        exact .inl (Array.mem_toList_iff.mp (List.mem_of_mem_take member))
      · exact .inl member
    · rw [storageAt_popKeeping] at member
      exact .inl member
  | get | elements | length | drop => exact .inl member

/-- An array looks at a storage that an array before looked at, or at a new one. -/
theorem storage_act (needed : ∀ a ∈ op.on?, a ∈ live) {releases : Bool} {b : ArrayId}
    (held : b ∈ (s.act releases op).1.addTo live) :
    (∃ c ∈ live, (s.view c).storage = ((s.act releases op).2.view b).storage) ∨
      s.storages.size ≤ ((s.act releases op).2.view b).storage := by
  cases op with
  | new xs =>
    change (∃ c ∈ live, (s.view c).storage = ((s.new xs.toArray).2.view b).storage) ∨
      s.storages.size ≤ ((s.new xs.toArray).2.view b).storage
    rw [view_new]
    split
    · exact .inr (Nat.le_refl _)
    · rename_i old
      exact .inl ⟨b, Finset.mem_of_mem_insert_of_ne held old, rfl⟩
  | slice a low high =>
    left
    cases found : sliceBounds (s.length a) low high with
    | error e =>
      simp only [act, found] at held ⊢
      exact ⟨b, held, rfl⟩
    | ok ends =>
      simp only [act, found] at held ⊢
      rw [view_slice]
      split
      · exact ⟨a, needed a rfl, rfl⟩
      · rename_i old
        exact ⟨b, Finset.mem_of_mem_insert_of_ne held old, rfl⟩
  | set a i x => exact .inl ⟨b, held, by rw [ArrayStore.act, view_set]⟩
  | push a x => exact .inl ⟨b, held, (storage_view_push s a x b).symm⟩
  | pop a =>
    refine .inl ⟨b, ?_, ?_⟩
    · cases releases <;> exact held
    · cases releases with
      | false => exact (storage_view_popKeeping s a b).symm
      | true => exact (storage_view_pop s a b).symm
  | get | elements | length | drop => exact .inl ⟨b, held, rfl⟩

/-- What an array looks at, an array before looked at, or it is handed over. -/
theorem mem_slots_act (needed : ∀ a ∈ op.on?, a ∈ live) {releases : Bool} {b : ArrayId} {x : Value}
    (held : b ∈ (s.act releases op).1.addTo live) (member : x ∈ (s.act releases op).2.slots b) :
    (∃ c ∈ live, x ∈ s.slots c) ∨ x ∈ op.given := by
  rw [slots_eq] at member
  rcases mem_storageAt_act member with before | given
  · left
    rcases storage_act needed held with ⟨c, other, same⟩ | fresh
    · refine ⟨c, other, ?_⟩
      rwa [slots_eq, same]
    · -- A storage that is not there yet has nothing in it.
      rw [storageAt, Array.getD_eq_getD_getElem?, Array.getElem?_eq_none fresh] at before
      cases before with
      | mk listed => cases listed
  · exact .inr given

/-- An element that is given back is one that the array looked at. -/
theorem mem_slots_of_mem_values {releases : Bool} {x : Value}
    (member : x ∈ (s.act releases op).1.values) : ∃ a ∈ op.on?, x ∈ s.slots a := by
  have read : ∀ {a i}, x ∈ (s.get? a i).toList → x ∈ s.slots a := by
    intro a i found
    rw [get?_eq] at found
    split at found
    · exact Array.mem_of_getElem? (Option.mem_toList.mp found)
    · cases found
  cases op with
  | get a i => exact ⟨a, rfl, read member⟩
  | set a i y =>
    replace member : x ∈ (s.set a i y).1.toList := member
    rw [set_eq] at member
    exact ⟨a, rfl, read member⟩
  | elements a =>
    refine ⟨a, rfl, ?_⟩
    exact Array.mem_toList_iff.mp (List.mem_of_mem_drop (List.mem_of_mem_take member))
  | pop a =>
    have last : x ∈ (s.popKeeping a).1.toList := by
      cases releases with
      | false => exact member
      | true =>
        replace member : x ∈ (s.pop a).1.toList := member
        rwa [pop_eq_popKeeping] at member
    rw [popKeeping] at last
    split at last
    · cases last
    · exact ⟨a, rfl, Array.mem_of_getElem? (Option.mem_toList.mp last)⟩
  | slice a low high =>
    simp only [ArrayStore.act] at member
    split at member <;> cases member
  | new | push | length | drop => cases member

end ArrayStore

/-! ## Arrays that are not given up -/

namespace HeldArrays

open ArrayStore

variable {u t : HeldArrays} {a b : ArrayId} {op : HandleOp} {k : Upkeep}

/-- Arrays are sound, and none that a handle leads to is given up. -/
structure Kept (u : HeldArrays) : Prop where
  sound : u.store.Sound u.live
  referred : ∀ a, u.Refers a → a ∈ u.live

theorem refers_of_mem {x : Value} (held : b ∈ u.live) (member : x ∈ u.store.slots b)
    (handle : a ∈ x.handles) : u.Refers a :=
  .inr ⟨b, held, x, Array.mem_toList_iff.mpr member, handle⟩

theorem kept_start : start.Kept where
  sound := .empty
  referred a refers := by
    rcases refers with held | ⟨b, held, _⟩
    · cases held
    · exact absurd held (Finset.notMem_empty b)

namespace Kept

theorem mem_live (kept : u.Kept) (held : a ∈ u.held) : a ∈ u.live :=
  kept.referred a (.inl held)

theorem on_live (kept : u.Kept) (needed : ∀ a ∈ op.needs, a ∈ u.held) :
    ∀ a ∈ op.on?, a ∈ u.live := by
  intro a on
  exact kept.mem_live (needed a (List.mem_append_left _ (Option.mem_toList.mpr on)))

/-- The handles that an operation gives lead to arrays that are not given up. -/
theorem handles_live (kept : u.Kept) (needed : ∀ a ∈ op.needs, a ∈ u.held) {releases : Bool}
    (got : a ∈ (u.store.act releases op).1.handles) :
    a ∈ (u.store.act releases op).1.addTo u.live := by
  rcases List.mem_append.mp got with made | read
  · exact HandleAnswer.mem_addTo_of_mem_made? (Option.mem_toList.mp made)
  · obtain ⟨x, value, handle⟩ := List.mem_flatMap.mp read
    obtain ⟨c, on, member⟩ := mem_slots_of_mem_values value
    have refers := refers_of_mem (kept.on_live needed c on) member handle
    exact HandleAnswer.subset_addTo _ _ (kept.referred a refers)

protected theorem after (kept : u.Kept) (needed : ∀ a ∈ op.needs, a ∈ u.held) (releases : Bool) :
    (u.after releases op).Kept where
  sound := kept.sound.act (kept.on_live needed) releases
  referred a refers := by
    have old : ∀ a, u.Refers a → a ∈ (u.store.act releases op).1.addTo u.live := by
      intro a before
      exact HandleAnswer.subset_addTo _ _ (kept.referred a before)
    -- A handle was there before, or it is given back by the operation, or handed over to it.
    rcases refers with held | ⟨b, held, x, member, handle⟩
    · have origin : a ∈ (u.store.act releases op).1.handles ∨ a ∈ u.held := by
        unfold HeldArrays.after at held
        dsimp only at held
        split at held
        · exact .inr (List.mem_of_mem_erase held)
        · exact List.mem_append.mp held
      rcases origin with got | before
      · exact kept.handles_live needed got
      · exact old a (.inl before)
    · rcases mem_slots_act (kept.on_live needed) held (Array.mem_toList_iff.mp member) with
        ⟨c, other, before⟩ | given
      · exact old a (refers_of_mem other before handle)
      · have handed : a ∈ op.given.flatMap Value.handles := List.mem_flatMap.mpr ⟨x, given, handle⟩
        exact old a (.inl (needed a (List.mem_append_right _ handed)))

end Kept

/-! ### Giving arrays up -/

theorem Refers.of_giveUp (refers : (u.giveUp a).Refers b) : u.Refers b := by
  rcases refers with held | ⟨c, held, x, member, handle⟩
  · exact .inl held
  · refine .inr ⟨c, Finset.mem_of_mem_erase held, x, ?_, handle⟩
    rwa [giveUp, slots_drop] at member

theorem of_lost? (found : u.lost? = some a) : a ∈ u.live ∧ ¬u.Refers a := by
  have chosen := List.find?_some found
  exact of_decide_eq_true chosen

theorem refers_of_lost?_eq_none (none : u.lost? = none) (known : a < u.store.views.size)
    (held : a ∈ u.live) : u.Refers a := by
  by_contra unreferred
  exact List.find?_eq_none.mp none a (List.mem_range.mpr known) (decide_eq_true ⟨held, unreferred⟩)

/-- What giving up an array that nothing refers to preserves, reclaiming preserves. -/
theorem reclaim_induction {P : HeldArrays → Prop}
    (giveUp : ∀ u a, a ∈ u.live → ¬u.Refers a → P u → P (u.giveUp a)) (n : Nat) (holds : P u) :
    P (u.reclaim n) := by
  induction n generalizing u with
  | zero => exact holds
  | succ n ih =>
    unfold reclaim
    split
    · exact holds
    · rename_i a found
      obtain ⟨held, unreferred⟩ := of_lost? found
      exact ih (giveUp u a held unreferred holds)

theorem slots_reclaim (u : HeldArrays) (n : Nat) (a : ArrayId) :
    (u.reclaim n).store.slots a = u.store.slots a := by
  refine reclaim_induction (P := fun v => v.store.slots a = u.store.slots a) ?_ n rfl
  intro v b _ _ same
  rw [giveUp, slots_drop, same]

namespace Kept

protected theorem giveUp (kept : u.Kept) (held : a ∈ u.live) (unreferred : ¬u.Refers a) :
    (u.giveUp a).Kept where
  sound := kept.sound.drop held
  referred b refers := by
    refine Finset.mem_erase.mpr ⟨?_, kept.referred b refers.of_giveUp⟩
    rintro rfl
    exact unreferred refers.of_giveUp

/-- Reclaiming often enough leaves no array that nothing refers to. -/
theorem refers_reclaim (kept : u.Kept) {n : Nat} (enough : u.live.card ≤ n)
    (held : a ∈ (u.reclaim n).live) : (u.reclaim n).Refers a := by
  induction n generalizing u with
  | zero =>
    rw [reclaim, Finset.card_eq_zero.mp (Nat.le_zero.mp enough)] at held
    exact absurd held (Finset.notMem_empty a)
  | succ n ih =>
    unfold HeldArrays.reclaim at held ⊢
    split at held
    · rename_i none
      exact refers_of_lost?_eq_none none (kept.sound.known a held) held
    · rename_i b found
      obtain ⟨other, unreferred⟩ := of_lost? found
      refine ih (kept.giveUp other unreferred) ?_ held
      rw [HeldArrays.giveUp, Finset.card_erase_of_mem other]
      omega

end Kept

/-! ## Two ways to keep the same arrays -/

/-- Where arrays are given up, all that are left are referred to. -/
def Settled (k : Upkeep) (u : HeldArrays) : Prop := k.reclaims → ∀ a ∈ u.live, u.Refers a

/-- The second arrays are the first ones with nothing cut off or given up. -/
structure Hoards (u t : HeldArrays) : Prop where
  kept : u.Kept
  mirrors : u.store.Mirrors t.store
  held : t.held = u.held

theorem hoards_start : start.Hoards start where
  kept := kept_start
  mirrors := ⟨rfl, rfl, fun _ => List.prefix_refl _⟩
  held := rfl

namespace Hoards

theorem after (hoards : u.Hoards t) (needed : ∀ a ∈ op.needs, a ∈ u.held) (releases : Bool) :
    (t.store.act false op).1 = (u.store.act releases op).1 ∧
      (u.after releases op).Hoards (t.after false op) := by
  have on_live := hoards.kept.on_live needed
  obtain ⟨answer, mirrors⟩ := hoards.mirrors.act hoards.kept.sound on_live releases
  refine ⟨answer, hoards.kept.after needed releases, mirrors, ?_⟩
  simp only [HeldArrays.after, answer, hoards.held]

theorem tend (hoards : u.Hoards t) (k : Upkeep) : (u.tend k).Hoards t := by
  unfold HeldArrays.tend
  split
  · refine reclaim_induction (P := (·.Hoards t)) ?_ _ hoards
    intro v a held unreferred hoards
    exact ⟨hoards.kept.giveUp held unreferred, hoards.mirrors.drop a, hoards.held⟩
  · exact hoards

/-- One operation gives the same answer. -/
theorem step (hoards : u.Hoards t) (k : Upkeep) (op : HandleOp) :
    (t.step .none op).1 = (u.step k op).1 ∧ (u.step k op).2.Hoards (t.step .none op).2 := by
  unfold HeldArrays.step
  rw [hoards.held]
  split
  · rename_i needed
    obtain ⟨answer, after⟩ := hoards.after needed k.releases
    exact ⟨answer, after.tend k⟩
  · exact ⟨rfl, hoards⟩

/-- So do any number of operations. -/
theorem run (hoards : u.Hoards t) (k : Upkeep) (ops : List HandleOp) :
    (t.run .none ops).1 = (u.run k ops).1 ∧ (u.run k ops).2.Hoards (t.run .none ops).2 := by
  induction ops generalizing u t with
  | nil => exact ⟨rfl, hoards⟩
  | cons op ops ih =>
    obtain ⟨first, after⟩ := hoards.step k op
    obtain ⟨others, final⟩ := ih after
    refine ⟨?_, final⟩
    simp only [HeldArrays.run, first, others]

end Hoards

theorem Settled.step (settled : u.Settled k) (kept : u.Kept) (op : HandleOp) :
    (u.step k op).2.Settled k := by
  unfold HeldArrays.step
  split
  · rename_i needed
    intro reclaims a
    simp only [tend, if_pos reclaims]
    exact (kept.after needed k.releases).refers_reclaim (Nat.le_refl _)
  · exact settled

theorem Settled.run (settled : u.Settled k) (hoards : u.Hoards t) (ops : List HandleOp) :
    (u.run k ops).2.Settled k := by
  induction ops generalizing u t with
  | nil => exact settled
  | cons op ops ih => exact ih (settled.step hoards.kept op) (hoards.step k op).2

/-! ## Taking the last element off -/

/-- How the arrays are kept. -/
structure Tended (k : Upkeep) (u : HeldArrays) : Prop where
  /-- No array is given up that a handle leads to, and where arrays are given up, all others are. -/
  live : (∀ a, u.Refers a → a ∈ u.live) ∧ (k.reclaims → ∀ a ∈ u.live, u.Refers a)
  /-- Where storage is released, it ends with the array that shrinks, if no other array looks at
  it. Else it does not change its size. -/
  cut : ∀ a ∈ u.held, u.store.length a ≠ 0 →
    ((u.step k (.pop a)).2.store.slots a).size =
      if k.releases ∧ ∀ b ∈ u.live, (u.store.view b).storage = (u.store.view a).storage → b = a
      then (u.store.view a).start + (u.store.length a - 1)
      else (u.store.slots a).size

theorem slots_step_pop (held : a ∈ u.held) :
    (u.step k (.pop a)).2.store.slots a = (u.store.act k.releases (.pop a)).2.slots a := by
  have needed : ∀ b ∈ (HandleOp.pop a).needs, b ∈ u.held := by
    intro b need
    rcases List.mem_singleton.mp need with rfl
    exact held
  rw [step, if_pos needed]
  dsimp only
  unfold tend
  split
  · rw [slots_reclaim]
    rfl
  · rfl

theorem Kept.tended (kept : u.Kept) (settled : u.Settled k) : u.Tended k where
  live := ⟨kept.referred, settled⟩
  cut a held nonempty := by
    have live := kept.mem_live held
    rw [slots_step_pop held]
    simp only [← kept.sound.views_eq_one_iff live]
    cases releases : k.releases with
    | false =>
      change ((u.store.popKeeping a).2.slots a).size = _
      rw [slots_eq, storage_view_popKeeping, storageAt_popKeeping]
      simp [slots_eq]
    | true =>
      change ((u.store.pop a).2.slots a).size = _
      have fits := kept.sound.fits a live
      rw [slots_eq, storage_view_pop, storageAt_pop]
      by_cases single : (u.store.storageAt (u.store.view a).storage).views = 1
      · rw [if_pos ⟨nonempty, rfl, single⟩, if_pos ⟨rfl, single⟩, Array.take_eq_extract,
          Array.size_extract, ← slots_eq]
        omega
      · rw [if_neg (fun all => single all.2.2), if_neg (fun both => single both.2), slots_eq]

/-- Whether storage is released and arrays are given up cannot be told from any answers. -/
theorem releasing_unobservable (k k' : Upkeep) (ops : List HandleOp) :
    (start.run k ops).1 = (start.run k' ops).1 ∧ (start.run k ops).2.Tended k := by
  obtain ⟨same, hoards⟩ := hoards_start.run k ops
  obtain ⟨same', _⟩ := hoards_start.run k' ops
  have settled : (start.run k ops).2.Settled k := by
    refine Settled.run ?_ hoards_start ops
    intro _ a held
    exact absurd held (Finset.notMem_empty a)
  exact ⟨same.symm.trans same', hoards.kept.tended settled⟩

example : ((start.run ⟨true, true⟩ [.new [.integer 1, .integer 2],
    .slice 0 (.integer 0) (some (.integer 1)), .drop 1, .pop 0]).2.store.slots 0).size = 1 := by
  decide

example : ((start.run ⟨true, true⟩ [.new [.integer 1, .integer 2],
    .slice 0 (.integer 0) (some (.integer 1)), .pop 0]).2.store.slots 0).size = 2 := by
  decide

end HeldArrays

end Scripting
