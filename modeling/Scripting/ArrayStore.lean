import Scripting.Value

/-!
# Arrays that share storage

An array is a view of a stretch of storage. A slice is another view of the same storage, so that
what is written through one of them is seen through the other. Views keep their own length:
appending to one never makes another longer.
-/

namespace Scripting

/-- A stretch of a storage. -/
structure View where
  storage : Nat
  start : Nat
  length : Nat
deriving DecidableEq, Repr

instance : Inhabited View := ⟨⟨0, 0, 0⟩⟩

/-- The slots that views look at, and how many views there are of them. -/
structure Storage where
  slots : Array Value
  views : Nat

instance : Inhabited Storage := ⟨⟨#[], 0⟩⟩

/-- All views and what they look at. -/
structure ArrayStore where
  views : Array View
  storages : Array Storage

namespace ArrayStore

/-- The store without arrays. -/
def empty : ArrayStore := ⟨#[], #[]⟩

instance : Inhabited ArrayStore := ⟨empty⟩

/-- The view that an array is. -/
def view (s : ArrayStore) (a : ArrayId) : View := s.views.getD a default

/-- The slots that an array looks at. -/
def slots (s : ArrayStore) (a : ArrayId) : Array Value :=
  (s.storages.getD (s.view a).storage default).slots

/-- A new array with storage of its own. -/
def new (s : ArrayStore) (elements : Array Value) : ArrayId × ArrayStore :=
  match s with
  | ⟨views, storages⟩ =>
    let a := views.size
    let storage := storages.size
    (a, ⟨views.push ⟨storage, 0, elements.size⟩, storages.push ⟨elements, 1⟩⟩)

/-- The number of elements of an array. -/
def length (s : ArrayStore) (a : ArrayId) : Nat := (s.view a).length

/-- The element of an array at an index. -/
def get? (s : ArrayStore) (a : ArrayId) (i : Nat) : Option Value :=
  let v := s.view a
  if i < v.length then (s.slots a)[v.start + i]? else none

/-- The elements of an array. -/
def elements (s : ArrayStore) (a : ArrayId) : List Value :=
  let v := s.view a
  (s.slots a).toList.drop v.start |>.take v.length

/-- Writes a slot of a storage. -/
def write (s : ArrayStore) (storage slot : Nat) (x : Value) : ArrayStore :=
  match s with
  | ⟨views, storages⟩ =>
    ⟨views, storages.modify storage fun c =>
      match c with
      | ⟨slots, count⟩ => ⟨slots.setIfInBounds slot x, count⟩⟩

/-- Changes the length of a view. -/
def resize (s : ArrayStore) (a : ArrayId) (length : Nat) : ArrayStore :=
  match s with
  | ⟨views, storages⟩ => ⟨views.modify a fun v => ⟨v.storage, v.start, length⟩, storages⟩

/-- Replaces the element at an index and gives the old one. -/
def set (s : ArrayStore) (a : ArrayId) (i : Nat) (x : Value) : Option Value × ArrayStore :=
  let v := s.view a
  match s.get? a i with
  | some old => (some old, s.write v.storage (v.start + i) x)
  | none => (none, s)

/-- Writes a slot of a storage, or appends where the storage ends before it. -/
def writeOrAppend (s : ArrayStore) (storage slot : Nat) (x : Value) : ArrayStore :=
  match s with
  | ⟨views, storages⟩ =>
    ⟨views, storages.modify storage fun c =>
      match c with
      | ⟨slots, count⟩ =>
        if slot < slots.size then ⟨slots.setIfInBounds slot x, count⟩ else ⟨slots.push x, count⟩⟩

/-- Appends an element after the last one of the view, and gives the new length. Where the storage
goes on behind the view, the slot that follows is overwritten. -/
def push (s : ArrayStore) (a : ArrayId) (x : Value) : Nat × ArrayStore :=
  let v := s.view a
  (v.length + 1, (s.writeOrAppend v.storage (v.start + v.length) x).resize a (v.length + 1))

/-- Cuts a storage off at a slot if only one view looks at it. -/
def release (s : ArrayStore) (storage slot : Nat) : ArrayStore :=
  match s with
  | ⟨views, storages⟩ =>
    ⟨views, storages.modify storage fun c =>
      match c with
      | ⟨slots, count⟩ => if count = 1 then ⟨slots.take slot, count⟩ else ⟨slots, count⟩⟩

/-- Takes the last element off a view and gives it. -/
def pop (s : ArrayStore) (a : ArrayId) : Option Value × ArrayStore :=
  let v := s.view a
  if v.length = 0 then (none, s)
  else
    let i := v.length - 1
    let last := (s.slots a)[v.start + i]?
    (last, (s.resize a i).release v.storage (v.start + i))

/-- A new view of the elements from `low` up to `high`, over the same storage. -/
def slice (s : ArrayStore) (a : ArrayId) (low high : Nat) : ArrayId × ArrayStore :=
  let v := s.view a
  match s with
  | ⟨views, storages⟩ =>
    let b := views.size
    (b, ⟨views.push ⟨v.storage, v.start + low, high - low⟩,
      storages.modify v.storage fun c =>
        match c with
        | ⟨slots, count⟩ => ⟨slots, count + 1⟩⟩)

end ArrayStore

end Scripting
