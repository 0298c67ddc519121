import Scripting.Value.Arithmetic

/-!
# Elements of collections

Reading, slicing, writing and deleting elements of arrays, texts and hashes. A negative index
counts from the end. Reading outside of the range gives null; a slice and a write outside of it
fail.
-/

namespace Scripting

/-- The place that an index names among `length` elements. As the end of a slice it may also be the
place after the last one, and then counts one further from the end. -/
def place (length : Nat) (index : Value) (asEnd : Bool) : Except RuntimeError Nat :=
  match index with
  | .integer n =>
    let i := n.toInt
    let limit : Int := length + if asEnd then 1 else 0
    let p := if i < 0 then i + limit else i
    if limit ≤ p then .error (.indexOutOfRange i 0 (limit - 1))
    else if p < 0 then .error (.indexOutOfRange i (-1) (-limit))
    else .ok p.toNat
  | _ => .error .indexNotInteger

/-- The place that an index names, or nothing if it lies outside of the range. -/
def placeWithin (length : Nat) (index : Value) : Except RuntimeError (Option Nat) :=
  match place length index false with
  | .ok p => .ok (some p)
  | .error (.indexOutOfRange _ _ _) => .ok none
  | .error e => .error e

/-- The two ends of a slice of `length` elements. -/
def sliceBounds (length : Nat) (low : Value) (high : Option Value) :
    Except RuntimeError (Nat × Nat) := do
  let first ← place length low false
  let last ← match high with
    | some v => place length v true
    | none => pure length
  if last < first then throw (.sliceBounds first last)
  return (first, last)

/-- What a slice cuts out. -/
inductive Cut where
  | part (a : ArrayId) (first last : Nat)
  | text (s : String)

namespace Heap

/-- The element under an index or key. A byte of a text is read as the character of that number. -/
def read (h : Heap) (container index : Value) : Except RuntimeError Value :=
  match container with
  | .array a => do
    match ← placeWithin (h.arrays.length a) index with
    | some p => return (h.arrays.get? a p).getD .null
    | none => return .null
  | .text s => do
    match (← placeWithin s.utf8ByteSize index).bind (Text.byteAt? s) with
    | some b => return .text (String.singleton (Char.ofNat b.toNat))
    | none => return .null
  | .hash id => do return (← (h.table id).get index).getD .null
  | _ => .error (.notIndexable container.kind)

/-- What lies between two indices: of an array the part to look at, of a text the text itself. -/
def cut (h : Heap) (container low : Value) (high : Option Value) : Except RuntimeError Cut :=
  match container with
  | .array a => do
    let (first, last) ← sliceBounds (h.arrays.length a) low high
    return .part a first last
  | .text s => do
    let (first, last) ← sliceBounds s.utf8ByteSize low high
    return .text (Text.cut s first last)
  | _ => .error (.notIndexable container.kind)

/-- The value of a cut. A part of an array becomes a new view of the same storage. -/
def valueOfCut (h : Heap) : Cut → Value × Heap
  | .part a first last => h.newView a first last
  | .text s => (.text s, h)

/-- The elements between two indices: a view of the same storage for an array, a copy for a text. -/
def slice (h : Heap) (container low : Value) (high : Option Value) :
    Except RuntimeError (Value × Heap) :=
  (h.cut container low high).map h.valueOfCut

/-- The change that storing to an element makes, and the value that it stores. -/
def assignment (h : Heap) (container index : Value) (op : AssignOperator) (value : Value) :
    Except RuntimeError (Value × Change) :=
  match container with
  | .array a => do
    let p ← place (h.arrays.length a) index false
    let new ← applyAssign h op ((h.arrays.get? a p).getD .null) value
    return (new, .element a p new)
  | .hash id => do
    let new ← match op with
      | .assign => pure value
      | _ => do
        let old ← (h.table id).get index
        applyAssign h op (old.getD .null) value
    let key ← index.key
    return (new, .entry id key index new)
  | .text _ => .error .immutableText
  | _ => .error (.notIndexable container.kind)

/-- The change that deleting an element makes, and the element. An array keeps its length: null
takes the place of the element. -/
def deletion (h : Heap) (container index : Value) : Except RuntimeError (Value × Change) :=
  match container with
  | .array a => do
    let p ← place (h.arrays.length a) index false
    return ((h.arrays.get? a p).getD .null, .element a p .null)
  | .hash id => do
    let key ← index.key
    return (((h.table id).find? key).getD .null, .removal id key)
  | _ => .error (.notIndexable container.kind)

/-- Stores to the element under an index or key, and gives the value stored. -/
def assign (h : Heap) (container index : Value) (op : AssignOperator) (value : Value) :
    Except RuntimeError (Value × Heap) :=
  (h.assignment container index op value).map fun r => (r.1, h.perform r.2)

/-- Deletes the element under an index or key, and gives it. -/
def delete (h : Heap) (container index : Value) : Except RuntimeError (Value × Heap) :=
  (h.deletion container index).map fun r => (r.1, h.perform r.2)

end Heap

end Scripting
