import Scripting.Value.Key
import Std.Data.HashMap

/-!
# Tables

The contents of a hash: entries in the order in which their keys first arrived, and an index from
keys to places among the entries.
-/

namespace Scripting

/-- An entry of a table. -/
structure Entry where
  key : Key
  name : Value
  value : Value

/-- Entries in order of arrival, and where each key is found. -/
structure Table where
  entries : Array Entry
  index : Std.HashMap Key Nat

namespace Table

/-- The table without entries. -/
def empty : Table := ⟨#[], ∅⟩

instance : Inhabited Table := ⟨empty⟩

/-- The number of entries. -/
def size (t : Table) : Nat := t.entries.size

/-- The names and values of the entries, in order. -/
def pairs (t : Table) : List (Value × Value) := t.entries.toList.map fun e => (e.name, e.value)

/-- The value under a key. -/
def find? (t : Table) (k : Key) : Option Value :=
  t.index[k]?.bind fun i => t.entries[i]?.map (·.value)

/-- Stores a value under a key and gives the value that was there before. A key that is present
keeps its place, and takes over the new name. -/
def put (t : Table) (k : Key) (name value : Value) : Option Value × Table :=
  match t with
  | ⟨entries, index⟩ =>
    match index[k]? with
    | some i =>
      let old := entries[i]?.map (·.value)
      (old, ⟨entries.setIfInBounds i ⟨k, name, value⟩, index⟩)
    | none =>
      let i := entries.size
      (none, ⟨entries.push ⟨k, name, value⟩, index.insert k i⟩)

/-- Enters the places of the entries from number `low` on. -/
def reindex (entries : Array Entry) (low : Nat) (index : Std.HashMap Key Nat) :
    Std.HashMap Key Nat :=
  (entries.toList.zipIdx.drop low).foldl (fun m e => m.insert e.1.key e.2) index

/-- Takes out the entry of a key and gives its value. The others keep their order. -/
def erase (t : Table) (k : Key) : Option Value × Table :=
  match t.index[k]? with
  | none => (none, t)
  | some i =>
    let old := t.entries[i]?.map (·.value)
    let entries := t.entries.eraseIdxIfInBounds i
    (old, ⟨entries, reindex entries i (t.index.erase k)⟩)

/-- The value under the key of `name`. -/
def get (t : Table) (name : Value) : Except RuntimeError (Option Value) :=
  name.key.map t.find?

/-- Stores a value under the key of `name` and gives the value that was there before. -/
def insert (t : Table) (name value : Value) : Except RuntimeError (Option Value × Table) :=
  name.key.map fun k => t.put k name value

/-- Takes out the entry under the key of `name` and gives its value. -/
def remove (t : Table) (name : Value) : Except RuntimeError (Option Value × Table) :=
  name.key.map t.erase

end Table

end Scripting
