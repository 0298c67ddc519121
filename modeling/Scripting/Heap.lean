import Scripting.ArrayStore
import Scripting.Expr
import Scripting.ScopeTree
import Scripting.Table

/-!
# The heap

Everything that has an identity and can be shared: arrays, the tables of hashes, frames of bindings
and functions.
-/

namespace Scripting

/-- A function: its parameters, its body, and the frame in which it was made. -/
structure Closure where
  parameters : List String
  body : Block Unit
  scope : FrameId

instance : Inhabited Closure := ⟨⟨[], .mk () [], 0⟩⟩

/-- Everything that values refer to. -/
structure Heap where
  arrays : ArrayStore
  tables : Array Table
  scopes : ScopeTree
  functions : Array Closure

/-- One change of what a collection holds. -/
inductive Change where
  /-- An element of an array is replaced. -/
  | element (a : ArrayId) (place : Nat) (value : Value)
  /-- An entry of a hash is made or replaced. -/
  | entry (id : HashId) (key : Key) (name value : Value)
  /-- An entry of a hash is taken out. -/
  | removal (id : HashId) (key : Key)

namespace Heap

/-- The heap in which nothing was made yet. -/
def empty : Heap := ⟨.empty, #[], .empty, #[]⟩

/-- The table of a hash. -/
def table (h : Heap) (id : HashId) : Table := h.tables.getD id default

/-- The parameters, body and frame of a function. -/
def closure (h : Heap) (id : FunctionId) : Closure := h.functions.getD id default

/-- Changes the arrays and gives a result. -/
@[inline]
def onArrays {α : Type} (h : Heap) (f : ArrayStore → α × ArrayStore) : α × Heap :=
  match h with
  | ⟨arrays, tables, scopes, functions⟩ =>
    match f arrays with
    | (a, arrays) => (a, ⟨arrays, tables, scopes, functions⟩)

/-- Changes the frames and gives a result. -/
@[inline]
def onScopes {α : Type} (h : Heap) (f : ScopeTree → α × ScopeTree) : α × Heap :=
  match h with
  | ⟨arrays, tables, scopes, functions⟩ =>
    match f scopes with
    | (a, scopes) => (a, ⟨arrays, tables, scopes, functions⟩)

/-- A new array. -/
def newArray (h : Heap) (elements : Array Value) : Value × Heap :=
  h.onArrays fun s =>
    match s.new elements with
    | (a, s) => (.array a, s)

/-- A new hash. -/
def newHash (h : Heap) (t : Table) : Value × Heap :=
  match h with
  | ⟨arrays, tables, scopes, functions⟩ =>
    let id := tables.size
    (.hash id, ⟨arrays, tables.push t, scopes, functions⟩)

/-- A new function. -/
def newFunction (h : Heap) (c : Closure) : Value × Heap :=
  match h with
  | ⟨arrays, tables, scopes, functions⟩ =>
    let id := functions.size
    (.function id, ⟨arrays, tables, scopes, functions.push c⟩)

/-- A new view of the elements of an array from `low` up to `high`. -/
def newView (h : Heap) (a : ArrayId) (low high : Nat) : Value × Heap :=
  h.onArrays fun s =>
    match s.slice a low high with
    | (b, s) => (.array b, s)

/-- Changes the table of a hash. -/
def modifyTable (h : Heap) (id : HashId) (f : Table → Table) : Heap :=
  match h with
  | ⟨arrays, tables, scopes, functions⟩ => ⟨arrays, tables.modify id f, scopes, functions⟩

/-- Makes one change of what a collection holds. -/
def perform (h : Heap) : Change → Heap
  | .element a p x => (h.onArrays (·.set a p x)).2
  | .entry id k name x => h.modifyTable id fun t => (t.put k name x).2
  | .removal id k => h.modifyTable id fun t => (t.erase k).2

end Heap

end Scripting
