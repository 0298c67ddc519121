import Scripting.Value

/-!
# Scopes

A frame binds names to values and may have a parent. A name is looked up in a frame and then in the
frames around it, so the frames form a tree whose paths lead to a root. A frame is made after its
parent, and its parent never changes.
-/

namespace Scripting

/-- Bindings, each name at most once. -/
abbrev Bindings := List (String × Value)

namespace Bindings

/-- The value of a name. -/
def find? : Bindings → String → Option Value
  | [], _ => none
  | (m, v) :: bs, n => if m = n then some v else find? bs n

/-- Binds a name, in place of the binding that it had. -/
def put : Bindings → String → Value → Bindings
  | [], n, x => [(n, x)]
  | (m, v) :: bs, n, x => if m = n then (n, x) :: bs else (m, v) :: put bs n x

/-- Takes out the binding of a name. -/
def drop : Bindings → String → Bindings
  | [], _ => []
  | (m, v) :: bs, n => if m = n then bs else (m, v) :: drop bs n

end Bindings

/-- Bindings and the frame around them. -/
structure Frame where
  bindings : Bindings
  parent : Option FrameId

instance : Inhabited Frame := ⟨⟨[], none⟩⟩

/-- All frames. -/
structure ScopeTree where
  frames : Array Frame

namespace ScopeTree

/-- The tree without frames. -/
def empty : ScopeTree := ⟨#[]⟩

/-- A new frame without a parent. -/
def root (t : ScopeTree) : FrameId × ScopeTree :=
  match t with
  | ⟨frames⟩ => let f := frames.size; (f, ⟨frames.push ⟨[], none⟩⟩)

/-- A new frame inside another one. -/
def child (t : ScopeTree) (parent : FrameId) : FrameId × ScopeTree :=
  match t with
  | ⟨frames⟩ => let f := frames.size; (f, ⟨frames.push ⟨[], some parent⟩⟩)

/-- A new frame inside another one, with bindings. -/
def childWith (t : ScopeTree) (parent : FrameId) (bindings : Bindings) : FrameId × ScopeTree :=
  match t with
  | ⟨frames⟩ => let f := frames.size; (f, ⟨frames.push ⟨bindings, some parent⟩⟩)

/-- The value of a name in one frame. -/
def getCurrent (t : ScopeTree) (f : FrameId) (name : String) : Option Value :=
  t.frames[f]?.bind (·.bindings.find? name)

/-- The parent of a frame. -/
def parent? (t : ScopeTree) (f : FrameId) : Option FrameId := t.frames[f]?.bind (·.parent)

/-- The nearest frame that binds a name, at most `n` steps up. -/
def ownerWithin (t : ScopeTree) (name : String) : Nat → FrameId → Option FrameId
  | 0, _ => none
  | n + 1, f =>
    match t.getCurrent f name with
    | some _ => some f
    | none =>
      match t.parent? f with
      | some p => ownerWithin t name n p
      | none => none

/-- The nearest frame that binds a name. A parent is older than its child, so the way up is no
longer than the number of the frame. -/
def owner (t : ScopeTree) (f : FrameId) (name : String) : Option FrameId :=
  t.ownerWithin name (f + 1) f

/-- The value of a name in a frame and those around it. -/
def get (t : ScopeTree) (f : FrameId) (name : String) : Option Value :=
  (t.owner f name).bind fun o => t.getCurrent o name

/-- Changes the bindings of a frame. -/
def modify (t : ScopeTree) (f : FrameId) (change : Bindings → Bindings) : ScopeTree :=
  match t with
  | ⟨frames⟩ => ⟨frames.modify f fun frame =>
    match frame with
    | ⟨bindings, parent⟩ => ⟨change bindings, parent⟩⟩

/-- Binds a name in a frame, whatever the frames around it say. -/
def define (t : ScopeTree) (f : FrameId) (name : String) (x : Value) : ScopeTree :=
  t.modify f (·.put name x)

/-- Changes the nearest binding of a name, and says whether there is one. -/
def reset (t : ScopeTree) (f : FrameId) (name : String) (x : Value) : Bool × ScopeTree :=
  match t.owner f name with
  | some o => (true, t.modify o (·.put name x))
  | none => (false, t)

/-- Takes out the nearest binding of a name and gives its value. -/
def delete (t : ScopeTree) (f : FrameId) (name : String) : Option Value × ScopeTree :=
  match t.owner f name with
  | some o => (t.getCurrent o name, t.modify o (·.drop name))
  | none => (none, t)

end ScopeTree

end Scripting
