import Mathlib.Logic.Relation
import Scripting.Proofs.Evaluation

/-!
# Frames and the current frame

Evaluation goes back to the frame it started in, however it ends, and no frame ever loses its parent
or gets another one. Since a frame is made inside one that is there already, the way up from any
frame ends at a root.
-/

namespace Scripting

namespace ScopeTree

/-- Every frame is still there, and its parent is the one that it had. -/
structure Extends (t t' : ScopeTree) : Prop where
  grown : t.frames.size ≤ t'.frames.size
  parents : ∀ f < t.frames.size, t'.parent? f = t.parent? f

/-- The way up from a frame ends at a root. -/
inductive Rooted (t : ScopeTree) : FrameId → Prop where
  | root {f : FrameId} : f < t.frames.size → t.parent? f = none → Rooted t f
  | inside {f p : FrameId} : t.parent? f = some p → Rooted t p → Rooted t f

/-- A parent is older than its child. -/
def Aged (t : ScopeTree) : Prop := ∀ f p, t.parent? f = some p → p < f

variable {t t' t'' : ScopeTree}

theorem Extends.refl (t : ScopeTree) : t.Extends t := ⟨Nat.le_refl _, fun _ _ => rfl⟩

theorem Extends.trans (first : t.Extends t') (second : t'.Extends t'') : t.Extends t'' := by
  refine ⟨Nat.le_trans first.grown second.grown, fun f there => ?_⟩
  rw [second.parents f (Nat.lt_of_lt_of_le there first.grown), first.parents f there]

/-! ### Making and changing frames -/

theorem parent?_push (frame : Frame) (f : FrameId) :
    (ScopeTree.mk (t.frames.push frame)).parent? f =
      if f = t.frames.size then frame.parent else t.parent? f := by
  unfold parent?
  rw [Array.getElem?_push]
  split
  · rfl
  · rfl

theorem parent?_modify (f : FrameId) (change : Bindings → Bindings) (g : FrameId) :
    (t.modify f change).parent? g = t.parent? g := by
  unfold parent? modify
  rw [Array.getElem?_modify]
  split
  · cases t.frames[g]? <;> rfl
  · rfl

theorem size_modify (f : FrameId) (change : Bindings → Bindings) :
    (t.modify f change).frames.size = t.frames.size := by
  simp [modify]

theorem extends_push (frame : Frame) : t.Extends ⟨t.frames.push frame⟩ := by
  refine ⟨by simp, fun f there => ?_⟩
  rw [parent?_push, if_neg (Nat.ne_of_lt there)]

theorem extends_modify (f : FrameId) (change : Bindings → Bindings) :
    t.Extends (t.modify f change) :=
  ⟨(size_modify f change).ge, fun g _ => parent?_modify f change g⟩

theorem Aged.push (aged : t.Aged) {frame : Frame}
    (older : ∀ p, frame.parent = some p → p < t.frames.size) :
    Aged ⟨t.frames.push frame⟩ := by
  intro f p above
  rw [parent?_push] at above
  split at above
  · rename_i last
    rw [last]
    exact older p above
  · exact aged f p above

theorem Aged.modify (aged : t.Aged) (f : FrameId) (change : Bindings → Bindings) :
    (t.modify f change).Aged := by
  intro g p above
  rw [parent?_modify] at above
  exact aged g p above

/-- Going up leads to older and older frames, and so to a root. -/
theorem Aged.rooted (aged : t.Aged) {f : FrameId} (there : f < t.frames.size) : t.Rooted f := by
  induction f using Nat.strong_induction_on with
  | _ f ih =>
    cases above : t.parent? f with
    | none => exact .root there above
    | some p =>
      have older := aged f p above
      exact .inside above (ih p older (Nat.lt_trans older there))

end ScopeTree

namespace Heap

/-- The frames lead up to older ones, and functions were made in frames that are there. -/
structure Grounded (h : Heap) : Prop where
  aged : h.scopes.Aged
  captured : ∀ id, (h.closure id).scope < h.scopes.frames.size

variable {h h' : Heap}

/-- Only frames and functions matter. -/
theorem Grounded.congr (grounded : h.Grounded) (frames : h'.scopes = h.scopes)
    (functions : h'.functions = h.functions) : h'.Grounded where
  aged := by
    rw [frames]
    exact grounded.aged
  captured := by
    intro id
    have there := grounded.captured id
    unfold closure at there ⊢
    rwa [frames, functions]

theorem Grounded.push (grounded : h.Grounded) {frame : Frame}
    (older : ∀ p, frame.parent = some p → p < h.scopes.frames.size) :
    Grounded { h with scopes := ⟨h.scopes.frames.push frame⟩ } where
  aged := grounded.aged.push older
  captured := by
    intro id
    have there := grounded.captured id
    rw [Array.size_push]
    exact Nat.lt_succ_of_lt there

theorem Grounded.modify (grounded : h.Grounded) (f : FrameId) (change : Bindings → Bindings) :
    Grounded { h with scopes := h.scopes.modify f change } where
  aged := grounded.aged.modify f change
  captured := by
    intro id
    rw [ScopeTree.size_modify]
    exact grounded.captured id

theorem Grounded.newFunction (grounded : h.Grounded) {c : Closure}
    (there : c.scope < h.scopes.frames.size) : (h.newFunction c).2.Grounded where
  aged := grounded.aged
  captured := by
    intro id
    change ((h.functions.push c).getD id default).scope < h.scopes.frames.size
    rw [Array.getD_eq_getD_getElem?, Array.getElem?_push]
    split
    · exact there
    · rw [← Array.getD_eq_getD_getElem?]
      exact grounded.captured id

/-- Evaluation keeps the parents of frames. If the heap is assumed to be grounded and the frame to
be there, it stays grounded. -/
def grounding (assumed : Prop) : Discipline where
  Sound h := assumed → h.Grounded
  Open h f := assumed → f < h.scopes.frames.size
  Allowed _ _ := True
  Step h h' := h.scopes.Extends h'.scopes
  refl h := .refl h.scopes
  trans first second := first.trans second
  open_mono ext there known := Nat.lt_of_lt_of_le (there known) ext.grown
  allowed_mono _ _ := trivial
  plain _ _ _ := trivial
  parent := by
    intro h f p sound there above known
    exact Nat.lt_trans ((sound known).aged f p above) (there known)
  binding _ _ _ := trivial
  captured sound _ known := (sound known).captured _
  slot _ _ _ := trivial
  entry _ _ _ := trivial
  child := by
    intro h f bs sound there _
    refine ⟨⟨fun known => (sound known).push ?_, ScopeTree.extends_push _⟩, fun known => ?_⟩
    · intro p same
      cases same
      exact there known
    · change h.scopes.frames.size < (h.scopes.frames.push _).size
      simp
  bind := by
    intro h f name v sound _ _
    exact ⟨fun known => (sound known).modify _ _, ScopeTree.extends_modify f (·.put name v)⟩
  unbind := by
    intro h f name sound _
    exact ⟨fun known => (sound known).modify _ _, ScopeTree.extends_modify f (·.drop name)⟩
  newArray sound _ := ⟨⟨fun known => (sound known).congr rfl rfl, .refl _⟩, trivial⟩
  newView sound _ _ _ := ⟨⟨fun known => (sound known).congr rfl rfl, .refl _⟩, trivial⟩
  set sound _ _ _ := ⟨fun known => (sound known).congr rfl rfl, .refl _⟩
  push sound _ _ := ⟨fun known => (sound known).congr rfl rfl, .refl _⟩
  pop sound _ := ⟨fun known => (sound known).congr rfl rfl, .refl _⟩
  newHash sound _ _ := ⟨⟨fun known => (sound known).congr rfl rfl, .refl _⟩, trivial⟩
  putEntry sound _ _ _ := ⟨fun known => (sound known).congr rfl rfl, .refl _⟩
  eraseEntry sound _ := ⟨fun known => (sound known).congr rfl rfl, .refl _⟩
  newFunction sound there :=
    ⟨⟨fun known => (sound known).newFunction (there known), .refl _⟩, trivial⟩

end Heap

namespace Evaluation

/-- What can be evaluated by itself. -/
inductive Piece where
  | expression (e : Expr Unit)
  | statement (s : Stmt Unit)
  | block (b : Block Unit)
  | program (p : Program Unit)
  | call (id : FunctionId) (args : List Value)
  | builtin (b : Builtin) (args : List Value)
  | method (object : Value) (name : String) (args : List Value)

/-- The evaluation of a piece. -/
def Piece.evaluation (fuel : Nat) : Piece → Eval Value
  | expression e => Evaluation.expression fuel e
  | statement s => Evaluation.statement fuel s
  | block b => Evaluation.block (parts fuel) b
  | program p => statements (parts fuel) .null p.stmts
  | call id args => execute (parts fuel) id args
  | builtin b args => callBuiltin b args
  | method object name args => Machine.act (Heap.callMethod object name args)

/-- Every piece keeps to a discipline that allows every value. -/
theorem Piece.keeps {D : Discipline} (allowed : ∀ h v, D.Allowed h v) (piece : Piece) (fuel : Nat)
    {h : Heap} {f : FrameId} (ready : D.Ready h f) :
    D.Keeps h f (piece.evaluation fuel) D.Allowed := by
  have parts := Discipline.keeps_parts D fuel
  cases piece with
  | expression e => exact parts.expression e ready
  | statement s => exact parts.statement s ready
  | block b => exact Discipline.keeps_block parts ready b
  | program p => exact Discipline.keeps_statements parts ready (allowed h .null) p.stmts
  | call id args =>
    exact Discipline.keeps_execute parts ready.sound (allowed h _) fun v _ => allowed h v
  | builtin b args => exact Discipline.keeps_callBuiltin ready.sound b args
  | method object name args =>
    exact .act (Discipline.callMethod_keeps ready.sound (allowed h object) name
      fun v _ => allowed h v)

end Evaluation

namespace Machine

open Evaluation

variable {m m' : Machine}

/-- One thing that is done with a machine between its start and any later state: a piece is
evaluated, and ends in whatever way, or the one who runs the machine makes a frame, changes bindings,
goes to another frame, makes a function, changes collections or exchanges what the machine is
connected to. A signal that fires after some number of checks makes every state in the course of an
evaluation one in which another evaluation ends. -/
inductive Move : Machine → Machine → Prop where
  | evaluate {m m' : Machine} {c : Completion} (piece : Piece) (fuel : Nat) :
      m.complete (piece.evaluation fuel) = some (c, m') → Move m m'
  | root (m : Machine) : Move m { m with heap := (m.heap.onScopes (·.root)).2 }
  | child {m : Machine} (f : FrameId) (bindings : Bindings) : f < m.heap.scopes.frames.size →
      Move m { m with heap := (m.heap.onScopes (·.childWith f bindings)).2 }
  | bindings (m : Machine) (f : FrameId) (change : Bindings → Bindings) :
      Move m { m with heap := { m.heap with scopes := m.heap.scopes.modify f change } }
  | enter {m : Machine} (f : FrameId) : f < m.heap.scopes.frames.size →
      Move m { m with scope := f }
  | function {m : Machine} (c : Closure) : c.scope < m.heap.scopes.frames.size →
      Move m { m with heap := (m.heap.newFunction c).2 }
  | collections (m : Machine) (arrays : ArrayStore) (tables : Array Table) :
      Move m { m with heap := { m.heap with arrays, tables } }
  | connections (m : Machine) (sink : Sink) (cancellation : Cancellation) (clock : Clock) :
      Move m { m with sink, cancellation, clock }

/-- What can be done with a machine in any number of moves. -/
def Moves : Machine → Machine → Prop := Relation.ReflTransGen Move

/-- The heap is grounded and the current frame is there. -/
structure Grounded (m : Machine) : Prop where
  heap : m.heap.Grounded
  scope : m.scope < m.heap.scopes.frames.size

/-- The current frame is restored and no parent changes, whatever state the machine is in. -/
theorem restored_of_piece {piece : Piece} {fuel : Nat} {c : Completion}
    (ended : m.complete (piece.evaluation fuel) = some (c, m')) :
    m'.scope = m.scope ∧ m.heap.scopes.Extends m'.heap.scopes := by
  have ready : (Heap.grounding False).Ready m.heap m.scope := ⟨False.elim, False.elim⟩
  obtain ⟨advance, scope⟩ := keeps_complete (piece.keeps (fun _ _ => trivial) fuel ready) ended
  exact ⟨scope, advance.2⟩

theorem Grounded.piece (grounded : m.Grounded) {piece : Piece} {fuel : Nat} {c : Completion}
    (ended : m.complete (piece.evaluation fuel) = some (c, m')) : m'.Grounded := by
  have ready : (Heap.grounding True).Ready m.heap m.scope :=
    ⟨fun _ => grounded.heap, fun _ => grounded.scope⟩
  obtain ⟨advance, scope⟩ := keeps_complete (piece.keeps (fun _ _ => trivial) fuel ready) ended
  refine ⟨advance.1 trivial, ?_⟩
  rw [scope]
  exact Nat.lt_of_lt_of_le grounded.scope advance.2.grown

theorem Move.extends (move : Move m m') : m.heap.scopes.Extends m'.heap.scopes := by
  cases move with
  | evaluate piece fuel ended => exact (restored_of_piece ended).2
  | root => exact ScopeTree.extends_push _
  | child f bindings there => exact ScopeTree.extends_push _
  | bindings f change => exact ScopeTree.extends_modify f change
  | enter f there => exact .refl _
  | function c there => exact .refl _
  | collections arrays tables => exact .refl _
  | connections sink cancellation clock => exact .refl _

theorem Move.grounded (move : Move m m') (grounded : m.Grounded) : m'.Grounded := by
  have grown := move.extends.grown
  cases move with
  | evaluate piece fuel ended => exact grounded.piece ended
  | root =>
    exact ⟨grounded.heap.push nofun, Nat.lt_of_lt_of_le grounded.scope grown⟩
  | child f bindings there =>
    refine ⟨grounded.heap.push ?_, Nat.lt_of_lt_of_le grounded.scope grown⟩
    rintro p ⟨⟩
    exact there
  | bindings f change =>
    exact ⟨grounded.heap.modify f change, Nat.lt_of_lt_of_le grounded.scope grown⟩
  | enter f there => exact ⟨grounded.heap, there⟩
  | function c there => exact ⟨grounded.heap.newFunction there, grounded.scope⟩
  | collections arrays tables => exact ⟨grounded.heap.congr rfl rfl, grounded.scope⟩
  | connections sink cancellation clock => exact ⟨grounded.heap, grounded.scope⟩

theorem Moves.extends (moves : Moves m m') : m.heap.scopes.Extends m'.heap.scopes := by
  induction moves with
  | refl => exact .refl _
  | tail _ move ih => exact ih.trans move.extends

theorem Moves.grounded (moves : Moves m m') (grounded : m.Grounded) : m'.Grounded := by
  induction moves with
  | refl => exact grounded
  | tail _ move ih => exact move.grounded ih

theorem grounded_new (clock : Nat → String) : (new clock).Grounded where
  heap := by
    refine ⟨?_, fun id => ?_⟩
    · intro f p above
      cases f with
      | zero => cases above
      | succ f => cases above
    · exact Nat.zero_lt_one
  scope := Nat.zero_lt_one

/-- Whatever is evaluated on whatever machine, and however that ends, the current frame is the same
afterwards. Whatever is done with a machine, a frame keeps its parent; and in every state that a new
machine can get into, the way up from every frame ends at a root. -/
theorem scope_restored_and_frames_rooted :
    (∀ (m m' : Machine) (piece : Piece) (fuel : Nat) (c : Completion),
      m.complete (piece.evaluation fuel) = some (c, m') → m'.scope = m.scope) ∧
    (∀ (m m' : Machine) (p : Program Unit) (v : Value),
      m.evalProgram p = some (v, m') → m'.scope = m.scope) ∧
    (∀ m m' : Machine, Moves m m' → ∀ f < m.heap.scopes.frames.size,
      f < m'.heap.scopes.frames.size ∧ m'.heap.scopes.parent? f = m.heap.scopes.parent? f) ∧
    ∀ (clock : Nat → String) (m : Machine), Moves (new clock) m →
      ∀ f < m.heap.scopes.frames.size, m.heap.scopes.Rooted f := by
  refine ⟨fun m m' piece fuel c ended => ?_, fun m m' p v ended => ?_, fun m m' moves f there => ?_,
    fun clock m moves f there => ?_⟩
  · exact (restored_of_piece ended).1
  · obtain ⟨⟨c, n⟩, completed, same⟩ := Option.map_eq_some_iff.mp ended
    cases same
    have evaluated : m.complete ((Piece.program p).evaluation Machine.fuel) = some (c, n) :=
      completed
    exact (restored_of_piece evaluated).1
  · have extended := moves.extends
    exact ⟨Nat.lt_of_lt_of_le there extended.grown, extended.parents f there⟩
  · exact (moves.grounded (grounded_new clock)).heap.aged.rooted there

/-- The signal fires while a loop inside a call inside a round of a loop is running. The machine is
back in its only old frame, and from the innermost of the four new frames the way leads up to it. -/
theorem scope_restored_and_frames_rooted_after_timeout :
    let always : Expr Unit := .literal () (.boolean true)
    let spinner : Expr Unit := .function () [] (.mk () [.expression () (.whileLoop () always
      (.mk () []))]) ()
    let loop : Expr Unit := .forLoop () none none none (.mk () [.expression () (.call () spinner [])])
    let m : Machine := { new fun _ => "" with cancellation := ⟨false, some 9, none⟩ }
    ∃ m', m.complete ((Piece.expression loop).evaluation 20) = some (.failed .timeout, m') ∧
      m'.heap.scopes.frames.size = 5 ∧ m'.scope = m.scope ∧ m'.heap.scopes.Rooted 4 := by
  intro always spinner loop m
  have ended : ∃ m', m.complete ((Piece.expression loop).evaluation 20) =
      some (.failed .timeout, m') ∧ m'.heap.scopes.frames.size = 5 := ⟨_, rfl, rfl⟩
  obtain ⟨m', ended, size⟩ := ended
  obtain ⟨restored, _, _, rooted⟩ := scope_restored_and_frames_rooted
  have moves : (new fun _ => "").Moves m' :=
    .tail (.single (.connections _ _ _ _)) (.evaluate _ _ ended)
  exact ⟨m', ended, size, restored _ _ _ _ _ ended, rooted _ _ moves 4 (by omega)⟩

end Machine

end Scripting
