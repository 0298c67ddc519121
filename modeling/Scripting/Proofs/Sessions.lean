import Scripting.Proofs.CoupledEvaluation

/-!
# Sessions

A session starts on a new machine and evaluates code on it, one piece after the other, whatever
becomes of each of them. What a discipline asks for holds in every session if it holds on a new
machine, and evaluation that does its operations in another way is the same in every session if each
operation comes to the same where the discipline holds.
-/

namespace Scripting

open Evaluation

namespace Evaluation.Piece

/-- The piece is code as it is written, without values. -/
def isCode : Piece → Bool
  | .expression _ | .statement _ | .block _ | .program _ => true
  | .call _ _ | .builtin _ _ | .method _ _ _ => false

theorem allowed_of_isCode {piece : Piece} (code : piece.isCode) (D : Discipline) (h : Heap) :
    piece.Allowed D h := by
  cases piece with
  | call | builtin | method => cases code
  | expression | statement | block | program => trivial

end Evaluation.Piece

namespace Coupling

/-- Runs that are the same, failing checks included. -/
def identity (D : Discipline) : Coupling := equal D ⟨Eq, fun f alike => by rw [alike]⟩

variable {D : Discipline} {h : Heap} {f : FrameId}

theorem couples_check_identity (sound : D.Sound h) {check : Eval Unit}
    (alike : ∀ m : Machine, m.heap = h → m.scope = f → check m = Machine.check m) :
    (identity D).Couples h f Machine.check check fun _ _ => True := by
  apply couples_check_equal sound
  · intro m heap scope _
    exact alike m heap scope
  · intro m heap scope cancelled
    exact ⟨m, (alike m heap scope).trans (check_cancelled cancelled), rfl⟩

theorem fits_identity : (identity D).Fits .standard :=
  fits_standard connected_equal fun ready => couples_check_identity ready.sound fun _ _ _ => rfl

theorem Ends.eq {α : Type} {left right : Outcome Machine Stop α}
    (ends : (identity D).Ends left right) : right = left := by
  cases ends with
  | done a linked =>
    cases linked
    rfl
  | failed stop _ linked =>
    cases linked
    rfl
  | exhausted => rfl
  | past past =>
    obtain ⟨m, stopped, rfl⟩ := past
    cases left with
    | done => cases stopped
    | failed stop n =>
      cases stopped
      rfl
    | exhausted => cases stopped

end Coupling

namespace Evaluation.Piece

variable {D : Discipline} {o : Primitives} {m : Machine}

/-- Operations that come to the same where the discipline holds make evaluation the same. -/
theorem evaluation_eq (piece : Piece) (fits : (Coupling.identity D).Fits o) (fuel : Nat)
    (ready : D.Ready m.heap m.scope) (allowed : piece.Allowed D m.heap) :
    o.evaluation fuel piece m = piece.evaluation fuel m :=
  ((Coupling.couples_evaluation fits fuel piece ready allowed).ends m m rfl rfl rfl).eq

theorem keeps_of_allowed (piece : Piece) (fuel : Nat) (ready : D.Ready m.heap m.scope)
    (allowed : piece.Allowed D m.heap) :
    D.Keeps m.heap m.scope (piece.evaluation fuel) D.Allowed :=
  (Coupling.couples_evaluation Coupling.fits_identity fuel piece ready allowed).keeps

end Evaluation.Piece

namespace Machine

/-- Goes on if the condition holds, and raises the alarm otherwise. -/
def insist (alarm : Eval Unit) (condition : Prop) [Decidable condition] : Eval Unit :=
  if condition then pure () else alarm

theorem insist_of {alarm : Eval Unit} {condition : Prop} [Decidable condition] (holds : condition) :
    insist alarm condition = pure () := if_pos holds

/-- The machine of a session after some pieces of code. Each of them may have completed in any way,
with a failure as well. Output, signal and clock may be exchanged in between. -/
inductive Session : Machine → Prop where
  | start (clock : Nat → String) : Session (new clock)
  | evaluate {m m' : Machine} {c : Completion} (piece : Piece) (fuel : Nat) : Session m →
      piece.isCode → m.complete (piece.evaluation fuel) = some (c, m') → Session m'
  | connect {m : Machine} (sink : Sink) (cancellation : Cancellation) (clock : Clock) :
      Session m → Session { m with sink, cancellation, clock }

namespace Session

variable {m m' : Machine}

/-- What is in order on a new machine is in order throughout a session. -/
theorem ready {D : Discipline} (fresh : ∀ clock, D.Ready (new clock).heap (new clock).scope)
    (session : Session m) : D.Ready m.heap m.scope := by
  induction session with
  | start clock => exact fresh clock
  | evaluate piece fuel _ code ended ih =>
    obtain ⟨advance, scope⟩ := keeps_complete
      (piece.keeps_of_allowed fuel ih (Piece.allowed_of_isCode code D _)) ended
    rw [scope]
    exact ih.advance advance
  | connect sink cancellation clock _ ih => exact ih

theorem evalStatements (session : Session m) {ss : List (Stmt Unit)} {c : Completion}
    (ended : m.evalStatements ss = some (c, m')) : Session m' :=
  session.evaluate (.program ⟨ss⟩) fuel rfl ended

theorem evalStatement (session : Session m) {s : Stmt Unit} {c : Completion}
    (ended : m.evalStatement s = some (c, m')) : Session m' :=
  session.evaluate (.statement s) fuel rfl ended

theorem evalProgram (session : Session m) {p : Program Unit} {v : Value}
    (ended : m.evalProgram p = some (v, m')) : Session m' := by
  obtain ⟨⟨c, n⟩, completed, same⟩ := Option.map_eq_some_iff.mp ended
  cases same
  exact session.evalStatements completed

end Session

end Machine

end Scripting
