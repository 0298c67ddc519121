import Scripting.Value.Indexing
import Scripting.Value.Method

/-!
# What a running program works on

Beside the heap there is the current frame, the output, a signal that may cancel evaluation, and
the clock. The signal and the clock are data: when the signal fires, and what the clock shows, is
settled before evaluation starts, in numbers of checks, printed lines and readings.
-/

namespace Scripting

/-- Where printed text goes. -/
structure Sink where
  /-- What was printed. -/
  text : String
  /-- How many more lines the sink takes, if it is going to fail. -/
  linesLeft : Option Nat

namespace Sink

/-- The sink that takes everything. -/
def empty : Sink := ⟨"", none⟩

/-- Writes a piece of text. A sink that has taken its last line refuses it. -/
def write (s : Sink) (piece : String) : Option Sink :=
  match s with
  | ⟨text, linesLeft⟩ =>
    match linesLeft with
    | none => some ⟨text ++ piece, none⟩
    | some 0 => none
    | some n => some ⟨text ++ piece, some (n - piece.toList.count '\n')⟩

end Sink

/-- A signal that cancels evaluation. -/
structure Cancellation where
  /-- The signal has fired. -/
  fired : Bool
  /-- How many more checks pass before a deadline. -/
  checksLeft : Option Nat
  /-- How many more lines are printed before the signal fires. -/
  linesLeft : Option Nat

namespace Cancellation

/-- Never fires. -/
def never : Cancellation := ⟨false, none, none⟩

/-- Has fired already. -/
def raised : Cancellation := ⟨true, none, none⟩

/-- Fires at a deadline that passes after so many checks. If there is no number it never does. -/
def atDeadline (checks : Option Nat) : Cancellation := ⟨false, checks, none⟩

/-- Fires when so many more lines have been printed. -/
def afterLines (n : Nat) : Cancellation := ⟨n == 0, none, some n⟩

/-- The signal has fired or its deadline has passed. -/
def isCancelled (c : Cancellation) : Bool := c.fired || c.checksLeft == some 0

/-- The signal after one more check that it passed. -/
def tick (c : Cancellation) : Cancellation :=
  match c with
  | ⟨fired, some n, linesLeft⟩ => ⟨fired, some (n - 1), linesLeft⟩
  | c => c

/-- The signal after more lines have been printed. -/
def printed (c : Cancellation) (lines : Nat) : Cancellation :=
  match c with
  | ⟨fired, checksLeft, some n⟩ => ⟨fired || n ≤ lines, checksLeft, some (n - lines)⟩
  | c => c

end Cancellation

/-- What the clock shows each time it is read. -/
structure Clock where
  /-- The reading of each number. -/
  readings : Nat → String
  /-- How many readings were taken. -/
  taken : Nat

/-- The state of a running program. -/
structure Machine where
  heap : Heap
  /-- The current frame. -/
  scope : FrameId
  sink : Sink
  cancellation : Cancellation
  clock : Clock

/-- What ends evaluation before it has a value: an error, or a jump out of a function or loop. -/
inductive Stop where
  | error (e : RuntimeError)
  | returned (v : Value)
  | broke
  | continued

/-- An evaluation. -/
abbrev Eval := Attempt Machine Stop

namespace Machine

/-- A new machine, with one frame. -/
def new (clock : Nat → String) : Machine :=
  match ScopeTree.empty.root with
  | (f, scopes) => ⟨⟨.empty, #[], scopes, #[]⟩, f, .empty, .never, ⟨clock, 0⟩⟩

/-- Fails with a runtime error. -/
@[always_inline, inline]
def raise {α : Type} (e : RuntimeError) : Eval α := .fail (.error e)

/-- Gives the value, or fails with the error. -/
@[always_inline, inline]
def ofExcept {α : Type} (r : Except RuntimeError α) : Eval α :=
  match r with
  | .ok a => pure a
  | .error e => raise e

/-- Works out a value from the heap. -/
@[always_inline, inline]
def consult {α : Type} (f : Heap → Except RuntimeError α) : Eval α := fun m =>
  match f m.heap with
  | .ok v => .done v m
  | .error e => .failed (.error e) m

/-- Changes the heap and gives a result. -/
@[always_inline, inline]
def onHeap {α : Type} (f : Heap → α × Heap) : Eval α := fun m =>
  match m with
  | ⟨heap, scope, sink, cancellation, clock⟩ =>
    match f heap with
    | (a, heap) => .done a ⟨heap, scope, sink, cancellation, clock⟩

/-- Works out a value and a change from the heap and makes the change. -/
@[always_inline, inline]
def commit (f : Heap → Except RuntimeError (Value × Change)) : Eval Value := fun m =>
  match f m.heap with
  | .ok (v, change) =>
    match m with
    | ⟨heap, scope, sink, cancellation, clock⟩ =>
      .done v ⟨heap.perform change, scope, sink, cancellation, clock⟩
  | .error e => .failed (.error e) m

/-- Runs an action on the heap. -/
@[always_inline, inline]
def act (p : Heap.Action Value) : Eval Value := fun m =>
  match m with
  | ⟨heap, scope, sink, cancellation, clock⟩ =>
    match p heap with
    | .done v heap => .done v ⟨heap, scope, sink, cancellation, clock⟩
    | .failed e heap => .failed (.error e) ⟨heap, scope, sink, cancellation, clock⟩
    | .exhausted => .exhausted

/-- Fails if evaluation was cancelled. -/
def check : Eval Unit := fun m =>
  match m with
  | ⟨heap, scope, sink, cancellation, clock⟩ =>
    if cancellation.isCancelled then
      .failed (.error .timeout) ⟨heap, scope, sink, cancellation, clock⟩
    else .done () ⟨heap, scope, sink, cancellation.tick, clock⟩

/-- Prints a piece of text. -/
def write (piece : String) : Eval Unit := fun m =>
  match m with
  | ⟨heap, scope, sink, cancellation, clock⟩ =>
    match sink.write piece with
    | some sink =>
      .done () ⟨heap, scope, sink, cancellation.printed (piece.toList.count '\n'), clock⟩
    | none => .failed (.error (.printFailed "sink closed")) ⟨heap, scope, sink, cancellation, clock⟩

/-- Prints a line. -/
def writeLine (text : String) : Eval Unit := do
  if text.isEmpty then pure () else write text
  write "\n"

/-- Reads the clock. -/
def readClock : Eval String := fun m =>
  match m with
  | ⟨heap, scope, sink, cancellation, ⟨readings, taken⟩⟩ =>
    .done (readings taken) ⟨heap, scope, sink, cancellation, ⟨readings, taken + 1⟩⟩

/-- Runs an evaluation in another frame, and goes back to the current one however it ends. -/
@[always_inline, inline]
def inFrame {α : Type} (f : FrameId) (p : Eval α) : Eval α := fun m =>
  match m with
  | ⟨heap, scope, sink, cancellation, clock⟩ =>
    match p ⟨heap, f, sink, cancellation, clock⟩ with
    | .done a ⟨heap, _, sink, cancellation, clock⟩ =>
      .done a ⟨heap, scope, sink, cancellation, clock⟩
    | .failed e ⟨heap, _, sink, cancellation, clock⟩ =>
      .failed e ⟨heap, scope, sink, cancellation, clock⟩
    | .exhausted => .exhausted

/-- The current frame. -/
@[always_inline, inline]
def currentFrame : Eval FrameId := fun m => .done m.scope m

/-- Runs an evaluation in a new frame inside the current one. -/
@[always_inline, inline]
def inChild {α : Type} (p : Eval α) : Eval α := do
  let outer ← currentFrame
  let f ← onHeap fun h => h.onScopes (·.child outer)
  inFrame f p

end Machine

end Scripting
