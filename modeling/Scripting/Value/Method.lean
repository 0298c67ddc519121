import Scripting.Attempt
import Scripting.Text.LetterCase
import Scripting.Text.Split
import Scripting.Value.Printer

/-!
# Methods of texts and arrays

Texts can be changed in case and split, arrays grow and shrink at their end.
-/

namespace Scripting.Heap

/-- A change of the heap that may fail. -/
abbrev Action := Attempt Heap RuntimeError

/-- Makes an array of texts. -/
def newTexts (parts : List (List Char)) : Action Value := fun h =>
  match h.newArray (parts.map fun p => Value.text (String.ofList p)).toArray with
  | (v, h) => .done v h

/-- A method of a text. -/
def textMethod (s method : String) (args : List Value) : Action Value :=
  match method with
  | "toLower" =>
    match args with
    | [] => pure (.text (String.ofList (Text.toLower s.toList)))
    | _ => .fail (.argumentCount 0 args.length)
  | "toUpper" =>
    match args with
    | [] => pure (.text (String.ofList (Text.toUpper s.toList)))
    | _ => .fail (.argumentCount 0 args.length)
  | "split" =>
    match args with
    | [.text separator] => newTexts (Text.split separator.toList s.toList)
    | [other] => .fail (.argumentType .string other.kind)
    | _ => .fail (.argumentCount 1 args.length)
  | _ => .fail (.noMethod method .string)

/-- Appends values to an array one after the other. -/
def pushAll (a : ArrayId) : List Value → Action Unit
  | [] => pure ()
  | v :: vs => fun h =>
    match h.onArrays (·.push a v) with
    | (_, h) => pushAll a vs h

/-- Takes the last element off an array. -/
def popLast (a : ArrayId) : Action Value := fun h =>
  match h.onArrays (·.pop a) with
  | (some v, h) => .done v h
  | (none, h) => .failed .emptyArray h

/-- A method of an array. -/
def arrayMethod (a : ArrayId) (method : String) (args : List Value) : Action Value :=
  match method with
  | "push" => do
    pushAll a args
    return .integer (Int64.ofNat ((← Attempt.get).arrays.length a))
  | "pop" => popLast a
  | _ => .fail (.noMethod method .array)

/-- Calls a method of a value. -/
def callMethod (object : Value) (method : String) (args : List Value) : Action Value :=
  match object with
  | .text s => textMethod s method args
  | .array a => arrayMethod a method args
  | _ => .fail (.noMethod method object.kind)

end Scripting.Heap
