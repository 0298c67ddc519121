import Scripting.Command.Arguments
import Scripting.Session
import Scripting.Text.Blank

/-!
# The command

What the command writes and the code it ends with, for a script and at the prompt. A run ends only
if all that it evaluates completes, so there may be no report of it.
-/

namespace Scripting.Command

/-- What a run of the command that ends shows. -/
structure Report where
  exitCode : UInt8
  output : String

/-- Ends a run whose arguments are not understood. -/
def usageFailure : Report := ⟨64, ""⟩

/-- Ends a run whose script cannot be read. -/
def inputFailure : Report := ⟨74, ""⟩

/-- The lines that report syntax errors. -/
def errorLines (errors : List SyntaxError) : String :=
  String.join (errors.map fun e => "Error: " ++ e.text ++ "\n")

/-- Reports the value of a script. A failure has an exit code of its own. -/
def valueReport (v : Value) (m : Machine) : Report :=
  ⟨if v.kind = .error then 70 else 0, m.sink.text ++ m.heap.render v ++ "\n"⟩

/-- Runs a script, if its evaluation completes. Syntax errors have an exit code of their own. -/
def runScript (source : String) (cancellation : Cancellation) (clock : Nat → String) :
    Option Report :=
  match runProgram source cancellation clock with
  | .error errors => some ⟨65, errorLines errors⟩
  | .ok ended => ended.map fun (v, m) => valueReport v m

/-- What the prompt shows first. -/
def banner : String :=
  "Welcome to Stang!\nType code at the prompt, or pass a script path to run a file.\n\n"

/-- What the prompt shows before it reads a line. -/
def promptSign : String := ">> "

/-- What `--version` shows. -/
def versionLine : String := "stang 0.1.0\n"

/-- What `--help` shows. -/
def helpText : String :=
  "Runs a Stang script, or starts a prompt when no script is given.\n\n" ++
    "USAGE:\n    stang [OPTIONS] [SCRIPT]\n\n" ++
    "OPTIONS:\n" ++
    "        --no-timeout                 Let scripts run without a deadline\n" ++
    "        --timeout-ms <TIMEOUT_MS>    Deadline for running a script, in milliseconds\n" ++
    "    -h, --help                       Print help information\n" ++
    "    -V, --version                    Print version information\n"

/-- The line asks to leave the prompt. -/
def asksToLeave (line : String) : Bool :=
  (Text.trim line.toList).map Char.toLower == "exit".toList

/-- Answers a line at the prompt, if its evaluation completes: what is shown, and the machine to go
on with unless the session ends. It ends at a line that is no text, as it does where no line is
left. -/
def answer (m : Machine) : Option String → Option (String × Option Machine)
  | none => some ("", none)
  | some line =>
    if asksToLeave line then some ("bye\n", none)
    else
      match parseProgram line with
      | .error errors => some (errorLines errors, some m)
      | .ok program =>
        (m.evalProgram program).map fun (v, m) =>
          match m.takeOutput with
          | (printed, n) => (printed ++ m.heap.render v ++ "\n", some n)

/-- What a session at the prompt shows after its banner, if it ends. -/
def transcript : Machine → List (Option String) → Option String
  | _, [] => some promptSign
  | m, line :: lines =>
    match answer m line with
    | none => none
    | some (shown, none) => some (promptSign ++ shown)
    | some (shown, some m) => (transcript m lines).map (promptSign ++ shown ++ ·)

/-- A session at the prompt, for the lines of standard input. -/
def promptReport (lines : List (Option String)) (clock : Nat → String) : Option Report :=
  (transcript (.new clock) lines).map fun shown => ⟨0, banner ++ shown⟩

/-- Takes input apart into lines. A line ends with a line feed, which a carriage return may
precede; the last line may end without one. `line` holds the line so far, its last byte first. -/
def splitLines (line : List UInt8) : List UInt8 → List (List UInt8)
  | [] => if line.isEmpty then [] else [line.reverse]
  | 10 :: bs =>
    (match line with
    | 13 :: more => more
    | _ => line).reverse :: splitLines [] bs
  | b :: bs => splitLines (b :: line) bs

/-- The text that bytes encode, if they do. -/
def readText (bytes : List UInt8) : Option String := String.fromUTF8? ⟨bytes.toArray⟩

/-- The lines of the input, each as a text if it is one. -/
def inputLines (input : ByteArray) : List (Option String) :=
  (splitLines [] input.data.toList).map readText

/-- Runs the command on arguments, on the files of a directory and on standard input. `checks` tells
after how many checks of the signal a deadline in milliseconds passes, if it passes at all. -/
def run (args : List String) (file : String → Option ByteArray) (input : ByteArray)
    (checks : Nat → Option Nat) (clock : Nat → String) : Option Report :=
  match request args with
  | none => some usageFailure
  | some .showVersion => some ⟨0, versionLine⟩
  | some .showHelp => some ⟨0, helpText⟩
  | some .prompt => promptReport (inputLines input) clock
  | some (.run script deadline) =>
    match (file script).bind fun bytes => String.fromUTF8? bytes with
    | some source => runScript source (.atDeadline (deadline.bind checks)) clock
    | none => some inputFailure

end Scripting.Command
