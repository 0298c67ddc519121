import Scripting.Command
import Std.Time

/-!
# The command line

Reads the script or the lines at the prompt, shows what the command says and ends with its code.
Everything else is decided in `Scripting.Command`: what the arguments ask for, and how a line at the
prompt is answered.
-/

namespace Scripting.Command

/-- The time as scripts see it. -/
def currentTime : IO String := do
  return (← Std.Time.PlainDateTime.now).format "uuuu-MM-dd HH:mm:ss"

/-- The bytes up to and including the next line feed, or up to the end of the input. -/
partial def readLine (input : IO.FS.Stream) (line : ByteArray) : IO ByteArray := do
  let more ← input.read 1
  let line := line ++ more
  if more.isEmpty || more.data == #[10] then return line else readLine input line

/-- Goes on for ever, as an evaluation that does not complete. -/
partial def idle : IO Unit := do
  IO.sleep 1000
  idle

/-- Answers line after line, and shows each answer before it reads on. -/
partial def promptLoop (input output : IO.FS.Stream) (m : Machine) : IO Unit := do
  output.putStr promptSign
  output.flush
  let line := (inputLines (← readLine input .empty)).head?.join
  let time ← currentTime
  match answer { m with clock := ⟨fun _ => time, 0⟩ } line with
  | none => idle
  | some (shown, next) =>
    output.putStr shown
    if let some m := next then promptLoop input output m

/-- The bytes of the script that is asked for, if it can be read. -/
def scriptBytes : Option Request → IO (Option ByteArray)
  | some (.run script _) => do
    try return some (← IO.FS.readBinFile script)
    catch _ => return none
  | _ => return none

/-- The checks that evaluation makes in a millisecond, by estimate. Evaluation is a function and
does not look at the time, so a deadline is counted in checks here. -/
def checksPerMillisecond : Nat := 20000

/-- Does what the arguments ask for. -/
def perform (args : List String) : IO UInt32 := do
  let output ← IO.getStdout
  let asked := request args
  let time ← currentTime
  if asked = some .prompt then
    output.putStr banner
    promptLoop (← IO.getStdin) output (.new fun _ => time)
    return 0
  else
    let bytes ← scriptBytes asked
    let checks (ms : Nat) := some (ms * checksPerMillisecond)
    match run args (fun _ => bytes) .empty checks fun _ => time with
    | none =>
      idle
      return 0
    | some report =>
      output.putStr report.output
      output.flush
      return report.exitCode.toUInt32

end Scripting.Command

/-- Runs the command. -/
def main (args : List String) : IO UInt32 := Scripting.Command.perform args
