import Scripting.Decimal.Reader

/-!
# Arguments of the command

The command takes at most one script and two options. `-V` and `--version` win over everything that
stands after them; what is wrong with the value of an option or with its number is only found when
all arguments have been looked at.
-/

namespace Scripting.Command

/-- What the command is asked to do. -/
inductive Request where
  | showVersion
  | showHelp
  /-- Run a script, with a deadline in milliseconds unless there is none. -/
  | run (script : String) (deadline : Option Nat)
  /-- Read programs from standard input. -/
  | prompt
deriving DecidableEq, Repr

/-- The deadline of a script where none is given, in milliseconds. -/
def defaultDeadline : Nat := 3000

/-- The arguments looked at so far. -/
structure Collected where
  scripts : List String
  deadlines : List (Option String)
  noTimeouts : Nat

/-- Reads a natural number of 64 bits: an optional plus sign and at least one digit. -/
def readNatural (s : String) : Option Nat :=
  let digits := match s.toList with
    | '+' :: cs => cs
    | cs => cs
  if digits.isEmpty || !digits.all Char.isDigit then none
  else
    let n := Decimal.digitsValue 0 digits
    if n < UInt64.size then some n else none

/-- What the arguments ask for once all are known. Every option may be given once, and the value of
the deadline has to be a number. -/
def Collected.request (c : Collected) : Option Request := do
  let deadline ← match c.deadlines with
    | [] => some defaultDeadline
    | [some text] => readNatural text
    | _ => none
  if 1 < c.noTimeouts then none
  else
    match c.scripts with
    | [] => some .prompt
    | script :: _ => some (.run script (if c.noTimeouts = 0 then some deadline else none))

/-- Takes a script, of which there may be one. -/
def Collected.addScript (c : Collected) (script : String) : Option Collected :=
  match c.scripts with
  | [] => some { c with scripts := [script] }
  | _ => none

/-- Notes a deadline. -/
def Collected.addDeadline (c : Collected) (text : Option String) : Collected :=
  { c with deadlines := text :: c.deadlines }

/-- The scripts after a double dash. -/
def collectScripts (c : Collected) : List String → Option Collected
  | [] => some c
  | arg :: args => do collectScripts (← c.addScript arg) args

/-- The argument looks like an option. -/
def isOption (arg : List Char) : Bool :=
  match arg with
  | '-' :: _ :: _ => true
  | _ => false

/-- Looks at the arguments in turn. Gives nothing if one of them is not understood. -/
def collect : Collected → List String → Option Request
  | c, [] => c.request
  | c, arg :: args =>
    match arg.toList with
    | ['-', '-'] => do (← collectScripts c args).request
    | '-' :: '-' :: name =>
      if name = "version".toList then some .showVersion
      else if name = "help".toList then some .showHelp
      else if name = "no-timeout".toList then collect { c with noTimeouts := c.noTimeouts + 1 } args
      else if name = "timeout-ms".toList then
        match args with
        | [] => collect (c.addDeadline none) []
        | value :: rest =>
          if isOption value.toList then collect (c.addDeadline none) (value :: rest)
          else collect (c.addDeadline (some value)) rest
      else if "timeout-ms=".toList.isPrefixOf name then
        collect (c.addDeadline (some (String.ofList (name.drop 11)))) args
      else none
    | '-' :: 'V' :: _ => some .showVersion
    | '-' :: 'h' :: _ => some .showHelp
    | '-' :: _ :: _ => none
    | _ => do collect (← c.addScript arg) args

/-- What the arguments ask for. Gives nothing if they are not understood. -/
def request (args : List String) : Option Request := collect ⟨[], [], 0⟩ args

end Scripting.Command
