import TinyComputer.Debugger.Basic

/-!
# The console

The program that a user runs: a computer with a storage device and a keyboard, and a debugger that
prompts for command lines until there are no more or one of them is `q`.
-/

namespace TinyComputer.Console

open Text

/-- The size of the storage unit in bytes. -/
abbrev unitSize : Nat := 1024 * 1024

def prompt : String := "- "

/-- The computer of the console, in its debugger, or the reason why it cannot be built. -/
def boot : Except String Debugger :=
  match Storage.ofUnits [.zeros unitSize] with
  | .error error => .error error.message
  | .ok storage =>
      match Machine.build {} [.storage storage, .keyboard {}] with
      | .error error => .error error.message
      | .ok machine => .ok (.ofMachine machine)

/-- The greeting, on lines of its own. -/
def greet (debugger : Debugger) : List Char × Debugger :=
  let (text, debugger) := debugger.welcome
  (text ++ ['\n'], debugger)

/-- Whether a command line ends the session. -/
def isQuit (line : List Char) : Bool :=
  trim line == ['q']

/-- The answer to a command line, on lines of its own unless it is empty. -/
def answer (line : List Char) (debugger : Debugger) : List Char × Debugger :=
  let (text, debugger) := debugger.respond line
  (if text.isEmpty then [] else text ++ ['\n'], debugger)

/-- All that is written while the given command lines are read, prompts included. -/
def converse (debugger : Debugger) : List (List Char) → List Char
  | [] => prompt.toList
  | line :: rest =>
      prompt.toList ++
        if isQuit line then []
        else
          let (text, debugger) := answer line debugger
          text ++ converse debugger rest

/-- The command lines of an input. A last line without characters is none. -/
def commandLines (input : List Char) : List (List Char) :=
  let lines := lines input
  if lines.getLast? == some [] then lines.dropLast else lines

/-- All that a session writes when it is given a whole input. -/
def transcript (input : List Char) : List Char :=
  match boot with
  | .error _ => []
  | .ok debugger =>
      let (text, debugger) := greet debugger
      text ++ converse debugger (commandLines input)

end TinyComputer.Console
