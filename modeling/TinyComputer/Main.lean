import TinyComputer.Console

/-!
# The command line program

Reads command lines from standard input and writes the answers of the debugger to standard output.
-/

namespace TinyComputer

/-- Prompt for command lines and answer them until the input ends or a line asks to quit. -/
partial def converse (input output : IO.FS.Stream) (debugger : Debugger) : IO Unit := do
  output.putStr Console.prompt
  output.flush
  let line := (← input.getLine).toList
  if line.isEmpty || Console.isQuit line then return
  let (text, debugger) := Console.answer line debugger
  output.putStr (String.ofList text)
  converse input output debugger

end TinyComputer

/-- Run the console. -/
def main : IO Unit := do
  match TinyComputer.Console.boot with
  | .error message => IO.eprintln message
  | .ok debugger =>
      let output ← IO.getStdout
      let (text, debugger) := TinyComputer.Console.greet debugger
      output.putStr (String.ofList text)
      TinyComputer.converse (← IO.getStdin) output debugger
