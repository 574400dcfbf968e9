import TinyComputer.Assembly.Error
import TinyComputer.Processor.Fault

/-!
# Errors of debugger commands

Why a command line did nothing, or did not do all that it asked for.
-/

namespace TinyComputer

/-- Why a debugger command failed. -/
inductive CommandError where
  | unknownCommand
  | missingArgument (name : String)
  /-- The token is neither a literal nor a symbol. -/
  | invalidAddress (token : List Char)
  | invalidByte (token : List Char)
  | sizeTooLarge (size most : Word)
  | noBreakpoint (address : Word)
  /-- The instruction to assemble is none. -/
  | assembly (cause : AssemblyError)
  | fault (cause : Fault)
  deriving DecidableEq, Repr

namespace CommandError

def message : CommandError → String
  | unknownCommand => "syntax error (use [?] for help)"
  | missingArgument name => "missing " ++ name
  | invalidAddress token => "invalid address or symbol `" ++ String.ofList token ++ "`"
  | invalidByte token => "invalid byte `" ++ String.ofList token ++ "`"
  | sizeTooLarge size most =>
      "block size 0x" ++ String.ofList (Text.hexShort size) ++ " is larger than 0x" ++
        String.ofList (Text.hexShort most)
  | noBreakpoint address =>
      "no breakpoint at 0x" ++ String.ofList (Text.hexFixed 8 address.toNat)
  | assembly cause => cause.message
  | fault cause => cause.message

/-- What the debugger answers when a command fails. -/
def reply : CommandError → String
  | unknownCommand => unknownCommand.message
  | error => "error: " ++ error.message

end CommandError

end TinyComputer
