import TinyComputer.Text.Pieces
import TinyComputer.Text.Padding
import TinyComputer.Text.Blank
import TinyComputer.Text.Hexadecimal
import TinyComputer.Text.Table
import TinyComputer.Word
import TinyComputer.Register
import TinyComputer.Flags
import TinyComputer.Config
import TinyComputer.Instruction.Width
import TinyComputer.Instruction.Mnemonic
import TinyComputer.Instruction.Operand
import TinyComputer.Instruction.Basic
import TinyComputer.Instruction.Codec
import TinyComputer.Instruction.Printer
import TinyComputer.Instruction.Selection
import TinyComputer.Assembly.Error
import TinyComputer.Assembly.Literal
import TinyComputer.Assembly.Operand
import TinyComputer.Assembly.Line
import TinyComputer.Assembly.Program
import TinyComputer.Device.Header
import TinyComputer.Device.Error
import TinyComputer.Device.Memory
import TinyComputer.Device.RegisterBank
import TinyComputer.Device.Keyboard
import TinyComputer.Device.Medium
import TinyComputer.Device.StorageUnit
import TinyComputer.Device.Storage
import TinyComputer.Device.Basic
import TinyComputer.Window
import TinyComputer.Board.Basic
import TinyComputer.Board.Attachment
import TinyComputer.Board.Access
import TinyComputer.Board.Interrupts
import TinyComputer.Board.Host
import TinyComputer.Symbols
import TinyComputer.Processor.Fetch
import TinyComputer.Processor.Fault
import TinyComputer.Processor.Arithmetic
import TinyComputer.Processor.Operands
import TinyComputer.Processor.Execute
import TinyComputer.Disassembly
import TinyComputer.Machine.Basic
import TinyComputer.Machine.Display
import TinyComputer.Debugger.Error
import TinyComputer.Debugger.Breakpoints
import TinyComputer.Debugger.Command
import TinyComputer.Debugger.Dump
import TinyComputer.Debugger.Basic
import TinyComputer.Console
import TinyComputer.Main
import TinyComputer.Proofs.LittleEndian
import TinyComputer.Proofs.Outcomes
import TinyComputer.Proofs.MachineCode
import TinyComputer.Proofs.Selection
import TinyComputer.Proofs.Numerals
import TinyComputer.Proofs.OperandText
import TinyComputer.Proofs.Routing
import TinyComputer.Proofs.AddressRange
import TinyComputer.Proofs.DeviceAccess
import TinyComputer.Proofs.Faults
import TinyComputer.Proofs.MemoryView
import TinyComputer.Proofs.Stack
import TinyComputer.Proofs.InterruptRequests
import TinyComputer.Proofs.InterruptDispatch
import TinyComputer.Proofs.InterruptReturn
import TinyComputer.Proofs.Runs
import TinyComputer.Proofs.StepOver
import TinyComputer.Proofs.InterruptLines
import TinyComputer.Proofs.RequestAccounts
import TinyComputer.Proofs.InstructionText
import TinyComputer.Proofs.ProgramImage
import TinyComputer.Proofs.KeyboardQueue
import TinyComputer.Proofs.StorageTransfers
import TinyComputer.Proofs.FetchOnce
import TinyComputer.Proofs.Polling
import TinyComputer.Proofs.RegisterView
import TinyComputer.Proofs.Reset
import TinyComputer.Proofs.FailedCommands
import TinyComputer.Proofs.Inspection
import TinyComputer.Proofs.Sessions
import TinyComputer.Proofs.SymbolRouting
import TinyComputer.Proofs.Continuing
import TinyComputer.Proofs.SymbolTable
import TinyComputer.Proofs.FlagBits
import TinyComputer.Proofs.Execution
import TinyComputer.Proofs.FaultConditions
import TinyComputer.Proofs.ExactArithmetic
import TinyComputer.Proofs.RegisterEffects
import TinyComputer.Proofs.RegisterFrame
import TinyComputer.Proofs.Comparison
import TinyComputer.Proofs.SizedMoves
import TinyComputer.Proofs.StackEntries
import TinyComputer.Proofs.SavedRegisters
import TinyComputer.Proofs.StorageStatus
import TinyComputer.Proofs.MemoryWrites
import TinyComputer.Proofs.DeviceSlots
import TinyComputer.Proofs.FormChoice
import TinyComputer.Proofs.OperandGrammar
import TinyComputer.Proofs.LineGrammar
import TinyComputer.Proofs.LiteralValues
import TinyComputer.Proofs.LetterCase
import TinyComputer.Proofs.BlankText
import TinyComputer.Proofs.LineLayout
import TinyComputer.Proofs.Respacing
import TinyComputer.Proofs.ProgramLines
import TinyComputer.Proofs.SymbolText
import TinyComputer.Proofs.ListingRows
import TinyComputer.Proofs.SymbolHistory
import TinyComputer.Proofs.DumpText
import TinyComputer.Proofs.Ram
import TinyComputer.Proofs.MemoryCommands
import TinyComputer.Proofs.CheckedArithmetic
import TinyComputer.Proofs.CheckedPorts
import TinyComputer.Proofs.CheckedStorage
import TinyComputer.Proofs.CheckedAccesses
import TinyComputer.Proofs.CheckedInstructions
import TinyComputer.Proofs.CheckedSteps
import TinyComputer.Proofs.TrapFreedom
