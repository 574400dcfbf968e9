import TinyComputer.Board.Basic

/-!
# Interrupt requests

Devices keep their interrupt requests until the processor asks for the next one. It gets the line of
the first device, in the order of attachment, that has both a line and a request; one request of
this device is withdrawn and all others stay.
-/

namespace TinyComputer.Board

/-- The place of the first device with a line and a request. -/
def requestingIndex? (board : Board) : Option Nat :=
  board.bindings.findIdx? fun binding =>
    binding.device.line?.isSome && binding.device.requesting

/-- The line of the first device with a line and a request. -/
def requestedLine? (board : Board) : Option Byte :=
  (board.bindings.find? fun binding =>
    binding.device.line?.isSome && binding.device.requesting).bind fun binding =>
      binding.device.line?

/-- Take the next interrupt request. -/
def takeInterrupt (board : Board) : Option Byte × Board :=
  match board.requestingIndex? with
  | none => (none, board)
  | some id => (board.requestedLine?, board.modifyDevice id Device.acknowledge)

end TinyComputer.Board
