import TinyComputer.Board.Basic

/-!
# The host's side of devices

What reaches a device from outside of the computer instead of through its window: key events, status
reports, and questions for pending requests.
-/

namespace TinyComputer.Board

/-- Give a key event to the keyboard with a given place. The answer is the count of events that
wait, or why the event was refused; there is none if there is no such keyboard. -/
def addKeyEvent (board : Board) (id : Nat) (event : KeyEvent) :
    Option (Except DeviceError Nat) × Board :=
  match board.device? id with
  | some (.keyboard keyboard) =>
      match keyboard.addEvent event with
      | .error error => (some (.error error), board)
      | .ok keyboard =>
          (some (.ok keyboard.queue.length), board.modifyDevice id fun _ => .keyboard keyboard)
  | _ => (none, board)

/-- Report a status to the device with a given place. -/
def raise (board : Board) (id : Nat) (status : Byte) : Board :=
  board.modifyDevice id (Device.raise status)

/-- Take the request of the device with a given place. The answer says whether it had one; there is
none if there is no such device. -/
def takeRequest (board : Board) (id : Nat) : Option Bool × Board :=
  match board.device? id with
  | some device => (some device.requesting, board.modifyDevice id Device.acknowledge)
  | none => (none, board)

end TinyComputer.Board
