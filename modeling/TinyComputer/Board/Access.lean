import TinyComputer.Board.Basic

/-!
# Reading and writing the address space

Every access is made of byte accesses, each of which goes to the device whose window contains the
address. Addresses without a device read as zero and ignore writes, and addresses wrap around at the
end of the address space. Longer values are little-endian and may straddle devices.

A read gives a byte and may change the device that gives it. `peek` is the byte, `touch` is the
change, and `read` is both; where `quiet` holds there is no change.
-/

namespace TinyComputer.Board

/-- The binding whose window contains an address. -/
def route? (board : Board) (address : Word) : Option Binding :=
  board.bindings.find? fun binding => binding.window.contains address

/-- The place of the device whose window contains an address. -/
def routeIndex? (board : Board) (address : Word) : Option Nat :=
  board.bindings.findIdx? fun binding => binding.window.contains address

/-- Change the device at an address, given the offset of the address in its window. -/
def modifyAt (board : Board) (address : Word) (f : Word → Device → Device) : Board :=
  match board.routeIndex? address with
  | none => board
  | some id =>
      { board with
        bindings := board.bindings.modify id fun binding =>
          binding.mapDevice (f (binding.offset address)) }

/-- The byte that a read gives. -/
def peek (board : Board) (address : Word) : Byte :=
  match board.route? address with
  | none => 0
  | some binding => binding.device.read board.registers (binding.offset address)

/-- Whether a read changes nothing. -/
def quiet (board : Board) (address : Word) : Bool :=
  match board.route? address with
  | none => true
  | some binding => !binding.device.readHasEffect (binding.offset address)

/-- The board after a read. -/
def touch (board : Board) (address : Word) : Board :=
  if board.quiet address then board else board.modifyAt address Device.afterRead

def read (board : Board) (address : Word) : Byte × Board :=
  (board.peek address, board.touch address)

def write (board : Board) (address : Word) (value : Byte) : Board :=
  match board.route? address with
  | some ⟨window, .registerBank⟩ =>
      -- The bank has no state of its own: the registers belong to the board.
      { board with
        registers := RegisterBank.write board.registers (address - window.base) value }
  | _ => board.modifyAt address fun offset => Device.write offset value

/-- Read `count` bytes from an address upwards and put them in front of `taken`, which holds the
bytes below them in reverse. -/
def readBytesOnto (board : Board) (address : Word) (taken : List Byte) :
    (count : Nat) → List Byte × Board
  | 0 => (taken.reverse, board)
  | count + 1 =>
      let (byte, board) := board.read address
      board.readBytesOnto (address + 1) (byte :: taken) count

def readBytes (board : Board) (address : Word) (count : Nat) : List Byte × Board :=
  board.readBytesOnto address [] count

def writeBytes (board : Board) (address : Word) : List Byte → Board
  | [] => board
  | byte :: rest => (board.write address byte).writeBytes (address + 1) rest

def readValue (board : Board) (address : Word) (count : Nat) : Word × Board :=
  let (bytes, board) := board.readBytes address count
  (Word.ofBytes bytes, board)

/-- Write the low `count` bytes of a value. -/
def writeValue (board : Board) (address : Word) (count : Nat) (value : Word) : Board :=
  board.writeBytes address (Word.toBytes count value)

theorem readBytesOnto_eq (board : Board) (address : Word) (taken : List Byte) (count : Nat) :
    board.readBytesOnto address taken count =
      (taken.reverse ++ (board.readBytes address count).1, (board.readBytes address count).2) := by
  induction count generalizing board address taken with
  | zero => simp [readBytesOnto, readBytes]
  | succ count ih =>
      simp only [readBytes, readBytesOnto]
      rw [ih, ih _ _ [_]]
      simp

@[simp] theorem readBytes_zero (board : Board) (address : Word) :
    board.readBytes address 0 = ([], board) := rfl

/-- Reading bytes reads the first one and then the others. -/
theorem readBytes_succ (board : Board) (address : Word) (count : Nat) :
    board.readBytes address (count + 1) =
      (board.peek address :: ((board.touch address).readBytes (address + 1) count).1,
        ((board.touch address).readBytes (address + 1) count).2) := by
  change (board.touch address).readBytesOnto (address + 1) [board.peek address] count = _
  rw [readBytesOnto_eq]
  rfl

@[simp] theorem length_readBytes (board : Board) (address : Word) (count : Nat) :
    (board.readBytes address count).1.length = count := by
  induction count generalizing board address with
  | zero => rfl
  | succ count ih => simp [readBytes_succ, ih]

theorem touch_of_quiet {board : Board} {address : Word} (h : board.quiet address = true) :
    board.touch address = board := by
  simp [touch, h]

@[simp] theorem writeBytes_nil (board : Board) (address : Word) :
    board.writeBytes address [] = board := rfl

@[simp] theorem writeBytes_cons (board : Board) (address : Word) (byte : Byte) (rest : List Byte) :
    board.writeBytes address (byte :: rest) =
      (board.write address byte).writeBytes (address + 1) rest := rfl

end TinyComputer.Board
