import TinyComputer.Device.Error
import TinyComputer.Device.Header

/-!
# The keyboard

The keyboard queues key events for the program, at most sixteen at a time. A program takes an event
by reading the four bytes of the register `DEQUEUE`, lowest first: the read of the lowest byte
removes the event from the queue and latches it, the other three show the latch. An empty queue
gives zero. In interrupt mode every event that enters the queue requests an interrupt.
-/

namespace TinyComputer

/-- A key that went down or up, with the modifiers held at that moment. -/
structure KeyEvent where
  release : Bool := false
  shift : Bool := false
  control : Bool := false
  alt : Bool := false
  key : Word
  deriving DecidableEq, Repr

namespace KeyEvent

/-- Key codes are below this bound. -/
abbrev keyBound : Nat := 0x10000000

/-- The word in which a program sees an event: the key code in the low 28 bits, and above them the
modifiers and the direction. -/
def encode (event : KeyEvent) : Except DeviceError Word :=
  let bit (set : Bool) (mask : Word) : Word := if set then mask else 0
  if keyBound ≤ event.key.toNat then .error (.invalidKey event.key)
  else
    .ok (bit event.release 0x80000000 ||| bit event.shift 0x40000000 |||
      bit event.control 0x20000000 ||| bit event.alt 0x10000000 ||| event.key)

end KeyEvent

/-- What an offset of the keyboard stands for. -/
inductive KeyboardRegister where
  | header (offset : Fin Header.size)
  | mode
  | queueFull
  | dequeue (lane : Fin 4)
  | unused
  deriving DecidableEq, Repr

namespace KeyboardRegister

/-- What the given offset stands for. -/
def ofOffset (offset : Word) : KeyboardRegister :=
  let position := offset.toNat
  if hheader : position < Header.size then header ⟨position, hheader⟩
  else if position = 0x10 then mode
  else if position = 0x11 then queueFull
  else if hdequeue : position - 0x12 < 4 then dequeue ⟨position - 0x12, hdequeue⟩
  else unused

end KeyboardRegister

structure Keyboard where
  /-- The encoded events that wait for the program, oldest first. -/
  queue : List Word := []
  /-- The event that was taken last. -/
  latch : Word := 0
  mode : DeviceMode := .poll
  /-- The interrupt line that the keyboard was given. -/
  line : Option Byte := none
  /-- The count of interrupt requests that were not taken yet. -/
  pending : Nat := 0
  deriving DecidableEq, Repr

namespace Keyboard

/-- The most events that can wait. -/
abbrev capacity : Nat := 16

def constants : List (String × Word) :=
  [("MODE", 0x10), ("QUEUE_FULL", 0x11), ("DEQUEUE", 0x12)]

/-- Whether no further event can wait. -/
def full (keyboard : Keyboard) : Bool :=
  capacity ≤ keyboard.queue.length

/-- Request an interrupt, if the mode asks for it. -/
def raise (keyboard : Keyboard) : Keyboard :=
  match keyboard.mode with
  | .poll => keyboard
  | .interrupt => { keyboard with pending := keyboard.pending + 1 }

def addEvent (keyboard : Keyboard) (event : KeyEvent) : Except DeviceError Keyboard :=
  match event.encode with
  | .error error => .error error
  | .ok word =>
      if keyboard.full then .error .queueFull
      else .ok { keyboard with queue := keyboard.queue ++ [word] }.raise

def read (keyboard : Keyboard) (offset : Word) : Byte :=
  match KeyboardRegister.ofOffset offset with
  | .header position => Header.byte .keyboard keyboard.line position
  | .mode => keyboard.mode.toByte
  | .queueFull => if keyboard.full then 1 else 0
  | .dequeue lane =>
      if lane = 0 then (keyboard.queue.headD 0).byte lane else keyboard.latch.byte lane
  | .unused => 0

/-- Whether a read at an offset takes an event from the queue. -/
def takesEvent (offset : Word) : Bool :=
  KeyboardRegister.ofOffset offset == .dequeue 0

def afterRead (keyboard : Keyboard) (offset : Word) : Keyboard :=
  if takesEvent offset then
    { keyboard with queue := keyboard.queue.tail, latch := keyboard.queue.headD 0 }
  else keyboard

def write (keyboard : Keyboard) (offset : Word) (value : Byte) : Keyboard :=
  match KeyboardRegister.ofOffset offset with
  | .mode => { keyboard with mode := .ofByte value }
  | _ => keyboard

def acknowledge (keyboard : Keyboard) : Keyboard :=
  { keyboard with pending := keyboard.pending - 1 }

/-- The keyboard as new, with its interrupt line kept. -/
def reset (keyboard : Keyboard) : Keyboard :=
  { line := keyboard.line }

end Keyboard

end TinyComputer
