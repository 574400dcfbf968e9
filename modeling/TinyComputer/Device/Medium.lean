import TinyComputer.Device.Error
import TinyComputer.Word

/-!
# Media of the host

The host may put any medium behind a storage device: a disk image, a file, a block of its own memory.
Such a medium answers as it likes, by the positions and the bytes of a transfer and by every transfer that
came before. It is given by what it answers after any transfers that may still come, so that two media are
equal exactly if no use of them can tell them apart.
-/

namespace TinyComputer

/-- What a medium is asked for. -/
inductive Transfer where
  | read (position count : Nat)
  | write (position : Nat) (data : List Byte)
  deriving DecidableEq, Repr

/-- What a medium answers after any further transfers, the next one first in the list of them. -/
structure Medium where
  size : List Transfer → UInt64
  read : List Transfer → (position count : Nat) → Except MediumError (Vector Byte count)
  /-- What a read that fails has put into the room for its bytes. -/
  residue : List Transfer → (position count : Nat) → List Byte
  writeError? : List Transfer → (position : Nat) → (data : List Byte) → Option MediumError

/-- No program can tell media apart by all that they may answer. What is evaluated must not depend on
whether they are equal. -/
noncomputable instance : DecidableEq Medium :=
  fun _ _ => Classical.propDecidable _

instance : Repr Medium where
  reprPrec _ _ := "medium"

namespace Medium

/-- The medium after a transfer, whether or not it was carried out. -/
def after (transfer : Transfer) (medium : Medium) : Medium where
  size later := medium.size (transfer :: later)
  read later := medium.read (transfer :: later)
  residue later := medium.residue (transfer :: later)
  writeError? later := medium.writeError? (transfer :: later)

/-- The medium after some transfers, the first one first. -/
def afterAll (transfers : List Transfer) (medium : Medium) : Medium :=
  transfers.foldl (fun medium transfer => medium.after transfer) medium

@[simp] theorem afterAll_nil (medium : Medium) : medium.afterAll [] = medium :=
  rfl

@[simp] theorem afterAll_cons (transfer : Transfer) (rest : List Transfer) (medium : Medium) :
    medium.afterAll (transfer :: rest) = (medium.after transfer).afterAll rest :=
  rfl

theorem afterAll_append (first rest : List Transfer) (medium : Medium) :
    medium.afterAll (first ++ rest) = (medium.afterAll first).afterAll rest :=
  List.foldl_append

/-- A medium without bytes. -/
def empty : Medium where
  size _ := 0
  read _ position _ := .error (.readPastEnd position)
  residue _ _ _ := []
  writeError? _ position _ := some (.writePastEnd position)

end Medium

/-- How a program of the host serves as a medium: what it answers in a state of its own, and the state
that a transfer leaves it in. -/
structure MediumDriver (State : Type) where
  next : State → Transfer → State
  size : State → UInt64
  read : State → (position count : Nat) → Except MediumError (Vector Byte count)
  residue : State → (position count : Nat) → List Byte
  writeError? : State → (position : Nat) → (data : List Byte) → Option MediumError

namespace MediumDriver

variable {State : Type}

/-- The medium that a program is from a state on. -/
def medium (driver : MediumDriver State) (state : State) : Medium where
  size later := driver.size (later.foldl driver.next state)
  read later := driver.read (later.foldl driver.next state)
  residue later := driver.residue (later.foldl driver.next state)
  writeError? later := driver.writeError? (later.foldl driver.next state)

@[simp] theorem after_medium (driver : MediumDriver State) (state : State) (transfer : Transfer) :
    (driver.medium state).after transfer = driver.medium (driver.next state transfer) :=
  rfl

/-- After any transfers a program is the medium of the state that they leave it in. So no program of the
host is left out, whatever it remembers of its transfers. -/
theorem afterAll_medium (driver : MediumDriver State) (state : State) (transfers : List Transfer) :
    (driver.medium state).afterAll transfers = driver.medium (transfers.foldl driver.next state) := by
  induction transfers generalizing state with
  | nil => rfl
  | cons transfer rest ih => rw [Medium.afterAll_cons, after_medium, ih, List.foldl_cons]

end MediumDriver

end TinyComputer
