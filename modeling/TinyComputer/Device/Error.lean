import TinyComputer.Text.Hexadecimal

/-!
# Errors of devices

What can go wrong on the host's side of a device. Programs never see these: they read a status.
-/

namespace TinyComputer

/-- Why a storage unit failed to transfer bytes. -/
inductive MediumError where
  | readPastEnd (position : Nat)
  | writePastEnd (position : Nat)
  /-- The medium does not work. -/
  | defective
  /-- A medium of the host gives a reason of its own. -/
  | host (reason : String)
  deriving DecidableEq, Repr

/-- Why a device refused a request of its host. -/
inductive DeviceError where
  | tooManyUnits (most given : Nat)
  | medium (cause : MediumError)
  /-- A key code needs more than 28 bits. -/
  | invalidKey (key : UInt32)
  | queueFull
  deriving DecidableEq, Repr

namespace MediumError

def message : MediumError → String
  | readPastEnd position => "read past end at " ++ toString position
  | writePastEnd position => "write past end at " ++ toString position
  | defective => "the medium is defective"
  | host reason => reason

end MediumError

namespace DeviceError

def message : DeviceError → String
  | tooManyUnits most given =>
      "a storage device holds at most " ++ toString most ++ " units, " ++ toString given ++ " given"
  | medium cause => "storage unit failed: " ++ cause.message
  | invalidKey key =>
      "key code 0x" ++ String.ofList (Text.hexShort key) ++ " does not fit in 28 bits"
  | queueFull => "keyboard queue is full"

end DeviceError

end TinyComputer
