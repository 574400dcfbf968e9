import TinyComputer.Word

/-!
# Widths

Immediates and memory accesses are one, two or four bytes wide.
-/

namespace TinyComputer

/-- The width of an immediate or of a memory access. -/
inductive Width where
  | w8
  | w16
  | w32
  deriving DecidableEq, Repr

namespace Width

def bytes : Width → Nat
  | w8 => 1
  | w16 => 2
  | w32 => 4

/-- The bits that a value of this width may use. -/
def mask : Width → Word
  | w8 => 0xFF
  | w16 => 0xFFFF
  | w32 => 0xFFFFFFFF

/-- Whether a value uses no bit above this width. -/
def fits (width : Width) (value : Word) : Bool :=
  value &&& ~~~width.mask == 0

/-- The narrowest width that holds a value. -/
def minimal (value : Word) : Width :=
  if w8.fits value then w8 else if w16.fits value then w16 else w32

theorem bytes_pos (width : Width) : 0 < width.bytes := by
  cases width <;> decide

@[simp] theorem fits_w32 (value : Word) : w32.fits value = true := by
  have hmask : ~~~(0xFFFFFFFF : Word) = 0 := by decide
  simp [fits, mask, hmask]

end Width

end TinyComputer
