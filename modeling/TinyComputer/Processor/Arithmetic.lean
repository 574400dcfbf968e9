import TinyComputer.Flags
import TinyComputer.Instruction.Mnemonic

/-!
# The arithmetic unit

Every operation takes two words and gives a word, a carry for unsigned overflow and an overflow for
signed overflow. Division by zero has no result. Shifts by 32 or more shift everything out.
-/

namespace TinyComputer

/-- The result of an operation with its carry and overflow. -/
structure ArithmeticResult where
  value : Word
  carry : Bool := false
  overflow : Bool := false
  deriving DecidableEq, Repr

namespace ArithmeticResult

/-- The sum. It overflows when the operands have one sign and the sum the other. -/
def sum (a b : Word) : ArithmeticResult where
  value := a + b
  carry := a + b < a
  overflow := a.negative == b.negative && (a + b).negative != a.negative

/-- The difference. It overflows when the operands have different signs and the difference has not
the sign of the first. -/
def difference (a b : Word) : ArithmeticResult where
  value := a - b
  carry := a < b
  overflow := a.negative != b.negative && (a - b).negative != a.negative

/-- Whether a product of two signed words is beyond the signed words. -/
def exceedsSigned (product : Int64) : Bool :=
  product.toInt32.toInt64 != product

def product (a b : Word) : ArithmeticResult where
  value := a * b
  carry := 0xFFFFFFFF < a.toUInt64 * b.toUInt64
  overflow := exceedsSigned (a.toInt32.toInt64 * b.toInt32.toInt64)

/-- The first word shifted left by the second. Any set bit that is shifted out is a carry. -/
def shiftLeft (a b : Word) : ArithmeticResult where
  value := if b < 32 then a <<< b else 0
  carry := 0 < b && a != 0 && (32 ≤ b || a >>> (32 - b) != 0)

/-- The first word shifted right by the second. -/
def shiftRight (a b : Word) : ArithmeticResult where
  value := if b < 32 then a >>> b else 0

end ArithmeticResult

namespace ArithmeticOp

/-- Apply an operation. There is no result for a division by zero. -/
def result? (a b : Word) : ArithmeticOp → Option ArithmeticResult
  | or => some { value := a ||| b }
  | xor => some { value := a ^^^ b }
  | and => some { value := a &&& b }
  | shl => some (.shiftLeft a b)
  | shr => some (.shiftRight a b)
  | add => some (.sum a b)
  | sub => some (.difference a b)
  | mul => some (.product a b)
  | idiv => if b == 0 then none else some { value := a / b }
  | mod => if b == 0 then none else some { value := a % b }

end ArithmeticOp

namespace Condition

/-- Whether a condition holds for the given flags. -/
def holds (flags : Flags) : Condition → Bool
  | zero => flags.get .zero
  | notZero => !flags.get .zero
  | negative => flags.get .sign
  | positive => !flags.get .sign
  | greater => flags.get .greater
  | greaterOrEqual => !flags.get .less
  | less => flags.get .less
  | lessOrEqual => !flags.get .greater
  | overflow => flags.get .overflow
  | noOverflow => !flags.get .overflow
  | always => true

end Condition

end TinyComputer
