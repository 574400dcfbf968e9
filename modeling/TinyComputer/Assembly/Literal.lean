import TinyComputer.Assembly.Error
import TinyComputer.Text.Hexadecimal

/-!
# Literals

A literal is a hexadecimal numeral after `0x` or `0X`, or a decimal numeral. It denotes the exact
value of its digits, which must be a word.
-/

namespace TinyComputer.Literal

open Text

/-- The value of the numeral that makes up the whole text. -/
def value? : List Char → Option Nat
  | '0' :: 'x' :: digits => readNumeral? 16 hexDigit? digits
  | '0' :: 'X' :: digits => readNumeral? 16 hexDigit? digits
  | digits => readNumeral? 10 decimalDigit? digits

def parse (text : List Char) : Except AssemblyError Word :=
  match value? text with
  | some value =>
      if value < wordBound then .ok (UInt32.ofNat value) else .error (.invalidLiteral text)
  | none => .error (.invalidLiteral text)

end TinyComputer.Literal
