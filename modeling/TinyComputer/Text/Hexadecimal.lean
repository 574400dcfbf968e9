/-!
# Hexadecimal and decimal numerals

Numbers are written in upper-case hexadecimal with a fixed count of digits, or with the fewest
digits that a 32-bit value needs, and read in base ten or sixteen with digits of either case. The
value of a numeral is exact, whatever its length: a limit is the reader's business.
-/

namespace TinyComputer.Text

/-- The upper-case hexadecimal digit of a number below sixteen. -/
def hexDigit (n : Nat) : Char :=
  if n < 10 then Char.ofNat (0x30 + n) else Char.ofNat (0x37 + n)

/-- The last `digits` hexadecimal digits of `n`, leading zeros included. -/
def hexFixed : (digits : Nat) → (n : Nat) → List Char
  | 0, _ => []
  | digits + 1, n => hexFixed digits (n / 16) ++ [hexDigit (n % 16)]

/-- A 32-bit value in hexadecimal without leading zeros. -/
def hexShort (value : UInt32) : List Char :=
  match (hexFixed 8 value.toNat).dropWhile (· == '0') with
  | [] => ['0']
  | digits => digits

/-- The value of a decimal digit. -/
def decimalDigit? (c : Char) : Option Nat :=
  if '0' ≤ c ∧ c ≤ '9' then some (c.toNat - 0x30) else none

/-- The value of a hexadecimal digit of either case. -/
def hexDigit? (c : Char) : Option Nat :=
  if '0' ≤ c ∧ c ≤ '9' then some (c.toNat - 0x30)
  else if 'a' ≤ c ∧ c ≤ 'f' then some (c.toNat - 0x57)
  else if 'A' ≤ c ∧ c ≤ 'F' then some (c.toNat - 0x37)
  else none

/-- The value of a list of digits, most significant first. -/
def ofDigits (base : Nat) (digits : List Nat) : Nat :=
  digits.foldl (fun value digit => base * value + digit) 0

/-- Read a non-empty numeral whose digits `digit?` reads in base `base`. -/
def readNumeral? (base : Nat) (digit? : Char → Option Nat) (text : List Char) : Option Nat :=
  if text.isEmpty then none else (text.mapM digit?).map (ofDigits base)

@[simp] theorem length_hexFixed (digits n : Nat) : (hexFixed digits n).length = digits := by
  induction digits generalizing n with
  | zero => rfl
  | succ digits ih => simp [hexFixed, ih]

/-- Reading back the digit that was written gives the digit. -/
theorem hexDigit?_hexDigit : ∀ n < 16, hexDigit? (hexDigit n) = some n := by
  decide

end TinyComputer.Text
