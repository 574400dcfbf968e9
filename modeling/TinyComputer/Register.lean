import TinyComputer.Word

/-!
# Registers

Sixteen registers of one word each: twelve general purpose ones, the frame and stack pointers, the
program counter and the flags. A register's index is also its code in an instruction.
-/

namespace TinyComputer

/-- The registers in index order. -/
inductive Register where
  | a | b | c | d | e | f | g | h | i | j | k | l
  /-- The frame pointer. -/
  | fp
  /-- The stack pointer. -/
  | sp
  /-- The program counter. -/
  | pc
  /-- The flags. -/
  | fl
  deriving DecidableEq, Repr

namespace Register

def all : Vector Register 16 :=
  #v[a, b, c, d, e, f, g, h, i, j, k, l, fp, sp, pc, fl]

/-- The index of a register. -/
def index : Register → Fin 16
  | a => 0 | b => 1 | c => 2 | d => 3 | e => 4 | f => 5 | g => 6 | h => 7
  | i => 8 | j => 9 | k => 10 | l => 11 | fp => 12 | sp => 13 | pc => 14 | fl => 15

def ofIndex (index : Fin 16) : Register :=
  all[index]

/-- The register that a byte of machine code names, if it is below sixteen. -/
def ofByte? (byte : Byte) : Option Register :=
  if h : byte.toNat < 16 then some (ofIndex ⟨byte.toNat, h⟩) else none

/-- The byte that names a register in machine code. -/
def toByte (register : Register) : Byte :=
  UInt8.ofNat register.index

def name : Register → String
  | a => "A" | b => "B" | c => "C" | d => "D" | e => "E" | f => "F" | g => "G" | h => "H"
  | i => "I" | j => "J" | k => "K" | l => "L" | fp => "FP" | sp => "SP" | pc => "PC" | fl => "FL"

/-- The register with a given name, in upper or lower case. -/
def ofName? (name : List Char) : Option Register :=
  let folded := name.map Char.toUpper
  all.toList.find? fun register => register.name.toList == folded

/-- The twelve general purpose registers, in the order in which `push.a` stores them. -/
def generalPurpose : List Register :=
  [a, b, c, d, e, f, g, h, i, j, k, l]

@[simp] theorem ofIndex_index (register : Register) : ofIndex register.index = register := by
  cases register <;> rfl

@[simp] theorem index_ofIndex : ∀ index : Fin 16, (ofIndex index).index = index := by
  decide

theorem index_injective {first second : Register} (h : first.index = second.index) :
    first = second := by
  rw [← ofIndex_index first, h, ofIndex_index]

@[simp] theorem ofByte?_toByte (register : Register) : ofByte? register.toByte = some register := by
  cases register <;> rfl

end Register

/-- The contents of the sixteen registers. -/
structure RegisterFile where
  words : Vector Word 16
  deriving DecidableEq, Repr

namespace RegisterFile

def zero : RegisterFile :=
  ⟨Vector.replicate 16 0⟩

def read (registers : RegisterFile) (register : Register) : Word :=
  registers.words[register.index]

def write (registers : RegisterFile) (register : Register) (value : Word) : RegisterFile :=
  ⟨registers.words.set register.index value⟩

/-- The registers after a reset: zero, except for the stack pointer. -/
def initial (stackTop : Word) : RegisterFile :=
  zero.write .sp stackTop

@[simp] theorem read_zero (register : Register) : zero.read register = 0 := by
  simp [zero, read]

@[simp] theorem read_write_self (registers : RegisterFile) (register : Register) (value : Word) :
    (registers.write register value).read register = value := by
  simp [read, write]

theorem read_write_of_ne (registers : RegisterFile) {written register : Register} (value : Word)
    (hne : register ≠ written) :
    (registers.write written value).read register = registers.read register := by
  have hindex : (written.index : Nat) ≠ register.index := fun h =>
    hne (Register.index_injective (Fin.ext h.symm))
  simp [read, write, hindex]

/-- Register files are equal when every register holds the same word. -/
@[ext] theorem ext {first second : RegisterFile}
    (h : ∀ register, first.read register = second.read register) : first = second := by
  obtain ⟨first⟩ := first
  obtain ⟨second⟩ := second
  congr 1
  refine Vector.ext fun i hi => ?_
  simpa [read] using h (Register.ofIndex ⟨i, hi⟩)

end RegisterFile

end TinyComputer
