import TinyComputer.Instruction.Width

/-!
# Mnemonics

What an instruction does, without the shape of its operands. Families whose members differ in one
parameter are one constructor: sized moves and stack operations carry their width, operations of the
arithmetic unit and branches carry the operation or the condition.
-/

namespace TinyComputer

/-- The operations of the arithmetic unit that replace a register by a result. -/
inductive ArithmeticOp where
  | or | xor | and | shl | shr | add | sub | mul | idiv | mod
  deriving DecidableEq, Repr

/-- The conditions under which a branch is taken. -/
inductive Condition where
  | zero | notZero
  | negative | positive
  | greater | greaterOrEqual
  | less | lessOrEqual
  | overflow | noOverflow
  | always
  deriving DecidableEq, Repr

/-- What an instruction does. -/
inductive Mnemonic where
  /-- Copy a register or immediate into a register. -/
  | mov
  /-- Copy a value of the given width from or to memory. -/
  | movSized (width : Width)
  | arithmetic (op : ArithmeticOp)
  | not
  /-- Compare two values by subtracting them; only the flags keep the outcome. -/
  | cmp
  | inc
  | dec
  | branch (condition : Condition)
  | jsr
  | ret
  /-- Enter the handler of an interrupt line. -/
  | sys
  /-- Return from an interrupt handler. -/
  | iret
  /-- Return from a handler that `sys` entered. -/
  | sret
  | push (width : Width)
  | pushAll
  | pop (width : Width)
  | popAll
  /-- Drop a count of bytes from the stack. -/
  | popx
  | nop
  deriving DecidableEq, Repr

namespace ArithmeticOp

def name : ArithmeticOp → String
  | or => "or"
  | xor => "xor"
  | and => "and"
  | shl => "shl"
  | shr => "shr"
  | add => "add"
  | sub => "sub"
  | mul => "mul"
  | idiv => "idiv"
  | mod => "mod"

def all : List ArithmeticOp :=
  [or, xor, and, shl, shr, add, sub, mul, idiv, mod]

end ArithmeticOp

namespace Condition

/-- The spelling of a branch on a condition in assembly text. -/
def branchName : Condition → String
  | zero => "bz"
  | notZero => "bnz"
  | negative => "bneg"
  | positive => "bpos"
  | greater => "bgt"
  | greaterOrEqual => "bgte"
  | less => "blt"
  | lessOrEqual => "blte"
  | overflow => "bv"
  | noOverflow => "bnv"
  | always => "jmp"

def all : List Condition :=
  [zero, notZero, negative, positive, greater, greaterOrEqual, less, lessOrEqual, overflow,
    noOverflow, always]

end Condition

namespace Width

/-- The letter that marks a width in a mnemonic. -/
def letter : Width → String
  | w8 => "b"
  | w16 => "w"
  | w32 => "d"

def all : List Width :=
  [w8, w16, w32]

end Width

namespace Mnemonic

def name : Mnemonic → String
  | mov => "mov"
  | movSized width => "mov" ++ width.letter
  | arithmetic op => op.name
  | not => "not"
  | cmp => "cmp"
  | inc => "inc"
  | dec => "dec"
  | branch condition => condition.branchName
  | jsr => "jsr"
  | ret => "ret"
  | sys => "sys"
  | iret => "iret"
  | sret => "sret"
  | push width => "push" ++ width.letter
  | pushAll => "push.a"
  | pop width => "pop" ++ width.letter
  | popAll => "pop.a"
  | popx => "popx"
  | nop => "nop"

def all : List Mnemonic :=
  [mov] ++ Width.all.map movSized ++ ArithmeticOp.all.map arithmetic ++ [not, cmp, inc, dec] ++
    Condition.all.map branch ++ [jsr, ret, sys, iret, sret] ++ Width.all.map push ++ [pushAll] ++
    Width.all.map pop ++ [popAll, popx, nop]

/-- Second spellings that assembly text may use. -/
def aliases : List (String × Mnemonic) :=
  [("beq", branch .zero), ("bneq", branch .notZero)]

/-- Every accepted spelling with its mnemonic. -/
def spellings : List (List Char × Mnemonic) :=
  all.map (fun mnemonic => (mnemonic.name.toList, mnemonic)) ++
    aliases.map fun (spelling, mnemonic) => (spelling.toList, mnemonic)

/-- The mnemonic with a given spelling, in exactly this case. -/
def ofName? (name : List Char) : Option Mnemonic :=
  (spellings.find? fun (spelling, _) => spelling == name).map Prod.snd

/-- The width of the memory access that a mnemonic performs. -/
def accessWidth : Mnemonic → Width
  | movSized width => width
  | push width => width
  | pop width => width
  | _ => .w32

theorem mem_all (mnemonic : Mnemonic) : mnemonic ∈ all := by
  cases mnemonic with
  | movSized width => cases width <;> decide
  | arithmetic op => cases op <;> decide
  | branch condition => cases condition <;> decide
  | push width => cases width <;> decide
  | pop width => cases width <;> decide
  | _ => decide

end Mnemonic

end TinyComputer
