import TinyComputer.Board.Basic

/-!
# Symbols

A symbol table relates names and addresses one to one. Names are kept in upper case and looked up in
any case. A new pair replaces every older pair with the same name or the same address. The table of
a board names the header fields and the registers of its devices, after the short name of the
device.
-/

namespace TinyComputer

structure Symbol where
  name : List Char
  address : Word
  deriving DecidableEq, Repr

/-- Names for addresses, oldest first. -/
structure Symbols where
  entries : List Symbol
  deriving DecidableEq, Repr

namespace Symbols

def empty : Symbols :=
  ⟨[]⟩

/-- The spelling under which a name is kept. -/
def fold (name : List Char) : List Char :=
  name.map Char.toUpper

/-- Name an address, in place of any older pair with this name or address. -/
def insert (symbols : Symbols) (name : List Char) (address : Word) : Symbols :=
  ⟨symbols.entries.filter (fun symbol => symbol.name != fold name && symbol.address != address) ++
    [⟨fold name, address⟩]⟩

def address? (symbols : Symbols) (name : List Char) : Option Word :=
  (symbols.entries.find? fun symbol => symbol.name == fold name).map Symbol.address

def name? (symbols : Symbols) (address : Word) : Option (List Char) :=
  (symbols.entries.find? fun symbol => symbol.address == address).map Symbol.name

def size (symbols : Symbols) : Nat :=
  symbols.entries.length

def isEmpty (symbols : Symbols) : Bool :=
  symbols.entries.isEmpty

/-- The symbols in the order of their addresses. -/
def sorted (symbols : Symbols) : List Symbol :=
  symbols.entries.mergeSort fun first second => first.address ≤ second.address

/-- The named places of an attached device: its header fields, if it has a header, and its
registers. -/
def ofBinding (binding : Binding) : List Symbol :=
  let kind := binding.device.kind
  let places := (if kind.hasHeader then Header.fields else []) ++ binding.device.constants
  places.map fun (name, offset) =>
    ⟨kind.shortName.toList ++ '_' :: name.toList, binding.window.base + offset⟩

/-- The symbols of every device of a board, in the order of attachment. -/
def ofBoard (board : Board) : Symbols :=
  (board.bindings.toList.flatMap ofBinding).foldl
    (fun symbols symbol => symbols.insert symbol.name symbol.address) empty

end Symbols

end TinyComputer
