import TinyComputer.Text.Hexadecimal
import TinyComputer.Text.Padding
import TinyComputer.Text.Pieces
import TinyComputer.Word

/-!
# Bytes as text

Bytes are shown in hexadecimal with spaces between them; a dump has sixteen of them on a line, after
their address and before the characters that they stand for.
-/

namespace TinyComputer.Dump

open Text

/-- The count of bytes on a line. -/
abbrev lineSize : Nat := 16

def hexBytes (bytes : List Byte) : List Char :=
  join [' '] (bytes.map fun byte => hexFixed 2 byte.toNat)

/-- The character that a byte stands for, or a dot if it is none that can be seen. -/
def character (byte : Byte) : Char :=
  if 0x20 ≤ byte && byte ≤ 0x7E then Char.ofNat byte.toNat else '.'

def renderLine (address : Word) (bytes : List Byte) : List Char :=
  hexFixed 8 address.toNat ++ [' ', ' '] ++ padRight 48 (hexBytes bytes) ++ [' '] ++
    bytes.map character

/-- The lines of a dump of bytes that start at an address. -/
def renderLines (address : Word) : List Byte → List (List Char)
  | [] => []
  | byte :: rest =>
      renderLine address (byte :: rest.take (lineSize - 1)) ::
        renderLines (address + UInt32.ofNat lineSize) (rest.drop (lineSize - 1))
termination_by bytes => bytes.length

def render (address : Word) (bytes : List Byte) : List Char :=
  join ['\n'] (renderLines address bytes)

/-- The first `limit` addresses at which a pattern occurs in bytes that start at an address. -/
def occurrences (pattern : List Byte) : (limit : Nat) → (address : Word) → List Byte → List Word
  | 0, _, _ => []
  | _, _, [] => []
  | limit + 1, address, byte :: rest =>
      if pattern.isPrefixOf (byte :: rest) then
        address :: occurrences pattern limit (address + 1) rest
      else occurrences pattern (limit + 1) (address + 1) rest

end TinyComputer.Dump
