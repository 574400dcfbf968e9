import TinyComputer.Device.Header
import TinyComputer.Register

/-!
# The register bank

The register bank shows the registers of the processor as memory, so that a program can reach each
of them by an address: after the header come the sixteen registers in index order, four bytes each,
least significant byte first. The bank has no state of its own.
-/

namespace TinyComputer

/-- What an offset of the register bank stands for. -/
inductive BankRegister where
  | header (offset : Fin Header.size)
  | register (register : Register) (lane : Fin 4)
  | unused
  deriving DecidableEq, Repr

namespace BankRegister

/-- What the given offset stands for. -/
def ofOffset (offset : Word) : BankRegister :=
  let position := offset.toNat
  if hheader : position < Header.size then header ⟨position, hheader⟩
  else if hregister : position - 0x10 < 0x40 then
    register (Register.ofIndex ⟨(position - 0x10) / 4, by omega⟩)
      ⟨(position - 0x10) % 4, by omega⟩
  else unused

end BankRegister

namespace RegisterBank

def constants : List (String × Word) :=
  Register.all.toList.map fun r => (r.name, 0x10 + 4 * UInt32.ofNat r.index)

def read (registers : RegisterFile) (offset : Word) : Byte :=
  match BankRegister.ofOffset offset with
  | .header position => Header.byte .processor none position
  | .register r lane => (registers.read r).byte lane
  | .unused => 0

def write (registers : RegisterFile) (offset : Word) (value : Byte) : RegisterFile :=
  match BankRegister.ofOffset offset with
  | .register r lane => registers.write r ((registers.read r).setByte lane value)
  | _ => registers

end RegisterBank

end TinyComputer
