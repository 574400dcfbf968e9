import TinyComputer.Proofs.ByteBlock
import TinyComputer.Proofs.DeviceAccess
import TinyComputer.Proofs.LittleEndian

/-!
# The registers as memory

A register bank shows the registers as sixty-four bytes of memory. The processor reaches them word by
word, by register, and programs reach them byte by byte, by address. Both sides see one memory: what
either of them writes is what a memory of sixty-four bytes would hold, whether or not a write is aligned
or goes from one register into the next.
-/

namespace TinyComputer

/-- The bytes of all registers, in index order, least significant first. -/
abbrev BankMemory := ByteBlock 64

namespace Word

theorem getElem?_toBytes_four (word : Word) (lane : Fin 4) :
    (toBytes 4 word)[(lane : Nat)]? = some (word.byte lane) := by
  rw [toBytes_four]
  match lane with
  | 0 | 1 | 2 | 3 => rfl

end Word

namespace RegisterFile

/-- The registers as bytes. -/
def image (registers : RegisterFile) : BankMemory :=
  Vector.ofFn fun place =>
    (registers.read (.ofIndex ⟨place / 4, by omega⟩)).byte ⟨place % 4, by omega⟩

theorem getElem?_image (registers : RegisterFile) (r : Register) (lane : Fin 4) :
    registers.image[4 * (r.index : Nat) + lane]? = some ((registers.read r).byte lane) := by
  have hindex : (4 * (r.index : Nat) + lane) / 4 = r.index := by omega
  have hlane : (4 * (r.index : Nat) + lane) % 4 = lane := by omega
  rw [Vector.getElem?_eq_getElem (by omega)]
  simp only [image, Vector.getElem_ofFn, hindex, hlane, Fin.eta, Register.ofIndex_index]

theorem getElem_image (registers : RegisterFile) (r : Register) (lane : Fin 4) :
    registers.image[4 * (r.index : Nat) + lane] = (registers.read r).byte lane :=
  Option.some.inj ((Vector.getElem?_eq_getElem (by omega)).symm.trans (registers.getElem?_image r lane))

/-- Every place is a byte of one register. -/
theorem exists_place_eq {place : Nat} (hplace : place < 64) :
    ∃ (r : Register) (lane : Fin 4), place = 4 * (r.index : Nat) + lane := by
  refine ⟨.ofIndex ⟨place / 4, by omega⟩, ⟨place % 4, by omega⟩, ?_⟩
  rw [Register.index_ofIndex]
  exact (Nat.div_add_mod place 4).symm

/-- A register holds the word that its four bytes make up. -/
theorem read_eq_ofBytes_load (registers : RegisterFile) (r : Register) :
    registers.read r = Word.ofBytes (registers.image.load (4 * r.index) 4 fun _ => 0) := by
  have hload : registers.image.load (4 * r.index) 4 (fun _ => 0) =
      Word.toBytes 4 (registers.read r) := by
    apply List.ext_getElem?
    intro i
    by_cases hi : i < 4
    · have hlane := registers.getElem?_image r ⟨i, hi⟩
      simp only [ByteBlock.load, List.getElem?_map, List.getElem?_range hi, Option.map_some, hlane,
        Option.getD_some]
      exact (Word.getElem?_toBytes_four _ ⟨i, hi⟩).symm
    · rw [List.getElem?_eq_none (by simpa [ByteBlock.load] using Nat.not_lt.mp hi),
        List.getElem?_eq_none (by simpa using Nat.not_lt.mp hi)]
  rw [hload, Word.ofBytes_toBytes_four]

/-- The bytes of a register are written at its place. -/
theorem image_write (registers : RegisterFile) (r : Register) (value : Word) :
    (registers.write r value).image =
      registers.image.store (4 * r.index) (Word.toBytes 4 value) := by
  apply Vector.ext
  intro i hi
  obtain ⟨other, lane, rfl⟩ := exists_place_eq hi
  rw [getElem_image, ByteBlock.getElem_store _ _ _ hi, getElem_image]
  by_cases hother : other = r
  · subst hother
    rw [if_pos (Nat.le_add_right _ _), Nat.add_sub_cancel_left, Word.getElem?_toBytes_four,
      read_write_self]
    rfl
  · have hindex : (other.index : Nat) ≠ r.index := fun h => hother (Register.index_injective (Fin.ext h))
    rw [read_write_of_ne _ _ hother]
    split
    next hle =>
      have hbeyond : (Word.toBytes 4 value)[4 * (other.index : Nat) + lane - 4 * r.index]? = none := by
        rw [List.getElem?_eq_none_iff, Word.length_toBytes]
        omega
      rw [hbeyond]
      rfl
    next => rfl

end RegisterFile

/-! ## Single bytes -/

namespace BankRegister

/-- The registers are shown from offset sixteen on. -/
theorem ofOffset_place (r : Register) (lane : Fin 4) :
    ofOffset (0x10 + UInt32.ofNat (4 * (r.index : Nat) + lane)) = .register r lane := by
  cases r <;> revert lane <;> decide

/-- There is nothing behind the registers. -/
theorem ofOffset_of_ge {offset : Word} (h : 0x50 ≤ offset.toNat) : ofOffset offset = .unused := by
  unfold ofOffset
  rw [dif_neg (by simp only [Header.size]; omega), dif_neg (by omega)]

theorem ofOffset_of_lt {offset : Word} (h : offset.toNat < 0x10) :
    ofOffset offset = .header ⟨offset.toNat, h⟩ :=
  dif_pos h

end BankRegister

namespace RegisterBank

variable {registers : RegisterFile} {place : Nat} {offset : Word}

theorem read_place (registers : RegisterFile) (hplace : place < 64) :
    read registers (0x10 + UInt32.ofNat place) = registers.image[place] := by
  obtain ⟨r, lane, rfl⟩ := RegisterFile.exists_place_eq hplace
  rw [read, BankRegister.ofOffset_place, RegisterFile.getElem_image]

/-- A write of a byte among the registers replaces that byte. -/
theorem image_write_place (registers : RegisterFile) (hplace : place < 64) (value : Byte) :
    (write registers (0x10 + UInt32.ofNat place) value).image =
      registers.image.setIfInBounds place value := by
  obtain ⟨r, lane, rfl⟩ := RegisterFile.exists_place_eq hplace
  rw [write, BankRegister.ofOffset_place]
  apply Vector.ext
  intro i hi
  obtain ⟨other, otherLane, rfl⟩ := RegisterFile.exists_place_eq hi
  rw [Vector.getElem_setIfInBounds, RegisterFile.getElem_image, RegisterFile.getElem_image]
  by_cases hother : other = r
  · subst hother
    rw [RegisterFile.read_write_self, Word.byte_setByte]
    exact if_congr (by omega) rfl rfl
  · have hindex : (other.index : Nat) ≠ r.index := fun h =>
      hother (Register.index_injective (Fin.ext h))
    rw [RegisterFile.read_write_of_ne _ _ hother, if_neg (by omega)]

theorem read_of_ge (registers : RegisterFile) (h : 0x50 ≤ offset.toNat) :
    read registers offset = 0 := by
  rw [read, BankRegister.ofOffset_of_ge h]

/-- Writes of the header and behind the registers have no effect. -/
theorem write_of_outside (registers : RegisterFile) (h : offset.toNat < 0x10 ∨ 0x50 ≤ offset.toNat)
    (value : Byte) : write registers offset value = registers := by
  rcases h with h | h
  · rw [write, BankRegister.ofOffset_of_lt h]
  · rw [write, BankRegister.ofOffset_of_ge h]

end RegisterBank

namespace Board

/-- A window with room for all registers shows them. -/
structure ShowsRegisters (board : Board) (window : Window) : Prop where
  separated : board.Separated
  mem : ⟨window, .registerBank⟩ ∈ board.bindings
  le_size : 0x50 ≤ window.size.toNat

namespace ShowsRegisters

variable {board : Board} {window : Window} {offset : Word} {place : Nat}

theorem route? (h : board.ShowsRegisters window) (hoffset : offset.toNat < window.size.toNat) :
    board.route? (window.base + offset) = some ⟨window, .registerBank⟩ :=
  h.separated.route?_base_add h.mem hoffset

theorem peek (h : board.ShowsRegisters window) (hoffset : offset.toNat < window.size.toNat) :
    board.peek (window.base + offset) = RegisterBank.read board.registers offset := by
  rw [Board.peek, h.route? hoffset]
  simp only [Device.read, Binding.offset, Word.add_sub_self]

theorem touch (h : board.ShowsRegisters window) (hoffset : offset.toNat < window.size.toNat) :
    board.touch (window.base + offset) = board := by
  apply touch_of_quiet
  rw [quiet, h.route? hoffset]
  rfl

theorem write (h : board.ShowsRegisters window) (hoffset : offset.toNat < window.size.toNat)
    (value : Byte) :
    board.write (window.base + offset) value =
      { board with registers := RegisterBank.write board.registers offset value } := by
  rw [Board.write, h.route? hoffset]
  simp only [Word.add_sub_self]

/-- The bank stays where it is, whatever is written anywhere. -/
theorem of_write (h : board.ShowsRegisters window) (address : Word) (value : Byte) :
    (board.write address value).ShowsRegisters window := by
  refine ⟨h.separated.of_windows_eq (windows_write board address value), ?_, h.le_size⟩
  obtain ⟨id, hbinding⟩ := Array.mem_iff_getElem?.mp h.mem
  refine Array.mem_of_getElem? (i := id) ?_
  rcases board.write_cases address value with
    ⟨_, hsame⟩ | ⟨_, _, _, _, hwrite⟩ | ⟨other, _, _, _, _, hwrite⟩
  · rw [hsame, hbinding]
  · rw [hwrite, hbinding]
  · rw [hwrite, getElem?_modifyDevice, hbinding]
    split <;> rfl

theorem of_writeBytes (h : board.ShowsRegisters window) (address : Word) (bytes : List Byte) :
    (board.writeBytes address bytes).ShowsRegisters window := by
  induction bytes generalizing board address with
  | nil => exact h
  | cons byte rest ih => exact ih (h.of_write address byte) (address + 1)

theorem withRegisters (h : board.ShowsRegisters window) (registers : RegisterFile) :
    ({ board with registers } : Board).ShowsRegisters window :=
  ⟨h.separated.of_windows_eq rfl, h.mem, h.le_size⟩

end ShowsRegisters

end Board

/-! ## Bytes among the registers and behind them -/

namespace Window

/-- The address of a byte of the registers in the window of a register bank. -/
def registerByte (window : Window) (place : Nat) : Word :=
  window.base + (0x10 + UInt32.ofNat place)

theorem registerByte_add (window : Window) (place count : Nat) :
    window.registerByte place + UInt32.ofNat count = window.registerByte (place + count) := by
  rw [registerByte, registerByte, UInt32.ofNat_add, UInt32.add_assoc, UInt32.add_assoc]

theorem registerByte_succ (window : Window) (place : Nat) :
    window.registerByte place + 1 = window.registerByte (place + 1) :=
  window.registerByte_add place 1

end Window

namespace Board

theorem writeBytes_append (board : Board) (address : Word) (first rest : List Byte) :
    board.writeBytes address (first ++ rest) =
      (board.writeBytes address first).writeBytes (address + UInt32.ofNat first.length) rest := by
  induction first generalizing board address with
  | nil => simp
  | cons byte first ih =>
      rw [List.cons_append, writeBytes_cons, ih, writeBytes_cons, List.length_cons, UInt32.add_assoc,
        UInt32.ofNat_add, UInt32.add_comm 1]
      rfl

namespace ShowsRegisters

variable {board : Board} {window : Window} {place : Nat}

theorem toNat_offset (hplace : place < 67) :
    (0x10 + UInt32.ofNat place : Word).toNat = 0x10 + place := by
  simp only [UInt32.toNat_add, UInt32.toNat_ofNat', UInt32.reduceToNat]
  omega

/-- Places among the registers are offsets of the window. -/
theorem offset_lt (h : board.ShowsRegisters window) (hplace : place < 64) :
    (0x10 + UInt32.ofNat place : Word).toNat < window.size.toNat := by
  have hsize := h.le_size
  rw [toNat_offset (by omega)]
  omega

/-- An address right behind the registers is routed to the part of the window where nothing is, or
to the header of another device. -/
theorem offset_behind (h : board.ShowsRegisters window) (hbehind : 64 ≤ place) (hplace : place < 67)
    {binding : Binding} (hroute : board.route? (window.registerByte place) = some binding) :
    (binding.offset (window.registerByte place)).toNat < 3 ∨
      0x50 ≤ (binding.offset (window.registerByte place)).toNat := by
  obtain ⟨hmem, hin⟩ := h.separated.route?_eq_some_iff.mp hroute
  obtain ⟨hle, hlt⟩ := Window.contains_iff.mp hin
  have hsize := h.le_size
  have hbound : window.base.toNat + window.size.toNat ≤ 0x100000000 :=
    h.separated.bound_le _ h.mem
  have haddress : (window.registerByte place).toNat =
      (window.base.toNat + (0x10 + place)) % 0x100000000 := by
    rw [Window.registerByte, UInt32.toNat_add, toNat_offset hplace]
  rw [Binding.offset, Window.toNat_sub_base hin]
  by_contra hnot
  -- The address is not one of the first three of a window, so it did not wrap around, and the last
  -- byte of the registers lies in the same window.
  have hoffset : (0x4F : Word).toNat < window.size.toNat := h.le_size
  have hlast : (window.base + 0x4F).toNat = window.base.toNat + 0x4F :=
    Window.toNat_base_add hbound hoffset
  have hin' : binding.window.contains (window.base + 0x4F) = true := by
    rw [Window.contains_iff, hlast]
    omega
  have hsame : (⟨window, .registerBank⟩ : Binding) = binding := by
    have hfound := h.separated.route?_eq_some_iff.mpr ⟨hmem, hin'⟩
    rw [h.route? hoffset] at hfound
    exact Option.some.inj hfound
  subst hsame
  simp only at hnot
  omega

/-- Writes behind the registers leave them. -/
theorem registers_write_behind (h : board.ShowsRegisters window) (hbehind : 64 ≤ place)
    (hplace : place < 67) (value : Byte) :
    (board.write (window.registerByte place) value).registers = board.registers := by
  rcases board.write_cases (window.registerByte place) value with
    ⟨_, hsame⟩ | ⟨_, other, hroute, hbinding, hwrite⟩ | ⟨_, _, _, _, _, hwrite⟩
  · rw [hsame]
  · have houtside := h.offset_behind hbehind hplace (route?_eq_of_routeIndex? hroute hbinding)
    rw [hwrite]
    exact RegisterBank.write_of_outside _ (houtside.imp_left (Nat.lt_trans · (by decide))) value
  · rw [hwrite]
    rfl

/-- Reads behind the registers change nothing. -/
theorem touch_behind (h : board.ShowsRegisters window) (hbehind : 64 ≤ place) (hplace : place < 67) :
    board.touch (window.registerByte place) = board := by
  rcases board.touch_cases (window.registerByte place) with
    hsame | ⟨id, other, keyboard, hbinding, hroute, haddress, _⟩
  · exact hsame
  · -- The queue of a keyboard lies neither in a header nor that far up in a window.
    have houtside := h.offset_behind hbehind hplace (route?_eq_of_routeIndex? hroute hbinding)
    have hoffset : (window.registerByte place - other.base).toNat = 0x12 := by
      rw [haddress, Word.add_sub_self]
      rfl
    simp only [Binding.offset, hoffset] at houtside
    omega

theorem registers_writeBytes_behind (h : board.ShowsRegisters window) {bytes : List Byte}
    (hbehind : 64 ≤ place) (hplace : place + bytes.length ≤ 67) :
    (board.writeBytes (window.registerByte place) bytes).registers = board.registers := by
  induction bytes generalizing board place with
  | nil => rfl
  | cons byte rest ih =>
      rw [List.length_cons] at hplace
      rw [writeBytes_cons, Window.registerByte_succ, ih (h.of_write _ byte) (by omega) (by omega),
        h.registers_write_behind hbehind (by omega)]

/-- A byte that is written among the registers replaces the one at its place. -/
theorem write_among (h : board.ShowsRegisters window) (hplace : place < 64) (value : Byte) :
    ∃ registers : RegisterFile, registers.image = board.registers.image.setIfInBounds place value ∧
      board.write (window.registerByte place) value = { board with registers } :=
  ⟨_, RegisterBank.image_write_place board.registers hplace value, h.write (h.offset_lt hplace) value⟩

/-- Bytes that are written among the registers are stored there. -/
theorem writeBytes_among (h : board.ShowsRegisters window) {bytes : List Byte}
    (hplace : place + bytes.length ≤ 64) :
    ∃ registers : RegisterFile, registers.image = board.registers.image.store place bytes ∧
      board.writeBytes (window.registerByte place) bytes = { board with registers } := by
  induction bytes generalizing board place with
  | nil => exact ⟨board.registers, rfl, rfl⟩
  | cons byte rest ih =>
      rw [List.length_cons] at hplace
      have hfits : place + 1 + rest.length ≤ 64 := by omega
      obtain ⟨first, hfirst, hwrite⟩ := h.write_among (show place < 64 by omega) byte
      obtain ⟨registers, himage, hrest⟩ := ih (h.withRegisters first) hfits
      refine ⟨registers, ?_, ?_⟩
      · rw [himage, hfirst, ByteBlock.store_cons]
      · rw [writeBytes_cons, Window.registerByte_succ, hwrite, hrest]

/-- Bytes that start among the registers are stored there as far as there is a place for them. The
others are written behind the registers. -/
theorem writeBytes_eq (h : board.ShowsRegisters window) (hplace : place < 64) (bytes : List Byte) :
    ∃ registers : RegisterFile, registers.image = board.registers.image.store place bytes ∧
      board.writeBytes (window.registerByte place) bytes =
        ({ board with registers } : Board).writeBytes (window.registerByte 64)
          (bytes.drop (64 - place)) := by
  have hfits : place + (bytes.take (64 - place)).length ≤ 64 := by
    rw [List.length_take]
    omega
  obtain ⟨registers, himage, hamong⟩ := h.writeBytes_among hfits
  refine ⟨registers, by rw [himage, ByteBlock.store_take], ?_⟩
  have hsplit := board.writeBytes_append (window.registerByte place) (bytes.take (64 - place))
    (bytes.drop (64 - place))
  rw [List.take_append_drop, hamong, Window.registerByte_add, List.length_take] at hsplit
  rw [hsplit]
  by_cases hlength : bytes.length ≤ 64 - place
  · rw [List.drop_eq_nil_of_le hlength]
    rfl
  · have hend : place + min (64 - place) bytes.length = 64 := by omega
    rw [hend]

/-- Bytes that are read from among the registers are those of the registers, and then those behind
them. Nothing changes. -/
theorem readBytes_eq (h : board.ShowsRegisters window) {count : Nat} (hplace : place + count ≤ 67) :
    board.readBytes (window.registerByte place) count =
      (board.registers.image.load place count fun i =>
        board.peek (window.registerByte (place + i)), board) := by
  induction count generalizing place with
  | zero => rfl
  | succ count ih =>
      have hbyte : board.registers.image[place]?.getD (board.peek (window.registerByte place)) =
            board.peek (window.registerByte place) ∧
          board.touch (window.registerByte place) = board := by
        by_cases hamong : place < 64
        · rw [Vector.getElem?_eq_getElem hamong, Option.getD_some]
          exact ⟨((h.peek (h.offset_lt hamong)).trans (RegisterBank.read_place _ hamong)).symm,
            h.touch (h.offset_lt hamong)⟩
        · rw [Vector.getElem?_eq_none (Nat.not_lt.mp hamong)]
          exact ⟨rfl, h.touch_behind (Nat.not_lt.mp hamong) (by omega)⟩
      rw [readBytes_succ, hbyte.2, Window.registerByte_succ, ih (by omega), ByteBlock.load_succ]
      simp only [Nat.add_zero, hbyte.1, Nat.add_assoc, Nat.add_comm 1]

end ShowsRegisters

end Board

/-! ## Accesses from both sides -/

/-- The processor sets a register, or a program writes up to four bytes from a byte of the registers
upwards. -/
inductive BankAccess where
  | setRegister (r : Register) (value : Word)
  | write (place : Fin 64) (count : Fin 5) (value : Word)
  deriving DecidableEq, Repr

namespace BankAccess

/-- The first byte that an access names. -/
def place : BankAccess → Nat
  | setRegister r _ => 4 * r.index
  | write place _ _ => place

/-- What an access writes there and above it. -/
def bytes : BankAccess → List Byte
  | setRegister _ value => Word.toBytes 4 value
  | write _ count value => Word.toBytes count value

/-- What an access does to a memory. -/
def store (memory : BankMemory) (access : BankAccess) : BankMemory :=
  memory.store access.place access.bytes

/-- The bytes that are written behind the last register. -/
def spill (access : BankAccess) : List Byte :=
  access.bytes.drop (64 - access.place)

theorem length_spill_le (access : BankAccess) : access.spill.length ≤ 3 := by
  have hbounds : access.bytes.length ≤ 4 ∧ access.place < 64 := by
    cases access <;> simp only [bytes, place, Word.length_toBytes] <;> omega
  rw [spill, List.length_drop]
  omega

end BankAccess

namespace Board

/-- The board after an access to the registers that a window shows. -/
def accessRegisters (window : Window) (board : Board) : BankAccess → Board
  | .setRegister r value => board.setRegister r value
  | .write place count value => board.writeValue (window.registerByte place) count value

namespace ShowsRegisters

variable {board : Board} {window : Window}

/-- An access stores its bytes in the registers. Bytes for which there is no place go where a write
behind the registers goes, which is not to a register. -/
theorem accessRegisters_eq (h : board.ShowsRegisters window) (access : BankAccess) :
    ∃ registers : RegisterFile, registers.image = access.store board.registers.image ∧
      board.accessRegisters window access =
        ({ board with registers } : Board).writeBytes (window.registerByte 64) access.spill ∧
      (board.accessRegisters window access).registers = registers := by
  obtain ⟨registers, himage, haccess⟩ : ∃ registers : RegisterFile,
      registers.image = access.store board.registers.image ∧
      board.accessRegisters window access =
        ({ board with registers } : Board).writeBytes (window.registerByte 64) access.spill := by
    cases access with
    | setRegister r value =>
        have hspill : (BankAccess.setRegister r value).spill = [] := by
          apply List.drop_eq_nil_of_le
          simp only [BankAccess.bytes, BankAccess.place, Word.length_toBytes]
          omega
        exact ⟨board.registers.write r value, board.registers.image_write r value, by rw [hspill]; rfl⟩
    | write place count value => exact h.writeBytes_eq place.isLt (Word.toBytes count value)
  refine ⟨registers, himage, haccess, ?_⟩
  have hlength := access.length_spill_le
  rw [haccess]
  exact (h.withRegisters registers).registers_writeBytes_behind (Nat.le_refl 64) (by omega)

theorem of_accessRegisters (h : board.ShowsRegisters window) (access : BankAccess) :
    (board.accessRegisters window access).ShowsRegisters window := by
  cases access with
  | setRegister r value => exact h.withRegisters _
  | write place count value => exact h.of_writeBytes _ _

/-- After any accesses, the registers hold what a memory holds after the same accesses. -/
theorem foldl_accessRegisters (h : board.ShowsRegisters window) (accesses : List BankAccess) :
    (accesses.foldl (accessRegisters window) board).ShowsRegisters window ∧
      (accesses.foldl (accessRegisters window) board).registers.image =
        accesses.foldl BankAccess.store board.registers.image := by
  induction accesses generalizing board with
  | nil => exact ⟨h, rfl⟩
  | cons access rest ih =>
      obtain ⟨registers, himage, _, hregisters⟩ := h.accessRegisters_eq access
      rw [List.foldl_cons, List.foldl_cons, ← himage, ← hregisters]
      exact ih (h.of_accessRegisters access)

end ShowsRegisters

/-- A register bank shows the registers as a memory of sixty-four bytes. Whatever the processor sets
and programs write, the registers hold the words and reads give the bytes of a memory to which the same
was done; reads change nothing. Each access changes the bytes that it names and no others: those that
are registers in the registers, and those behind the last register where a write of that address goes.
There is nothing else to see behind the registers, and nothing to change there or in the header. -/
theorem registers_as_memory {board : Board} {window : Window} (h : board.ShowsRegisters window)
    (accesses : List BankAccess) :
    let reached := accesses.foldl (accessRegisters window) board
    let memory := accesses.foldl BankAccess.store board.registers.image
    reached.registers.image = memory ∧
    (∀ r, reached.register r = Word.ofBytes (memory.load (4 * r.index) 4 fun _ => 0)) ∧
    (∀ (place : Fin 64) (count : Fin 5), reached.readValue (window.registerByte place) count =
      (Word.ofBytes (memory.load place count fun i =>
        reached.peek (window.registerByte (place + i))), reached)) ∧
    (∀ (place : Fin 64) (count : Fin 5), (place : Nat) + count ≤ 64 →
      (reached.readValue (window.registerByte place) count).1 =
        Word.ofBytes (memory.load place count fun _ => 0)) ∧
    (∀ access, ∃ registers : RegisterFile, registers.image = access.store memory ∧
      reached.accessRegisters window access =
        ({ reached with registers } : Board).writeBytes (window.registerByte 64) access.spill ∧
      (reached.accessRegisters window access).registers = registers ∧
      ∀ place : Fin 64, (place < access.place ∨ access.place + access.bytes.length ≤ place) →
        registers.image[place] = memory[place]) ∧
    ∀ offset : Word, offset.toNat < window.size.toNat →
      (0x50 ≤ offset.toNat → reached.read (window.base + offset) = (0, reached)) ∧
      (offset.toNat < 0x10 ∨ 0x50 ≤ offset.toNat →
        ∀ value, reached.write (window.base + offset) value = reached) := by
  intro reached memory
  obtain ⟨hreached, himage⟩ := h.foldl_accessRegisters accesses
  have hread : ∀ (place : Fin 64) (count : Fin 5),
      reached.readValue (window.registerByte place) count =
        (Word.ofBytes (memory.load place count fun i =>
          reached.peek (window.registerByte (place + i))), reached) := by
    intro place count
    rw [readValue, hreached.readBytes_eq (by omega), himage]
  refine ⟨himage, ?_, hread, ?_, ?_, ?_⟩
  · intro r
    rw [register, RegisterFile.read_eq_ofBytes_load, himage]
  · intro place count hfits
    rw [hread, ByteBlock.load_congr hfits]
  · intro access
    obtain ⟨registers, hstored, haccess, hregisters⟩ := hreached.accessRegisters_eq access
    rw [himage] at hstored
    refine ⟨registers, hstored, haccess, hregisters, ?_⟩
    intro place hnot
    rw [hstored]
    exact ByteBlock.getElem_store_of_not hnot
  · intro offset hoffset
    constructor
    · intro hbehind
      rw [Board.read, hreached.peek hoffset, hreached.touch hoffset, RegisterBank.read_of_ge _ hbehind]
    · intro houtside value
      rw [hreached.write hoffset, RegisterBank.write_of_outside _ houtside]

/-- The register A is set, three bytes are written across A and B, and four bytes across the last register
and the memory behind it. Both registers show their part of the three bytes, and a read across A and B
gives bytes of both. -/
theorem registers_as_memory_across_registers :
    let banked := ((empty {}).attach .registerBank ⟨0x20000, 0x50⟩).2
    let board := (banked.attach (.memory (.zeros 0x10)) ⟨0x20050, 0x10⟩).2
    let window : Window := ⟨0x20000, 0x50⟩
    let accesses : List BankAccess :=
      [.setRegister .a 0x44332211, .write 2 3 0x00CCBBAA, .write 62 4 0xFFEEDDCC]
    let reached := accesses.foldl (accessRegisters window) board
    board.ShowsRegisters window ∧
    reached.register .a = 0xBBAA2211 ∧ reached.register .b = 0xCC ∧
    reached.register .fl = 0xDDCC0000 ∧
    reached.readValue 0x20011 4 = (0xCCBBAA22, reached) ∧
    (reached.readValue 0x2004E 4).1 = 0xFFEEDDCC ∧
    reached.write 0x20002 1 = reached := by
  intro banked board window accesses reached
  have hassembled : board.Assembled := .attach _ _ (.attach _ _ (.empty _))
  have hbindings : board.bindings =
      #[⟨window, .registerBank⟩, ⟨⟨0x20050, 0x10⟩, .memory (.zeros 0x10)⟩] := by
    decide +kernel
  have hshows : board.ShowsRegisters window :=
    ⟨hassembled.separated, by rw [hbindings]; simp, by decide⟩
  obtain ⟨_, hword, hread, _, _, hwindow⟩ := registers_as_memory hshows accesses
  have hread₁ := hread 1 4
  have hread₂ := hread 62 4
  refine ⟨hshows, (hword .a).trans (by decide +kernel), (hword .b).trans (by decide +kernel),
    (hword .fl).trans (by decide +kernel), hread₁.trans (Prod.ext ?_ rfl), ?_,
    (hwindow 2 (by decide)).2 (.inl (by decide)) 1⟩
  · decide +kernel
  · exact (congrArg Prod.fst hread₂).trans (by decide +kernel)

end Board

end TinyComputer
