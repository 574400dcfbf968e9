import TinyComputer.Instruction.Codec
import TinyComputer.Proofs.LittleEndian
import TinyComputer.Proofs.Outcomes

/-!
# Machine code is exact

Decoding gives an instruction exactly when the instruction is well formed and its code is the start
of the bytes, padded with zeros. Hence code and well-formed instructions determine each other. What
does not decode has an unlisted opcode, or a byte of sixteen or more in a slot for a register.
-/

namespace TinyComputer

namespace Register

theorem toByte_of_ofByte?_eq_some {byte : Byte} {r : Register} (h : ofByte? byte = some r) :
    r.toByte = byte := by
  unfold ofByte? at h
  split at h
  next hlt =>
    obtain rfl := Option.some.inj h
    rw [toByte, index_ofIndex]
    simp
  next => contradiction

theorem ofByte?_eq_none_iff {byte : Byte} : ofByte? byte = none ↔ 16 ≤ byte.toNat := by
  unfold ofByte?
  split
  next hlt => simp [hlt]
  next hge => simpa using hge

theorem decode_eq_ok_iff {bytes : List Byte} {r : Register} :
    Register.decode bytes = .ok r ↔ [r.toByte] = bytes.takeD 1 0 := by
  have htake : bytes.takeD 1 0 = [bytes.headD 0] := by
    cases bytes <;> rfl
  rw [htake, Register.decode, List.singleton_inj]
  generalize bytes.headD 0 = index
  constructor
  · intro h
    cases hindex : ofByte? index with
    | none => simp [hindex] at h
    | some named =>
        simp only [hindex, Except.ok.injEq] at h
        rw [← h, toByte_of_ofByte?_eq_some hindex]
  · intro h
    simp only [← h, ofByte?_toByte]

theorem decode_eq_error_iff {bytes : List Byte} {error : DecodeError} :
    Register.decode bytes = .error error ↔
      16 ≤ (bytes.headD 0).toNat ∧ error = .invalidRegister (bytes.headD 0) := by
  rw [← ofByte?_eq_none_iff, Register.decode]
  generalize bytes.headD 0 = index
  cases ofByte? index with
  | none => simp [eq_comm]
  | some named => simp

end Register

namespace Slot

/-- Whether a slot is for the index of a register. -/
def holdsRegister : Slot → Bool
  | register => true
  | indirectRegister => true
  | _ => false

/-- A slot holds an operand that it accepts and that already has its shape. -/
def Holds (slot : Slot) (operand : Operand) : Prop :=
  slot.accepts operand = true ∧ slot.fit operand = operand

/-- The first byte of the operand at a place, given the bytes of all operands. -/
def firstByte (slots : List Slot) (bytes : List Byte) (place : Nat) : Byte :=
  bytes.getD (totalSize (slots.take place)) 0

/-- The slot at a place is for a register, but its byte is the index of none. -/
def NamesNoRegister (slots : List Slot) (bytes : List Byte) (place : Nat) : Prop :=
  (∃ slot, slots[place]? = some slot ∧ slot.holdsRegister = true) ∧
    16 ≤ (firstByte slots bytes place).toNat

theorem length_encode {slot : Slot} {operand : Operand} (h : slot.Holds operand) :
    operand.encode.length = slot.size := by
  obtain ⟨haccepts, hfit⟩ := h
  cases slot <;> cases operand <;> simp_all [accepts, fit, Operand.encode, size]

theorem length_flatMap_encode {slots : List Slot} {operands : List Operand}
    (h : List.Forall₂ Holds slots operands) :
    (operands.flatMap Operand.encode).length = totalSize slots := by
  induction h with
  | nil => rfl
  | cons hslot _ ih =>
      rw [List.flatMap_cons, List.length_append, length_encode hslot, ih, totalSize]

/-- A number is read from exactly the bytes that it is written as. -/
theorem ofBytes_take_eq_iff {width : Width} {value : Word} (hfits : width.fits value = true)
    (bytes : List Byte) :
    Word.ofBytes (bytes.take width.bytes) = value ↔
      Word.toBytes width.bytes value = bytes.takeD width.bytes 0 := by
  rw [← Word.toBytes_ofBytes_take width.bytes_le]
  constructor
  · intro h
    rw [h]
  · intro h
    have hword := congrArg Word.ofBytes h
    rw [Width.ofBytes_toBytes hfits, Width.ofBytes_toBytes (width.fits_ofBytes_take bytes)] at hword
    exact hword.symm

/-- A slot is read as an operand exactly when it holds the operand and the operand's code comes
first. -/
theorem decode_eq_ok_iff {slot : Slot} {bytes : List Byte} {operand : Operand} :
    slot.decode bytes = .ok operand ↔
      slot.Holds operand ∧ operand.encode = bytes.takeD slot.size 0 := by
  cases slot with
  | register =>
      rw [decode, except_map_eq_ok_iff]
      simp only [Register.decode_eq_ok_iff]
      cases operand <;> simp [Holds, accepts, fit, Operand.encode, size]
  | indirectRegister =>
      rw [decode, except_map_eq_ok_iff]
      simp only [Register.decode_eq_ok_iff]
      cases operand <;> simp [Holds, accepts, fit, Operand.encode, size]
  | immediate width =>
      cases operand with
      | immediate value given =>
          simp only [decode, Except.ok.injEq, Operand.immediate.injEq, Holds, accepts, fit,
            Operand.encode, size]
          constructor
          · rintro ⟨hvalue, rfl⟩
            have hfits : width.fits value = true := hvalue ▸ width.fits_ofBytes_take bytes
            exact ⟨⟨hfits, trivial, rfl⟩, (ofBytes_take_eq_iff hfits bytes).mp hvalue⟩
          · rintro ⟨⟨hfits, _, rfl⟩, hbytes⟩
            exact ⟨(ofBytes_take_eq_iff hfits bytes).mpr hbytes, rfl⟩
      | _ => simp [decode, Holds, accepts]
  | indirectImmediate =>
      cases operand with
      | indirectImmediate address =>
          simp only [decode, Except.ok.injEq, Operand.indirectImmediate.injEq, Holds, accepts, fit,
            Operand.encode, size, true_and, and_self]
          exact ofBytes_take_eq_iff (Width.fits_w32 address) bytes
      | _ => simp [decode, Holds, accepts]

theorem decode_eq_error_iff {slot : Slot} {bytes : List Byte} {error : DecodeError} :
    slot.decode bytes = .error error ↔
      slot.holdsRegister = true ∧ 16 ≤ (bytes.headD 0).toNat ∧
        error = .invalidRegister (bytes.headD 0) := by
  cases slot with
  | register =>
      rw [decode, except_map_eq_error_iff, Register.decode_eq_error_iff]
      simp [holdsRegister]
  | indirectRegister =>
      rw [decode, except_map_eq_error_iff, Register.decode_eq_error_iff]
      simp [holdsRegister]
  | immediate width => simp [decode, holdsRegister]
  | indirectImmediate => simp [decode, holdsRegister]

theorem takeD_add (first second : Nat) (bytes : List Byte) :
    bytes.takeD (first + second) 0 =
      bytes.takeD first 0 ++ (bytes.drop first).takeD second 0 := by
  induction first generalizing bytes with
  | zero => simp
  | succ first ih =>
      rw [Nat.succ_add, List.takeD_succ, List.takeD_succ, ih, List.drop_tail, List.cons_append]

/-- Consecutive slots are read as operands exactly when each holds its operand and the code of all
of them comes first. -/
theorem decodeAll_eq_ok_iff {slots : List Slot} {bytes : List Byte} {operands : List Operand} :
    decodeAll slots bytes = .ok operands ↔
      List.Forall₂ Holds slots operands ∧
        operands.flatMap Operand.encode = bytes.takeD (totalSize slots) 0 := by
  induction slots generalizing bytes operands with
  | nil =>
      simp only [decodeAll, Except.ok.injEq, List.forall₂_nil_left_iff, totalSize, List.takeD_zero]
      constructor
      · rintro rfl
        exact ⟨rfl, rfl⟩
      · rintro ⟨rfl, _⟩
        rfl
  | cons slot slots ih =>
      rw [totalSize, takeD_add]
      constructor
      · intro h
        rw [decodeAll] at h
        split at h
        next => contradiction
        next operand hoperand =>
          obtain ⟨hholds, hcode⟩ := decode_eq_ok_iff.mp hoperand
          obtain ⟨rest, hrest, rfl⟩ := except_map_eq_ok_iff.mp h
          obtain ⟨hall, hcodes⟩ := ih.mp hrest
          refine ⟨.cons hholds hall, ?_⟩
          rw [List.flatMap_cons, hcode, hcodes]
      · rintro ⟨hall, hcodes⟩
        cases hall with
        | cons hholds hall =>
            rw [List.flatMap_cons] at hcodes
            -- Each code has the length of its slot, so the bytes split between the two.
            obtain ⟨hcode, hrest⟩ := List.append_inj hcodes (by
              rw [length_encode hholds, List.takeD_length])
            rw [decodeAll, decode_eq_ok_iff.mpr ⟨hholds, hcode⟩]
            exact except_map_eq_ok_iff.mpr ⟨_, ih.mpr ⟨hall, hrest⟩, rfl⟩

theorem firstByte_zero (slots : List Slot) (bytes : List Byte) :
    firstByte slots bytes 0 = bytes.headD 0 := by
  cases bytes <;> rfl

theorem firstByte_succ (slot : Slot) (slots : List Slot) (bytes : List Byte) (place : Nat) :
    firstByte (slot :: slots) bytes (place + 1) =
      firstByte slots (bytes.drop slot.size) place := by
  simp only [firstByte, List.take_succ_cons, totalSize, List.getD_eq_getElem?_getD,
    List.getElem?_drop]

theorem namesNoRegister_zero {slot : Slot} {slots : List Slot} {bytes : List Byte} :
    NamesNoRegister (slot :: slots) bytes 0 ↔
      slot.holdsRegister = true ∧ 16 ≤ (bytes.headD 0).toNat := by
  rw [NamesNoRegister, firstByte_zero]
  simp

theorem namesNoRegister_succ {slot : Slot} {slots : List Slot} {bytes : List Byte} {place : Nat} :
    NamesNoRegister (slot :: slots) bytes (place + 1) ↔
      NamesNoRegister slots (bytes.drop slot.size) place := by
  rw [NamesNoRegister, NamesNoRegister, firstByte_succ]
  simp

/-- Reading fails at the first slot for a register whose byte names none. -/
theorem decodeAll_eq_error_iff {slots : List Slot} {bytes : List Byte} {error : DecodeError} :
    decodeAll slots bytes = .error error ↔
      ∃ place, NamesNoRegister slots bytes place ∧
        (∀ earlier < place, ¬ NamesNoRegister slots bytes earlier) ∧
        error = .invalidRegister (firstByte slots bytes place) := by
  induction slots generalizing bytes with
  | nil => simp [decodeAll, NamesNoRegister]
  | cons slot slots ih =>
      rw [decodeAll]
      split
      next found hfound =>
        obtain ⟨hslot, hindex, rfl⟩ := decode_eq_error_iff.mp hfound
        have hzero : NamesNoRegister (slot :: slots) bytes 0 :=
          namesNoRegister_zero.mpr ⟨hslot, hindex⟩
        constructor
        · intro h
          obtain rfl := Except.error.inj h
          exact ⟨0, hzero, fun earlier hlt => absurd hlt (Nat.not_lt_zero earlier),
            by rw [firstByte_zero]⟩
        · rintro ⟨place, _, hfirst, rfl⟩
          cases place with
          | zero => rw [firstByte_zero]
          | succ place => exact absurd hzero (hfirst 0 (Nat.succ_pos place))
      next operand hoperand =>
        have hzero : ¬ NamesNoRegister (slot :: slots) bytes 0 := by
          intro hzero
          obtain ⟨hslot, hindex⟩ := namesNoRegister_zero.mp hzero
          have herror := decode_eq_error_iff.mpr ⟨hslot, hindex, rfl⟩
          rw [hoperand] at herror
          contradiction
        rw [except_map_eq_error_iff, ih]
        constructor
        · rintro ⟨place, hplace, hfirst, rfl⟩
          refine ⟨place + 1, namesNoRegister_succ.mpr hplace, ?_, by rw [firstByte_succ]⟩
          intro earlier hlt
          cases earlier with
          | zero => exact hzero
          | succ earlier =>
              exact fun hearlier =>
                hfirst earlier (Nat.lt_of_succ_lt_succ hlt) (namesNoRegister_succ.mp hearlier)
        · rintro ⟨place, hplace, hfirst, rfl⟩
          cases place with
          | zero => exact absurd hplace hzero
          | succ place =>
              refine ⟨place, namesNoRegister_succ.mp hplace, ?_, by rw [firstByte_succ]⟩
              intro earlier hlt hearlier
              exact hfirst (earlier + 1) (Nat.succ_lt_succ hlt) (namesNoRegister_succ.mpr hearlier)

end Slot

namespace Form

theorem ofOpcode?_eq_some_iff {opcode : Byte} {form : Form} :
    ofOpcode? opcode = some form ↔ form ∈ table ∧ form.opcode = opcode := by
  constructor
  · exact mem_table_of_ofOpcode?_eq_some
  · rintro ⟨hmem, rfl⟩
    exact ofOpcode?_opcode form hmem

theorem ofOpcode?_eq_none_iff {opcode : Byte} :
    ofOpcode? opcode = none ↔ ∀ form ∈ table, form.opcode ≠ opcode := by
  simp [ofOpcode?, List.find?_eq_none]

/-- A form accepts operands that have the shape of its slots exactly when each slot holds its
operand. -/
theorem forall₂_holds_iff {slots : List Slot} {operands : List Operand} :
    List.Forall₂ Slot.Holds slots operands ↔
      (slots.length == operands.length && (slots.zip operands).all fun (slot, operand) =>
        slot.accepts operand) = true ∧
      List.zipWith Slot.fit slots operands = operands := by
  induction slots generalizing operands with
  | nil => cases operands <;> simp
  | cons slot slots ih =>
      cases operands with
      | nil => simp
      | cons operand operands =>
          rw [List.forall₂_cons, ih]
          simp only [Slot.Holds, List.length_cons, List.zip_cons_cons, List.all_cons,
            List.zipWith_cons_cons, List.cons.injEq, Bool.and_eq_true, beq_iff_eq,
            Nat.add_right_cancel_iff]
          tauto

end Form

/-- The count of operands that an instruction takes. -/
def Mnemonic.arity : Mnemonic → Nat
  | mov | movSized _ | arithmetic _ | cmp => 2
  | not | inc | dec | branch _ | jsr | sys | push _ | pop _ | popx => 1
  | ret | iret | sret | pushAll | popAll | nop => 0

/-- All forms of a mnemonic take the same count of operands. -/
theorem Form.length_slots : ∀ form ∈ Form.table, form.slots.length = form.mnemonic.arity := by
  decide +kernel

namespace Instruction

theorem wellFormed_iff {instruction : Instruction} :
    instruction.WellFormed ↔ instruction.form ∈ Form.table ∧
      List.Forall₂ Slot.Holds instruction.form.slots instruction.operands := by
  rw [Form.forall₂_holds_iff]
  rfl

theorem length_operands {instruction : Instruction} (h : instruction.WellFormed) :
    instruction.operands.length = instruction.mnemonic.arity := by
  obtain ⟨hmem, hholds⟩ := wellFormed_iff.mp h
  rw [← hholds.length_eq, Form.length_slots _ hmem]
  rfl

/-- A mnemonic that takes no operands stands alone. -/
theorem operands_eq_nil {instruction : Instruction} {mnemonic : Mnemonic} (h : instruction.WellFormed)
    (hmnemonic : instruction.mnemonic = mnemonic) (harity : mnemonic.arity = 0) :
    instruction.operands = [] := by
  apply List.length_eq_zero_iff.mp
  rw [length_operands h, hmnemonic, harity]

theorem takeD_length_eq (form : Form) (bytes : List Byte) :
    bytes.takeD form.length 0 =
      bytes.headD 0 :: bytes.tail.takeD (Slot.totalSize form.slots) 0 := by
  rw [Form.length, Nat.add_comm, List.takeD_succ, List.headD_eq_head?_getD]

/-- Bytes are read as an instruction exactly when it is well formed and its code comes first. -/
theorem decode_eq_ok_iff {bytes : List Byte} {instruction : Instruction} :
    decode bytes = .ok instruction ↔
      instruction.WellFormed ∧ instruction.encode = bytes.takeD instruction.length 0 := by
  rw [wellFormed_iff, length, takeD_length_eq, encode, List.cons.injEq, decode]
  constructor
  · intro h
    split at h
    next => contradiction
    next form hform =>
      obtain ⟨hmem, hopcode⟩ := Form.ofOpcode?_eq_some_iff.mp hform
      obtain ⟨operands, hoperands, rfl⟩ := except_map_eq_ok_iff.mp h
      obtain ⟨hholds, hcodes⟩ := Slot.decodeAll_eq_ok_iff.mp hoperands
      exact ⟨⟨hmem, hholds⟩, hopcode, hcodes⟩
  · rintro ⟨⟨hmem, hholds⟩, hopcode, hcodes⟩
    rw [Form.ofOpcode?_eq_some_iff.mpr ⟨hmem, hopcode⟩]
    exact except_map_eq_ok_iff.mpr ⟨_, Slot.decodeAll_eq_ok_iff.mpr ⟨hholds, hcodes⟩, rfl⟩

theorem length_encode {instruction : Instruction} (h : instruction.WellFormed) :
    instruction.encode.length = instruction.length := by
  obtain ⟨_, hholds⟩ := wellFormed_iff.mp h
  rw [encode, List.length_cons, Slot.length_flatMap_encode hholds, length, Form.length,
    Nat.add_comm]

/-- Whatever follows the code of an instruction does not matter. -/
theorem decode_encode_append {instruction : Instruction} (h : instruction.WellFormed)
    (rest : List Byte) : decode (instruction.encode ++ rest) = .ok instruction :=
  decode_eq_ok_iff.mpr ⟨h, (List.takeD_left' (length_encode h)).symm⟩

theorem decode_eq_unknownOpcode_iff {bytes : List Byte} {opcode : Byte} :
    decode bytes = .error (.unknownOpcode opcode) ↔
      opcode = bytes.headD 0 ∧ ∀ form ∈ Form.table, form.opcode ≠ bytes.headD 0 := by
  rw [← Form.ofOpcode?_eq_none_iff, decode]
  cases Form.ofOpcode? (bytes.headD 0) with
  | none => simp only [Except.error.injEq, DecodeError.unknownOpcode.injEq, eq_comm, and_true]
  | some form =>
      simp [except_map_eq_error_iff, Slot.decodeAll_eq_error_iff]

theorem decode_eq_invalidRegister_iff {bytes : List Byte} {index : Byte} :
    decode bytes = .error (.invalidRegister index) ↔
      ∃ form ∈ Form.table, form.opcode = bytes.headD 0 ∧
        ∃ place, Slot.NamesNoRegister form.slots bytes.tail place ∧
          (∀ earlier < place, ¬ Slot.NamesNoRegister form.slots bytes.tail earlier) ∧
          index = Slot.firstByte form.slots bytes.tail place := by
  rw [decode]
  constructor
  · intro h
    split at h
    next => simp at h
    next form hform =>
      obtain ⟨hmem, hopcode⟩ := Form.ofOpcode?_eq_some_iff.mp hform
      obtain ⟨place, hplace, hfirst, herror⟩ :=
        Slot.decodeAll_eq_error_iff.mp (except_map_eq_error_iff.mp h)
      exact ⟨form, hmem, hopcode, place, hplace, hfirst, DecodeError.invalidRegister.inj herror⟩
  · rintro ⟨form, hmem, hopcode, place, hplace, hfirst, rfl⟩
    rw [Form.ofOpcode?_eq_some_iff.mpr ⟨hmem, hopcode⟩]
    exact except_map_eq_error_iff.mpr
      (Slot.decodeAll_eq_error_iff.mpr ⟨place, hplace, hfirst, rfl⟩)

/-- Machine code and well-formed instructions determine each other. An instruction has as many bytes
of code as its length says, and they are read back whatever follows them; bytes that are read at all
start with the code of what is read, where bytes that are missing count as zero; and the bytes that
are not read are those with an unlisted opcode or without a register in a slot for one. -/
theorem machineCode_bijection :
    (∀ instruction : Instruction, instruction.WellFormed → ∀ rest,
      instruction.encode.length = instruction.length ∧
        decode (instruction.encode ++ rest) = .ok instruction) ∧
    (∀ bytes instruction, decode bytes = .ok instruction →
      instruction.WellFormed ∧ instruction.encode = bytes.takeD instruction.length 0) ∧
    (∀ bytes opcode, decode bytes = .error (.unknownOpcode opcode) ↔
      opcode = bytes.headD 0 ∧ ∀ form ∈ Form.table, form.opcode ≠ bytes.headD 0) ∧
    ∀ bytes index, decode bytes = .error (.invalidRegister index) ↔
      ∃ form ∈ Form.table, form.opcode = bytes.headD 0 ∧
        ∃ place, Slot.NamesNoRegister form.slots bytes.tail place ∧
          (∀ earlier < place, ¬ Slot.NamesNoRegister form.slots bytes.tail earlier) ∧
          index = Slot.firstByte form.slots bytes.tail place := by
  refine ⟨?_, ?_, ?_, ?_⟩
  · intro instruction hwell rest
    exact ⟨length_encode hwell, decode_encode_append hwell rest⟩
  · intro bytes instruction hdecode
    exact decode_eq_ok_iff.mp hdecode
  · intro bytes opcode
    exact decode_eq_unknownOpcode_iff
  · intro bytes index
    exact decode_eq_invalidRegister_iff

/-- A move whose last byte is missing is read as if that byte were zero. -/
theorem machineCode_bijection_of_truncated_move :
    let bytes : List Byte := [0x03, 0x01, 0x34]
    let move : Instruction :=
      ⟨⟨0x03, .mov, [.register, .immediate .w16]⟩, [.register .b, .immediate 0x34 .w16]⟩
    decode bytes = .ok move ∧ move.WellFormed ∧ move.encode = bytes.takeD 4 0 ∧
      decode (move.encode ++ [0xFF]) = .ok move := by
  intro bytes move
  have hdecode : decode bytes = .ok move := by rfl
  obtain ⟨hwell, hcode⟩ := machineCode_bijection.2.1 bytes move hdecode
  exact ⟨hdecode, hwell, hcode, (machineCode_bijection.1 move hwell [0xFF]).2⟩

end Instruction

end TinyComputer
