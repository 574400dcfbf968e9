import TinyComputer.Proofs.Faults
import TinyComputer.Proofs.FlagBits
import TinyComputer.Proofs.InterruptRequests
import TinyComputer.Proofs.Stack

/-!
# Dispatching an interrupt

When an instruction has been executed and interrupts are enabled, the processor takes the next
request, if there is one. With a stack and a vector in memory, which do not meet, it saves the program
counter and the flags below the stack pointer, disables interrupts and jumps to the vector of the
line. Interrupts are disabled then, so no step takes a second request.
-/

namespace TinyComputer

namespace Board

variable {start board : Board} {id : Nat} {line : Byte}

/-- What taking the request of a device does, when it has a given line. -/
structure Dispatched (id : Nat) (line : Byte) (before after : Board) : Prop where
  /-- One request of the device is withdrawn, and nothing else of it is changed. -/
  device_eq : after.device? id = (before.device? id).map Device.acknowledge
  requestCount_eq : after.requestCount id + 1 = before.requestCount id
  requestCount_of_ne : ∀ other, other ≠ id → after.requestCount other = before.requestCount other
  device_of_ne : ∀ other, other ≠ id → before.memory? other = none →
    after.device? other = before.device? other
  sp_eq : after.register .sp = before.register .sp - 8
  returnAddress_eq : (after.readValue (before.register .sp - 4) 4).1 = before.register .pc
  savedFlags_eq : (after.readValue (before.register .sp - 8) 4).1 = before.register .fl
  flags_eq : after.register .fl = before.register .fl &&& ~~~Flag.interrupts.mask
  pc_eq : after.register .pc = (before.readValue (before.config.vectorAddress line) 4).1
  register_eq : ∀ r, r ≠ .sp → r ≠ .fl → r ≠ .pc → after.register r = before.register r
  memoryByte?_eq : ∀ address, ¬ Word.Within (before.register .sp - 8) 8 address →
    after.memoryByte? address = before.memoryByte? address
  /-- No further request is taken. -/
  settled : after.serviceInterrupt = after

theorem serviceInterrupt_of_disabled (h : board.flags.get .interrupts = false) :
    board.serviceInterrupt = board := by
  rw [serviceInterrupt, h]
  rfl

theorem serviceInterrupt_of_forall_not_asks
    (h : ∀ id device, board.device? id = some device → ¬ device.Asks) :
    board.serviceInterrupt = board := by
  rw [serviceInterrupt, takeInterrupt_of_forall_not_asks h]
  split <;> rfl

/-- The handler is entered on the board without the request. -/
theorem serviceInterrupt_of_nextRequest (henabled : board.flags.get .interrupts = true)
    (h : board.NextRequest id line) :
    board.serviceInterrupt =
      (board.modifyDevice id Device.acknowledge).enterInterrupt (board.register .pc) line := by
  rw [serviceInterrupt, henabled, takeInterrupt_of_nextRequest h]
  rfl

/-- With the vector in memory, entering a handler changes what saving the context changes, and the
program counter. -/
theorem enterInterrupt_of_inMemory {returnAddress : Word}
    (hvector : ∀ address,
      Word.Within ((board.saveContext returnAddress).config.vectorAddress line) 4 address →
        (board.saveContext returnAddress).InMemory address) :
    board.enterInterrupt returnAddress line =
      (board.saveContext returnAddress).setRegister .pc
        (Word.ofBytes ((board.saveContext returnAddress).memoryBytes
          ((board.saveContext returnAddress).config.vectorAddress line) 4)) := by
  simp only [enterInterrupt_eq, readValue_of_inMemory hvector]

/-- Once the context is saved, only the jump is left. -/
theorem dispatched_of_contextSaved {saved : Board} {handler : Word}
    (hnext : board.NextRequest id line)
    (hstack : ∀ address, Word.Within (board.register .sp - 8) 8 address → board.InMemory address)
    (hcontext : ContextSaved (board.register .pc) (board.modifyDevice id Device.acknowledge) saved)
    (hhandler : handler = (board.readValue (board.config.vectorAddress line) 4).1) :
    Dispatched id line board (saved.setRegister .pc handler) := by
  have hframe := hcontext.frame.setRegister .pc handler
  have hinMemory : ∀ address, Word.Within (board.register .sp - 8) 8 address →
      (saved.setRegister .pc handler).InMemory address := by
    intro address hwithin
    rw [hframe.inMemory_iff, inMemory_acknowledge]
    exact hstack address hwithin
  have hflags : (saved.setRegister .pc handler).register .fl = saved.register .fl :=
    register_setRegister_of_ne _ _ (by decide)
  refine ⟨?_, ?_, ?_, ?_, ?_, ?_, ?_, ?_, ?_, ?_, ?_, ?_⟩
  · obtain ⟨device, hdevice, hline, _⟩ := hnext.device
    rw [hframe.device?_eq, device?_modifyDevice, if_pos rfl]
    rw [memory?, device?_modifyDevice, if_pos rfl, hdevice]
    exact device.memory?_acknowledge.trans (Device.memory?_of_line? hline)
  · have hpos := hnext.requestCount_pos
    rw [hframe.requestCount_eq, requestCount_acknowledge, if_pos rfl]
    omega
  · intro other hne
    rw [hframe.requestCount_eq, requestCount_acknowledge, if_neg hne.symm]
  · intro other hne hmemory
    have hother : (board.modifyDevice id Device.acknowledge).device? other = board.device? other := by
      rw [device?_modifyDevice, if_neg hne.symm]
    rw [hframe.device?_eq, hother]
    rw [memory?, hother]
    exact hmemory
  · rw [register_setRegister_of_ne _ _ (by decide)]
    exact hcontext.sp_eq
  · rw [readValue_of_inMemory fun address hwithin =>
      hinMemory address (within_stack_upper hwithin).1, memoryBytes_setRegister]
    rw [← Word.ofBytes_toBytes_four (board.register .pc)]
    exact congrArg Word.ofBytes hcontext.returnAddress_eq
  · rw [readValue_of_inMemory fun address hwithin =>
      hinMemory address (within_stack_lower hwithin), memoryBytes_setRegister]
    rw [← Word.ofBytes_toBytes_four (board.register .fl)]
    exact congrArg Word.ofBytes hcontext.savedFlags_eq
  · rw [hflags]
    exact congrArg Flags.bits hcontext.flags_eq
  · rw [register_setRegister_self, hhandler]
  · intro r hsp hfl hpc
    rw [register_setRegister_of_ne _ _ hpc]
    exact hcontext.register_eq r hsp hfl
  · intro address hnot
    rw [hframe.memoryByte?_eq address hnot, memoryByte?_acknowledge]
  · apply serviceInterrupt_of_disabled
    have hfinal : (saved.setRegister .pc handler).flags = board.flags.set .interrupts false :=
      (congrArg Flags.mk hflags).trans hcontext.flags_eq
    rw [hfinal, Flags.get_set_self]

theorem dispatched_serviceInterrupt (henabled : board.flags.get .interrupts = true)
    (hnext : board.NextRequest id line)
    (hstack : ∀ address, Word.Within (board.register .sp - 8) 8 address → board.InMemory address)
    (hvector : ∀ address, Word.Within (board.config.vectorAddress line) 4 address →
      board.InMemory address)
    (hdisjoint : ∀ address, Word.Within (board.config.vectorAddress line) 4 address →
      ¬ Word.Within (board.register .sp - 8) 8 address) :
    Dispatched id line board board.serviceInterrupt := by
  have hcontext : ContextSaved (board.register .pc) (board.modifyDevice id Device.acknowledge)
      ((board.modifyDevice id Device.acknowledge).saveContext (board.register .pc)) := by
    apply contextSaved_saveContext
    intro address hwithin
    rw [inMemory_acknowledge]
    exact hstack address hwithin
  have hconfig : ((board.modifyDevice id Device.acknowledge).saveContext
      (board.register .pc)).config = board.config := hcontext.frame.config_eq
  rw [serviceInterrupt_of_nextRequest henabled hnext, enterInterrupt_of_inMemory, hconfig]
  · apply dispatched_of_contextSaved hnext hstack hcontext
    rw [readValue_of_inMemory hvector, hcontext.frame.memoryBytes_eq hdisjoint]
    exact congrArg Word.ofBytes (memoryBytes_congr fun address _ => memoryByte?_acknowledge _ _ _)
  · rw [hconfig]
    intro address hwithin
    rw [hcontext.frame.inMemory_iff, inMemory_acknowledge]
    exact hvector address hwithin

/-- A step that completes an instruction looks for an interrupt on the board that the instruction
left. With interrupts disabled or without a request it changes nothing. Otherwise there is a next
request, and with the stack and the vector in different memory the step dispatches it. -/
theorem step_dispatches (h : start.Completes board) :
    start.step = (none, board.serviceInterrupt) ∧
    (board.flags.get .interrupts = false ∨
        (∀ id device, board.device? id = some device → ¬ device.Asks) →
      board.serviceInterrupt = board) ∧
    (board.flags.get .interrupts = true →
        (∃ id device, board.device? id = some device ∧ device.Asks) →
      ∃ id line, board.NextRequest id line ∧
        ((∀ address, Word.Within (board.register .sp - 8) 8 address → board.InMemory address) →
          (∀ address, Word.Within (board.config.vectorAddress line) 4 address →
            board.InMemory address) →
          (∀ address, Word.Within (board.config.vectorAddress line) 4 address →
            ¬ Word.Within (board.register .sp - 8) 8 address) →
          Dispatched id line board board.serviceInterrupt)) := by
  refine ⟨step_of_completes h, ?_, ?_⟩
  · intro hnothing
    rcases hnothing with hdisabled | hquiet
    · exact serviceInterrupt_of_disabled hdisabled
    · exact serviceInterrupt_of_forall_not_asks hquiet
  · intro henabled hrequest
    obtain ⟨_, device, hdevice, hasks⟩ := hrequest
    obtain ⟨id, line, hnext⟩ := exists_nextRequest hdevice hasks
    refine ⟨id, line, hnext, ?_⟩
    intro hstack hvector hdisjoint
    exact dispatched_serviceInterrupt henabled hnext hstack hvector hdisjoint

/-- Of three keyboards the first has no request after a `nop`. The second one is served, on line 1,
and keeps one of its two requests. -/
theorem step_dispatches_second_keyboard :
    let start : Board :=
      { empty { vectorBase := 0x20 } with
        registers := (RegisterFile.zero.write .sp 0x20).write .fl 0x81
        bindings := #[
          ⟨⟨0, 0x40⟩, .memory (((Memory.zeros 0x40).write 0 0x87).write 0x25 0x12)⟩,
          ⟨⟨0x1000, 0x20⟩, .keyboard { line := some 0 }⟩,
          ⟨⟨0x2000, 0x20⟩, .keyboard { line := some 1, pending := 2 }⟩,
          ⟨⟨0x3000, 0x20⟩, .keyboard { line := some 2, pending := 1 }⟩] }
    start.step.1 = none ∧ Dispatched 2 1 (start.setRegister .pc 1) start.step.2 ∧
      start.step.2.register .pc = 0x1200 ∧ start.step.2.register .fl = 0x01 := by
  intro start
  have hcompletes : start.Completes (start.setRegister .pc 1) :=
    ⟨⟨⟨0x87, .nop, []⟩, []⟩, start, by decide +kernel, rfl⟩
  have hasks : ∃ id device, (start.setRegister .pc 1).device? id = some device ∧ device.Asks :=
    ⟨2, .keyboard { line := some 1, pending := 2 }, rfl, rfl, rfl⟩
  have hid : (start.setRegister .pc 1).requestingIndex? = some 2 := by decide +kernel
  obtain ⟨hstep, _, hdispatch⟩ := step_dispatches hcompletes
  obtain ⟨id, line, hnext, hdispatched⟩ := hdispatch (by decide +kernel) hasks
  obtain rfl : id = 2 :=
    Option.some.inj ((requestingIndex?_eq_some_iff.mpr ⟨line, hnext⟩).symm.trans hid)
  obtain ⟨device, hdevice, hline, _⟩ := hnext.device
  obtain rfl : Device.keyboard { line := some 1, pending := 2 } = device := Option.some.inj hdevice
  obtain rfl : 1 = line := Option.some.inj hline
  have hresult := hdispatched (Word.forall_within (by decide +kernel))
    (Word.forall_within (by decide +kernel)) (Word.forall_within (by decide +kernel))
  have hhandler : ((start.setRegister .pc 1).readValue 0x24 4).1 = 0x1200 := by decide +kernel
  rw [hstep]
  refine ⟨rfl, hresult, ?_, ?_⟩
  · exact hresult.pc_eq.trans hhandler
  · exact hresult.flags_eq.trans (by decide +kernel)

end Board

end TinyComputer
