import Mathlib.Data.List.Induction
import TinyComputer.Machine.Basic
import TinyComputer.Proofs.InterruptLines
import TinyComputer.Proofs.Reset
import TinyComputer.Proofs.SymbolTable

/-!
# Symbols of a machine

The symbols of a machine name the header fields and the registers of its devices. Devices of one kind
share their names, and the device that was attached last has them. Slots that have room for every register
keep the places of two devices apart, so no symbol is lost to another one at the same address, and what a
symbol names is what the board routes its address to.
-/

namespace TinyComputer

/-! ## Places of a device -/

namespace DeviceKind

/-- The letters in front of the name of a place. -/
def symbolName (kind : DeviceKind) (name : String) : List Char :=
  kind.shortName.toList ++ '_' :: name.toList

/-- The named places of the devices of a kind with their offsets: header fields first, and then
registers. -/
def places (kind : DeviceKind) : List (String × Word) :=
  (if kind.hasHeader then Header.fields else []) ++
    match kind with
    | memory => []
    | processor => RegisterBank.constants
    | storage => Storage.constants
    | keyboard => Keyboard.constants

theorem fold_symbolName (kind : DeviceKind) :
    ∀ place ∈ kind.places, Symbols.fold (kind.symbolName place.1) = kind.symbolName place.1 := by
  cases kind <;> decide +kernel

/-- The places of a device have different names at different offsets. -/
theorem pairwise_places (kind : DeviceKind) :
    kind.places.Pairwise fun first second =>
      kind.symbolName first.1 ≠ kind.symbolName second.1 ∧ first.2 ≠ second.2 := by
  cases kind <;> decide +kernel

/-- A slot of this size has room for every place. -/
theorem offset_lt (kind : DeviceKind) : ∀ place ∈ kind.places, place.2.toNat < 0x400 := by
  cases kind <;> decide +kernel

/-- A name tells the kind of the device. -/
theorem eq_of_symbolName_eq {first second : DeviceKind} {name name' : String}
    (h : first.symbolName name = second.symbolName name') : first = second := by
  have hlength : ∀ kind : DeviceKind, kind.shortName.toList.length = 3 := by
    intro kind
    cases kind <;> rfl
  have hletters := (List.append_inj h ((hlength first).trans (hlength second).symm)).1
  revert hletters
  cases first <;> cases second <;> decide

end DeviceKind

namespace Binding

/-- The symbol of a place of an attached device. -/
def symbol (binding : Binding) (place : String × Word) : Symbol :=
  ⟨binding.device.kind.symbolName place.1, binding.window.base + place.2⟩

theorem ofBinding_eq (binding : Binding) :
    Symbols.ofBinding binding = binding.device.kind.places.map binding.symbol := by
  obtain ⟨window, device⟩ := binding
  cases device <;> rfl

theorem oneToOne_ofBinding (binding : Binding) :
    Symbols.OneToOne ⟨Symbols.ofBinding binding⟩ := by
  rw [Symbols.OneToOne, ofBinding_eq, List.pairwise_map]
  refine binding.device.kind.pairwise_places.imp ?_
  rintro first second ⟨hname, hoffset⟩
  exact ⟨hname, fun haddress => hoffset ((UInt32.add_right_inj _).mp haddress)⟩

theorem fold_name_of_mem {binding : Binding} {symbol : Symbol}
    (h : symbol ∈ Symbols.ofBinding binding) : Symbols.fold symbol.name = symbol.name := by
  rw [ofBinding_eq, List.mem_map] at h
  obtain ⟨place, hplace, rfl⟩ := h
  exact binding.device.kind.fold_symbolName place hplace

/-- A device shares no name with another one exactly if they are of different kinds. -/
theorem forall_name_ne_iff {first second : Binding} {symbol : Symbol}
    (h : symbol ∈ Symbols.ofBinding first) :
    (∀ other ∈ Symbols.ofBinding second, symbol.name ≠ other.name) ↔
      second.device.kind ≠ first.device.kind := by
  rw [ofBinding_eq, List.mem_map] at h
  obtain ⟨place, hplace, rfl⟩ := h
  simp only [ofBinding_eq, List.forall_mem_map]
  constructor
  · intro hnames hkind
    refine hnames place (hkind ▸ hplace) ?_
    rw [symbol, symbol, hkind]
  · intro hkind other _ hname
    exact hkind (DeviceKind.eq_of_symbolName_eq hname).symm

end Binding

/-! ## Symbols of many devices -/

/-- Of some attached devices, the one with a given place is the last of its kind. -/
def LastOfKind (bindings : List Binding) (id : Nat) (binding : Binding) : Prop :=
  bindings[id]? = some binding ∧
    ∀ later ∈ bindings.drop (id + 1), later.device.kind ≠ binding.device.kind

noncomputable instance (bindings : List Binding) (id : Nat) (binding : Binding) :
    Decidable (LastOfKind bindings id binding) :=
  inferInstanceAs (Decidable (_ ∧ _))

/-- A device that is attached is the last of its kind, and devices of other kinds stay that. -/
theorem lastOfKind_append_singleton {bindings : List Binding} {id : Nat} {binding added : Binding} :
    LastOfKind (bindings ++ [added]) id binding ↔
      id = bindings.length ∧ binding = added ∨
        LastOfKind bindings id binding ∧ added.device.kind ≠ binding.device.kind := by
  unfold LastOfKind
  rcases Nat.lt_trichotomy id bindings.length with hlt | rfl | hgt
  · rw [List.getElem?_append_left hlt, List.drop_append_of_le_length hlt]
    simp only [List.mem_append, List.mem_singleton, or_imp, forall_and, forall_eq]
    have hne := Nat.ne_of_lt hlt
    simp [hne, and_assoc]
  · simp [eq_comm]
  · have hne := Nat.ne_of_gt hgt
    have hfound : bindings[id]? = none := List.getElem?_eq_none (Nat.le_of_lt hgt)
    have hfound' : (bindings ++ [added])[id]? = none := by
      apply List.getElem?_eq_none
      rw [List.length_append, List.length_singleton]
      exact hgt
    simp [hne, hfound, hfound']

/-- Each kind that is there has a last device. -/
theorem exists_lastOfKind {bindings : List Binding} {binding : Binding} (h : binding ∈ bindings) :
    ∃ id last, LastOfKind bindings id last ∧ last.device.kind = binding.device.kind := by
  induction bindings using List.reverseRecOn with
  | nil => contradiction
  | append_singleton bindings added ih =>
      by_cases hkind : added.device.kind = binding.device.kind
      · exact ⟨_, added, lastOfKind_append_singleton.mpr (.inl ⟨rfl, rfl⟩), hkind⟩
      · rcases List.mem_append.mp h with hmem | hmem
        · obtain ⟨id, last, hlast, hsame⟩ := ih hmem
          exact ⟨id, last, lastOfKind_append_singleton.mpr (.inr ⟨hlast, hsame ▸ hkind⟩), hsame⟩
        · exact absurd (congrArg (·.device.kind) (List.mem_singleton.mp hmem).symm) hkind

/-- No address has a name on two devices. -/
def PlacedApart (bindings : List Binding) : Prop :=
  bindings.Pairwise fun first second => ∀ symbol ∈ Symbols.ofBinding first,
    ∀ other ∈ Symbols.ofBinding second, symbol.address ≠ other.address

/-- The symbols of some devices are those of the last device of each kind. -/
theorem mem_insertAll_ofBinding {bindings : List Binding} {symbol : Symbol}
    (h : PlacedApart bindings) :
    symbol ∈ (Symbols.empty.insertAll (bindings.flatMap Symbols.ofBinding)).entries ↔
      ∃ id binding, LastOfKind bindings id binding ∧ symbol ∈ Symbols.ofBinding binding := by
  induction bindings using List.reverseRecOn generalizing symbol with
  | nil => simp [Symbols.insertAll, Symbols.empty, LastOfKind]
  | append_singleton bindings added ih =>
      obtain ⟨hbindings, _, hacross⟩ := List.pairwise_append.mp h
      rw [List.flatMap_append, List.flatMap_singleton, Symbols.insertAll_append,
        Symbols.mem_insertAll (fun _ => Binding.fold_name_of_mem) added.oneToOne_ofBinding ?_]
      · simp only [lastOfKind_append_singleton, ih hbindings]
        constructor
        · rintro (hmem | ⟨⟨id, binding, hlast, hmem⟩, hnames⟩)
          · exact ⟨_, added, .inl ⟨rfl, rfl⟩, hmem⟩
          · exact ⟨id, binding, .inr ⟨hlast, (Binding.forall_name_ne_iff hmem).mp hnames⟩, hmem⟩
        · rintro ⟨id, binding, ⟨_, rfl⟩ | ⟨hlast, hkind⟩, hmem⟩
          · exact .inl hmem
          · exact .inr ⟨⟨id, binding, hlast, hmem⟩, (Binding.forall_name_ne_iff hmem).mpr hkind⟩
      · intro newer hnewer older holder
        obtain ⟨id, binding, hlast, hmem⟩ := (ih hbindings).mp holder
        exact hacross binding (List.mem_of_getElem? hlast.1) added (List.mem_singleton_self _)
          older hmem newer hnewer

/-! ## Slots -/

namespace Board

variable {board after : Board}

theorem size_of_slotWindow? {config : Config} {slot : Nat} {window : Window}
    (h : slotWindow? config slot = some window) : window.size = config.slotSize := by
  unfold slotWindow? at h
  split at h
  next => rw [← Option.some.inj h]
  next => contradiction

theorem size_of_seekSlot {slot next : Nat} {window : Window}
    (h : board.seekSlot slot = (some window, next)) : window.size = board.config.slotSize := by
  fun_induction Board.seekSlot board slot with
  | case1 => simp at h
  | case2 slot found hfound =>
      obtain rfl : found = window := by simpa using congrArg Prod.fst h
      exact size_of_slotWindow? hfound
  | case3 => simp at h
  | case4 slot found hfound hvacant hsize ih => exact ih h

/-- Every device but a memory has the window of a slot. -/
def Slotted (board : Board) : Prop :=
  ∀ binding ∈ board.bindings, binding.device.kind ≠ .memory →
    binding.window.size = board.config.slotSize

theorem Slotted.bind (h : board.Slotted) {device : Device} {window : Window}
    (hwindow : device.kind ≠ .memory → window.size = board.config.slotSize) :
    (board.bind device window).Slotted := by
  intro binding hmem hkind
  rw [bindings_bind, Array.mem_push] at hmem
  rw [config_bind]
  rcases hmem with hmem | rfl
  · exact h binding hmem hkind
  · exact hwindow (by rwa [Device.kind_connect] at hkind)

theorem Slotted.addDevice (h : board.Slotted) (device : Device) :
    (board.addDevice device).2.Slotted := by
  unfold Board.addDevice
  split
  next => exact h
  next window next hseek =>
    have hsize : window.size = board.config.slotSize := size_of_seekSlot hseek
    have hnext : ({ board with nextSlot := next } : Board).Slotted := h
    have hbound : (({ board with nextSlot := next } : Board).bind device window).Slotted :=
      hnext.bind fun _ => hsize
    rcases ({ board with nextSlot := next } : Board).attach_cases device window with
      ⟨_, hattach⟩ | ⟨_, error, hattach⟩
    · simp only [hattach]
      exact hbound
    · simp only [hattach]
      exact h

/-- What the addition of any device keeps, the addition of devices keeps. -/
theorem addDevices_kept {P : Board → Prop} {devices : List Device}
    (hadd : ∀ (board : Board) (device : Device), P board → P (board.addDevice device).2)
    (hboard : P board) (h : board.addDevices devices = .ok after) : P after := by
  induction devices generalizing board with
  | nil =>
      obtain rfl : board = after := Except.ok.inj h
      exact hboard
  | cons device rest ih =>
      have hadded := hadd board device hboard
      unfold addDevices at h
      split at h
      next => contradiction
      next heq =>
        rw [heq] at hadded
        exact ih hadded h

/-- A place of a device is in its window if slots have room for all of its places. -/
theorem contains_address (hbound : ∀ binding ∈ board.bindings, binding.window.bound ≤ wordBound)
    (hslotted : board.Slotted) (hslot : 0x400 ≤ board.config.slotSize) {binding : Binding}
    (hmem : binding ∈ board.bindings) {place : String × Word}
    (hplace : place ∈ binding.device.kind.places) :
    binding.window.contains (binding.window.base + place.2) = true := by
  apply Window.contains_base_add (hbound binding hmem)
  have hkind : binding.device.kind ≠ .memory := by
    intro hkind
    rw [hkind] at hplace
    contradiction
  have hlt := binding.device.kind.offset_lt place hplace
  rw [hslotted binding hmem hkind]
  exact Nat.lt_of_lt_of_le hlt (UInt32.le_iff_toNat_le.mp hslot)

theorem Separated.placedApart (h : board.Separated) (hslotted : board.Slotted)
    (hslot : 0x400 ≤ board.config.slotSize) : PlacedApart board.bindings.toList := by
  rw [PlacedApart, List.pairwise_iff_getElem]
  intro i j hi hj hlt symbol hsymbol other hother haddress
  rw [Binding.ofBinding_eq, List.mem_map] at hsymbol hother
  obtain ⟨place, hplace, rfl⟩ := hsymbol
  obtain ⟨place', hplace', rfl⟩ := hother
  have hin := contains_address h.bound_le hslotted hslot
    (Array.mem_toList_iff.mp (List.getElem_mem hi)) hplace
  have hin' := contains_address h.bound_le hslotted hslot
    (Array.mem_toList_iff.mp (List.getElem_mem hj)) hplace'
  have hplaces : ∀ {k : Nat} (hk : k < board.bindings.toList.length),
      board.bindings[k]? = some board.bindings.toList[k] := by
    intro k hk
    rw [← Array.getElem?_toList, List.getElem?_eq_getElem hk]
  simp only [Binding.symbol] at haddress
  rw [haddress] at hin
  exact Nat.ne_of_lt hlt (h.place_eq (hplaces hi) hin (hplaces hj) hin')

end Board

/-! ## Machines that were built -/

namespace Machine

variable {config : Config} {peripherals : List Device} {machine : Machine}

theorem symbols_of_build (h : Machine.build config peripherals = .ok machine) :
    machine.symbols = .ofBoard machine.board := by
  unfold Machine.build at h
  simp only at h
  split at h
  next => contradiction
  next =>
    split at h
    next => contradiction
    next => rw [← Except.ok.inj h]

theorem assembled_of_build (h : Machine.build config peripherals = .ok machine) :
    machine.board.Assembled := by
  have hram : (((Board.empty config).attach (.memory (.zeros config.ramSize.toNat))
      ⟨0, config.ramSize⟩).2).Assembled := .attach _ _ (.empty config)
  unfold Machine.build at h
  simp only at h
  split at h
  next => contradiction
  next heq =>
    rw [heq] at hram
    split at h
    next => contradiction
    next board hadd =>
      rw [← Except.ok.inj h]
      exact Board.addDevices_kept (fun _ device hboard => .addDevice device hboard) hram hadd

theorem slotted_of_build (h : Machine.build config peripherals = .ok machine) :
    machine.board.Slotted := by
  refine Board.addDevices_kept (fun _ device hboard => hboard.addDevice device) ?_
    (addDevices_of_build h)
  apply Board.Slotted.bind
  · simp [Board.Slotted, Board.empty]
  · exact fun hkind => absurd rfl hkind

/-- In a machine that was built with room for every register in a slot, the symbols are those of the last
device of each kind, one for each of its places, and nothing else. The name of a place is that of the
address of the place and the other way around, and the board routes this address to this device, at the
offset of the place. Every kind of which there is a device has a last one, and the register bank is always
there. -/
theorem symbols_agree_with_routing (h : Machine.build config peripherals = .ok machine)
    (hslot : 0x400 ≤ config.slotSize) :
    let bindings := machine.board.bindings.toList
    (∀ symbol, symbol ∈ machine.symbols.entries ↔ ∃ id binding, LastOfKind bindings id binding ∧
      ∃ place ∈ binding.device.kind.places, symbol = binding.symbol place) ∧
    machine.symbols.OneToOne ∧
    (∀ id binding, LastOfKind bindings id binding →
      ∀ name offset, (name, offset) ∈ binding.device.kind.places →
        let address := binding.window.base + offset
        let spelling := binding.device.kind.symbolName name
        machine.symbols.address? spelling = some address ∧
        machine.symbols.name? address = some spelling ∧
        machine.board.routeIndex? address = some id ∧
        machine.board.route? address = some binding ∧ binding.offset address = offset) ∧
    (∀ binding ∈ bindings, ∃ id last, LastOfKind bindings id last ∧
      last.device.kind = binding.device.kind) ∧
    ∃ id last, LastOfKind bindings id last ∧ last.device.kind = .processor := by
  intro bindings
  obtain ⟨hconfig, _⟩ := registers_of_build h
  have hseparated := (assembled_of_build h).separated
  have hslotted := slotted_of_build h
  rw [← hconfig] at hslot
  have hone : machine.symbols.OneToOne := by
    rw [symbols_of_build h, Symbols.ofBoard_eq]
    exact Symbols.oneToOne_empty.insertAll _
  have hsymbols : ∀ symbol, symbol ∈ machine.symbols.entries ↔ ∃ id binding,
      LastOfKind bindings id binding ∧
        ∃ place ∈ binding.device.kind.places, symbol = binding.symbol place := by
    intro symbol
    rw [symbols_of_build h, Symbols.ofBoard_eq,
      mem_insertAll_ofBinding (hseparated.placedApart hslotted hslot)]
    simp only [Binding.ofBinding_eq, List.mem_map, eq_comm, bindings]
  refine ⟨hsymbols, hone, ?_, fun binding hmem => exists_lastOfKind hmem, ?_⟩
  · intro id binding hlast name offset hplace address spelling
    have hentry : (⟨spelling, address⟩ : Symbol) ∈ machine.symbols.entries :=
      (hsymbols _).mpr ⟨id, binding, hlast, (name, offset), hplace, rfl⟩
    have hfold : Symbols.fold spelling = spelling :=
      binding.device.kind.fold_symbolName (name, offset) hplace
    have hbinding : machine.board.bindings[id]? = some binding := by
      rw [← Array.getElem?_toList]
      exact hlast.1
    have hin : binding.window.contains address = true :=
      Board.contains_address hseparated.bound_le hslotted hslot
        (Array.mem_of_getElem? hbinding) hplace
    refine ⟨hone.address?_eq_some_iff.mpr (hfold.symm ▸ hentry), hone.name?_eq_some_iff.mpr hentry,
      ?_, ?_, ?_⟩
    · exact hseparated.routeIndex?_eq_some_iff.mpr ⟨binding, hbinding, hin⟩
    · exact hseparated.route?_eq_some_iff.mpr ⟨Array.mem_of_getElem? hbinding, hin⟩
    · exact Word.add_sub_self binding.window.base offset
  · have hbank := hasBank_of_build h
    rw [Board.HasBank, ← Array.any_toList, List.any_eq_true] at hbank
    obtain ⟨binding, hmem, hkind⟩ := hbank
    obtain ⟨id, last, hlast, hsame⟩ := exists_lastOfKind hmem
    exact ⟨id, last, hlast, hsame.trans (eq_of_beq hkind)⟩

/-- Memory reaches into the first slot, which is passed over, and the slots are just large enough. Of two
keyboards the second has the names, and the queue of the first has none. -/
theorem symbols_agree_with_routing_of_second_keyboard :
    let config : Config := { ramSize := 0x500, areaBase := 0, slotSize := 0x400 }
    let peripherals : List Device :=
      [.keyboard {}, .storage { units := [] }, .memory (.zeros 4), .keyboard {}]
    ∃ machine, Machine.build config peripherals = .ok machine ∧ 0x400 ≤ config.slotSize ∧
      machine.symbols.address? "KBD_DEQUEUE".toList = some 0x1812 ∧
      machine.symbols.name? 0x1812 = some "KBD_DEQUEUE".toList ∧
      machine.board.routeIndex? 0x1812 = some 5 ∧ machine.symbols.name? 0xC12 = none := by
  intro config peripherals
  obtain ⟨machine, hbuild⟩ : ∃ machine, Machine.build config peripherals = .ok machine := by
    have hok : (Machine.build config peripherals).isOk = true := by decide +kernel
    cases hbuild : Machine.build config peripherals with
    | error error =>
        rw [hbuild] at hok
        contradiction
    | ok machine => exact ⟨machine, rfl⟩
  let binding : Binding := ⟨⟨0x1800, 0x400⟩, .keyboard { line := some 2 }⟩
  have hlast : (Machine.build config peripherals).toOption.map
      (fun machine => decide (LastOfKind machine.board.bindings.toList 5 binding)) = some true := by
    decide +kernel
  have hfirst : (Machine.build config peripherals).toOption.map
      (fun machine => machine.symbols.name? 0xC12) = some none := by
    decide +kernel
  rw [hbuild] at hlast hfirst
  have hslot : 0x400 ≤ config.slotSize := by decide
  obtain ⟨_, _, hplaces, _⟩ := symbols_agree_with_routing hbuild hslot
  obtain ⟨haddress, hname, hroute, _⟩ :=
    hplaces 5 binding (of_decide_eq_true (Option.some.inj hlast)) "DEQUEUE" 0x12 (by decide)
  have hspelling : DeviceKind.keyboard.symbolName "DEQUEUE" = "KBD_DEQUEUE".toList := by decide
  exact ⟨machine, hbuild, hslot, hspelling ▸ haddress, hspelling ▸ hname, hroute,
    Option.some.inj hfirst⟩

end Machine

end TinyComputer
