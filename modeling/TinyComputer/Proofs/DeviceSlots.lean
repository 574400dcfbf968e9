import Mathlib.Data.Nat.Find
import Mathlib.Order.Bounds.Basic
import TinyComputer.Proofs.Reset

/-!
# Slots of the device area

A device that is added takes the least slot from the counter on that ends within the address space and
shares no address with another device; without such a slot it is refused. The search ends, and it needs
no more than machine words: the counter never wraps around as long as there are fewer slots than words,
and its sums and products fit in double words. Slots are given out in order, so that later devices have
higher addresses.
-/

namespace TinyComputer

/-- The address of a slot as the configuration computes it, which wraps around where the slot starts
beyond the address space. -/
theorem Config.slotAddress_ofNat (config : Config) (slot : Nat) :
    config.slotAddress (UInt32.ofNat slot) = UInt32.ofNat (Board.slotBase config slot) := by
  rw [slotAddress, Board.slotBase, UInt32.ofNat_add, UInt32.ofNat_mul, UInt32.ofNat_toNat,
    UInt32.ofNat_toNat]

namespace Board

variable {config : Config} {board : Board} {slot : Nat} {window : Window}

/-! ## Windows of slots -/

/-- A slot ends where the next one starts. -/
theorem slotBase_succ (config : Config) (slot : Nat) :
    slotBase config (slot + 1) = slotBase config slot + config.slotSize.toNat := by
  rw [slotBase, slotBase, Nat.succ_mul, Nat.add_assoc]

theorem slotBase_le_slotBase (config : Config) {first second : Nat} (h : first ≤ second) :
    slotBase config first ≤ slotBase config second :=
  Nat.add_le_add_left (Nat.mul_le_mul_right _ h) _

theorem toNat_slotSize_pos (hsize : config.slotSize ≠ 0) : 0 < config.slotSize.toNat :=
  Nat.pos_of_ne_zero fun hzero => hsize (UInt32.toNat_inj.mp hzero)

theorem slotWindow?_eq_some_iff :
    slotWindow? config slot = some window ↔ slotBase config (slot + 1) ≤ wordBound ∧
      window = ⟨config.slotAddress (UInt32.ofNat slot), config.slotSize⟩ := by
  rw [slotWindow?, slotBase_succ, Config.slotAddress_ofNat]
  split
  next hfits => simp [hfits, eq_comm]
  next hfits => simp [hfits]

theorem slotWindow?_eq_none_iff :
    slotWindow? config slot = none ↔ wordBound < slotBase config (slot + 1) := by
  rw [slotWindow?, slotBase_succ]
  split
  next hfits => simpa using hfits
  next hfits => simpa using hfits

/-- A slot within the address space starts where its number says. -/
theorem toNat_slotAddress (hsize : config.slotSize ≠ 0)
    (hfits : slotBase config (slot + 1) ≤ wordBound) :
    (config.slotAddress (UInt32.ofNat slot)).toNat = slotBase config slot := by
  have hpos := toNat_slotSize_pos hsize
  rw [slotBase_succ] at hfits
  rw [Config.slotAddress_ofNat]
  have hlt : slotBase config slot < wordBound := by omega
  exact Nat.mod_eq_of_lt hlt

theorem contains_slot_iff (hsize : config.slotSize ≠ 0)
    (hfits : slotBase config (slot + 1) ≤ wordBound) {address : Word} :
    (⟨config.slotAddress (UInt32.ofNat slot), config.slotSize⟩ : Window).contains address = true ↔
      slotBase config slot ≤ address.toNat ∧ address.toNat < slotBase config (slot + 1) := by
  rw [Window.contains_iff, Window.bound, toNat_slotAddress hsize hfits, slotBase_succ]

/-- As long as there are fewer slots than words, the number after a slot is a word. -/
theorem succ_lt_of_slotWindow? (hsize : config.slotSize ≠ 0)
    (hroom : config.areaBase ≠ 0 ∨ 1 < config.slotSize)
    (h : slotWindow? config slot = some window) : slot + 1 < wordBound := by
  have hpos := toNat_slotSize_pos hsize
  have hfits := (slotWindow?_eq_some_iff.mp h).1
  unfold slotBase at hfits
  rcases hroom with hbase | hwide
  · have hbase' : 0 < config.areaBase.toNat :=
      Nat.pos_of_ne_zero fun hzero => hbase (UInt32.toNat_inj.mp hzero)
    have hmul := Nat.le_mul_of_pos_right (slot + 1) hpos
    omega
  · have hwide' : 2 ≤ config.slotSize.toNat := UInt32.lt_iff_toNat_lt.mp hwide
    have hmul := Nat.mul_le_mul_left (slot + 1) hwide'
    omega

/-! ## The search for a slot -/

/-- A slot that a device could have: it was not tried before, it ends within the address space, and none
of its addresses is in the window of a device. -/
def FreeSlot (board : Board) (slot : Nat) : Prop :=
  board.nextSlot ≤ slot ∧ slotBase board.config (slot + 1) ≤ wordBound ∧
    ∀ binding ∈ board.bindings, ∀ address : Word, binding.window.contains address = true →
      ¬ (slotBase board.config slot ≤ address.toNat ∧
        address.toNat < slotBase board.config (slot + 1))

theorem Separated.freeSlot_iff (h : board.Separated) (hsize : board.config.slotSize ≠ 0) :
    board.FreeSlot slot ↔ board.nextSlot ≤ slot ∧
      ∃ window, slotWindow? board.config slot = some window ∧ board.vacant window = true := by
  refine and_congr_right fun _ => ?_
  simp only [slotWindow?_eq_some_iff]
  constructor
  · rintro ⟨hfits, hfree⟩
    refine ⟨_, ⟨hfits, rfl⟩, ?_⟩
    rw [h.vacant_iff_forall_not_contains (toNat_slotSize_pos hsize)]
    rintro binding hmem address ⟨hslot, hin⟩
    exact hfree binding hmem address hin ((contains_slot_iff hsize hfits).mp hslot)
  · rintro ⟨window, ⟨hfits, rfl⟩, hvacant⟩
    rw [h.vacant_iff_forall_not_contains (toNat_slotSize_pos hsize)] at hvacant
    refine ⟨hfits, fun binding hmem address hin hslot => ?_⟩
    exact hvacant binding hmem address ⟨(contains_slot_iff hsize hfits).mpr hslot, hin⟩

/-- The search passes over occupied slots, up to one that is vacant or ends beyond the address space. -/
theorem seekSlot_cases (hsize : board.config.slotSize ≠ 0) (slot : Nat) :
    ∃ last, slot ≤ last ∧
      (∀ passed, slot ≤ passed → passed < last →
        ∃ window, slotWindow? board.config passed = some window ∧ board.vacant window = false) ∧
      ((slotWindow? board.config last = none ∧ board.seekSlot slot = (none, last)) ∨
        ∃ window, slotWindow? board.config last = some window ∧ board.vacant window = true ∧
          board.seekSlot slot = (some window, last + 1)) := by
  fun_induction Board.seekSlot board slot with
  | case1 slot hnone =>
      exact ⟨slot, Nat.le_refl _, fun passed hle hlt => absurd hlt (Nat.not_lt.mpr hle),
        .inl ⟨hnone, rfl⟩⟩
  | case2 slot window hwindow hvacant =>
      exact ⟨slot, Nat.le_refl _, fun passed hle hlt => absurd hlt (Nat.not_lt.mpr hle),
        .inr ⟨window, hwindow, hvacant, rfl⟩⟩
  | case3 slot window hwindow hvacant hzero => exact absurd hzero hsize
  | case4 slot window hwindow hvacant hnonzero ih =>
      obtain ⟨last, hle, hpassed, hend⟩ := ih
      refine ⟨last, Nat.le_of_succ_le hle, ?_, hend⟩
      intro passed hfrom hlt
      rcases Nat.eq_or_lt_of_le hfrom with rfl | hafter
      · exact ⟨window, hwindow, Bool.eq_false_iff.mpr hvacant⟩
      · exact hpassed passed hafter hlt

/-- The counter does not go back. -/
theorem le_seekSlot (hsize : board.config.slotSize ≠ 0) (slot : Nat) :
    slot ≤ (board.seekSlot slot).2 := by
  obtain ⟨last, hle, _, ⟨_, hseek⟩ | ⟨window, _, _, hseek⟩⟩ := board.seekSlot_cases hsize slot
  · rw [hseek]
    exact hle
  · rw [hseek]
    exact Nat.le_succ_of_le hle

/-- The counter stays a word. -/
theorem seekSlot_lt (hsize : board.config.slotSize ≠ 0)
    (hroom : board.config.areaBase ≠ 0 ∨ 1 < board.config.slotSize) (hslot : slot < wordBound) :
    (board.seekSlot slot).2 < wordBound := by
  obtain ⟨last, hle, hpassed, ⟨_, hseek⟩ | ⟨window, hwindow, _, hseek⟩⟩ :=
    board.seekSlot_cases hsize slot
  · rw [hseek]
    rcases Nat.eq_or_lt_of_le hle with rfl | hlt
    · exact hslot
    · -- The slot before the last one was passed over, so it has a window.
      obtain ⟨window, hwindow, _⟩ := hpassed (last - 1) (by omega) (by omega)
      have hlast := succ_lt_of_slotWindow? hsize hroom hwindow
      simp only
      omega
  · rw [hseek]
    exact succ_lt_of_slotWindow? hsize hroom hwindow

/-! ## The search in machine words -/

/-- Where a slot starts, as a double word. -/
def slotSum (config : Config) (counter : Word) : UInt64 :=
  config.areaBase.toUInt64 + counter.toUInt64 * config.slotSize.toUInt64

/-- The window of a slot, the base cut down to a word. -/
def wordWindow (config : Config) (counter : Word) : Window :=
  ⟨(slotSum config counter).toUInt32, config.slotSize⟩

/-- Whether a slot ends within the address space, decided in double words. -/
def FitsInWords (config : Config) (counter : Word) : Prop :=
  slotSum config counter + config.slotSize.toUInt64 ≤ 0x100000000

/-- The search with a counter that is a word: what it finds, and the counter that it leaves. -/
inductive SeeksInWords (board : Board) : (counter : Word) → Option Window × Word → Prop
  | full {counter : Word} (hfull : ¬ FitsInWords board.config counter) :
      SeeksInWords board counter (none, counter)
  | vacant {counter : Word} (hfits : FitsInWords board.config counter)
      (hvacant : board.vacant (wordWindow board.config counter) = true) :
      SeeksInWords board counter (some (wordWindow board.config counter), counter + 1)
  | occupied {counter : Word} {result : Option Window × Word}
      (hfits : FitsInWords board.config counter)
      (hoccupied : board.vacant (wordWindow board.config counter) = false)
      (hrest : SeeksInWords board (counter + 1) result) : SeeksInWords board counter result

/-- The search in words comes to one end at most. -/
theorem SeeksInWords.unique {counter : Word} {first second : Option Window × Word}
    (hfirst : board.SeeksInWords counter first) (hsecond : board.SeeksInWords counter second) :
    first = second := by
  induction hfirst with
  | full hfull =>
      cases hsecond with
      | full => rfl
      | vacant hfits => exact absurd hfits hfull
      | occupied hfits => exact absurd hfits hfull
  | vacant hfits hvacant =>
      cases hsecond with
      | full hfull => exact absurd hfits hfull
      | vacant => rfl
      | occupied _ hoccupied => exact absurd (hoccupied.symm.trans hvacant) Bool.false_ne_true
  | occupied hfits hoccupied _ ih =>
      cases hsecond with
      | full hfull => exact absurd hfits hfull
      | vacant _ hvacant => exact absurd (hoccupied.symm.trans hvacant) Bool.false_ne_true
      | occupied _ _ hrest => exact ih hrest

/-- The base of a slot and its end fit in double words, whatever the configuration. -/
theorem slotBase_succ_lt (config : Config) (counter : Word) :
    slotBase config (counter.toNat + 1) < 2 ^ 64 := by
  have hbase := config.areaBase.toNat_lt
  have hsize : config.slotSize.toNat ≤ 2 ^ 32 - 1 := Nat.le_pred_of_lt config.slotSize.toNat_lt
  have hmul : (counter.toNat + 1) * config.slotSize.toNat ≤ 2 ^ 32 * (2 ^ 32 - 1) :=
    Nat.mul_le_mul counter.toNat_lt hsize
  unfold slotBase
  omega

theorem toNat_slotSum (config : Config) (counter : Word) :
    (slotSum config counter).toNat = slotBase config counter.toNat := by
  have hlt := slotBase_succ_lt config counter
  rw [slotBase_succ] at hlt
  unfold slotBase at hlt ⊢
  rw [slotSum, UInt64.toNat_add, UInt64.toNat_mul, UInt32.toNat_toUInt64, UInt32.toNat_toUInt64,
    UInt32.toNat_toUInt64, Nat.add_mod_mod]
  exact Nat.mod_eq_of_lt (by omega)

theorem toNat_slotSum_add (config : Config) (counter : Word) :
    (slotSum config counter + config.slotSize.toUInt64).toNat =
      slotBase config (counter.toNat + 1) := by
  have hlt := slotBase_succ_lt config counter
  rw [slotBase_succ] at hlt ⊢
  rw [UInt64.toNat_add, toNat_slotSum, UInt32.toNat_toUInt64]
  exact Nat.mod_eq_of_lt hlt

theorem fitsInWords_iff {counter : Word} :
    FitsInWords config counter ↔ slotBase config (counter.toNat + 1) ≤ wordBound := by
  rw [FitsInWords, UInt64.le_iff_toNat_le, toNat_slotSum_add]
  rfl

theorem wordWindow_eq (config : Config) (counter : Word) :
    wordWindow config counter = ⟨config.slotAddress counter, config.slotSize⟩ := by
  have hbase : (slotSum config counter).toUInt32 = config.slotAddress counter := by
    apply UInt32.toNat_inj.mp
    rw [UInt64.toNat_toUInt32, toNat_slotSum, ← UInt32.ofNat_toNat (x := counter),
      Config.slotAddress_ofNat]
    simp
  rw [wordWindow, hbase]

/-- The search in words finds what the search finds, and its counter does not wrap around. -/
theorem seeksInWords_seekSlot (hsize : board.config.slotSize ≠ 0)
    (hroom : board.config.areaBase ≠ 0 ∨ 1 < board.config.slotSize) (hslot : slot < wordBound) :
    board.SeeksInWords (UInt32.ofNat slot)
      ((board.seekSlot slot).1, UInt32.ofNat (board.seekSlot slot).2) := by
  have hcounter : ∀ {slot : Nat}, slot < wordBound → (UInt32.ofNat slot).toNat = slot :=
    fun hlt => UInt32.toNat_ofNat_of_lt' hlt
  have hnext : ∀ slot, UInt32.ofNat (slot + 1) = UInt32.ofNat slot + 1 :=
    fun slot => UInt32.ofNat_add slot 1
  fun_induction Board.seekSlot board slot with
  | case1 slot hnone =>
      refine .full fun hfits => ?_
      rw [fitsInWords_iff, hcounter hslot] at hfits
      exact absurd hfits (Nat.not_le.mpr (slotWindow?_eq_none_iff.mp hnone))
  | case2 slot window hwindow hvacant =>
      obtain ⟨hfits, rfl⟩ := slotWindow?_eq_some_iff.mp hwindow
      rw [← wordWindow_eq] at hvacant ⊢
      rw [hnext]
      exact .vacant (fitsInWords_iff.mpr (by rwa [hcounter hslot])) hvacant
  | case3 slot window hwindow hvacant hzero => exact absurd hzero hsize
  | case4 slot window hwindow hvacant hnonzero ih =>
      have hsucc := succ_lt_of_slotWindow? hsize hroom hwindow
      obtain ⟨hfits, rfl⟩ := slotWindow?_eq_some_iff.mp hwindow
      rw [← wordWindow_eq] at hvacant
      have hrest := ih hsucc
      rw [hnext] at hrest
      exact .occupied (fitsInWords_iff.mpr (by rwa [hcounter hslot]))
        (Bool.eq_false_iff.mpr hvacant) hrest

/-! ## Adding a device -/

/-- The least free slot is what the search finds. -/
theorem Separated.seekSlot_of_isLeast (h : board.Separated) (hsize : board.config.slotSize ≠ 0)
    (hleast : IsLeast {slot | board.FreeSlot slot} slot) :
    board.seekSlot board.nextSlot =
      (some ⟨board.config.slotAddress (UInt32.ofNat slot), board.config.slotSize⟩, slot + 1) := by
  obtain ⟨hnext, window, hwindow, hvacant⟩ := (h.freeSlot_iff hsize).mp hleast.1
  obtain ⟨last, hle, hpassed, hend⟩ := board.seekSlot_cases hsize board.nextSlot
  have hslot : last ≤ slot := by
    refine Nat.not_lt.mp fun hlt => ?_
    obtain ⟨_, hwindow', hoccupied⟩ := hpassed slot hnext hlt
    obtain rfl := Option.some.inj (hwindow.symm.trans hwindow')
    exact absurd (hoccupied.symm.trans hvacant) Bool.false_ne_true
  rcases hend with ⟨hnone, _⟩ | ⟨window', hwindow', hvacant', hseek⟩
  · -- Slots behind one that is beyond the address space are beyond it as well.
    have hfits := (slotWindow?_eq_some_iff.mp hwindow).1
    have hbase := slotBase_le_slotBase board.config (Nat.succ_le_succ hslot)
    have hbeyond := slotWindow?_eq_none_iff.mp hnone
    exact absurd (Nat.le_trans hbase hfits) (Nat.not_le.mpr hbeyond)
  · have hfree := (h.freeSlot_iff hsize).mpr ⟨hle, window', hwindow', hvacant'⟩
    obtain rfl : slot = last := Nat.le_antisymm (hleast.2 hfree) hslot
    rw [hseek, (slotWindow?_eq_some_iff.mp hwindow').2]

theorem Separated.seekSlot_of_forall_not (h : board.Separated) (hsize : board.config.slotSize ≠ 0)
    (hnone : ∀ slot, ¬ board.FreeSlot slot) :
    board.seekSlot board.nextSlot = (none, (board.seekSlot board.nextSlot).2) := by
  obtain ⟨last, hle, _, ⟨_, hseek⟩ | ⟨window, hwindow, hvacant, _⟩⟩ :=
    board.seekSlot_cases hsize board.nextSlot
  · rw [hseek]
  · exact absurd ((h.freeSlot_iff hsize).mpr ⟨hle, window, hwindow, hvacant⟩) (hnone last)

/-- What the search finds can be attached. -/
theorem attach_of_seekSlot (hsize : board.config.slotSize ≠ 0) {next : Nat}
    (hseek : board.seekSlot board.nextSlot = (some window, next)) (device : Device) :
    ({ board with nextSlot := next } : Board).attach device window =
      (.ok board.bindings.size, ({ board with nextSlot := next } : Board).bind device window) := by
  obtain ⟨last, _, _, ⟨_, hend⟩ | ⟨window', hwindow, hvacant, hend⟩⟩ :=
    board.seekSlot_cases hsize board.nextSlot
  · simp [hend] at hseek
  · obtain ⟨rfl, rfl⟩ : window' = window ∧ last + 1 = next := by simpa [hend] using hseek
    obtain ⟨hfits, rfl⟩ := slotWindow?_eq_some_iff.mp hwindow
    rcases ({ board with nextSlot := last + 1 } : Board).attach_cases device
      ⟨board.config.slotAddress (UInt32.ofNat last), board.config.slotSize⟩ with
      ⟨_, hattach⟩ | ⟨hrefused, _⟩
    · exact hattach
    · refine absurd ⟨toNat_slotSize_pos hsize, ?_, hvacant⟩ hrefused
      rwa [Window.bound, toNat_slotAddress hsize hfits, ← slotBase_succ]

theorem Separated.addDevice_of_isLeast (h : board.Separated) (hsize : board.config.slotSize ≠ 0)
    (hleast : IsLeast {slot | board.FreeSlot slot} slot) (device : Device) :
    board.addDevice device =
      (.ok (board.bindings.size, board.config.slotAddress (UInt32.ofNat slot)),
        ({ board with nextSlot := slot + 1 } : Board).bind device
          ⟨board.config.slotAddress (UInt32.ofNat slot), board.config.slotSize⟩) := by
  have hseek := h.seekSlot_of_isLeast hsize hleast
  have hattach := attach_of_seekSlot hsize hseek device
  simp only [addDevice, hseek, hattach]

theorem Separated.addDevice_of_forall_not (h : board.Separated) (hsize : board.config.slotSize ≠ 0)
    (hnone : ∀ slot, ¬ board.FreeSlot slot) (device : Device) :
    board.addDevice device = (.error .noFreeSlot,
      { board with nextSlot := (board.seekSlot board.nextSlot).2 }) := by
  have hseek := h.seekSlot_of_forall_not hsize hnone
  rw [addDevice, hseek]

/-- There is a least free slot, or there is none. -/
theorem exists_isLeast_freeSlot (board : Board) :
    (∃ slot, IsLeast {slot | board.FreeSlot slot} slot) ∨ ∀ slot, ¬ board.FreeSlot slot := by
  classical
  by_cases hfree : ∃ slot, board.FreeSlot slot
  · exact .inl ⟨Nat.find hfree, Nat.find_spec hfree, fun _ hslot => Nat.find_min' hfree hslot⟩
  · exact .inr (not_exists.mp hfree)

theorem nextSlot_bind (board : Board) (device : Device) (window : Window) :
    (board.bind device window).nextSlot = board.nextSlot := by
  unfold bind
  split <;> rfl

/-! ## Calls one after the other -/

theorem attach_keeps_slots (board : Board) (device : Device) (window : Window) :
    (board.attach device window).2.config = board.config ∧
      (board.attach device window).2.nextSlot = board.nextSlot := by
  rcases board.attach_cases device window with ⟨_, hattach⟩ | ⟨_, _, hattach⟩
  · rw [hattach]
    exact ⟨config_bind _ _ _, nextSlot_bind _ _ _⟩
  · rw [hattach]
    exact ⟨rfl, rfl⟩

/-- The counter is left where the search ends. -/
theorem addDevice_moves_counter (board : Board) (device : Device) :
    (board.addDevice device).2.config = board.config ∧
      (board.addDevice device).2.nextSlot = (board.seekSlot board.nextSlot).2 := by
  unfold addDevice
  split
  next next hseek => exact ⟨rfl, by rw [hseek]⟩
  next window next hseek =>
    have hkept := attach_keeps_slots { board with nextSlot := next } device window
    rw [hseek]
    split
    next heq => rwa [heq] at hkept
    next heq => rwa [heq] at hkept

/-- The counter starts behind slot 0 and stays a word. -/
theorem Assembled.nextSlot_bounds (h : board.Assembled) (hsize : board.config.slotSize ≠ 0)
    (hroom : board.config.areaBase ≠ 0 ∨ 1 < board.config.slotSize) :
    0 < board.nextSlot ∧ board.nextSlot < wordBound := by
  induction h with
  | empty config =>
      have hone : 1 < wordBound := by decide
      exact ⟨Nat.one_pos, hone⟩
  | @attach board device window _ ih =>
      obtain ⟨hconfig, hnext⟩ := board.attach_keeps_slots device window
      rw [hconfig] at hsize hroom
      rw [hnext]
      exact ih hsize hroom
  | @addDevice board device _ ih =>
      obtain ⟨hconfig, hnext⟩ := board.addDevice_moves_counter device
      rw [hconfig] at hsize hroom
      rw [hnext]
      obtain ⟨hpos, hlt⟩ := ih hsize hroom
      exact ⟨Nat.lt_of_lt_of_le hpos (le_seekSlot hsize _), seekSlot_lt hsize hroom hlt⟩

/-- A call to attach a device, at a window of its own or at a slot. -/
inductive AttachCall where
  | attach (device : Device) (window : Window)
  | addDevice (device : Device)
  deriving Repr

/-- The base addresses that calls one after the other give to devices at slots. -/
def addedBases : Board → List AttachCall → List Word
  | _, [] => []
  | board, .attach device window :: calls => (board.attach device window).2.addedBases calls
  | board, .addDevice device :: calls =>
      match board.addDevice device with
      | (.ok (_, base), after) => base :: after.addedBases calls
      | (.error _, after) => after.addedBases calls

/-- Devices at slots come after those that were given out before, in the order of the calls. -/
theorem Assembled.pairwise_addedBases (h : board.Assembled) (hsize : board.config.slotSize ≠ 0)
    (calls : List AttachCall) :
    (∀ base ∈ board.addedBases calls, slotBase board.config board.nextSlot ≤ base.toNat) ∧
      (board.addedBases calls).Pairwise (· < ·) := by
  induction calls generalizing board with
  | nil => exact ⟨by simp [addedBases], .nil⟩
  | cons call calls ih =>
      cases call with
      | attach device window =>
          obtain ⟨hconfig, hnext⟩ := board.attach_keeps_slots device window
          have hrest := ih (.attach device window h) (by rwa [hconfig])
          rwa [hconfig, hnext] at hrest
      | addDevice device =>
          obtain ⟨hconfig, hnext⟩ := board.addDevice_moves_counter device
          obtain ⟨hrest, hpairwise⟩ := ih (.addDevice device h) (by rwa [hconfig])
          rw [hconfig, hnext] at hrest
          rcases board.exists_isLeast_freeSlot with ⟨slot, hleast⟩ | hnone
          · have hadd := h.separated.addDevice_of_isLeast hsize hleast device
            have hbase := toNat_slotAddress hsize hleast.1.2.1
            have hlater := slotBase_le_slotBase board.config hleast.1.1
            rw [h.separated.seekSlot_of_isLeast hsize hleast] at hrest
            rw [addedBases, hadd]
            rw [hadd] at hrest hpairwise
            -- Later devices start where the slot ends, or behind it.
            have hend := slotBase_succ board.config slot
            have hpos := toNat_slotSize_pos hsize
            constructor
            · intro base hmem
              rcases List.mem_cons.mp hmem with rfl | hmem
              · rw [hbase]
                exact hlater
              · have hbehind := hrest base hmem
                simp only at hbehind
                omega
            · refine .cons (fun base hmem => ?_) hpairwise
              have hbehind := hrest base hmem
              rw [UInt32.lt_iff_toNat_lt, hbase]
              simp only at hbehind
              omega
          · have hadd := h.separated.addDevice_of_forall_not hsize hnone device
            have hlater := slotBase_le_slotBase board.config (le_seekSlot hsize board.nextSlot)
            rw [addedBases, hadd]
            rw [hadd] at hrest hpairwise
            exact ⟨fun base hmem => Nat.le_trans hlater (hrest base hmem), hpairwise⟩

/-- Where slots have addresses and there are fewer of them than words, the search for a slot comes to
its end in machine words: no sum or product leaves a double word, and no counter that is moved on wraps
around. What the search finds can be attached. A device gets the least free slot, which is never slot 0,
at the address that the configuration gives to the slot, and the counter moves behind it; without a free
slot the device is refused, and neither a device nor a line is added. The bases that calls one after the
other return increase, whatever else is attached in between. -/
theorem addDevice_takes_least_slot {board : Board} (h : board.Assembled)
    (hsize : board.config.slotSize ≠ 0)
    (hroom : board.config.areaBase ≠ 0 ∨ 1 < board.config.slotSize) :
    (∀ counter : Word,
      (slotSum board.config counter).toNat =
          board.config.areaBase.toNat + counter.toNat * board.config.slotSize.toNat ∧
        (slotSum board.config counter + board.config.slotSize.toUInt64).toNat =
          board.config.areaBase.toNat + (counter.toNat + 1) * board.config.slotSize.toNat) ∧
    (∀ counter : Word, FitsInWords board.config counter →
      (counter + 1).toNat = counter.toNat + 1) ∧
    (0 < board.nextSlot ∧ board.nextSlot < wordBound) ∧
    (∀ result, board.SeeksInWords (UInt32.ofNat board.nextSlot) result ↔
      result = ((board.seekSlot board.nextSlot).1,
        UInt32.ofNat (board.seekSlot board.nextSlot).2)) ∧
    (∀ window next, board.seekSlot board.nextSlot = (some window, next) → ∀ device,
      (({ board with nextSlot := next } : Board).attach device window).1 =
        .ok board.bindings.size) ∧
    (∀ slot, IsLeast {slot | board.FreeSlot slot} slot → 0 < slot ∧
      (board.config.slotAddress (UInt32.ofNat slot)).toNat = slotBase board.config slot ∧
      ∀ device, (board.addDevice device).2.nextSlot = slot + 1 ∧
        board.addDevice device =
          (.ok (board.bindings.size, board.config.slotAddress (UInt32.ofNat slot)),
            ({ board with nextSlot := slot + 1 } : Board).bind device
              ⟨board.config.slotAddress (UInt32.ofNat slot), board.config.slotSize⟩)) ∧
    ((∀ slot, ¬ board.FreeSlot slot) → ∀ device,
      (board.addDevice device).1 = .error .noFreeSlot ∧
        (board.addDevice device).2.bindings = board.bindings ∧
        (board.addDevice device).2.nextLine = board.nextLine) ∧
    ∀ calls, (board.addedBases calls).Pairwise (· < ·) := by
  have hseparated := h.separated
  obtain ⟨hpos, hlt⟩ := h.nextSlot_bounds hsize hroom
  have hsearch := seeksInWords_seekSlot hsize hroom hlt
  refine ⟨?_, ?_, ⟨hpos, hlt⟩, ?_, ?_, ?_, ?_, ?_⟩
  · exact fun counter => ⟨toNat_slotSum _ counter, toNat_slotSum_add _ counter⟩
  · intro counter hfits
    have hwindow := slotWindow?_eq_some_iff.mpr ⟨fitsInWords_iff.mp hfits, rfl⟩
    rw [UInt32.toNat_add]
    exact Nat.mod_eq_of_lt (succ_lt_of_slotWindow? hsize hroom hwindow)
  · intro result
    constructor
    · exact fun hresult => hresult.unique hsearch
    · rintro rfl
      exact hsearch
  · intro window next hseek device
    exact congrArg Prod.fst (attach_of_seekSlot hsize hseek device)
  · intro slot hleast
    refine ⟨Nat.lt_of_lt_of_le hpos hleast.1.1, toNat_slotAddress hsize hleast.1.2.1, ?_⟩
    intro device
    have hadd := hseparated.addDevice_of_isLeast hsize hleast device
    refine ⟨?_, hadd⟩
    rw [hadd]
    exact nextSlot_bind _ _ _
  · intro hnone device
    rw [hseparated.addDevice_of_forall_not hsize hnone device]
    exact ⟨rfl, rfl, rfl⟩
  · exact fun calls => (h.pairwise_addedBases hsize calls).2

/-- A device area of two slots before the end of the address space, the first of them occupied in its
middle. One device gets the second slot, and no other device gets any. -/
theorem addDevice_takes_least_slot_before_the_end :
    let board := ((empty { areaBase := 0xFFFFD000 }).attach .registerBank ⟨0xFFFFE800, 0x10⟩).2
    let filled := (board.addDevice .registerBank).2
    board.Assembled ∧ board.config.slotSize ≠ 0 ∧ board.config.areaBase ≠ 0 ∧
      IsLeast {slot | board.FreeSlot slot} 2 ∧
      (board.addDevice .registerBank).1 = .ok (1, 0xFFFFF000) ∧ filled.nextSlot = 3 ∧
      (∀ slot, ¬ filled.FreeSlot slot) ∧
      (filled.addDevice .registerBank).1 = .error .noFreeSlot := by
  intro board filled
  have hassembled : board.Assembled := .attach _ _ (.empty _)
  have hsize : board.config.slotSize ≠ 0 := by decide +kernel
  have hbase : board.config.areaBase ≠ 0 := by decide +kernel
  have hbindings : board.bindings = #[⟨⟨0xFFFFE800, 0x10⟩, .registerBank⟩] := by decide +kernel
  have hconfig : board.config = { areaBase := 0xFFFFD000 } := by decide +kernel
  have hone : board.nextSlot = 1 := by decide +kernel
  have hleast : IsLeast {slot | board.FreeSlot slot} 2 := by
    constructor
    · refine ⟨by decide +kernel, by decide +kernel, ?_⟩
      intro binding hmem address hin hslot
      rw [hbindings, Array.mem_singleton] at hmem
      subst hmem
      rw [hconfig] at hslot
      simp [Window.contains_iff, Window.bound, slotBase] at hin hslot
      omega
    · rintro slot ⟨hnext, _, hfree⟩
      rw [hone] at hnext
      -- The first slot holds an address of the window in its middle.
      refine Nat.lt_of_le_of_ne hnext fun heq => ?_
      subst heq
      exact hfree _ (by rw [hbindings]; exact Array.mem_singleton.mpr rfl) 0xFFFFE800
        (by decide) (by decide +kernel)
  obtain ⟨_, _, _, _, _, hleastSlot, _, _⟩ :=
    addDevice_takes_least_slot hassembled hsize (.inl hbase)
  obtain ⟨_, _, hadded⟩ := hleastSlot 2 hleast
  obtain ⟨hcounter, hadd⟩ := hadded .registerBank
  have hfilled : filled.config = { areaBase := 0xFFFFD000 } :=
    ((board.addDevice_moves_counter .registerBank).1).trans hconfig
  have hnone : ∀ slot, ¬ filled.FreeSlot slot := by
    rintro slot ⟨hnext, hfits, _⟩
    rw [hfilled] at hfits
    rw [hcounter] at hnext
    simp [slotBase, wordBound] at hfits
    omega
  obtain ⟨_, _, _, _, _, _, hrefused, _⟩ :=
    addDevice_takes_least_slot (.addDevice .registerBank hassembled) (by rw [hfilled]; decide)
      (.inl (by rw [hfilled]; decide))
  refine ⟨hassembled, hsize, hbase, hleast, ?_, hcounter, hnone, (hrefused hnone .registerBank).1⟩
  rw [hadd]
  decide +kernel

end Board

end TinyComputer
