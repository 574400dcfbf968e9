import Mathlib.Data.Nat.Count
import TinyComputer.Proofs.InterruptRequests

/-!
# Interrupt lines

Devices that want an interrupt line are given the lines in the order of attachment. There are as many
lines as bytes, and the last of them is also what a header shows for a device without a line. So lines
tell devices apart, and headers tell who has a line, as long as fewer devices want one than there are
bytes; after that all further devices share the last line.
-/

namespace TinyComputer

namespace Device

theorem kind_connect (device : Device) (line : Byte) : (device.connect line).kind = device.kind := by
  cases device <;> rfl

/-- A device that was given a line has it, unless it wants none. -/
theorem line?_connect (device : Device) (line : Byte) :
    (device.connect line).line? = if device.kind.wantsLine then some line else none := by
  cases device <;> rfl

theorem hasHeader_of_wantsLine {device : Device} (h : device.kind.wantsLine = true) :
    device.kind.hasHeader = true := by
  cases device with
  | memory m => contradiction
  | _ => rfl

/-- The interrupt field of a header shows the line, or that there is none. -/
theorem read_interrupt {device : Device} (h : device.kind.hasHeader = true)
    (registers : RegisterFile) : device.read registers 2 = device.line?.getD Header.noLine := by
  cases device with
  | memory m => contradiction
  | registerBank => rfl
  | storage s => rfl
  | keyboard k => rfl

end Device

namespace Board

variable {board : Board} {id : Nat}

/-- The line that is given when a count of lines was given before. -/
def lineAfter (count : Nat) : Byte :=
  UInt8.ofNat (min count 0xFF)

theorem toNat_lineAfter (count : Nat) : (lineAfter count).toNat = min count 0xFF :=
  UInt8.toNat_ofNat_of_lt' (Nat.lt_of_le_of_lt (Nat.min_le_right _ _) (by decide))

theorem lineAfter_succ (count : Nat) :
    lineAfter (count + 1) = if lineAfter count == 0xFF then 0xFF else lineAfter count + 1 := by
  apply UInt8.toNat_inj.mp
  have hline := toNat_lineAfter count
  split
  next hlast =>
    rw [beq_iff_eq.mp hlast] at hline
    rw [toNat_lineAfter]
    simp at hline ⊢
    omega
  next hnext =>
    have hne : (lineAfter count).toNat ≠ 0xFF := by
      intro heq
      exact hnext (beq_iff_eq.mpr (UInt8.toNat_inj.mp heq))
    rw [toNat_lineAfter, UInt8.toNat_add]
    simp
    omega

/-- Lines have run out when 255 were given: all that follow are the last one. -/
theorem lineAfter_eq_noLine_iff {count : Nat} : lineAfter count = Header.noLine ↔ 255 ≤ count := by
  rw [← UInt8.toNat_inj, toNat_lineAfter]
  change min count 255 = 255 ↔ 255 ≤ count
  omega

/-- Whether there is a device at a place that wants an interrupt line. -/
def wantsLine (board : Board) (id : Nat) : Bool :=
  (board.device? id).any fun device => device.kind.wantsLine

/-- The count of devices before a place that want a line. -/
def linesBefore (board : Board) (id : Nat) : Nat :=
  Nat.count (fun place => board.wantsLine place) id

/-- The count of devices that want a line. -/
def lineCount (board : Board) : Nat :=
  board.linesBefore board.bindings.size

theorem linesBefore_succ (board : Board) (id : Nat) :
    board.linesBefore (id + 1) = board.linesBefore id + if board.wantsLine id then 1 else 0 :=
  Nat.count_succ _ id

/-- A device that wants a line counts for all places after it. -/
theorem linesBefore_lt {earlier : Nat} (hwants : board.wantsLine earlier = true)
    (hlt : earlier < id) : board.linesBefore earlier < board.linesBefore id :=
  Nat.count_strict_mono hwants hlt

theorem linesBefore_congr {first second : Board}
    (h : ∀ place < id, second.device? place = first.device? place) :
    second.linesBefore id = first.linesBefore id := by
  refine List.countP_congr fun place hmem => ?_
  have hwants : second.wantsLine place = first.wantsLine place := by
    rw [wantsLine, wantsLine, h place (List.mem_range.mp hmem)]
  simp only [hwants]

/-- Every count below that of a place is the count of an earlier device that wants a line. -/
theorem exists_linesBefore_eq {count : Nat} (h : count < board.linesBefore id) :
    ∃ earlier < id, board.wantsLine earlier = true ∧ board.linesBefore earlier = count := by
  induction id with
  | zero => contradiction
  | succ id ih =>
      rw [linesBefore_succ] at h
      by_cases hbefore : count < board.linesBefore id
      · obtain ⟨earlier, hlt, hfound⟩ := ih hbefore
        exact ⟨earlier, Nat.lt_succ_of_lt hlt, hfound⟩
      · cases hwants : board.wantsLine id with
        | true =>
            rw [hwants, if_pos rfl] at h
            exact ⟨id, Nat.lt_succ_self id, hwants, by omega⟩
        | false =>
            rw [hwants] at h
            exact absurd h hbefore

theorem lt_size_of_wantsLine (h : board.wantsLine id = true) : id < board.bindings.size := by
  rw [wantsLine, Option.any_eq_true] at h
  obtain ⟨device, hdevice, _⟩ := h
  obtain ⟨binding, hbinding, _⟩ := Option.map_eq_some_iff.mp hdevice
  exact (Array.getElem?_eq_some_iff.mp hbinding).1

/-- The invariant of giving lines: the next one, and those that were given. -/
structure LinesInOrder (board : Board) : Prop where
  nextLine_eq : board.nextLine = lineAfter board.lineCount
  line?_eq : ∀ {id : Nat} {device : Device}, board.device? id = some device →
    device.line? = if device.kind.wantsLine then some (lineAfter (board.linesBefore id)) else none

theorem linesInOrder_empty (config : Config) : (empty config).LinesInOrder where
  nextLine_eq := rfl
  line?_eq := by simp [empty, device?]

theorem device?_bind (board : Board) (device : Device) (window : Window) (id : Nat) :
    (board.bind device window).device? id =
      if id = board.bindings.size then some (device.connect board.nextLine)
      else board.device? id := by
  rw [device?, bindings_bind, Array.getElem?_push]
  split
  · rfl
  · rfl

theorem wantsLine_bind_size (board : Board) (device : Device) (window : Window) :
    (board.bind device window).wantsLine board.bindings.size = device.kind.wantsLine := by
  rw [wantsLine, device?_bind, if_pos rfl, Option.any_some, Device.kind_connect]

theorem linesBefore_bind (device : Device) (window : Window) (hid : id ≤ board.bindings.size) :
    (board.bind device window).linesBefore id = board.linesBefore id := by
  refine linesBefore_congr fun place hlt => ?_
  rw [device?_bind, if_neg (Nat.ne_of_lt (Nat.lt_of_lt_of_le hlt hid))]

theorem lineCount_bind (board : Board) (device : Device) (window : Window) :
    (board.bind device window).lineCount =
      board.lineCount + if device.kind.wantsLine then 1 else 0 := by
  rw [lineCount, bindings_bind, Array.size_push, linesBefore_succ, wantsLine_bind_size,
    linesBefore_bind _ _ (Nat.le_refl _), lineCount]

theorem nextLine_bind (board : Board) (device : Device) (window : Window) :
    (board.bind device window).nextLine =
      if device.kind.wantsLine then (if board.nextLine == 0xFF then 0xFF else board.nextLine + 1)
      else board.nextLine := by
  unfold Board.bind
  split <;> rfl

theorem LinesInOrder.bind (h : board.LinesInOrder) (device : Device) (window : Window) :
    (board.bind device window).LinesInOrder := by
  constructor
  · rw [nextLine_bind, lineCount_bind, h.nextLine_eq]
    split
    · rw [lineAfter_succ]
    · rfl
  · intro id found hfound
    rw [device?_bind] at hfound
    split at hfound
    next heq =>
      obtain rfl := Option.some.inj hfound
      rw [Device.line?_connect, Device.kind_connect, heq, linesBefore_bind _ _ (Nat.le_refl _),
        h.nextLine_eq, lineCount]
    next hne =>
      obtain ⟨binding, hbinding, rfl⟩ := Option.map_eq_some_iff.mp hfound
      have hlt := (Array.getElem?_eq_some_iff.mp hbinding).1
      rw [linesBefore_bind _ _ (Nat.le_of_lt hlt)]
      exact h.line?_eq hfound

theorem Assembled.linesInOrder (h : board.Assembled) : board.LinesInOrder :=
  h.preserved linesInOrder_empty (fun _ _ hboard => ⟨hboard.nextLine_eq, hboard.line?_eq⟩)
    fun _ device window hboard _ _ _ => hboard.bind device window

/-! ## What lines and headers tell -/

theorem wantsLine_of_device? {device : Device} (hdevice : board.device? id = some device) :
    board.wantsLine id = device.kind.wantsLine := by
  rw [wantsLine, hdevice, Option.any_some]

/-- Whether lines tell the devices apart that want one. -/
def LinesTellApart (board : Board) : Prop :=
  ∀ i j first second, board.device? i = some first → board.device? j = some second →
    first.kind.wantsLine = true → second.kind.wantsLine = true → first.line? = second.line? → i = j

theorem LinesInOrder.exists_line?_eq (h : board.LinesInOrder) {count : Nat}
    (hcount : count < board.lineCount) :
    ∃ id device, board.linesBefore id = count ∧ board.device? id = some device ∧
      device.kind.wantsLine = true ∧ device.line? = some (lineAfter count) := by
  obtain ⟨id, _, hwants, rfl⟩ := exists_linesBefore_eq hcount
  obtain ⟨device, hdevice, hkind⟩ := (Option.any_eq_true _ _).mp hwants
  exact ⟨id, device, rfl, hdevice, hkind, by rw [h.line?_eq hdevice, if_pos hkind]⟩

/-- As long as there are lines for all, a line tells how many were given before it, and this count
tells the device. -/
theorem LinesInOrder.eq_of_line?_eq (h : board.LinesInOrder) (hcount : board.lineCount ≤ 256)
    {i j : Nat} {first second : Device} (hfirst : board.device? i = some first)
    (hsecond : board.device? j = some second) (hwants : first.kind.wantsLine = true)
    (hwants' : second.kind.wantsLine = true) (hsame : first.line? = second.line?) : i = j := by
  have hi := (wantsLine_of_device? hfirst).trans hwants
  have hj := (wantsLine_of_device? hsecond).trans hwants'
  have hbelow : board.linesBefore i < board.lineCount := linesBefore_lt hi (lt_size_of_wantsLine hi)
  have hbelow' : board.linesBefore j < board.lineCount := linesBefore_lt hj (lt_size_of_wantsLine hj)
  rw [h.line?_eq hfirst, h.line?_eq hsecond, if_pos hwants, if_pos hwants'] at hsame
  have hlines := congrArg UInt8.toNat (Option.some.inj hsame)
  rw [toNat_lineAfter, toNat_lineAfter] at hlines
  have hbefore : board.linesBefore i = board.linesBefore j := by omega
  exact Nat.count_injective hi hj hbefore

/-- Lines tell devices apart exactly when no more devices want one than there are lines. -/
theorem LinesInOrder.linesTellApart_iff (h : board.LinesInOrder) :
    board.LinesTellApart ↔ board.lineCount ≤ 256 := by
  constructor
  · intro hapart
    by_contra hmore
    obtain ⟨i, first, hi, hfirst, hwants, hline⟩ :=
      h.exists_line?_eq (show 255 < board.lineCount by omega)
    obtain ⟨j, second, hj, hsecond, hwants', hline'⟩ :=
      h.exists_line?_eq (show 256 < board.lineCount by omega)
    have hplace := hapart i j first second hfirst hsecond hwants hwants' (hline.trans hline'.symm)
    rw [hplace, hj] at hi
    contradiction
  · exact fun hcount _ _ _ _ hfirst hsecond hwants hwants' hsame =>
      h.eq_of_line?_eq hcount hfirst hsecond hwants hwants' hsame

/-- A read of the interrupt field in the window of a device shows the line of the device. -/
theorem Separated.peek_interrupt (h : board.Separated) {binding : Binding}
    (hmem : binding ∈ board.bindings) (hheader : binding.device.kind.hasHeader = true)
    (hsize : 2 < binding.window.size.toNat) :
    board.peek (binding.window.base + 2) = binding.device.line?.getD Header.noLine := by
  have hroute := h.route?_base_add hmem (show (2 : Word).toNat < _ from hsize)
  have hoffset : binding.offset (binding.window.base + 2) = 2 := by
    rw [Binding.offset, UInt32.add_comm, UInt32.add_sub_cancel]
  rw [peek, hroute]
  simp only [hoffset]
  exact Device.read_interrupt hheader board.registers

/-- Whether a header shows that there is no line for exactly those devices that have none. -/
def HeadersTellLines (board : Board) : Prop :=
  ∀ binding ∈ board.bindings, binding.device.kind.hasHeader = true → 2 < binding.window.size.toNat →
    (board.peek (binding.window.base + 2) = Header.noLine ↔ binding.device.line? = none)

/-- The interrupt field of a header shows that there is no line for the devices without one, and for
those that were attached after 255 others had been given one. -/
theorem Assembled.peek_eq_noLine_iff (h : board.Assembled) {binding : Binding}
    (hbinding : board.bindings[id]? = some binding) (hheader : binding.device.kind.hasHeader = true)
    (hsize : 2 < binding.window.size.toNat) :
    board.peek (binding.window.base + 2) = Header.noLine ↔
      binding.device.line? = none ∨ 255 ≤ board.linesBefore id := by
  have hdevice := device?_of_getElem? hbinding
  rw [h.separated.peek_interrupt (Array.mem_of_getElem? hbinding) hheader hsize,
    h.linesInOrder.line?_eq hdevice]
  cases binding.device.kind.wantsLine with
  | true => simp [lineAfter_eq_noLine_iff]
  | false => simp

theorem Assembled.headersTellLines_of_le (h : board.Assembled) (hcount : board.lineCount ≤ 255) :
    board.HeadersTellLines := by
  intro binding hmem hheader hsize
  obtain ⟨id, hbinding⟩ := Array.mem_iff_getElem?.mp hmem
  have hdevice := device?_of_getElem? hbinding
  rw [h.peek_eq_noLine_iff hbinding hheader hsize]
  refine or_iff_left_of_imp fun hlast => ?_
  rw [h.linesInOrder.line?_eq hdevice]
  split
  next hwants =>
    have hwants' := (wantsLine_of_device? hdevice).trans hwants
    have hlt : board.linesBefore id < board.lineCount :=
      linesBefore_lt hwants' (lt_size_of_wantsLine hwants')
    omega
  next => rfl

/-- Where windows show the interrupt field, headers are wrong as soon as the last line is given. -/
theorem Assembled.le_of_headersTellLines (h : board.Assembled)
    (hwindows : ∀ binding ∈ board.bindings, binding.device.kind.hasHeader = true →
      2 < binding.window.size.toNat) (hheaders : board.HeadersTellLines) :
    board.lineCount ≤ 255 := by
  by_contra hmore
  obtain ⟨id, device, hbefore, hdevice, hwants, hline⟩ :=
    h.linesInOrder.exists_line?_eq (show 255 < board.lineCount by omega)
  obtain ⟨binding, hbinding, rfl⟩ := Option.map_eq_some_iff.mp hdevice
  have hmem := Array.mem_of_getElem? hbinding
  have hheader := Device.hasHeader_of_wantsLine hwants
  have hsize := hwindows binding hmem hheader
  have hnone := (hheaders binding hmem hheader hsize).mp
    ((h.peek_eq_noLine_iff hbinding hheader hsize).mpr (.inr (Nat.le_of_eq hbefore.symm)))
  rw [hline] at hnone
  contradiction

/-- However devices are attached, those that want an interrupt line are given the lines in order, and
the last line once the lines have run out; the others have none. So lines tell devices apart exactly
when at most 256 devices want one, and headers tell which devices have a line when at most 255 do, and
only then if the windows show the interrupt fields. -/
theorem assembled_lines (h : board.Assembled) :
    (∀ id device, board.device? id = some device → device.line? =
      if device.kind.wantsLine then some (lineAfter (board.linesBefore id)) else none) ∧
    (board.LinesTellApart ↔ board.lineCount ≤ 256) ∧
    (board.lineCount ≤ 255 → board.HeadersTellLines) ∧
    ((∀ binding ∈ board.bindings, binding.device.kind.hasHeader = true →
        2 < binding.window.size.toNat) → board.HeadersTellLines → board.lineCount ≤ 255) :=
  ⟨fun _ _ => h.linesInOrder.line?_eq, h.linesInOrder.linesTellApart_iff, h.headersTellLines_of_le,
    h.le_of_headersTellLines⟩

/-! ## Lines that have run out -/

/-- The windows of a row, side by side. -/
def rowWindow (place : Nat) : Window :=
  ⟨UInt32.ofNat (32 * place), 32⟩

theorem toNat_rowWindow_base {place : Nat} (h : 32 * place < wordBound) :
    (rowWindow place).base.toNat = 32 * place :=
  UInt32.toNat_ofNat_of_lt' h

theorem bound_rowWindow {place : Nat} (h : 32 * place < wordBound) :
    (rowWindow place).bound = 32 * place + 32 := by
  rw [Window.bound, toNat_rowWindow_base h]
  rfl

/-- A row of keyboards. -/
def keyboardRow : (count : Nat) → Board
  | 0 => empty {}
  | count + 1 => ((keyboardRow count).attach (.keyboard {}) (rowWindow count)).2

theorem assembled_keyboardRow (count : Nat) : (keyboardRow count).Assembled := by
  induction count with
  | zero => exact .empty _
  | succ count ih => exact .attach _ _ ih

/-- Every device of a row is a keyboard at the window of its place. -/
structure InRow (count : Nat) (board : Board) : Prop where
  size_eq : board.bindings.size = count
  binding : ∀ {id : Nat} {binding : Binding}, board.bindings[id]? = some binding →
    binding.window = rowWindow id ∧ binding.device.kind = .keyboard

theorem InRow.vacant {count : Nat} (h : InRow count board) (hcount : 32 * count < wordBound) :
    board.vacant (rowWindow count) = true := by
  rw [vacant_iff]
  intro binding hmem
  obtain ⟨id, hbinding⟩ := Array.mem_iff_getElem?.mp hmem
  have hid : id < count := h.size_eq ▸ (Array.getElem?_eq_some_iff.mp hbinding).1
  have hplace : 32 * id < wordBound := by omega
  rw [(h.binding hbinding).1, Window.overlaps, toNat_rowWindow_base hcount, bound_rowWindow hplace]
  simp
  omega

/-- A row fits as long as it ends within the address space. -/
theorem inRow_keyboardRow {count : Nat} (hcount : 32 * count ≤ wordBound) :
    InRow count (keyboardRow count) := by
  induction count with
  | zero => exact ⟨rfl, by simp [keyboardRow, empty]⟩
  | succ count ih =>
      have hrow := ih (by omega)
      have hlt : 32 * count < wordBound := by omega
      rcases (keyboardRow count).attach_cases (.keyboard {}) (rowWindow count) with
        ⟨_, hattach⟩ | ⟨hrefused, _⟩
      · have hbindings : (keyboardRow (count + 1)).bindings = (keyboardRow count).bindings.push
            ⟨rowWindow count, (Device.keyboard {}).connect (keyboardRow count).nextLine⟩ := by
          rw [keyboardRow, hattach, bindings_bind]
        refine ⟨by rw [hbindings, Array.size_push, hrow.size_eq], ?_⟩
        intro id binding hbinding
        rw [hbindings, Array.getElem?_push] at hbinding
        split at hbinding
        next heq =>
          obtain rfl := Option.some.inj hbinding
          exact ⟨by rw [heq, hrow.size_eq], rfl⟩
        next => exact hrow.binding hbinding
      · refine absurd ⟨Nat.zero_lt_succ 31, ?_, hrow.vacant hlt⟩ hrefused
        rw [bound_rowWindow hlt]
        exact hcount

/-- The windows of a row show the interrupt fields. -/
theorem InRow.lt_size {count : Nat} (h : InRow count board) {binding : Binding}
    (hbinding : board.bindings[id]? = some binding) : 2 < binding.window.size.toNat := by
  rw [(h.binding hbinding).1]
  exact Nat.lt_add_left 29 (Nat.lt_succ_self 2)

theorem InRow.wantsLine {count : Nat} (h : InRow count board) (hid : id < count) :
    board.wantsLine id = true := by
  have hbinding := Array.getElem?_eq_getElem (h.size_eq.symm ▸ hid : id < board.bindings.size)
  rw [Board.wantsLine, device?, hbinding, Option.map_some, Option.any_some, (h.binding hbinding).2]
  rfl

theorem InRow.linesBefore_eq {count : Nat} (h : InRow count board) (hid : id ≤ count) :
    board.linesBefore id = id :=
  Nat.count_of_forall fun _ hlt => h.wantsLine (Nat.lt_of_lt_of_le hlt hid)

theorem InRow.lineCount_eq {count : Nat} (h : InRow count board) : board.lineCount = count := by
  rw [lineCount, h.linesBefore_eq (Nat.le_of_eq h.size_eq), h.size_eq]

/-- Lines tell 256 keyboards apart, but a header is wrong about one of them. -/
theorem assembled_lines_of_256_keyboards :
    (keyboardRow 256).Assembled ∧ (keyboardRow 256).LinesTellApart ∧
      ¬ (keyboardRow 256).HeadersTellLines := by
  have hrow : InRow 256 (keyboardRow 256) := inRow_keyboardRow (by decide)
  obtain ⟨_, hapart, _, hheaders⟩ := assembled_lines (assembled_keyboardRow 256)
  rw [hrow.lineCount_eq] at hapart hheaders
  refine ⟨assembled_keyboardRow 256, hapart.mpr (Nat.le_refl 256), fun htell => ?_⟩
  have hwindows : ∀ binding ∈ (keyboardRow 256).bindings, binding.device.kind.hasHeader = true →
      2 < binding.window.size.toNat := by
    intro binding hmem _
    obtain ⟨id, hbinding⟩ := Array.mem_iff_getElem?.mp hmem
    exact hrow.lt_size hbinding
  exact absurd (hheaders hwindows htell) (by decide)

/-- Of 257 keyboards the last two have the same line, which their headers show as none. -/
theorem lines_run_out_at_257_keyboards :
    (keyboardRow 257).Assembled ∧
    ∃ first second, (keyboardRow 257).bindings[255]? = some first ∧
      (keyboardRow 257).bindings[256]? = some second ∧
      first.device.line? = some 0xFF ∧ second.device.line? = some 0xFF ∧
      (keyboardRow 257).peek (first.window.base + 2) = Header.noLine ∧
      (keyboardRow 257).peek (second.window.base + 2) = Header.noLine := by
  have hrow : InRow 257 (keyboardRow 257) := inRow_keyboardRow (by decide)
  have hassembled := assembled_keyboardRow 257
  have hlast : ∀ id < 257, 255 ≤ id → ∃ binding, (keyboardRow 257).bindings[id]? = some binding ∧
      binding.device.line? = some 0xFF ∧
      (keyboardRow 257).peek (binding.window.base + 2) = Header.noLine := by
    intro id hid hlast
    obtain ⟨device, hdevice, hwants⟩ := (Option.any_eq_true _ _).mp (hrow.wantsLine hid)
    obtain ⟨binding, hbinding, rfl⟩ := Option.map_eq_some_iff.mp hdevice
    have hbefore : 255 ≤ (keyboardRow 257).linesBefore id := by
      rwa [hrow.linesBefore_eq (Nat.le_of_lt hid)]
    refine ⟨binding, hbinding, ?_, ?_⟩
    · rw [hassembled.linesInOrder.line?_eq hdevice, if_pos hwants]
      exact congrArg some (lineAfter_eq_noLine_iff.mpr hbefore)
    · have hheader := Device.hasHeader_of_wantsLine hwants
      have hsize := hrow.lt_size hbinding
      exact (hassembled.peek_eq_noLine_iff hbinding hheader hsize).mpr (.inr hbefore)
  obtain ⟨first, hfirst, hline, hpeek⟩ := hlast 255 (by decide) (by decide)
  obtain ⟨second, hsecond, hline', hpeek'⟩ := hlast 256 (by decide) (by decide)
  exact ⟨hassembled, first, second, hfirst, hsecond, hline, hline', hpeek, hpeek'⟩

end Board

end TinyComputer
