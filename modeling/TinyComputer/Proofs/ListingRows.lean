import TinyComputer.Proofs.FaultConditions
import TinyComputer.Proofs.Inspection
import TinyComputer.Proofs.SymbolText

/-!
# Rows of a listing

The rows of a listing stand one behind the other, so that they divide the bytes from the first address on
among them. In memory nothing is read from the queue of a keyboard, and each row shows the bytes that are
at its address. Since the text and the length of a row tell its bytes, the rows tell all bytes of the
range.
-/

namespace TinyComputer

/-! ## Ranges -/

/-- A range is its first part and what is behind it. -/
theorem Word.within_add {base address : Word} {first second : Nat} (hfirst : first < wordBound) :
    Within base (first + second) address ↔
      Within base first address ∨ Within (base + UInt32.ofNat first) second address := by
  have hmod := toNat_sub_eq_mod base (UInt32.ofNat first) address
  have hoffset : (UInt32.ofNat first).toNat = first := Nat.mod_eq_of_lt hfirst
  have hlt := (address - (base + UInt32.ofNat first)).toNat_lt
  rw [hoffset] at hmod
  unfold Within
  simp only [wordBound, Nat.reducePow] at hmod hfirst hlt
  omega

/-- Addresses in front of an offset that is in a window are in the window, as far as its base. -/
theorem Window.contains_of_within {window : Window} {offset address : Word} {count : Nat}
    (h : window.contains (window.base + offset) = true)
    (hwithin : Word.Within address count (window.base + offset)) (hcount : count ≤ offset.toNat) :
    window.contains address = true := by
  have hbase := window.base.toNat_lt
  have haddress := address.toNat_lt
  have hoffset := offset.toNat_lt
  unfold Word.Within at hwithin
  rw [contains_iff] at h ⊢
  simp only [UInt32.toNat_sub, UInt32.toNat_add] at h hwithin
  omega

/-- Rows with their addresses. -/
abbrev Listing := List (Word × DisassemblyRow)

namespace Listing

/-- The count of bytes that rows show. -/
def size : Listing → Nat
  | [] => 0
  | (_, row) :: rest => row.length + size rest

/-- Rows that stand one behind the other from an address on. -/
def Consecutive : Word → Listing → Prop
  | _, [] => True
  | address, (place, row) :: rest =>
      place = address ∧ 0 < row.length ∧ row.length < wordBound ∧
        Consecutive (address + UInt32.ofNat row.length) rest

variable {address : Word} {rows : Listing}

theorem Consecutive.length_pos (h : Consecutive address rows) : ∀ row ∈ rows, 0 < row.2.length := by
  induction rows generalizing address with
  | nil => simp
  | cons row rest ih =>
      obtain ⟨_, hpos, _, hrest⟩ := h
      exact List.forall_mem_cons.mpr ⟨hpos, ih hrest⟩

/-- Each row is as far from the start as the rows in front of it show bytes. -/
theorem Consecutive.address_eq (h : Consecutive address rows) {before after : Listing}
    {row : Word × DisassemblyRow} (hrows : rows = before ++ row :: after) :
    row.1 = address + UInt32.ofNat (size before) := by
  induction before generalizing address rows with
  | nil =>
      subst hrows
      exact h.1.trans (UInt32.add_zero address).symm
  | cons first rest ih =>
      subst hrows
      obtain ⟨_, _, _, hrest⟩ := h
      rw [ih hrest rfl, UInt32.add_assoc, ← UInt32.ofNat_add]
      rfl

/-- Every byte of the range is shown by a row, and no other byte is. -/
theorem Consecutive.within_iff (h : Consecutive address rows) (other : Word) :
    Word.Within address (size rows) other ↔ ∃ row ∈ rows, Word.Within row.1 row.2.length other := by
  induction rows generalizing address with
  | nil => simp [size, Word.Within]
  | cons row rest ih =>
      obtain ⟨rfl, _, hlt, hrest⟩ := h
      rw [List.exists_mem_cons_iff, ← ih hrest, ← Word.within_add hlt]
      rfl

/-- No byte is shown twice. -/
theorem Consecutive.pairwise (h : Consecutive address rows) (hsize : size rows ≤ wordBound) :
    rows.Pairwise fun first second => ∀ other,
      ¬ (Word.Within first.1 first.2.length other ∧ Word.Within second.1 second.2.length other) := by
  induction rows generalizing address with
  | nil => exact .nil
  | cons row rest ih =>
      obtain ⟨rfl, hpos, hlt, hrest⟩ := h
      have htotal : row.2.length + size rest ≤ wordBound := hsize
      refine List.pairwise_cons.mpr ⟨?_, ih hrest (by omega)⟩
      rintro second hmem other ⟨hfirst, hsecond⟩
      have hbehind := (hrest.within_iff other).mpr ⟨second, hmem, hsecond⟩
      have hoffset : (UInt32.ofNat row.2.length).toNat = row.2.length := Nat.mod_eq_of_lt hlt
      have hnot := Word.not_within_of_within_add hbehind (by rw [hoffset]; exact htotal)
      rw [hoffset] at hnot
      exact hnot hfirst

end Listing

namespace Board

variable {board : Board} {symbols : Symbols} {address : Word} {count : Nat}

theorem rowLength_pos (board : Board) (address : Word) : 0 < board.rowLength address := by
  unfold rowLength
  split
  · exact Form.length_pos _
  · exact Nat.one_pos

theorem rowLength_le (board : Board) (address : Word) : board.rowLength address ≤ 9 := by
  unfold rowLength
  split
  next instruction hfetch =>
    have hwell : instruction.WellFormed := wellFormed_of_fetch (Prod.ext hfetch rfl)
    exact Form.length_le _ hwell.1
  · decide

theorem consecutive_disassembleRows (board : Board) (symbols : Symbols) (address : Word) (count : Nat) :
    Listing.Consecutive address (board.disassembleRows symbols address count).1 := by
  induction count generalizing board address with
  | zero => trivial
  | succ count ih =>
      have hlength := board.length_disassemble symbols address
      have hpos : 0 < (board.disassemble symbols address).1.length := by
        rw [hlength]
        exact board.rowLength_pos address
      have hlt : (board.disassemble symbols address).1.length < wordBound := by
        rw [hlength]
        exact Nat.lt_of_le_of_lt (board.rowLength_le address) (by decide)
      exact ⟨rfl, hpos, hlt, ih _ _⟩

end Board

/-! ## What a row says -/

namespace DisassemblyRow

variable {symbols : Symbols} {row : DisassemblyRow} {bytes others : List Byte}

/-- A row shows the code of an instruction, or a byte. -/
inductive Shows (symbols : Symbols) : DisassemblyRow → List Byte → Prop
  | instruction {instruction : Instruction} : instruction.WellFormed →
      Shows symbols ⟨symbols.render instruction, instruction.length⟩ instruction.encode
  | data (byte : Byte) : Shows symbols (data byte) [byte]

/-- The text of a row tells which bytes it shows. -/
theorem Shows.unique (hnames : symbols.NamesPlaces) (h : Shows symbols row bytes)
    (hother : Shows symbols row others) : bytes = others := by
  generalize hrow : row = row' at hother
  cases h with
  | @instruction instruction hwell =>
      cases hother with
      | instruction hwell' => rw [hnames.eq_of_render_eq hwell hwell' (congrArg text hrow)]
      | data byte => exact absurd hrow (ne_data symbols instruction byte)
  | data byte =>
      cases hother with
      | instruction => exact absurd hrow.symm (ne_data symbols _ byte)
      | data byte' => rw [eq_of_data_eq hrow]

/-- The bytes that a row shows can be recovered from it. -/
theorem exists_recover (hnames : symbols.NamesPlaces) :
    ∃ recover : DisassemblyRow → List Byte,
      ∀ row bytes, Shows symbols row bytes → recover row = bytes := by
  classical
  refine ⟨fun row => if h : ∃ bytes, Shows symbols row bytes then h.choose else [], ?_⟩
  intro row bytes hshows
  have hexists : ∃ bytes, Shows symbols row bytes := ⟨bytes, hshows⟩
  simp only [dif_pos hexists]
  exact hexists.choose_spec.unique hnames hshows

end DisassemblyRow

namespace Board

variable {board : Board} {symbols : Symbols} {address : Word} {count : Nat}

/-! ## Listings of memory -/

/-- No queue of a keyboard is a few bytes behind an address in memory: its window starts before it. -/
theorem Separated.offQueues_of_inMemory (h : board.Separated) (hmemory : board.InMemory address) :
    board.OffQueues address 9 := by
  intro id window keyboard hbinding hroute hwithin
  obtain ⟨id', window', memory, hroute', hbinding', _⟩ := inMemory_iff.mp hmemory
  obtain ⟨_, hfound, hqueue⟩ := h.routeIndex?_eq_some_iff.mp hroute
  obtain ⟨_, hfound', hcontains⟩ := h.routeIndex?_eq_some_iff.mp hroute'
  obtain rfl := Option.some.inj (hbinding.symm.trans hfound)
  have hinside := Window.contains_of_within hqueue hwithin (by decide)
  obtain rfl := h.place_eq hbinding hinside hfound' hcontains
  cases hbinding.symm.trans hbinding'

theorem OffQueues.readBytes_eq (h : board.OffQueues address count) {size : Nat} (hsize : size ≤ count) :
    board.readBytes address size = (board.peekBytes address size, board) :=
  readBytes_of_touch_eq fun _ hwithin => h.touch_eq (Nat.lt_of_lt_of_le hwithin hsize)

/-- Off the queues, a row shows the bytes at its address. -/
theorem OffQueues.exists_disassemble (h : board.OffQueues address 9) (symbols : Symbols) :
    ∃ row bytes, board.disassemble symbols address = (row, board) ∧
      DisassemblyRow.Shows symbols row bytes ∧ board.readBytes address row.length = (bytes, board) := by
  have htouch : board.touch address = board := h.touch_eq (Word.within_succ.mpr (.inl rfl))
  have hlength := board.fetchLength_le address
  have hafter : (board.fetch address).2 = board := by
    rw [Board.fetch_eq, htouch, h.readBytes_eq hlength]
  cases hresult : (board.fetch address).1 with
  | ok instruction =>
      have hfetch : board.fetch address = (.ok instruction, board) := Prod.ext hresult hafter
      have hwell := wellFormed_of_fetch hfetch
      have honce := hfetch
      rw [fetch_eq_fetchOnce_of_touch (by rw [htouch, htouch]) (by rw [htouch])] at honce
      refine ⟨_, _, ?_, .instruction hwell, readBytes_of_fetchOnce honce⟩
      simp only [disassemble, hfetch]
  | error error =>
      have hfetch : board.fetch address = (.error error, board) := Prod.ext hresult hafter
      refine ⟨_, _, ?_, .data (board.peek address), ?_⟩
      · simp only [disassemble, hfetch, read, htouch]
      · exact h.readBytes_eq (Nat.le_of_ble_eq_true rfl)

/-- Bytes are read one part after the other. -/
theorem readBytes_add {middle after : Board} {first second : Nat} {bytes others : List Byte}
    (hfirst : board.readBytes address first = (bytes, middle))
    (hsecond : middle.readBytes (address + UInt32.ofNat first) second = (others, after)) :
    board.readBytes address (first + second) = (bytes ++ others, after) := by
  induction first generalizing board address bytes with
  | zero =>
      obtain ⟨rfl, rfl⟩ := Prod.mk.inj hfirst
      have hbase : address + UInt32.ofNat 0 = address := UInt32.add_zero address
      rw [hbase] at hsecond
      rw [Nat.zero_add]
      exact hsecond
  | succ first ih =>
      rw [readBytes_succ, Prod.mk.injEq] at hfirst
      obtain ⟨rfl, rfl⟩ := hfirst
      rw [← add_one_add_ofNat] at hsecond
      rw [Nat.add_right_comm, readBytes_succ, ih rfl hsecond]
      rfl

/-- The rows of a listing of memory tell the bytes that they show, and listing them changes nothing. -/
theorem Separated.readBytes_of_listing (h : board.Separated) {recover : DisassemblyRow → List Byte}
    (hrecover : ∀ row bytes, DisassemblyRow.Shows symbols row bytes → recover row = bytes)
    (hmemory : ∀ row ∈ (board.disassembleRows symbols address count).1, board.InMemory row.1) :
    board.readBytes address (Listing.size (board.disassembleRows symbols address count).1) =
      ((board.disassembleRows symbols address count).1.flatMap fun row => recover row.2, board) := by
  induction count generalizing address with
  | zero => rfl
  | succ count ih =>
      have hfirst : board.InMemory address := hmemory (address, _) List.mem_cons_self
      obtain ⟨row, bytes, hrow, hshows, hread⟩ :=
        (h.offQueues_of_inMemory hfirst).exists_disassemble symbols
      have hrows : (board.disassembleRows symbols address (count + 1)).1 = (address, row) ::
          (board.disassembleRows symbols (address + UInt32.ofNat row.length) count).1 := by
        simp only [disassembleRows, hrow]
      rw [hrows] at hmemory ⊢
      rw [List.flatMap_cons, hrecover row bytes hshows]
      exact readBytes_add hread (ih (List.forall_mem_cons.mp hmemory).2)

/-- With the symbols of a board, or with none, different instructions have different texts, and none of
them is the text of a row of data. So the rows of a listing of memory tell the bytes that they show, which
are all bytes of the range, read one after the other. The rows of any listing show at least a byte each,
and each stands where the one in front of it ends: every byte of the range is shown, no other byte is, and
none is shown twice before the range meets itself. -/
theorem listing_tells_bytes (hsymbols : symbols = .empty ∨ ∃ source, symbols = .ofBoard source) :
    (∀ first second : Instruction, first.WellFormed → second.WellFormed → first ≠ second →
      symbols.render first ≠ symbols.render second) ∧
    (∀ instruction : Instruction, instruction.WellFormed → ∀ byte,
      symbols.render instruction ≠ (DisassemblyRow.data byte).text) ∧
    (∃ recover : DisassemblyRow → List Byte, ∀ (board : Board) (address : Word) (count : Nat),
      let rows := (board.disassembleRows symbols address count).1
      board.Separated → (∀ row ∈ rows, board.InMemory row.1) →
        board.readBytes address (Listing.size rows) =
          (rows.flatMap fun row => recover row.2, board)) ∧
    ∀ (board : Board) (address : Word) (count : Nat),
      let rows := (board.disassembleRows symbols address count).1
      (∀ row ∈ rows, 1 ≤ row.2.length) ∧
      (∀ before row after, rows = before ++ row :: after →
        row.1 = address + UInt32.ofNat (Listing.size before)) ∧
      (∀ other, Word.Within address (Listing.size rows) other ↔
        ∃ row ∈ rows, Word.Within row.1 row.2.length other) ∧
      (Listing.size rows ≤ wordBound → rows.Pairwise fun first second => ∀ other,
        ¬ (Word.Within first.1 first.2.length other ∧ Word.Within second.1 second.2.length other)) := by
  have hnames : symbols.NamesPlaces := by
    rcases hsymbols with rfl | ⟨source, rfl⟩
    · exact Symbols.namesPlaces_empty
    · exact Symbols.namesPlaces_ofBoard source
  obtain ⟨recover, hrecover⟩ := DisassemblyRow.exists_recover hnames
  refine ⟨?_, fun instruction _ byte => DisassemblyRow.render_ne_text_data symbols instruction byte,
    ⟨recover, fun board address count hseparated hmemory =>
      hseparated.readBytes_of_listing hrecover hmemory⟩, ?_⟩
  · intro first second hfirst hsecond hne htext
    exact hne (hnames.eq_of_render_eq hfirst hsecond htext)
  · intro board address count rows
    have hconsecutive := board.consecutive_disassembleRows symbols address count
    exact ⟨hconsecutive.length_pos, fun before row after => hconsecutive.address_eq,
      hconsecutive.within_iff, hconsecutive.pairwise⟩

/-- A memory with a load from a keyboard, a byte that is no opcode, and a `nop` is listed with the symbols
of its board. -/
theorem listing_tells_bytes_next_to_keyboard :
    let code : List Byte := [0x0A, 0x00, 0x12, 0x00, 0x02, 0x00, 0xFF, 0x87]
    let board : Board :=
      (((empty {}).attach (.memory ⟨code.toArray⟩) ⟨0, 8⟩).2.attach (.keyboard {}) ⟨0x20000, 0x400⟩).2
    let symbols := Symbols.ofBoard board
    let rows := (board.disassembleRows symbols 0 3).1
    let long : Instruction :=
      ⟨⟨0x04, .mov, [.register, .immediate .w32]⟩, [.register .b, .immediate 0x12 .w32]⟩
    let short : Instruction :=
      ⟨⟨0x02, .mov, [.register, .immediate .w8]⟩, [.register .b, .immediate 0x12 .w8]⟩
    rows = [(0, ⟨"movd    A, [KBD_DEQUEUE]".toList, 6⟩), (6, .data 0xFF), (7, ⟨"nop".toList, 1⟩)] ∧
      symbols.render long ≠ symbols.render short ∧
      symbols.render short ≠ (DisassemblyRow.data 0x12).text ∧
      (∃ recover : DisassemblyRow → List Byte, code = rows.flatMap fun row => recover row.2) ∧
      rows.Pairwise fun first second => ∀ other,
        ¬ (Word.Within first.1 first.2.length other ∧ Word.Within second.1 second.2.length other) := by
  intro code board symbols rows long short
  obtain ⟨hdifferent, hdata, ⟨recover, hrecover⟩, htiles⟩ :=
    @listing_tells_bytes symbols (.inr ⟨board, rfl⟩)
  have hseparated : board.Separated := Assembled.separated (.attach _ _ (.attach _ _ (.empty _)))
  have hrows : rows = [(0, ⟨"movd    A, [KBD_DEQUEUE]".toList, 6⟩), (6, .data 0xFF),
      (7, ⟨"nop".toList, 1⟩)] := by
    decide +kernel
  have hmemory : ∀ row ∈ rows, board.InMemory row.1 := by
    rw [hrows]
    decide +kernel
  have hread : board.readBytes 0 (Listing.size rows) =
      (rows.flatMap fun row => recover row.2, board) := hrecover board 0 3 hseparated hmemory
  have hcode : board.readBytes 0 (Listing.size rows) = (code, board) := by decide +kernel
  have hsize : Listing.size rows ≤ wordBound := by decide +kernel
  obtain ⟨_, _, _, hapart⟩ := htiles board 0 3
  have hbytes : code = rows.flatMap fun row => recover row.2 :=
    (Prod.mk.inj (hcode.symm.trans hread)).1
  have hlong : symbols.render long ≠ symbols.render short :=
    hdifferent long short (by decide +kernel) (by decide +kernel) (by decide)
  have hshort : symbols.render short ≠ (DisassemblyRow.data 0x12).text :=
    hdata short (by decide +kernel) 0x12
  exact ⟨hrows, hlong, hshort, ⟨recover, hbytes⟩, hapart hsize⟩

end Board

end TinyComputer
