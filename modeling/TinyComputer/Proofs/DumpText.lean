import TinyComputer.Debugger.Dump
import TinyComputer.Proofs.ProgramLines

/-!
# Dumps read back

A dump has one line for each sixteen bytes and one for the rest. Line `k` starts with the address sixteen
times `k` after the first, and its hexadecimal column has the bytes from there on, so that the columns of
all lines, one after the other, are the bytes that were dumped. No character of a line is a line feed: the
lines of the text are the lines of the dump.
-/

namespace TinyComputer

namespace Text

theorem isBlank_hexDigit : ∀ digit < 16, isBlank (hexDigit digit) = false := by
  decide

theorem solid_hexFixed (count n : Nat) : Solid (hexFixed count n) :=
  forall_mem_hexFixed isBlank_hexDigit count n

/-- Words that are put together with spaces are found again. -/
theorem words_join {pieces : List (List Char)} (hsolid : ∀ piece ∈ pieces, Solid piece)
    (hne : ∀ piece ∈ pieces, piece ≠ []) : words (join [' '] pieces) = pieces := by
  induction pieces with
  | nil => rfl
  | cons piece rest ih =>
      obtain ⟨hpiece, hrest⟩ := List.forall_mem_cons.mp hsolid
      obtain ⟨hpiece', hrest'⟩ := List.forall_mem_cons.mp hne
      cases rest with
      | nil => exact words_of_solid hpiece hpiece'
      | cons next others =>
          have hjoin : join [' '] (piece :: next :: others) =
              piece ++ [' '] ++ join [' '] (next :: others) := rfl
          rw [hjoin, words_append_gap hpiece hpiece' (by decide) (by decide), ih hrest hrest']

/-- Lines that are put together with line feeds are found again. -/
theorem lines_join {pieces : List (List Char)} (hne : pieces ≠ [])
    (h : ∀ piece ∈ pieces, '\n' ∉ piece) : lines (join ['\n'] pieces) = pieces := by
  induction pieces with
  | nil => contradiction
  | cons piece rest ih =>
      obtain ⟨hpiece, hrest⟩ := List.forall_mem_cons.mp h
      cases rest with
      | nil => exact lines_of_notMem hpiece
      | cons next others =>
          have hjoin : join ['\n'] (piece :: next :: others) =
              piece ++ '\n' :: join ['\n'] (next :: others) :=
            (List.append_cons _ _ _).symm
          rw [hjoin, lines_append, lines_of_notMem hpiece, ih (List.cons_ne_nil _ _) hrest,
            List.singleton_append]

end Text

namespace Dump

open Text

variable {address : Word} {bytes : List Byte}

/-! ## One line -/

/-- The address with which a line starts. -/
def lineAddress? (line : List Char) : Option Nat :=
  readNumeral? 16 hexDigit? (line.take 8)

/-- The numerals in the hexadecimal column of a line. -/
def lineBytes (line : List Char) : List (Option Nat) :=
  (words ((line.drop 10).take 48)).map (readNumeral? 16 hexDigit?)

theorem length_hexBytes (bytes : List Byte) : (hexBytes bytes).length = 3 * bytes.length - 1 := by
  rw [hexBytes]
  induction bytes with
  | nil => rfl
  | cons byte rest ih =>
      cases rest with
      | nil => simp [join]
      | cons next others =>
          simp only [List.map_cons, join, List.length_append, length_hexFixed, List.length_cons] at ih ⊢
          simp only [ih, List.length_nil]
          omega

theorem words_hexBytes (bytes : List Byte) :
    words (hexBytes bytes) = bytes.map fun byte => hexFixed 2 byte.toNat := by
  apply words_join
  · simp only [List.forall_mem_map]
    exact fun byte _ => solid_hexFixed 2 byte.toNat
  · simp only [List.forall_mem_map]
    intro byte _ hnil
    have hlength := length_hexFixed 2 byte.toNat
    rw [hnil] at hlength
    contradiction

theorem lineAddress?_renderLine (address : Word) (bytes : List Byte) :
    lineAddress? (renderLine address bytes) = some address.toNat := by
  have hlength := length_hexFixed 8 address.toNat
  rw [lineAddress?, renderLine]
  simp only [List.append_assoc]
  rw [List.take_left' hlength]
  exact readNumeral?_hexFixed (by decide) address.toNat_lt

/-- The column of a line is wide enough for its bytes, and nothing else is in it. -/
theorem lineBytes_renderLine (hbytes : bytes.length ≤ lineSize) :
    lineBytes (renderLine address bytes) = bytes.map fun byte => some byte.toNat := by
  have hlength : (hexFixed 8 address.toNat ++ [' ', ' ']).length = 10 := by
    rw [List.length_append, length_hexFixed]
    rfl
  have hcolumn : (padRight 48 (hexBytes bytes)).length = 48 := by
    rw [length_padRight, length_hexBytes]
    unfold lineSize at hbytes
    omega
  have hblank : Blank (List.replicate (48 - (hexBytes bytes).length) ' ') := by
    intro c hc
    rw [List.eq_of_mem_replicate hc]
    rfl
  rw [lineBytes, renderLine]
  rw [List.append_assoc, List.append_assoc, List.drop_left' hlength, List.take_left' hcolumn,
    padRight, words_append_blank hblank, words_hexBytes, List.map_map]
  apply List.map_congr_left
  intro byte _
  exact readNumeral?_hexFixed (by decide) byte.toNat_lt

theorem character_ne_newline : ∀ code < 256, character (UInt8.ofNat code) ≠ '\n' := by
  decide +kernel

theorem newline_notMem_renderLine (address : Word) (bytes : List Byte) :
    '\n' ∉ renderLine address bytes := by
  have hdigits : ∀ count n, '\n' ∉ hexFixed count n := fun count n hmem =>
    absurd (solid_hexFixed count n '\n' hmem) (by decide)
  have hhex : '\n' ∉ hexBytes bytes := by
    rw [hexBytes]
    induction bytes with
    | nil => simp [join]
    | cons byte rest ih =>
        cases rest with
        | nil => simpa [join] using hdigits 2 byte.toNat
        | cons next others => simpa [join] using ⟨hdigits 2 byte.toNat, ih⟩
  have hcharacters : '\n' ∉ bytes.map character := by
    intro hmem
    obtain ⟨byte, _, hnewline⟩ := List.mem_map.mp hmem
    have hother := character_ne_newline byte.toNat byte.toNat_lt
    rw [UInt8.ofNat_toNat] at hother
    exact hother hnewline
  simp [renderLine, padRight, hdigits, hhex, hcharacters]

/-! ## All lines -/

/-- Line `row` shows the bytes that are sixteen times `row` after the first, sixteen of them at most. -/
theorem renderLines_eq (address : Word) (bytes : List Byte) :
    renderLines address bytes = (List.range ((bytes.length + 15) / 16)).map fun row =>
      renderLine (address + UInt32.ofNat (16 * row)) ((bytes.drop (16 * row)).take 16) := by
  fun_induction renderLines address bytes with
  | case1 address => rfl
  | case2 address byte rest ih =>
      have hsize : lineSize - 1 = 15 := rfl
      have hcount : ((byte :: rest).length + 15) / 16 = ((rest.drop 15).length + 15) / 16 + 1 := by
        rw [List.length_cons, List.length_drop]
        omega
      rw [hsize] at ih ⊢
      rw [hcount, List.range_succ_eq_map, List.map_cons, List.map_map, ih]
      congr 1
      · simp
      · apply List.map_congr_left
        intro row _
        have haddress : address + UInt32.ofNat 16 + UInt32.ofNat (16 * row) =
            address + UInt32.ofNat (16 * (row + 1)) := by
          rw [UInt32.add_assoc, ← UInt32.ofNat_add, Nat.mul_succ, Nat.add_comm]
        have hdrop : (rest.drop 15).drop (16 * row) = (byte :: rest).drop (16 * (row + 1)) := by
          rw [List.drop_drop, Nat.mul_succ, show 16 * row + 16 = 15 + 16 * row + 1 by omega,
            List.drop_succ_cons]
        simp only [Function.comp_apply, haddress, hdrop, Nat.succ_eq_add_one]

theorem newline_notMem_renderLines (address : Word) (bytes : List Byte) :
    ∀ line ∈ renderLines address bytes, '\n' ∉ line := by
  rw [renderLines_eq, List.forall_mem_map]
  exact fun row _ => newline_notMem_renderLine _ _

/-- There are as many lines as it takes, and their addresses are sixteen apart. -/
theorem map_lineAddress?_renderLines (address : Word) (bytes : List Byte) :
    (renderLines address bytes).map lineAddress? = (List.range ((bytes.length + 15) / 16)).map
      fun row => some (address + UInt32.ofNat (16 * row)).toNat := by
  rw [renderLines_eq, List.map_map]
  apply List.map_congr_left
  intro row _
  exact lineAddress?_renderLine _ _

/-- The columns of all lines are the bytes in order. -/
theorem flatMap_lineBytes_renderLines (address : Word) (bytes : List Byte) :
    (renderLines address bytes).flatMap lineBytes = bytes.map fun byte => some byte.toNat := by
  fun_induction renderLines address bytes with
  | case1 address => rfl
  | case2 address byte rest ih =>
      have hline : (byte :: rest.take (lineSize - 1)).length ≤ lineSize := by
        rw [List.length_cons, List.length_take]
        unfold lineSize
        omega
      rw [List.flatMap_cons, lineBytes_renderLine hline, ih, ← List.map_append, List.cons_append,
        List.take_append_drop]

end Dump

end TinyComputer
