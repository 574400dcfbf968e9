import Mathlib.Data.List.TakeWhile
import TinyComputer.Proofs.OperandText

/-!
# Instructions as text

The text of an instruction is cut into the mnemonic and the operands that it was made of, so that it
is read as what the mnemonic selects for these operands. That is the instruction itself if it is as
short as it can be, in particular if it was read from a text before, and else the shortest one that
does the same.
-/

namespace TinyComputer

open Text

namespace Text

variable {p : Char → Bool} {text : List Char}

theorem dropWhile_of_head? (h : ∀ c, text.head? = some c → p c = false) :
    text.dropWhile p = text := by
  cases text with
  | nil => rfl
  | cons c rest => rw [List.dropWhile_cons, h c rfl, if_neg Bool.false_ne_true]

theorem takeWhile_of_head? (h : ∀ c, text.head? = some c → p c = false) :
    text.takeWhile p = [] := by
  cases text with
  | nil => rfl
  | cons c rest => rw [List.takeWhile_cons, h c rfl, if_neg Bool.false_ne_true]

/-- A text that neither starts nor ends with a blank stays as it is. -/
theorem trim_of_not_isBlank (hfirst : ∀ c, text.head? = some c → isBlank c = false)
    (hlast : ∀ c, text.getLast? = some c → isBlank c = false) : trim text = text := by
  rw [trim, dropWhile_of_head? hfirst, trimEnd, dropWhile_of_head?, List.reverse_reverse]
  rwa [List.head?_reverse]

end Text

namespace Line

/-- A line in the layout in which instructions are written. -/
def render (line : Line) : List Char :=
  if line.operands.isEmpty then line.mnemonic
  else padRight 8 line.mnemonic ++ join [',', ' '] line.operands

/-- A line of at most two tokens after a mnemonic that leaves room for a gap. -/
structure Plain (line : Line) : Prop where
  mnemonic_ne_nil : line.mnemonic ≠ []
  isMnemonicChar : ∀ c ∈ line.mnemonic, Line.isMnemonicChar c = true
  not_isBlank : ∀ c ∈ line.mnemonic, isBlank c = false
  length_lt : line.mnemonic.length < 8
  length_operands_le : line.operands.length ≤ 2
  operand_ne_nil : ∀ token ∈ line.operands, token ≠ []
  isTokenChar : ∀ token ∈ line.operands, ∀ c ∈ token, Operand.IsTokenChar c

/-- A plain line has no operand, one, or two. -/
theorem Plain.operands_cases {mnemonic : List Char} {operands : List (List Char)}
    (h : Plain ⟨mnemonic, operands⟩) :
    operands = [] ∨ (∃ token, operands = [token]) ∨ ∃ first second, operands = [first, second] := by
  have hcount : operands.length ≤ 2 := h.length_operands_le
  rcases operands with _ | ⟨first, _ | ⟨second, _ | ⟨third, rest⟩⟩⟩
  · exact .inl rfl
  · exact .inr (.inl ⟨first, rfl⟩)
  · exact .inr (.inr ⟨first, second, rfl⟩)
  · simp at hcount

theorem not_isGap_of_isOperandChar {c : Char} (h : isOperandChar c = true) : isGap c = false := by
  simp only [isOperandChar, Bool.not_eq_true', Bool.or_eq_false_iff] at h
  exact h.2

section Tokens

variable {token : List Char}

/-- A token goes up to a character that cannot be part of it. -/
theorem nextOperand_append (htoken : ∀ c ∈ token, isOperandChar c = true) {rest : List Char}
    (hrest : ∀ c, rest.head? = some c → isOperandChar c = false) :
    nextOperand (token ++ rest) = (token, rest.dropWhile isGap) := by
  rw [nextOperand, List.takeWhile_append_of_pos htoken, List.dropWhile_append_of_pos htoken,
    takeWhile_of_head? hrest, dropWhile_of_head? hrest, List.append_nil]

theorem nextOperand_token (htoken : ∀ c ∈ token, isOperandChar c = true) :
    nextOperand token = (token, []) := by
  have h : nextOperand (token ++ []) = (token, List.dropWhile isGap []) :=
    nextOperand_append htoken (by simp)
  rwa [List.append_nil, List.dropWhile_nil] at h

/-- A gap ends where a token starts. -/
theorem dropWhile_isGap_token (htoken : ∀ c ∈ token, isOperandChar c = true) (hne : token ≠ [])
    (rest : List Char) : (token ++ rest).dropWhile isGap = token ++ rest := by
  apply dropWhile_of_head?
  intro c hc
  rw [List.head?_append_of_ne_nil _ hne] at hc
  exact not_isGap_of_isOperandChar (htoken c (List.mem_of_head? hc))

theorem operands?_one (htoken : ∀ c ∈ token, isOperandChar c = true) (hne : token ≠ []) :
    operands? token = some [token] := by
  have hnext := nextOperand_token htoken
  cases token with
  | nil => exact absurd rfl hne
  | cons c rest => simp only [operands?, hnext]

/-- Before a comma, a token goes up to the gap in front of it. -/
theorem nextOperand_comma (htoken : ∀ c ∈ token, isOperandChar c = true) {gap : List Char}
    (hgap : ∀ c ∈ gap, isGap c = true) (rest : List Char) :
    nextOperand (token ++ (gap ++ ',' :: rest)) = (token, ',' :: rest) := by
  have hstop : ∀ c, (gap ++ ',' :: rest).head? = some c → isOperandChar c = false := by
    intro c hc
    cases gap with
    | nil =>
        obtain rfl := Option.some.inj hc
        rfl
    | cons blank blanks =>
        obtain rfl := Option.some.inj hc
        rw [isOperandChar, hgap blank List.mem_cons_self, Bool.or_true, Bool.not_true]
  rw [nextOperand_append htoken hstop, List.dropWhile_append_of_pos hgap]
  rfl

/-- Gaps may stand on both sides of the comma. -/
theorem operands?_two {before after second : List Char}
    (htoken : ∀ c ∈ token, isOperandChar c = true) (hne : token ≠ [])
    (hbefore : ∀ c ∈ before, isGap c = true) (hafter : ∀ c ∈ after, isGap c = true)
    (hsecond : ∀ c ∈ second, isOperandChar c = true) (hne' : second ≠ []) :
    operands? (token ++ before ++ [','] ++ after ++ second) = some [token, second] := by
  have htext : token ++ before ++ [','] ++ after ++ second =
      token ++ (before ++ ',' :: (after ++ second)) := by
    simp only [List.append_assoc, List.cons_append, List.nil_append]
  have hnext := nextOperand_comma htoken hbefore (after ++ second)
  have hgap : (after ++ second).dropWhile isGap = second := by
    have hstart := dropWhile_isGap_token hsecond hne' []
    rw [List.append_nil] at hstart
    rw [List.dropWhile_append_of_pos hafter, hstart]
  have hnext' := nextOperand_token hsecond
  rw [htext]
  cases token with
  | nil => exact absurd rfl hne
  | cons c rest =>
      cases second with
      | nil => exact absurd rfl hne'
      | cons d rest' => simp only [operands?, hnext, hgap, hnext']

end Tokens

/-- A mnemonic by itself is a line without operands. -/
theorem parse?_mnemonic {mnemonic : List Char} (hne : mnemonic ≠ [])
    (hmnemonic : ∀ c ∈ mnemonic, isMnemonicChar c = true) :
    parse? mnemonic = some ⟨mnemonic, []⟩ := by
  have htake : mnemonic.takeWhile isMnemonicChar = mnemonic :=
    List.takeWhile_eq_self_iff.mpr hmnemonic
  have hdrop : mnemonic.dropWhile isMnemonicChar = [] :=
    List.dropWhile_eq_nil_iff.mpr hmnemonic
  rw [parse?, htake, hdrop]
  cases mnemonic with
  | nil => contradiction
  | cons c rest => rfl

/-- Where a token starts, the mnemonic and the gap before it are cut off. -/
theorem parse?_append_gap {mnemonic gap text : List Char} (hne : mnemonic ≠ [])
    (hmnemonic : ∀ c ∈ mnemonic, isMnemonicChar c = true) (hne' : gap ≠ [])
    (hgap : ∀ c ∈ gap, isGap c = true) (htext : ∀ c, text.head? = some c → isGap c = false) :
    parse? (mnemonic ++ gap ++ text) = (operands? text).map (Line.mk mnemonic) := by
  obtain ⟨blank, blanks, rfl⟩ := List.exists_cons_of_ne_nil hne'
  rw [List.forall_mem_cons] at hgap
  obtain ⟨hblank, hblanks⟩ := hgap
  have hstop : ∀ c, (blank :: blanks ++ text).head? = some c → isMnemonicChar c = false := by
    rintro c hc
    obtain rfl := Option.some.inj hc
    rw [isGap, Bool.or_eq_true, beq_iff_eq, beq_iff_eq] at hblank
    rcases hblank with rfl | rfl <;> decide
  have hrest : (blanks ++ text).dropWhile isGap = text := by
    rw [List.dropWhile_append_of_pos hblanks, dropWhile_of_head? htext]
  rw [List.append_assoc, parse?, List.takeWhile_append_of_pos hmnemonic,
    List.dropWhile_append_of_pos hmnemonic, takeWhile_of_head? hstop, dropWhile_of_head? hstop,
    List.append_nil]
  cases mnemonic with
  | nil => contradiction
  | cons c rest => simp only [List.cons_append, hblank, if_true, hrest]

theorem parse?_padRight {line : Line} (hplain : line.Plain) {text : List Char}
    (htext : ∀ c, text.head? = some c → isGap c = false) :
    parse? (padRight 8 line.mnemonic ++ text) =
      (operands? text).map (Line.mk line.mnemonic) := by
  have hlength : 8 - line.mnemonic.length ≠ 0 := by
    have := hplain.length_lt
    omega
  have hspaces : ∀ c ∈ List.replicate (8 - line.mnemonic.length) ' ', isGap c = true := by
    intro c hc
    rw [List.eq_of_mem_replicate hc]
    rfl
  exact parse?_append_gap hplain.mnemonic_ne_nil hplain.isMnemonicChar
    ((List.replicate_eq_nil_iff _).not.mpr hlength) hspaces htext

/-- A plain line is cut into what it was made of. -/
theorem parse?_render {line : Line} (hplain : line.Plain) : parse? line.render = some line := by
  obtain ⟨mnemonic, operands⟩ := line
  have hoperand : ∀ token ∈ operands, ∀ c ∈ token, isOperandChar c = true :=
    fun token htoken c hc => (hplain.isTokenChar token htoken c hc).1
  have hstart : ∀ token ∈ operands, ∀ c, token.head? = some c → isGap c = false :=
    fun token htoken c hc =>
      not_isGap_of_isOperandChar (hoperand token htoken c (List.mem_of_head? hc))
  rcases hplain.operands_cases with rfl | ⟨token, rfl⟩ | ⟨token, second, rfl⟩
  · rw [render, List.isEmpty_nil, if_pos rfl,
      parse?_mnemonic hplain.mnemonic_ne_nil hplain.isMnemonicChar]
  · have hne := hplain.operand_ne_nil token List.mem_cons_self
    rw [List.forall_mem_singleton] at hoperand hstart
    have hrest := parse?_padRight hplain hstart
    rw [operands?_one hoperand hne] at hrest
    exact hrest
  · have hne := hplain.operand_ne_nil token List.mem_cons_self
    have hne' := hplain.operand_ne_nil second (List.mem_cons_of_mem _ List.mem_cons_self)
    have htoken := hoperand token List.mem_cons_self
    have hsecond := hoperand second (List.mem_cons_of_mem _ List.mem_cons_self)
    have hgap : ∀ c, (token ++ [',', ' '] ++ second).head? = some c → isGap c = false := by
      intro c hc
      rw [List.append_assoc, List.head?_append_of_ne_nil _ hne] at hc
      exact hstart token List.mem_cons_self c hc
    have htwo : operands? (token ++ [',', ' '] ++ second) = some [token, second] := by
      have hgaps := @operands?_two token [] [' '] second htoken hne (List.forall_mem_nil _)
        (List.forall_mem_singleton.mpr rfl) hsecond hne'
      rwa [List.append_nil, List.append_assoc token] at hgaps
    have hrest := parse?_padRight hplain hgap
    rw [htwo] at hrest
    exact hrest

theorem head?_render {line : Line} (hplain : line.Plain) :
    line.render.head? = line.mnemonic.head? := by
  rw [render]
  split
  next => rfl
  next => rw [padRight, List.append_assoc, List.head?_append_of_ne_nil _ hplain.mnemonic_ne_nil]

/-- A plain line ends with the end of its mnemonic or of an operand. -/
theorem not_isBlank_of_getLast?_render {line : Line} (hplain : line.Plain) {c : Char}
    (h : line.render.getLast? = some c) : isBlank c = false := by
  obtain ⟨mnemonic, operands⟩ := line
  rcases hplain.operands_cases with rfl | ⟨token, rfl⟩ | ⟨token, second, rfl⟩
  · exact hplain.not_isBlank c (List.mem_of_getLast? h)
  · have hne := hplain.operand_ne_nil token List.mem_cons_self
    rw [render, List.isEmpty_cons, if_neg Bool.false_ne_true, join,
      List.getLast?_append_of_ne_nil _ hne] at h
    exact (hplain.isTokenChar token List.mem_cons_self c (List.mem_of_getLast? h)).2
  · have hmem : second ∈ [token, second] := List.mem_cons_of_mem _ List.mem_cons_self
    have hne := hplain.operand_ne_nil second hmem
    have hjoin : join [',', ' '] [token, second] = token ++ [',', ' '] ++ second := rfl
    rw [render, List.isEmpty_cons, if_neg Bool.false_ne_true, hjoin, ← List.append_assoc,
      List.getLast?_append_of_ne_nil _ hne] at h
    exact (hplain.isTokenChar second hmem c (List.mem_of_getLast? h)).2

theorem trim_render {line : Line} (hplain : line.Plain) : trim line.render = line.render := by
  apply trim_of_not_isBlank
  · intro c hc
    rw [head?_render hplain] at hc
    exact hplain.not_isBlank c (List.mem_of_head? hc)
  · intro c hc
    exact not_isBlank_of_getLast?_render hplain hc

end Line

namespace Mnemonic

theorem isMnemonicChar_of_mem_name : ∀ mnemonic ∈ all, ∀ c ∈ mnemonic.name.toList,
    Line.isMnemonicChar c = true ∧ isBlank c = false := by
  have hall : all.all (fun mnemonic => mnemonic.name.toList.all fun c =>
      Line.isMnemonicChar c && !isBlank c) = true := by
    decide +kernel
  simpa only [List.all_eq_true, Bool.and_eq_true, Bool.not_eq_true'] using hall

theorem length_name : ∀ mnemonic ∈ all,
    0 < mnemonic.name.toList.length ∧ mnemonic.name.toList.length < 8 := by
  decide +kernel

/-- Names are written in lower case, which is the case in which they are looked up. -/
theorem ofName?_name : ∀ mnemonic ∈ all,
    ofName? (mnemonic.name.toList.map Char.toLower) = some mnemonic := by
  decide +kernel

theorem arity_le (mnemonic : Mnemonic) : mnemonic.arity ≤ 2 := by
  cases mnemonic <;> simp [arity]

end Mnemonic

namespace Instruction

/-- The line in which an instruction is written with `renderOperand`. -/
def lineWith (renderOperand : Operand → List Char) (instruction : Instruction) : Line :=
  ⟨instruction.mnemonic.name.toList, instruction.operands.map renderOperand⟩

theorem render_lineWith (renderOperand : Operand → List Char) (instruction : Instruction) :
    (instruction.lineWith renderOperand).render = instruction.renderWith renderOperand := by
  simp [Line.render, lineWith, renderWith]

theorem plain_lineWith {instruction : Instruction} (h : instruction.WellFormed)
    {renderOperand : Operand → List Char} (hne : ∀ operand, renderOperand operand ≠ [])
    (htoken : ∀ operand, ∀ c ∈ renderOperand operand, Operand.IsTokenChar c) :
    (instruction.lineWith renderOperand).Plain := by
  have hname := Mnemonic.length_name _ instruction.mnemonic.mem_all
  have hchars := Mnemonic.isMnemonicChar_of_mem_name _ instruction.mnemonic.mem_all
  constructor
  · exact List.length_pos_iff.mp hname.1
  · exact fun c hc => (hchars c hc).1
  · exact fun c hc => (hchars c hc).2
  · exact hname.2
  · rw [lineWith, List.length_map, length_operands h]
    exact instruction.mnemonic.arity_le
  · intro token hmem
    obtain ⟨operand, _, rfl⟩ := List.mem_map.mp hmem
    exact hne operand
  · intro token hmem
    obtain ⟨operand, _, rfl⟩ := List.mem_map.mp hmem
    exact htoken operand

/-- The line in which an instruction is written. -/
def line (instruction : Instruction) : Line :=
  ⟨instruction.mnemonic.name.toList, instruction.operands.map Operand.render⟩

theorem render_line (instruction : Instruction) :
    instruction.line.render = instruction.render :=
  render_lineWith Operand.render instruction

theorem plain_line {instruction : Instruction} (h : instruction.WellFormed) :
    instruction.line.Plain :=
  plain_lineWith h Operand.render_ne_nil Operand.isTokenChar_of_mem_render

theorem fits_of_mem_operands {instruction : Instruction} (h : instruction.WellFormed) :
    ∀ operand ∈ instruction.operands, operand.Fits := by
  obtain ⟨_, hholds⟩ := wellFormed_iff.mp h
  intro operand hmem
  obtain ⟨place, hplace, rfl⟩ := List.mem_iff_getElem.mp hmem
  exact Operand.fits_of_holds (hholds.get (hholds.length_eq ▸ hplace) hplace)

/-- The text of an instruction is read as what its mnemonic selects for its operands. -/
theorem parse_render_eq_select {instruction : Instruction} (h : instruction.WellFormed) :
    parse instruction.render =
      select instruction.mnemonic (instruction.operands.map Operand.narrowed) := by
  have hplain := plain_line h
  have hname := Mnemonic.ofName?_name _ instruction.mnemonic.mem_all
  have hoperands := Operand.parseAll_map_render (fits_of_mem_operands h)
  rw [← render_line, parse, Line.trim_render hplain, Line.parse?_render hplain]
  simp only [line, hname, hoperands]

theorem parse_render {instruction selected : Instruction} (h : instruction.WellFormed)
    (hselect : select? instruction.mnemonic instruction.operands = some selected) :
    parse instruction.render = .ok selected := by
  rw [parse_render_eq_select h, select_eq_ok_iff, ← hselect]
  apply select?_congr
  rw [List.map_map]
  exact List.map_congr_left fun operand _ => operand.widened_narrowed

/-- What was selected before is read back as it is, and so is its code. -/
theorem readsBack_of_select? {mnemonic : Mnemonic} {operands : List Operand}
    {selected : Instruction} (h : select? mnemonic operands = some selected) :
    parse selected.render = .ok selected ∧ assemble selected.render = .ok selected.encode := by
  have hparse := parse_render (selected_of_select? h).wellFormed (select?_self h)
  exact ⟨hparse, by rw [assemble, hparse]; rfl⟩

/-- The text of an instruction is read as the shortest instruction with the same mnemonic and with
operands that name the same registers, addresses and values; and whatever was read from a text or
selected is read back as it is, so that its text assembles to its own code. -/
theorem text_round_trip :
    (∀ instruction : Instruction, instruction.WellFormed → ∃ selected,
      parse instruction.render = .ok selected ∧
        select instruction.mnemonic instruction.operands = .ok selected ∧
        selected.mnemonic = instruction.mnemonic ∧
        selected.operands.map Operand.widened = instruction.operands.map Operand.widened ∧
        selected.length ≤ instruction.length) ∧
    (∀ bytes instruction, decode bytes = .ok instruction → instruction.WellFormed) ∧
    (∀ text instruction, parse text = .ok instruction →
      parse instruction.render = .ok instruction ∧
        assemble instruction.render = .ok instruction.encode) ∧
    ∀ mnemonic operands instruction, select mnemonic operands = .ok instruction →
      parse instruction.render = .ok instruction ∧
        assemble instruction.render = .ok instruction.encode := by
  refine ⟨?_, ?_, ?_, ?_⟩
  · intro instruction hwell
    obtain ⟨selected, hselect⟩ := exists_select? hwell
    have hselected := selected_of_select? hselect
    refine ⟨selected, parse_render hwell hselect, select_eq_ok_iff.mpr hselect,
      hselected.mnemonic_eq, hselected.widened_operands, ?_⟩
    exact hselected.length_le instruction.form hwell.1 rfl hwell.2.1
  · intro bytes instruction hdecode
    exact (decode_eq_ok_iff.mp hdecode).1
  · intro text instruction hparse
    obtain ⟨mnemonic, operands, hselect⟩ := exists_select?_of_parse hparse
    exact readsBack_of_select? hselect
  · intro mnemonic operands instruction hselect
    exact readsBack_of_select? (select_eq_ok_iff.mp hselect)

/-- A move of a small value in its longest form is read back in its shortest form, which is then read
back as it is. -/
theorem text_round_trip_of_long_move :
    let long : Instruction :=
      ⟨⟨0x04, .mov, [.register, .immediate .w32]⟩, [.register .b, .immediate 0x12 .w32]⟩
    let short : Instruction :=
      ⟨⟨0x02, .mov, [.register, .immediate .w8]⟩, [.register .b, .immediate 0x12 .w8]⟩
    long.render = "mov     B, 0x00000012".toList ∧ long.WellFormed ∧
      parse long.render = .ok short ∧ short.length ≤ long.length ∧
      assemble short.render = .ok short.encode := by
  intro long short
  have hrender : long.render = "mov     B, 0x00000012".toList := by decide +kernel
  have hwell : long.WellFormed := by decide +kernel
  have hshort : select long.mnemonic long.operands = .ok short := by decide +kernel
  obtain ⟨selected, hparse, hselect, _, _, hlength⟩ := text_round_trip.1 long hwell
  obtain rfl : short = selected := Except.ok.inj (hshort.symm.trans hselect)
  exact ⟨hrender, hwell, hparse, hlength,
    (text_round_trip.2.2.2 long.mnemonic long.operands short hshort).2⟩

end Instruction

end TinyComputer
