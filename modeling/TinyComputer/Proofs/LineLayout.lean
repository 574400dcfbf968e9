import TinyComputer.Proofs.BlankText
import TinyComputer.Proofs.LetterCase

/-!
# The layout of a line

A line of assembly text can be laid out in many ways: with blanks around it, any gap after the mnemonic
and any gaps around the comma. Every text that is read as an instruction is a layout of its tokens, and
all layouts of the same tokens are read alike.
-/

namespace TinyComputer

open Text

/-! ## Characters of tokens -/

namespace Text

/-- A class of ASCII characters is checked character by character. -/
theorem forall_of_ascii {p : Char → Bool} {q : Char → Prop}
    (hascii : ∀ n < 128, p (Char.ofNat n) = true → q (Char.ofNat n))
    (hp : ∀ c, p c = true → c.toNat < 128) : ∀ c, p c = true → q c := by
  intro c hc
  have hq := hascii c.toNat (hp c hc)
  rw [Char.ofNat_toNat] at hq
  exact hq hc

theorem lt_of_isAlphanum {c : Char} (h : c.isAlphanum = true) : c.toNat < 128 := by
  by_contra hge
  have hout : ∀ {bound : Char}, bound.toNat < 128 → ¬ c.val ≤ bound.val :=
    fun hbound => not_le_of_not_ascii (Nat.not_lt.mp hge) hbound
  have hrange : ∀ {p : Bool} {bound : Char}, bound.toNat < 128 →
      (p && decide (c.val ≤ bound.val)) = false := by
    intro p bound hbound
    rw [decide_eq_false (hout hbound), Bool.and_false]
  have hupper : c.isUpper = false := decide_eq_false fun hletter => hout (by decide) hletter.2
  have hlower : c.isLower = false := hrange (by decide)
  have hdigit : c.isDigit = false := hrange (by decide)
  have hnone : c.isAlphanum = (c.isUpper || c.isLower || c.isDigit) := rfl
  rw [hnone, hupper, hlower, hdigit] at h
  contradiction

theorem isTokenChar_of_isAlphanum : ∀ c : Char, c.isAlphanum = true → Operand.IsTokenChar c :=
  forall_of_ascii (by decide) fun _ => lt_of_isAlphanum

theorem isAlphanum_of_digitOf? {base digit : Nat} {c : Char} (h : digitOf? base c = some digit) :
    c.isAlphanum = true := by
  have hdigits : digitChars.all Char.isAlphanum = true := by decide
  rw [← isAlphanum_toLower]
  apply List.all_eq_true.mp hdigits
  by_contra hnot
  rw [digitOf?, List.idxOf?_eq_none_iff.mpr fun hmem => hnot (List.mem_of_mem_take hmem)] at h
  contradiction

end Text

theorem Line.not_isBlank_of_isMnemonicChar {c : Char} (h : isMnemonicChar c = true) :
    isBlank c = false := by
  rcases isMnemonicChar_iff.mp h with h | rfl
  · exact (isTokenChar_of_isAlphanum c h).2
  · rfl

theorem Literal.Spells.isAlphanum {text : List Char} {value : Nat} (h : Spells text value) :
    ∀ c ∈ text, c.isAlphanum = true := by
  have hdigits : ∀ {base : Nat} {digits : List Char}, Positional base digits value →
      ∀ c ∈ digits, c.isAlphanum = true := by
    intro base digits hdigits c hc
    obtain ⟨digit, hdigit⟩ := (numeral_iff_positional.mpr hdigits).exists_digit c hc
    exact isAlphanum_of_digitOf? hdigit
  cases h with
  | hexadecimal hmark hpositional =>
      refine List.forall_mem_cons.mpr ⟨rfl, List.forall_mem_cons.mpr ⟨?_, hdigits hpositional⟩⟩
      rcases hmark with rfl | rfl <;> rfl
  | decimal hpositional => exact hdigits hpositional

theorem Atom.Written.isTokenChar {text : List Char} {atom : Atom} (h : Written text atom) :
    ∀ c ∈ text, Operand.IsTokenChar c := by
  intro c hc
  apply isTokenChar_of_isAlphanum
  cases h with
  | register hname => exact Bool.or_eq_true_iff.mpr (.inl (hname.isAlpha c hc))
  | literal hdenotes => exact (Literal.denotes_iff_spells.mp hdenotes).isAlphanum c hc

theorem Operand.Written.isTokenChar {token : List Char} {operand : Operand}
    (h : Written token operand) : ∀ c ∈ token, IsTokenChar c := by
  have hbrackets : ∀ {inner : List Char}, (∀ c ∈ inner, IsTokenChar c) →
      ∀ c ∈ bracketed inner, IsTokenChar c := by
    intro inner hinner
    simp only [bracketed, List.forall_mem_append, List.forall_mem_singleton]
    exact ⟨⟨by decide, hinner⟩, by decide⟩
  cases h with
  | register hname => exact (Atom.Written.register hname).isTokenChar
  | immediate hdenotes => exact (Atom.Written.literal hdenotes).isTokenChar
  | indirectRegister hname => exact hbrackets (Atom.Written.register hname).isTokenChar
  | indirectImmediate hdenotes => exact hbrackets (Atom.Written.literal hdenotes).isTokenChar

namespace Line

/-! ## Reading tokens -/

/-- What the tokens of a line are read as. -/
def read (line : Line) : Except AssemblyError Instruction :=
  match Mnemonic.ofName? (line.mnemonic.map Char.toLower) with
  | none => .error (.unknownMnemonic line.mnemonic)
  | some mnemonic =>
      match Operand.parseAll line.operands with
      | .error error => .error error
      | .ok operands => Instruction.select mnemonic operands

variable {line : Line} {instruction : Instruction}

theorem parse_eq_read {text : List Char} (h : parse? (trim text) = some line) :
    Instruction.parse text = line.read := by
  simp only [Instruction.parse, h]
  rfl

theorem length_lt_of_namedBy {mnemonic : Mnemonic} {name : List Char} (h : mnemonic.NamedBy name) :
    name.length < 8 := by
  have haliases : ∀ entry ∈ Mnemonic.aliases, entry.1.toList.length < 8 := by decide
  rcases h with h | ⟨spelling, hmem, h⟩
  · rw [← List.length_map Char.toLower, h]
    exact (Mnemonic.length_name mnemonic mnemonic.mem_all).2
  · rw [← List.length_map Char.toLower, h]
    exact haliases _ hmem

/-- A line that says an instruction is plain. -/
theorem plain_of_read {text : List Char} (hwritten : Written text line)
    (h : line.read = .ok instruction) : line.Plain := by
  have hmnemonic : MnemonicToken line.mnemonic := by cases hwritten <;> assumption
  have hcount : line.operands.length ≤ 2 := by
    cases hwritten with
    | alone => exact Nat.zero_le _
    | withOperands _ _ _ hoperands => cases hoperands <;> simp
  unfold read at h
  split at h
  next => contradiction
  next mnemonic hname =>
    split at h
    next => contradiction
    next operands hoperands =>
      have hread := Operand.parseAll_eq_ok_iff.mp hoperands
      have htoken : ∀ token ∈ line.operands, ∃ operand, Operand.Written token operand := by
        intro token hmem
        obtain ⟨place, hplace, rfl⟩ := List.mem_iff_getElem.mp hmem
        exact ⟨_, Operand.parse_eq_ok_iff.mp (hread.get hplace (hread.length_eq ▸ hplace))⟩
      refine ⟨hmnemonic.ne_nil, hmnemonic.isMnemonicChar, ?_, ?_, hcount, ?_, ?_⟩
      · exact fun c hc => not_isBlank_of_isMnemonicChar (hmnemonic.isMnemonicChar c hc)
      · exact length_lt_of_namedBy (Mnemonic.ofName?_map_toLower_eq_some_iff.mp hname)
      · rintro token hmem rfl
        obtain ⟨operand, hoperand⟩ := htoken [] hmem
        cases Operand.parse_eq_ok_iff.mpr hoperand
      · intro token hmem
        obtain ⟨operand, hoperand⟩ := htoken token hmem
        exact hoperand.isTokenChar

/-! ## Layouts -/

/-- What stands between the tokens of a line and around them. -/
structure Layout where
  leading : List Char
  /-- The gap after the mnemonic. -/
  gap : List Char
  /-- The gap in front of the comma. -/
  before : List Char
  /-- The gap behind the comma. -/
  after : List Char
  trailing : List Char
  blank_leading : Blank leading
  gap_ne_nil : gap ≠ []
  gap_gap : Gap gap
  gap_before : Gap before
  gap_after : Gap after
  blank_trailing : Blank trailing

namespace Layout

/-- The operands of a line, with the gaps in front of them and between them. -/
def operandText (layout : Layout) : List (List Char) → List Char
  | [] => []
  | [token] => layout.gap ++ token
  | first :: second :: _ => layout.gap ++ first ++ layout.before ++ [','] ++ layout.after ++ second

/-- A line laid out, without the blanks around it. -/
def body (layout : Layout) (line : Line) : List Char :=
  line.mnemonic ++ layout.operandText line.operands

/-- A line laid out. -/
def text (layout : Layout) (line : Line) : List Char :=
  layout.leading ++ layout.body line ++ layout.trailing

variable {layout : Layout}

theorem operandToken_of_plain (h : line.Plain) : ∀ token ∈ line.operands, OperandToken token :=
  fun token hmem => operandToken_of_isOperandChar (h.operand_ne_nil token hmem)
    fun c hc => (h.isTokenChar token hmem c hc).1

theorem written_body (layout : Layout) (h : line.Plain) : Written (layout.body line) line := by
  obtain ⟨mnemonic, operands⟩ := line
  have hmnemonic : MnemonicToken mnemonic :=
    ⟨h.mnemonic_ne_nil, fun c hc => isMnemonicChar_iff.mp (h.isMnemonicChar c hc)⟩
  have htoken := operandToken_of_plain h
  rcases h.operands_cases with rfl | ⟨token, rfl⟩ | ⟨first, second, rfl⟩
  · rw [body, operandText, List.append_nil]
    exact .alone hmnemonic
  · rw [body, operandText, ← List.append_assoc]
    exact .withOperands hmnemonic layout.gap_ne_nil layout.gap_gap
      (.one (htoken token List.mem_cons_self))
  · have hoperands := OperandsWritten.two (htoken first List.mem_cons_self) layout.gap_before
      layout.gap_after (htoken second (List.mem_cons_of_mem _ List.mem_cons_self))
    have hwritten := Written.withOperands hmnemonic layout.gap_ne_nil layout.gap_gap hoperands
    rw [body, operandText]
    simpa only [List.append_assoc] using hwritten

/-- A line starts with its mnemonic and ends with the end of a token. -/
theorem trim_body (layout : Layout) (h : line.Plain) : trim (layout.body line) = layout.body line := by
  obtain ⟨mnemonic, operands⟩ := line
  apply trim_of_not_isBlank
  · intro c hc
    rw [body, List.head?_append_of_ne_nil _ h.mnemonic_ne_nil] at hc
    exact h.not_isBlank c (List.mem_of_head? hc)
  · intro c hc
    have hlast : ∀ token ∈ operands, token.getLast? = some c → isBlank c = false :=
      fun token hmem hend => (h.isTokenChar token hmem c (List.mem_of_getLast? hend)).2
    have hne := h.operand_ne_nil
    rcases h.operands_cases with rfl | ⟨token, rfl⟩ | ⟨first, second, rfl⟩
    · rw [body, operandText, List.append_nil] at hc
      exact h.not_isBlank c (List.mem_of_getLast? hc)
    · rw [body, operandText, ← List.append_assoc,
        List.getLast?_append_of_ne_nil _ (hne token List.mem_cons_self)] at hc
      exact hlast token List.mem_cons_self hc
    · have hmem : second ∈ [first, second] := List.mem_cons_of_mem _ List.mem_cons_self
      rw [body, operandText, ← List.append_assoc,
        List.getLast?_append_of_ne_nil _ (hne second hmem)] at hc
      exact hlast second hmem hc

theorem trim_text (layout : Layout) (h : line.Plain) : trim (layout.text line) = layout.body line := by
  rw [text, trim_append_blank layout.blank_trailing, trim_blank_append layout.blank_leading,
    trim_body layout h]

/-- All layouts of the same tokens are read alike. -/
theorem parse_text (layout : Layout) (h : line.Plain) :
    Instruction.parse (layout.text line) = line.read := by
  apply parse_eq_read
  rw [trim_text layout h]
  exact parse?_of_written (layout.written_body h)

end Layout

/-- Single spaces after the mnemonic and behind the comma. -/
def simpleLayout : Layout where
  leading := []
  gap := [' ']
  before := []
  after := [' ']
  trailing := []
  blank_leading := by decide
  gap_ne_nil := by decide
  gap_gap := by simp [Gap]
  gap_before := by simp [Gap]
  gap_after := by simp [Gap]
  blank_trailing := by decide

theorem Written.exists_layout {text : List Char} (h : Written text line) :
    ∃ layout : Layout, layout.body line = text := by
  cases h with
  | alone => exact ⟨simpleLayout, List.append_nil _⟩
  | @withOperands mnemonic gap _ _ _ hne hgap hoperands =>
      cases hoperands with
      | one =>
          refine ⟨{ simpleLayout with gap, gap_ne_nil := hne, gap_gap := hgap }, ?_⟩
          simp only [Layout.body, Layout.operandText, List.append_assoc]
      | @two _ before after _ _ hbefore hafter _ =>
          refine ⟨{ simpleLayout with
            gap, before, after, gap_ne_nil := hne, gap_gap := hgap, gap_before := hbefore
            gap_after := hafter }, ?_⟩
          simp only [Layout.body, Layout.operandText, List.append_assoc]

/-- Every text that is read as an instruction is a layout of plain tokens that say the instruction. -/
theorem exists_layout_of_parse {text : List Char} (h : Instruction.parse text = .ok instruction) :
    ∃ (line : Line) (layout : Layout), line.Plain ∧ line.read = .ok instruction ∧
      layout.text line = text := by
  cases hline : parse? (trim text) with
  | none =>
      simp only [Instruction.parse, hline] at h
      contradiction
  | some line =>
      rw [parse_eq_read hline] at h
      have hwritten := parse?_trim_eq_some_iff.mp hline
      obtain ⟨layout, hbody⟩ := hwritten.exists_layout
      obtain ⟨leading, trailing, hleading, htrailing, htext⟩ := exists_blank_trim text
      refine ⟨line, { layout with
        leading, trailing, blank_leading := hleading, blank_trailing := htrailing },
        plain_of_read hwritten h, h, ?_⟩
      rw [← hbody] at htext
      exact htext.symm

end Line

end TinyComputer
