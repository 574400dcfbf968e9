import Mathlib.Data.List.Nodup
import TinyComputer.Proofs.InstructionText
import TinyComputer.Proofs.OperandGrammar

/-!
# The grammar of lines

A line is a mnemonic, or a mnemonic and one or two operands after a gap. A text without blanks around it
is cut into tokens exactly when it is a line, in the one way in which it is one. The tokens decide what
the line is read as: the mnemonic is looked up first, then the operands are read from left to right, and
what they are read as goes to the selection of a form.
-/

namespace TinyComputer

open Text

/-! ## Trimmed texts -/

namespace Text

theorem not_of_head?_dropWhile {p : Char → Bool} {text : List Char} {c : Char}
    (h : (text.dropWhile p).head? = some c) : p c = false := by
  have hstop := List.head?_dropWhile_not p text
  rwa [h] at hstop

/-- A trimmed text does not end with a blank. -/
theorem not_isBlank_of_getLast?_trim {text : List Char} {c : Char}
    (h : (trim text).getLast? = some c) : isBlank c = false := by
  rw [trim, trimEnd, List.getLast?_reverse] at h
  exact not_of_head?_dropWhile h

end Text

namespace Line

theorem isMnemonicChar_iff {c : Char} : isMnemonicChar c = true ↔ c.isAlphanum = true ∨ c = '.' := by
  rw [isMnemonicChar, Bool.or_eq_true, beq_iff_eq]

theorem isGap_iff {c : Char} : isGap c = true ↔ c = ' ' ∨ c = '\t' := by
  rw [isGap, Bool.or_eq_true, beq_iff_eq, beq_iff_eq]

theorem isOperandChar_iff {c : Char} : isOperandChar c = true ↔ c ≠ ',' ∧ c ≠ ' ' ∧ c ≠ '\t' := by
  rw [isOperandChar, Bool.not_eq_true', Bool.or_eq_false_iff, beq_eq_false_iff_ne,
    ← Bool.not_eq_true, isGap_iff, not_or]

theorem isBlank_of_isGap {c : Char} (h : isGap c = true) : isBlank c = true := by
  rcases isGap_iff.mp h with rfl | rfl <;> rfl

theorem not_isGap_of_getLast?_trim {text : List Char} {c : Char}
    (h : (trim text).getLast? = some c) : isGap c = false := by
  refine Bool.eq_false_iff.mpr fun hgap => ?_
  have hblank := not_isBlank_of_getLast?_trim h
  rw [isBlank_of_isGap hgap] at hblank
  contradiction

/-! ## Lines and their tokens -/

/-- A gap is made of spaces and tabs. -/
def Gap (text : List Char) : Prop :=
  ∀ c ∈ text, c = ' ' ∨ c = '\t'

/-- A mnemonic is made of letters and digits of ASCII, and of dots. -/
structure MnemonicToken (token : List Char) : Prop where
  ne_nil : token ≠ []
  chars : ∀ c ∈ token, c.isAlphanum = true ∨ c = '.'

/-- An operand is made of everything but commas and gaps. -/
structure OperandToken (token : List Char) : Prop where
  ne_nil : token ≠ []
  chars : ∀ c ∈ token, c ≠ ',' ∧ c ≠ ' ' ∧ c ≠ '\t'

/-- One operand, or two of them around a comma. -/
inductive OperandsWritten : List Char → List (List Char) → Prop
  | one {token : List Char} : OperandToken token → OperandsWritten token [token]
  | two {first before after second : List Char} : OperandToken first → Gap before → Gap after →
      OperandToken second →
      OperandsWritten (first ++ before ++ [','] ++ after ++ second) [first, second]

/-- A mnemonic by itself, or with operands after a gap. -/
inductive Written : List Char → Line → Prop
  | alone {mnemonic : List Char} : MnemonicToken mnemonic → Written mnemonic ⟨mnemonic, []⟩
  | withOperands {mnemonic gap text : List Char} {operands : List (List Char)} :
      MnemonicToken mnemonic → gap ≠ [] → Gap gap → OperandsWritten text operands →
      Written (mnemonic ++ gap ++ text) ⟨mnemonic, operands⟩

variable {text token : List Char} {operands : List (List Char)} {line : Line}

theorem gap_iff : Gap text ↔ ∀ c ∈ text, isGap c = true :=
  forall₂_congr fun _ _ => isGap_iff.symm

theorem MnemonicToken.isMnemonicChar (h : MnemonicToken token) :
    ∀ c ∈ token, isMnemonicChar c = true :=
  fun c hc => isMnemonicChar_iff.mpr (h.chars c hc)

theorem OperandToken.isOperandChar (h : OperandToken token) : ∀ c ∈ token, isOperandChar c = true :=
  fun c hc => isOperandChar_iff.mpr (h.chars c hc)

theorem operandToken_of_isOperandChar (hne : token ≠ [])
    (h : ∀ c ∈ token, Line.isOperandChar c = true) : OperandToken token :=
  ⟨hne, fun c hc => isOperandChar_iff.mp (h c hc)⟩

/-! ### What is written is cut into its tokens -/

theorem OperandToken.not_isGap_of_head? (h : OperandToken token) {rest : List Char} {c : Char}
    (hc : (token ++ rest).head? = some c) : isGap c = false := by
  rw [List.head?_append_of_ne_nil _ h.ne_nil] at hc
  exact not_isGap_of_isOperandChar (h.isOperandChar c (List.mem_of_head? hc))

theorem OperandsWritten.not_isGap_of_head? (h : OperandsWritten text operands) {c : Char}
    (hc : text.head? = some c) : isGap c = false := by
  cases h with
  | one htoken =>
      rw [← List.append_nil text] at hc
      exact htoken.not_isGap_of_head? hc
  | two hfirst _ _ _ =>
      simp only [List.append_assoc] at hc
      exact hfirst.not_isGap_of_head? hc

theorem operands?_of_written (h : OperandsWritten text operands) : operands? text = some operands := by
  cases h with
  | one htoken => exact operands?_one htoken.isOperandChar htoken.ne_nil
  | two hfirst hbefore hafter hsecond =>
      exact operands?_two hfirst.isOperandChar hfirst.ne_nil (gap_iff.mp hbefore)
        (gap_iff.mp hafter) hsecond.isOperandChar hsecond.ne_nil

theorem parse?_of_written (h : Written text line) : parse? text = some line := by
  cases h with
  | alone hmnemonic => exact parse?_mnemonic hmnemonic.ne_nil hmnemonic.isMnemonicChar
  | withOperands hmnemonic hne hgap hoperands =>
      rw [parse?_append_gap hmnemonic.ne_nil hmnemonic.isMnemonicChar hne (gap_iff.mp hgap)
        fun c hc => hoperands.not_isGap_of_head? hc, operands?_of_written hoperands]
      rfl

/-! ### What is cut was written -/

/-- A text that does not end in a gap has no gap at its end. -/
theorem eq_nil_of_getLast?_not_isGap {gap : List Char} (hgap : ∀ c ∈ gap, isGap c = true)
    (hlast : ∀ c, (text ++ gap).getLast? = some c → isGap c = false) : gap = [] := by
  cases hend : gap.getLast? with
  | none => exact List.getLast?_eq_none_iff.mp hend
  | some c =>
      have hc : isGap c = true := hgap c (List.mem_of_getLast? hend)
      rw [hlast c (by rw [List.getLast?_append, hend]; rfl)] at hc
      contradiction

theorem exists_gap_of_nextOperand {rest : List Char} (h : nextOperand text = (token, rest)) :
    ∃ gap, (∀ c ∈ token, isOperandChar c = true) ∧ (∀ c ∈ gap, isGap c = true) ∧
      text = token ++ gap ++ rest := by
  obtain ⟨rfl, rfl⟩ := Prod.mk.inj h
  refine ⟨(text.dropWhile isOperandChar).takeWhile isGap, fun c => List.mem_takeWhile_imp,
    fun c => List.mem_takeWhile_imp, ?_⟩
  rw [List.append_assoc, List.takeWhile_append_dropWhile, List.takeWhile_append_dropWhile]

theorem written_of_operands? (h : operands? text = some operands)
    (hlast : ∀ c, text.getLast? = some c → isGap c = false) : OperandsWritten text operands := by
  unfold operands? at h
  split at h
  next => contradiction
  next first hne hnext =>
    obtain rfl := Option.some.inj h
    obtain ⟨gap, hfirst, hgap, rfl⟩ := exists_gap_of_nextOperand hnext
    rw [List.append_nil] at hlast ⊢
    obtain rfl := eq_nil_of_getLast?_not_isGap hgap hlast
    rw [List.append_nil]
    exact .one (operandToken_of_isOperandChar hne hfirst)
  next first rest hne hnext =>
    obtain ⟨before, hfirst, hbefore, rfl⟩ := exists_gap_of_nextOperand hnext
    split at h
    next => contradiction
    next second hne' hnext' =>
      obtain rfl := Option.some.inj h
      obtain ⟨gap, hsecond, hgap, hrest⟩ := exists_gap_of_nextOperand hnext'
      have hafter : ∀ c ∈ rest.takeWhile isGap, isGap c = true := fun c => List.mem_takeWhile_imp
      have htext : first ++ before ++ ',' :: rest =
          first ++ before ++ [','] ++ rest.takeWhile isGap ++ second ++ gap := by
        rw [List.append_nil] at hrest
        rw [List.append_assoc _ second, ← hrest, List.append_assoc _ (rest.takeWhile isGap),
          List.takeWhile_append_dropWhile, List.append_assoc _ [',']]
        rfl
      rw [htext] at hlast ⊢
      obtain rfl := eq_nil_of_getLast?_not_isGap hgap hlast
      rw [List.append_nil]
      exact .two (operandToken_of_isOperandChar hne hfirst) (gap_iff.mpr hbefore)
        (gap_iff.mpr hafter) (operandToken_of_isOperandChar hne' hsecond)
    next => contradiction
  next => contradiction

theorem written_of_parse? (h : parse? text = some line)
    (hlast : ∀ c, text.getLast? = some c → isGap c = false) : Written text line := by
  have hsplit : text.takeWhile isMnemonicChar ++ text.dropWhile isMnemonicChar = text :=
    List.takeWhile_append_dropWhile
  have hmnemonic : ∀ c ∈ text.takeWhile isMnemonicChar, c.isAlphanum = true ∨ c = '.' :=
    fun c hc => isMnemonicChar_iff.mp (List.mem_takeWhile_imp hc)
  unfold parse? at h
  split at h
  next => contradiction
  next hrest hne =>
    obtain rfl := Option.some.inj h
    rw [hrest, List.append_nil] at hsplit
    rw [hsplit] at hne hmnemonic ⊢
    exact .alone ⟨hne, hmnemonic⟩
  next c rest hrest hne =>
    split at h
    next hc =>
      obtain ⟨operands, hoperands, rfl⟩ := Option.map_eq_some_iff.mp h
      have hgap : ∀ d ∈ c :: rest.takeWhile isGap, isGap d = true :=
        List.forall_mem_cons.mpr ⟨hc, fun d => List.mem_takeWhile_imp⟩
      have htext : text = text.takeWhile isMnemonicChar ++ c :: rest.takeWhile isGap ++
          rest.dropWhile isGap := by
        rw [List.append_assoc, List.cons_append, List.takeWhile_append_dropWhile, ← hrest, hsplit]
      have hlast' : ∀ d, (rest.dropWhile isGap).getLast? = some d → isGap d = false := by
        intro d hd
        apply hlast
        rw [htext, List.getLast?_append, hd]
        rfl
      have hwritten := Written.withOperands ⟨hne, hmnemonic⟩ (List.cons_ne_nil _ _)
        (gap_iff.mpr hgap) (written_of_operands? hoperands hlast')
      rwa [← htext] at hwritten
    next => contradiction

/-- A trimmed text is cut into tokens exactly when it is a line that is made of them. -/
theorem parse?_trim_eq_some_iff :
    parse? (trim text) = some line ↔ Written (trim text) line :=
  ⟨fun h => written_of_parse? h fun _ => not_isGap_of_getLast?_trim, parse?_of_written⟩

/-- There is one way to cut a line. -/
theorem Written.unique {other : Line} (h : Written text line) (hother : Written text other) :
    line = other :=
  Option.some.inj ((parse?_of_written h).symm.trans (parse?_of_written hother))

end Line

/-! ## Mnemonics and operands -/

namespace Mnemonic

variable {text name : List Char} {mnemonic : Mnemonic}

/-- A text names a mnemonic in whatever case, by its name or by another spelling. -/
def NamedBy (mnemonic : Mnemonic) (text : List Char) : Prop :=
  text.map Char.toLower = mnemonic.name.toList ∨
    ∃ spelling, (spelling, mnemonic) ∈ aliases ∧ text.map Char.toLower = spelling.toList

theorem nodup_spellings : (spellings.map Prod.fst).Nodup := by
  decide +kernel

theorem ofName?_eq_some_iff : ofName? name = some mnemonic ↔ (name, mnemonic) ∈ spellings := by
  change (spellings.find? fun entry => entry.1 == name).map Prod.snd = some mnemonic ↔ _
  constructor
  · intro h
    obtain ⟨⟨spelling, _⟩, hfind, rfl⟩ := Option.map_eq_some_iff.mp h
    have hname := List.find?_some hfind
    obtain rfl : spelling = name := eq_of_beq hname
    exact List.mem_of_find?_eq_some hfind
  · intro hmem
    cases hfind : spellings.find? fun entry => entry.1 == name with
    | none => exact absurd (beq_self_eq_true name) (List.find?_eq_none.mp hfind _ hmem)
    | some entry =>
        have hname := List.find?_some hfind
        have hentry : entry = (name, mnemonic) :=
          List.inj_on_of_nodup_map nodup_spellings (List.mem_of_find?_eq_some hfind) hmem
            (eq_of_beq hname)
        rw [hentry, Option.map_some]

theorem mem_spellings_iff :
    (name, mnemonic) ∈ spellings ↔ name = mnemonic.name.toList ∨
      ∃ spelling, (spelling, mnemonic) ∈ aliases ∧ name = spelling.toList := by
  rw [spellings, List.mem_append, List.mem_map, List.mem_map]
  apply or_congr
  · constructor
    · rintro ⟨_, _, heq⟩
      obtain ⟨rfl, rfl⟩ := Prod.mk.inj heq
      rfl
    · rintro rfl
      exact ⟨mnemonic, mnemonic.mem_all, rfl⟩
  · constructor
    · rintro ⟨⟨spelling, _⟩, hmem, heq⟩
      obtain ⟨rfl, rfl⟩ := Prod.mk.inj heq
      exact ⟨spelling, hmem, rfl⟩
    · rintro ⟨spelling, hmem, rfl⟩
      exact ⟨(spelling, mnemonic), hmem, rfl⟩

/-- Exactly the names of a mnemonic are looked up as it. -/
theorem ofName?_map_toLower_eq_some_iff :
    ofName? (text.map Char.toLower) = some mnemonic ↔ mnemonic.NamedBy text := by
  rw [ofName?_eq_some_iff, mem_spellings_iff, NamedBy]

end Mnemonic

namespace Operand

variable {tokens : List (List Char)} {operands : List Operand} {error : AssemblyError}

theorem parseAll_eq_ok_iff :
    parseAll tokens = .ok operands ↔
      List.Forall₂ (fun token operand => parse token = .ok operand) tokens operands := by
  induction tokens generalizing operands with
  | nil => simp [parseAll, eq_comm]
  | cons token rest ih =>
      rw [List.forall₂_cons_left_iff]
      cases htoken : parse token with
      | error error => simp [parseAll, htoken]
      | ok operand =>
          simp only [parseAll, htoken, except_map_eq_ok_iff, ih, Except.ok.injEq]
          constructor
          · rintro ⟨others, hothers, rfl⟩
            exact ⟨operand, others, rfl, hothers, rfl⟩
          · rintro ⟨_, others, rfl, hothers, rfl⟩
            exact ⟨others, hothers, rfl⟩

/-- The first operand that cannot be read decides the error. -/
theorem parseAll_eq_error_iff :
    parseAll tokens = .error error ↔
      ∃ before token after, tokens = before ++ token :: after ∧
        (∀ other ∈ before, ∃ operand, parse other = .ok operand) ∧ parse token = .error error := by
  induction tokens with
  | nil => simp [parseAll]
  | cons first rest ih =>
      cases hfirst : parse first with
      | error cause =>
          simp only [parseAll, hfirst, Except.error.injEq]
          constructor
          · rintro rfl
            exact ⟨[], first, rest, rfl, by simp, hfirst⟩
          · rintro ⟨before, token, after, htokens, hbefore, htoken⟩
            cases before with
            | nil =>
                obtain ⟨rfl, rfl⟩ := List.cons.inj htokens
                exact Except.error.inj (hfirst.symm.trans htoken)
            | cons other others =>
                obtain ⟨rfl, _⟩ := List.cons.inj htokens
                obtain ⟨operand, hoperand⟩ := hbefore first List.mem_cons_self
                cases hfirst.symm.trans hoperand
      | ok operand =>
          simp only [parseAll, hfirst, except_map_eq_error_iff, ih]
          constructor
          · rintro ⟨before, token, after, rfl, hbefore, htoken⟩
            exact ⟨first :: before, token, after, rfl,
              List.forall_mem_cons.mpr ⟨⟨operand, hfirst⟩, hbefore⟩, htoken⟩
          · rintro ⟨before, token, after, htokens, hbefore, htoken⟩
            cases before with
            | nil =>
                obtain ⟨rfl, rfl⟩ := List.cons.inj htokens
                cases hfirst.symm.trans htoken
            | cons other others =>
                obtain ⟨rfl, rfl⟩ := List.cons.inj htokens
                exact ⟨others, token, after, rfl, (List.forall_mem_cons.mp hbefore).2, htoken⟩

end Operand

/-! ## Instructions -/

namespace Instruction

/-- What a text is read as. -/
inductive Reading (text : List Char) : Except AssemblyError Instruction → Prop
  /-- The text is no line. -/
  | invalidSyntax : (¬ ∃ line, Line.Written (trim text) line) →
      Reading text (.error (.invalidSyntax (trim text)))
  /-- The text is a line, but it starts with something else than a mnemonic. -/
  | unknownMnemonic {line : Line} : Line.Written (trim text) line →
      (¬ ∃ mnemonic : Mnemonic, mnemonic.NamedBy line.mnemonic) →
      Reading text (.error (.unknownMnemonic line.mnemonic))
  /-- The text has a mnemonic, and some operand is the first one that is none. -/
  | invalidOperand {line : Line} {mnemonic : Mnemonic} {before after : List (List Char)}
      {token : List Char} {error : AssemblyError} : Line.Written (trim text) line →
      mnemonic.NamedBy line.mnemonic → line.operands = before ++ token :: after →
      (∀ other ∈ before, ∃ operand, Operand.parse other = .ok operand) →
      Operand.parse token = .error error → Reading text (.error error)
  /-- The text has a mnemonic and operands. -/
  | selected {line : Line} {mnemonic : Mnemonic} {operands : List Operand} :
      Line.Written (trim text) line → mnemonic.NamedBy line.mnemonic →
      List.Forall₂ (fun token operand => Operand.parse token = .ok operand) line.operands operands →
      Reading text (select mnemonic operands)

variable {text : List Char} {result : Except AssemblyError Instruction}

theorem reading_parse (text : List Char) : Reading text (parse text) := by
  cases hline : Line.parse? (trim text) with
  | none =>
      simp only [parse, hline]
      refine .invalidSyntax ?_
      rintro ⟨line, hwritten⟩
      cases hline.symm.trans (Line.parse?_of_written hwritten)
  | some line =>
      have hwritten := Line.parse?_trim_eq_some_iff.mp hline
      cases hname : Mnemonic.ofName? (line.mnemonic.map Char.toLower) with
      | none =>
          simp only [parse, hline, hname]
          refine .unknownMnemonic hwritten ?_
          rintro ⟨mnemonic, hnamed⟩
          cases hname.symm.trans (Mnemonic.ofName?_map_toLower_eq_some_iff.mpr hnamed)
      | some mnemonic =>
          have hnamed := Mnemonic.ofName?_map_toLower_eq_some_iff.mp hname
          cases hoperands : Operand.parseAll line.operands with
          | error error =>
              simp only [parse, hline, hname, hoperands]
              obtain ⟨before, token, after, htokens, hbefore, htoken⟩ :=
                Operand.parseAll_eq_error_iff.mp hoperands
              exact .invalidOperand hwritten hnamed htokens hbefore htoken
          | ok operands =>
              simp only [parse, hline, hname, hoperands]
              exact .selected hwritten hnamed (Operand.parseAll_eq_ok_iff.mp hoperands)

theorem parse_of_reading (h : Reading text result) : parse text = result := by
  cases h with
  | invalidSyntax hnone =>
      have hline : Line.parse? (trim text) = none := by
        rw [Option.eq_none_iff_forall_ne_some]
        exact fun line h => hnone ⟨line, Line.parse?_trim_eq_some_iff.mp h⟩
      simp only [parse, hline]
  | @unknownMnemonic line hwritten hunnamed =>
      have hname : Mnemonic.ofName? (line.mnemonic.map Char.toLower) = none := by
        rw [Option.eq_none_iff_forall_ne_some]
        exact fun mnemonic h => hunnamed ⟨mnemonic, Mnemonic.ofName?_map_toLower_eq_some_iff.mp h⟩
      simp only [parse, Line.parse?_of_written hwritten, hname]
  | invalidOperand hwritten hnamed htokens hbefore htoken =>
      have hoperands := Operand.parseAll_eq_error_iff.mpr ⟨_, _, _, htokens, hbefore, htoken⟩
      simp only [parse, Line.parse?_of_written hwritten,
        Mnemonic.ofName?_map_toLower_eq_some_iff.mpr hnamed, hoperands]
  | selected hwritten hnamed hoperands =>
      simp only [parse, Line.parse?_of_written hwritten,
        Mnemonic.ofName?_map_toLower_eq_some_iff.mpr hnamed,
        Operand.parseAll_eq_ok_iff.mpr hoperands]

/-- A trimmed text is cut exactly when it is a line, which it is in one way, and what is read is what
its tokens say. An operand is read exactly when it is a register or a literal, bare or bracketed, and
its brackets are unbalanced exactly when it has some and is not the bracketed form of a text without. -/
theorem parse_follows_grammar :
    (∀ text line, Line.parse? (trim text) = some line ↔ Line.Written (trim text) line) ∧
    (∀ text first second, Line.Written text first → Line.Written text second → first = second) ∧
    (∀ text result, parse text = result ↔ Reading text result) ∧
    (∀ token operand, Operand.parse token = .ok operand ↔ Operand.Written token operand) ∧
    (∀ token, (∃ blamed, Operand.parse token = .error (.unbalancedBracket blamed)) ↔
      (∃ c ∈ token, Atom.isBracket c = true) ∧
        ¬ ∃ inner, (∀ c ∈ inner, Atom.isBracket c = false) ∧ token = Operand.bracketed inner) := by
  refine ⟨fun text line => Line.parse?_trim_eq_some_iff, fun text first second => Line.Written.unique,
    fun text result => ⟨?_, parse_of_reading⟩, fun token operand => Operand.parse_eq_ok_iff,
    fun token => Operand.parse_unbalancedBracket_iff⟩
  rintro rfl
  exact reading_parse text

/-- A line is cut at a comma with gaps around it; it is no line without an operand after the comma. -/
theorem parse_follows_grammar_around_a_comma :
    let text := "\tMovB\tJ , [0x1f]\n".toList
    let line : Line := ⟨"MovB".toList, ["J".toList, "[0x1f]".toList]⟩
    let cut := "MovB J,".toList
    Line.Written (trim text) line ∧ (∀ other, Line.Written (trim text) other → other = line) ∧
      Reading text (select (.movSized .w8) [.register .j, .indirectImmediate 0x1F]) ∧
      (∀ other, ¬ Line.Written (trim cut) other) ∧ parse cut = .error (.invalidSyntax cut) := by
  intro text line cut
  obtain ⟨hlines, hunique, hreading, _, _⟩ := parse_follows_grammar
  have hline : Line.Written (trim text) line := (hlines text line).mp (by decide +kernel)
  have hcut : ∀ other, ¬ Line.Written (trim cut) other := by
    intro other hother
    have hnone : Line.parse? (trim cut) = none := by decide +kernel
    cases hnone.symm.trans ((hlines cut other).mpr hother)
  have htrim : trim cut = cut := by decide +kernel
  refine ⟨hline, fun other hother => hunique _ _ _ hother hline,
    (hreading text _).mp (by decide +kernel), hcut, (hreading cut _).mpr ?_⟩
  have hsyntax : Reading cut (.error (.invalidSyntax (trim cut))) :=
    .invalidSyntax fun ⟨other, hother⟩ => hcut other hother
  rwa [htrim] at hsyntax

end Instruction

end TinyComputer
