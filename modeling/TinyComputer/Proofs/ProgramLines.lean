import TinyComputer.Proofs.BlankText
import TinyComputer.Proofs.LetterCase
import TinyComputer.Proofs.ProgramImage

/-!
# Programs line by line

The code of a program that is put together from two texts with a line feed between them is the code of
the first text with the code of the second one behind it. The number of a failing line is counted on
over the lines of the first text, and the first text to fail decides the error. Comments and the blanks
around a line do not count.
-/

namespace TinyComputer

open Text

/-- Every line feed starts another line. -/
theorem Text.length_lines (text : List Char) : (lines text).length = text.count '\n' + 1 := by
  unfold lines
  induction text with
  | nil => rfl
  | cons c rest ih =>
      rw [splitWhere, List.count_cons]
      split
      · rw [List.length_cons, ih]
      · rw [List.length_modifyHead, ih, Nat.add_zero]

theorem Text.lines_append (first second : List Char) :
    lines (first ++ '\n' :: second) = lines first ++ lines second :=
  splitWhere_append_cons rfl first second

theorem Text.lines_of_notMem {text : List Char} (h : '\n' ∉ text) : lines text = [text] :=
  splitWhere_of_forall_not fun _ hc => beq_false_of_ne fun heq => h (heq ▸ hc)

/-- Reading a line leaves out the blanks around it. -/
theorem Instruction.parse_trim (text : List Char) : parse (trim text) = parse text := by
  unfold parse
  rw [trim_trim]

/-- An error of a text that stands behind some other lines. -/
def ProgramError.behind (count : Nat) (error : ProgramError) : ProgramError :=
  { error with line := error.line + count }

namespace Program

/-! ## Lines -/

variable {number : Nat} {first second : List (List Char)} {instructions : List Instruction}

theorem parseLines_add (number count : Nat) (lines : List (List Char)) :
    parseLines (number + count) lines =
      (parseLines number lines).mapError (ProgramError.behind count) := by
  induction lines generalizing number with
  | nil => rfl
  | cons line rest ih =>
      rw [parseLines, parseLines, Nat.add_right_comm, ih (number + 1)]
      split
      · rfl
      · cases Instruction.parse (code line) with
        | error cause => rfl
        | ok instruction => exact (except_mapError_map _).symm

/-- Lines are read one after the other, up to the first that fails. -/
theorem parseLines_append (number : Nat) (first second : List (List Char)) :
    parseLines number (first ++ second) =
      match parseLines number first with
      | .error error => .error error
      | .ok instructions =>
          (parseLines (number + first.length) second).map (instructions ++ ·) := by
  induction first generalizing number with
  | nil =>
      rw [List.nil_append, parseLines, List.length_nil, Nat.add_zero]
      cases parseLines number second <;> rfl
  | cons line rest ih =>
      rw [List.cons_append, parseLines, parseLines, List.length_cons, ← Nat.add_assoc,
        Nat.add_right_comm, ih]
      split
      · rfl
      · cases Instruction.parse (code line) with
        | error cause => rfl
        | ok instruction =>
            cases parseLines (number + 1) rest with
            | error error => rfl
            | ok instructions => cases parseLines (number + 1 + rest.length) second <;> rfl

/-- A line that is skipped or read as an instruction. -/
def LineReads (line : List Char) : Prop :=
  code line = [] ∨ ∃ instruction, Instruction.parse (code line) = .ok instruction

/-- A line that holds something other than an instruction. -/
def LineFails (line : List Char) (cause : AssemblyError) : Prop :=
  code line ≠ [] ∧ Instruction.parse (code line) = .error cause

theorem LineFails.not_lineReads {line : List Char} {cause : AssemblyError}
    (h : LineFails line cause) : ¬ LineReads line := by
  rintro (hskip | ⟨instruction, hparse⟩)
  · exact h.1 hskip
  · cases hparse.symm.trans h.2

theorem parseLines_cons_of_lineReads {line : List Char} {rest : List (List Char)}
    {error : ProgramError} (h : LineReads line) :
    parseLines number (line :: rest) = .error error ↔ parseLines (number + 1) rest = .error error := by
  rw [parseLines]
  split
  · rfl
  next hcode =>
    rcases h with hskip | ⟨instruction, hparse⟩
    · exact absurd (by rw [hskip]; rfl) hcode
    · simp only [hparse, except_map_eq_error_iff]

theorem parseLines_cons_of_lineFails {line : List Char} {cause : AssemblyError}
    (h : LineFails line cause) (rest : List (List Char)) :
    parseLines number (line :: rest) = .error ⟨number, cause⟩ := by
  rw [parseLines, if_neg fun hskip => h.1 (List.isEmpty_iff.mp hskip)]
  simp only [h.2]

theorem lineReads_or_lineFails (line : List Char) : LineReads line ∨ ∃ cause, LineFails line cause := by
  by_cases hcode : code line = []
  · exact .inl (.inl hcode)
  · cases hparse : Instruction.parse (code line) with
    | ok instruction => exact .inl (.inr ⟨instruction, hparse⟩)
    | error cause => exact .inr ⟨cause, hcode, hparse⟩

/-- The first line that fails decides the error. -/
theorem parseLines_eq_error_iff {lines : List (List Char)} {error : ProgramError} :
    parseLines number lines = .error error ↔ ∃ before line after, lines = before ++ line :: after ∧
      error.line = number + before.length ∧ (∀ other ∈ before, LineReads other) ∧
      LineFails line error.cause := by
  induction lines generalizing number with
  | nil => simp [parseLines]
  | cons first rest ih =>
      rcases lineReads_or_lineFails first with hreads | ⟨cause, hfails⟩
      · rw [parseLines_cons_of_lineReads hreads, ih]
        constructor
        · rintro ⟨before, line, after, rfl, hnumber, hbefore, hline⟩
          refine ⟨first :: before, line, after, rfl, ?_,
            List.forall_mem_cons.mpr ⟨hreads, hbefore⟩, hline⟩
          rw [hnumber, List.length_cons]
          omega
        · rintro ⟨before, line, after, hlines, hnumber, hbefore, hline⟩
          cases before with
          | nil =>
              obtain ⟨rfl, rfl⟩ := List.cons.inj hlines
              exact absurd hreads hline.not_lineReads
          | cons other others =>
              obtain ⟨rfl, rfl⟩ := List.cons.inj hlines
              refine ⟨others, line, after, rfl, ?_, (List.forall_mem_cons.mp hbefore).2, hline⟩
              rw [hnumber, List.length_cons]
              omega
      · rw [parseLines_cons_of_lineFails hfails, Except.error.injEq]
        constructor
        · rintro rfl
          exact ⟨[], first, rest, rfl, rfl, by simp, hfails⟩
        · rintro ⟨before, line, after, hlines, hnumber, hbefore, hline⟩
          cases before with
          | nil =>
              obtain ⟨rfl, rfl⟩ := List.cons.inj hlines
              have hcause := Except.error.inj (hfails.2.symm.trans hline.2)
              obtain ⟨_, _⟩ := error
              exact congrArg₂ ProgramError.mk hnumber.symm hcause
          | cons other others =>
              obtain ⟨rfl, rfl⟩ := List.cons.inj hlines
              exact absurd (hbefore first List.mem_cons_self) hfails.not_lineReads

/-! ## Programs -/

theorem assemble_append_line (first second : List Char) :
    assemble (first ++ '\n' :: second) =
      match assemble first with
      | .error error => .error error
      | .ok bytes =>
          ((assemble second).mapError (ProgramError.behind (first.count '\n' + 1))).map
            (bytes ++ ·) := by
  unfold assemble parse
  rw [lines_append, parseLines_append, length_lines, parseLines_add]
  cases parseLines 1 (lines first) with
  | error error => rfl
  | ok instructions =>
      cases parseLines 1 (lines second) with
      | error error => rfl
      | ok others => exact congrArg Except.ok List.flatMap_append

theorem assemble_eq_error_iff {text : List Char} {error : ProgramError} :
    assemble text = .error error ↔ ∃ before line after, lines text = before ++ line :: after ∧
      error.line = before.length + 1 ∧ (∀ other ∈ before, LineReads other) ∧
      LineFails line error.cause := by
  simp only [assemble, except_map_eq_error_iff, parse, parseLines_eq_error_iff, Nat.add_comm 1]

section OneLine

variable {before body after comment : List Char}

/-- A comment and the blanks around a line are left out. -/
theorem code_of_parts (hbefore : Blank before) (hbody : ';' ∉ body) (hafter : Blank after)
    (hcomment : comment = [] ∨ comment.head? = some ';') :
    code (before ++ body ++ after ++ comment) = trim body := by
  have hnone : ∀ {blanks : List Char}, Blank blanks → ';' ∉ blanks :=
    fun hblanks hmem => absurd (hblanks ';' hmem) (by decide)
  have hmark : ';' ∉ before ++ body ++ after := by
    simp [hnone hbefore, hbody, hnone hafter]
  have hstop : comment.takeWhile (· != ';') = [] := by
    apply takeWhile_of_head?
    intro c hc
    rcases hcomment with rfl | hcomment
    · contradiction
    · obtain rfl : ';' = c := Option.some.inj (hcomment.symm.trans hc)
      rfl
  have hcode : ∀ c ∈ before ++ body ++ after, (c != ';') = true := by
    intro c hc
    refine bne_iff_ne.mpr ?_
    rintro rfl
    exact hmark hc
  rw [code, List.takeWhile_append_of_pos hcode, hstop, List.append_nil, trim_append_blank hafter,
    trim_blank_append hbefore]

/-- A text without line feeds is one line. -/
theorem assemble_of_notMem {text : List Char} (h : '\n' ∉ text) :
    assemble text =
      if code text = [] then .ok []
      else (Instruction.assemble (code text)).mapError (ProgramError.mk 1) := by
  rw [assemble, parse, lines_of_notMem h, parseLines]
  by_cases hcode : code text = []
  · rw [if_pos hcode, if_pos (List.isEmpty_iff.mpr hcode)]
    rfl
  · rw [if_neg hcode, if_neg fun hskip => hcode (List.isEmpty_iff.mp hskip), Instruction.assemble]
    cases Instruction.parse (code text) with
    | error cause => rfl
    | ok instruction => exact congrArg Except.ok (List.append_nil _)

theorem assemble_of_parts (hbefore : Blank before) (hbody : ';' ∉ body) (hafter : Blank after)
    (hcomment : comment = [] ∨ comment.head? = some ';')
    (hline : '\n' ∉ before ++ body ++ after ++ comment) :
    assemble (before ++ body ++ after ++ comment) =
      if Blank body then .ok [] else (Instruction.assemble body).mapError (ProgramError.mk 1) := by
  rw [assemble_of_notMem hline, code_of_parts hbefore hbody hafter hcomment, Instruction.assemble,
    Instruction.parse_trim, Instruction.assemble]
  exact if_congr trim_eq_nil_iff rfl rfl

end OneLine

/-- Assembling two texts with a line feed between them puts the code of the second behind the code of
the first. An error in the first text is the error of the whole; behind a text without errors, an error
in the second is the same with its number counted on over the lines in front. One line is assembled
without its comment and the blanks around it. An error comes from the first line that fails, and has its
number. -/
theorem assemble_line_by_line :
    (∀ first second bytes others, assemble first = .ok bytes → assemble second = .ok others →
      assemble (first ++ '\n' :: second) = .ok (bytes ++ others)) ∧
    (∀ first second error, assemble first = .error error →
      assemble (first ++ '\n' :: second) = .error error) ∧
    (∀ first second bytes number cause, assemble first = .ok bytes →
      assemble second = .error ⟨number, cause⟩ →
      assemble (first ++ '\n' :: second) = .error ⟨number + 1 + first.count '\n', cause⟩) ∧
    (∀ before body after comment, Blank before → ';' ∉ body → Blank after →
      (comment = [] ∨ comment.head? = some ';') → '\n' ∉ before ++ body ++ after ++ comment →
      assemble (before ++ body ++ after ++ comment) =
        if Blank body then .ok [] else (Instruction.assemble body).mapError (ProgramError.mk 1)) ∧
    (∀ text number cause, assemble text = .error ⟨number, cause⟩ ↔
      ∃ before line after, lines text = before ++ line :: after ∧ number = before.length + 1 ∧
        (∀ other ∈ before, LineReads other) ∧ LineFails line cause) := by
  refine ⟨?_, ?_, ?_, fun before body after comment hbefore hbody hafter hcomment hline =>
    assemble_of_parts hbefore hbody hafter hcomment hline, fun text number cause =>
    assemble_eq_error_iff⟩
  · intro first second bytes others hfirst hsecond
    simp only [assemble_append_line, hfirst, hsecond]
    rfl
  · intro first second error hfirst
    simp only [assemble_append_line, hfirst]
  · intro first second bytes number cause hfirst hsecond
    simp only [assemble_append_line, hfirst, hsecond]
    rw [Nat.add_right_comm]
    rfl

/-- Two texts with comments and empty lines, of which each may fail. -/
theorem assemble_line_by_line_around_comments :
    let first := "; clear\n  mov A, 0 ; by a byte".toList
    let second := "\ndec A\r\n".toList
    let wrong := "dec A\n\ndec 3 ; no form\nnone".toList
    let cause := AssemblyError.noMatchingForm .dec [.immediate 3 .w8]
    assemble (first ++ '\n' :: second) = .ok [0x02, 0x00, 0x00, 0x5B, 0x00] ∧
      assemble (wrong ++ '\n' :: first) = .error ⟨3, cause⟩ ∧
      assemble (first ++ '\n' :: wrong) = .error ⟨5, cause⟩ ∧
      assemble "\t dec A; one\r".toList = .ok [0x5B, 0x00] ∧
      ∃ before line after, lines wrong = before ++ line :: after ∧ 3 = before.length + 1 ∧
        (∀ other ∈ before, LineReads other) ∧ LineFails line cause := by
  intro first second wrong cause
  obtain ⟨hjoin, hfirst, hsecond, hline, herror⟩ := assemble_line_by_line
  have hok : assemble first = .ok [0x02, 0x00, 0x00] := by decide +kernel
  have hwrong : assemble wrong = .error ⟨3, cause⟩ := by decide +kernel
  have hone := hline ['\t', ' '] "dec A".toList [] "; one\r".toList (by decide) (by decide) (by decide)
    (.inr rfl) (by decide)
  have hbody : Instruction.assemble "dec A".toList = .ok [0x5B, 0x00] := by decide +kernel
  rw [hbody] at hone
  exact ⟨hjoin first second _ _ hok (by decide +kernel), hfirst wrong first _ hwrong,
    hsecond first wrong _ _ _ hok hwrong, hone, (herror wrong 3 cause).mp hwrong⟩

end Program

end TinyComputer
