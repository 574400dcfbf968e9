import Mathlib.Data.List.Basic
import Mathlib.Logic.Relation
import TinyComputer.Proofs.Inspection
import TinyComputer.Proofs.LineLayout

/-!
# Case and spacing make no difference

The spaces of a line can be changed at its start and end, around the comma, and after the mnemonic. What
comes out is another layout of the same tokens, so the instruction stays the same. Putting the words of a
line together with single spaces is such a layout, too, so that the debugger writes the code of the text
that was typed. The case of letters makes no difference to any text, whether it can be read or not.
-/

namespace TinyComputer

open Text

/-! ## Cutting texts -/

namespace Text

variable {p : Char → Bool} {first rest leading core trailing last : List Char}

/-- Where a text stops to satisfy a predicate does not depend on how the text is put together. -/
theorem append_inj_of_head? {first' rest' : List Char} (h : first ++ rest = first' ++ rest')
    (hfirst : ∀ c ∈ first, p c = true) (hrest : ∀ c, rest.head? = some c → p c = false)
    (hfirst' : ∀ c ∈ first', p c = true) (hrest' : ∀ c, rest'.head? = some c → p c = false) :
    first = first' ∧ rest = rest' := by
  have htake := congrArg (List.takeWhile p) h
  rw [List.takeWhile_append_of_pos hfirst, takeWhile_of_head? hrest,
    List.takeWhile_append_of_pos hfirst', takeWhile_of_head? hrest', List.append_nil,
    List.append_nil] at htake
  subst htake
  exact ⟨rfl, List.append_cancel_left h⟩

/-- A part that satisfies a predicate ends before something that does not. -/
theorem exists_cut_of_head? (h : first ++ rest = leading ++ core) (hfirst : ∀ c ∈ first, p c = true)
    (hcore : ∀ c, core.head? = some c → p c = false) :
    ∃ cut, leading = first ++ cut ∧ rest = cut ++ core := by
  rcases List.append_eq_append_iff.mp h with hcut | ⟨beyond, rfl, rfl⟩
  · exact hcut
  · cases beyond with
    | nil => exact ⟨[], by simp, rfl⟩
    | cons c others =>
        have hc := hfirst c (List.mem_append_right _ List.mem_cons_self)
        rw [hcore c rfl] at hc
        contradiction

/-- A part that satisfies a predicate starts behind something that does not. -/
theorem exists_cut_of_getLast? (h : rest ++ last = core ++ trailing) (hlast : ∀ c ∈ last, p c = true)
    (hcore : ∀ c, core.getLast? = some c → p c = false) :
    ∃ cut, trailing = cut ++ last ∧ rest = core ++ cut := by
  rcases List.append_eq_append_iff.mp h with ⟨beyond, rfl, rfl⟩ | ⟨cut, hrest, htrailing⟩
  · rcases List.eq_nil_or_concat beyond with rfl | ⟨others, c, rfl⟩
    · exact ⟨[], rfl, by simp⟩
    · have hc := hlast c (by simp)
      rw [hcore c (by simp)] at hc
      contradiction
  · exact ⟨cut, htrailing, hrest⟩

end Text

namespace Line

/-- A change of spaces and tabs: at the start or at the end, on either side of a comma, or of the gap
after a mnemonic with which the text starts. -/
inductive Respaced : List Char → List Char → Prop
  | start {gap gap' text : List Char} : Gap gap → Gap gap' → Respaced (gap ++ text) (gap' ++ text)
  | finish {text gap gap' : List Char} : Gap gap → Gap gap' → Respaced (text ++ gap) (text ++ gap')
  | comma {left before after before' after' right : List Char} : Gap before → Gap after →
      Gap before' → Gap after' →
      Respaced (left ++ before ++ ',' :: (after ++ right)) (left ++ before' ++ ',' :: (after' ++ right))
  | mnemonic {leading mnemonic gap gap' rest : List Char} : Blank leading → MnemonicToken mnemonic →
      gap ≠ [] → Gap gap → gap' ≠ [] → Gap gap' →
      Respaced (leading ++ (mnemonic ++ (gap ++ rest))) (leading ++ (mnemonic ++ (gap' ++ rest)))

variable {line : Line} {layout : Layout} {text other : List Char} {instruction : Instruction}

theorem blank_of_gap (h : Gap text) : Blank text :=
  fun c hc => isBlank_of_isGap (gap_iff.mp h c hc)

theorem blank_append {first second : List Char} (hfirst : Blank first) (hsecond : Blank second) :
    Blank (first ++ second) :=
  List.forall_mem_append.mpr ⟨hfirst, hsecond⟩

theorem gap_append {first second : List Char} (hfirst : Gap first) (hsecond : Gap second) :
    Gap (first ++ second) :=
  List.forall_mem_append.mpr ⟨hfirst, hsecond⟩

theorem not_isBlank_of_head?_body (h : line.Plain) {c : Char} {rest : List Char}
    (hc : (layout.body line ++ rest).head? = some c) : isBlank c = false := by
  rw [Layout.body, List.append_assoc, List.head?_append_of_ne_nil _ h.mnemonic_ne_nil] at hc
  exact h.not_isBlank c (List.mem_of_head? hc)

theorem body_ne_nil (h : line.Plain) : layout.body line ≠ [] :=
  List.append_ne_nil_of_left_ne_nil h.mnemonic_ne_nil _

theorem not_isBlank_of_getLast?_body (h : line.Plain) {c : Char} {front : List Char}
    (hc : (front ++ layout.body line).getLast? = some c) : isBlank c = false := by
  rw [List.getLast?_append_of_ne_nil _ (body_ne_nil h), ← layout.trim_body h] at hc
  exact not_isBlank_of_getLast?_trim hc

/-! ## Changes of spaces -/

section Changes

variable {left right mnemonic gap gap' before before' after after' rest : List Char}

theorem exists_layout_of_start (h : line.Plain) (htext : gap ++ rest = layout.text line)
    (hgap : Gap gap) (hgap' : Gap gap') : ∃ changed : Layout, changed.text line = gap' ++ rest := by
  rw [Layout.text, List.append_assoc] at htext
  obtain ⟨cut, hleading, rfl⟩ := exists_cut_of_head? htext (blank_of_gap hgap)
    fun c hc => not_isBlank_of_head?_body h hc
  have hcut : Blank cut := fun c hc =>
    layout.blank_leading c (hleading ▸ List.mem_append_right _ hc)
  refine ⟨{ layout with
    leading := gap' ++ cut, blank_leading := blank_append (blank_of_gap hgap') hcut }, ?_⟩
  change gap' ++ cut ++ layout.body line ++ layout.trailing = _
  simp only [List.append_assoc]

theorem exists_layout_of_finish (h : line.Plain) (htext : rest ++ gap = layout.text line)
    (hgap : Gap gap) (hgap' : Gap gap') : ∃ changed : Layout, changed.text line = rest ++ gap' := by
  obtain ⟨cut, htrailing, rfl⟩ := exists_cut_of_getLast? htext (blank_of_gap hgap)
    fun c hc => not_isBlank_of_getLast?_body h hc
  have hcut : Blank cut := fun c hc =>
    layout.blank_trailing c (htrailing ▸ List.mem_append_left _ hc)
  refine ⟨{ layout with
    trailing := cut ++ gap', blank_trailing := blank_append hcut (blank_of_gap hgap') }, ?_⟩
  change layout.leading ++ layout.body line ++ (cut ++ gap') = _
  simp only [List.append_assoc]

/-! ### Around the comma -/

/-- What a layout of two operands has in front of the gaps around its comma. -/
def Layout.front (layout : Layout) (name first : List Char) : List Char :=
  layout.leading ++ name ++ layout.gap ++ first

theorem Layout.text_two (layout : Layout) {name first second : List Char} (hbefore : Gap before)
    (hafter : Gap after) :
    { layout with before, after, gap_before := hbefore, gap_after := hafter }.text
        ⟨name, [first, second]⟩ =
      layout.front name first ++ before ++ ',' :: (after ++ (second ++ layout.trailing)) := by
  change layout.leading ++ (name ++ (layout.gap ++ first ++ before ++ [','] ++ after ++ second)) ++
    layout.trailing = _
  simp only [Layout.front, List.append_assoc, List.cons_append, List.nil_append]

theorem not_mem_of_blank {blanks : List Char} (h : Blank blanks) : ',' ∉ blanks :=
  fun hmem => absurd (h ',' hmem) (by decide)

/-- A comma stands between operands only. -/
theorem two_operands_of_comma (h : line.Plain) (hcomma : ',' ∈ layout.text line) :
    ∃ first second, line.operands = [first, second] := by
  have hname : ',' ∉ line.mnemonic := fun hmem => absurd (h.isMnemonicChar ',' hmem) (by decide)
  have hleading := not_mem_of_blank layout.blank_leading
  have htrailing := not_mem_of_blank layout.blank_trailing
  have hgap := not_mem_of_blank (blank_of_gap layout.gap_gap)
  obtain ⟨name, operands⟩ := line
  rcases h.operands_cases with rfl | ⟨token, rfl⟩ | ⟨first, second, rfl⟩
  · simp_all [Layout.text, Layout.body, Layout.operandText]
  · have htoken : ',' ∉ token := fun hmem =>
      absurd (h.isTokenChar token List.mem_cons_self ',' hmem).1 (by decide)
    simp_all [Layout.text, Layout.body, Layout.operandText]
  · exact ⟨first, second, rfl⟩

theorem not_mem_of_isOperandChar {token : List Char} (h : ∀ c ∈ token, isOperandChar c = true) :
    ',' ∉ token :=
  fun hmem => absurd (h ',' hmem) (by decide)

/-- The comma of a text with two operands is the one of its layout. -/
theorem split_at_comma {name first second : List Char} (h : Plain ⟨name, [first, second]⟩)
    (htext : left ++ ',' :: right = layout.text ⟨name, [first, second]⟩) :
    left = layout.front name first ++ layout.before ∧
      right = layout.after ++ (second ++ layout.trailing) := by
  have hname : ',' ∉ name := fun hmem => absurd (h.isMnemonicChar ',' hmem) (by decide)
  have htoken : ∀ token ∈ [first, second], ',' ∉ token := fun token hmem =>
    not_mem_of_isOperandChar (Layout.operandToken_of_plain h token hmem).isOperandChar
  have hfirst := htoken first List.mem_cons_self
  have hsecond := htoken second (List.mem_cons_of_mem _ List.mem_cons_self)
  have hleft : ',' ∉ layout.front name first ++ layout.before := by
    have hleading := not_mem_of_blank layout.blank_leading
    have hgap := not_mem_of_blank (blank_of_gap layout.gap_gap)
    have hbefore := not_mem_of_blank (blank_of_gap layout.gap_before)
    simp [Layout.front, hleading, hname, hgap, hfirst, hbefore]
  have hright : ',' ∉ layout.after ++ (second ++ layout.trailing) := by
    have hafter := not_mem_of_blank (blank_of_gap layout.gap_after)
    have htrailing := not_mem_of_blank layout.blank_trailing
    simp [hafter, hsecond, htrailing]
  have hlayout := @Layout.text_two _ _ layout name first second layout.gap_before layout.gap_after
  obtain ⟨hfront, _, hback⟩ :=
    (List.append_cons_inj_of_notMem hleft hright).mp (hlayout.symm.trans htext.symm)
  exact ⟨hfront.symm, hback.symm⟩

theorem exists_layout_of_comma (h : line.Plain)
    (htext : left ++ before ++ ',' :: (after ++ right) = layout.text line) (hbefore : Gap before)
    (hafter : Gap after) (hbefore' : Gap before') (hafter' : Gap after') :
    ∃ changed : Layout, changed.text line = left ++ before' ++ ',' :: (after' ++ right) := by
  have hcomma : ',' ∈ layout.text line := by
    rw [← htext]
    exact List.mem_append_right _ List.mem_cons_self
  obtain ⟨first, second, hoperands⟩ := two_operands_of_comma h hcomma
  obtain ⟨name, _⟩ := line
  subst hoperands
  have htoken := Layout.operandToken_of_plain h
  obtain ⟨hfront, hback⟩ := split_at_comma h htext
  obtain ⟨cut, hcut, rfl⟩ := exists_cut_of_getLast? hfront (gap_iff.mp hbefore)
    (fun c hc => by
      rw [Layout.front, List.getLast?_append_of_ne_nil _ (h.operand_ne_nil first List.mem_cons_self)]
        at hc
      exact not_isGap_of_isOperandChar
        ((htoken first List.mem_cons_self).isOperandChar c (List.mem_of_getLast? hc)))
  obtain ⟨cut', hcut', rfl⟩ := exists_cut_of_head? hback (gap_iff.mp hafter)
    (fun c hc => (htoken second (List.mem_cons_of_mem _ List.mem_cons_self)).not_isGap_of_head? hc)
  have hgap : Gap (cut ++ before') :=
    gap_append (fun c hc => layout.gap_before c (hcut ▸ List.mem_append_left _ hc)) hbefore'
  have hgap' : Gap (after' ++ cut') :=
    gap_append hafter' fun c hc => layout.gap_after c (hcut' ▸ List.mem_append_right _ hc)
  refine ⟨_, (layout.text_two hgap hgap').trans ?_⟩
  simp only [List.append_assoc]

/-! ### After the mnemonic -/

theorem not_isMnemonicChar_of_isBlank {c : Char} (h : isBlank c = true) :
    isMnemonicChar c = false :=
  Bool.eq_false_iff.mpr fun hc => Bool.false_ne_true ((not_isBlank_of_isMnemonicChar hc).symm.trans h)

/-- Operands follow a gap, whichever gap it is. -/
theorem exists_operandText (layout : Layout) (h : line.Plain) (hne : line.operands ≠ []) :
    ∃ operands, (∀ c, (operands ++ rest).head? = some c → isGap c = false) ∧
      ∀ (gap : List Char) (hne : gap ≠ []) (hgap : Gap gap),
        { layout with gap, gap_ne_nil := hne, gap_gap := hgap }.operandText line.operands =
          gap ++ operands := by
  obtain ⟨name, operands⟩ := line
  have htoken := Layout.operandToken_of_plain h
  rcases h.operands_cases with rfl | ⟨token, rfl⟩ | ⟨first, second, rfl⟩
  · exact absurd rfl hne
  · exact ⟨token, fun c hc => (htoken token List.mem_cons_self).not_isGap_of_head? hc,
      fun gap _ _ => rfl⟩
  · refine ⟨first ++ (layout.before ++ [','] ++ layout.after ++ second), fun c hc => ?_,
      fun gap _ _ => ?_⟩
    · rw [List.append_assoc] at hc
      exact (htoken first List.mem_cons_self).not_isGap_of_head? hc
    · simp only [Layout.operandText, List.append_assoc]

theorem isBlank_of_head?_operandText (layout : Layout) (h : line.Plain) {c : Char}
    (hc : (layout.operandText line.operands ++ layout.trailing).head? = some c) :
    isBlank c = true := by
  by_cases hne : line.operands = []
  · rw [hne] at hc
    exact layout.blank_trailing c (List.mem_of_head? hc)
  · obtain ⟨operands, _, htext⟩ := @exists_operandText _ [] layout h hne
    rw [htext layout.gap layout.gap_ne_nil layout.gap_gap, List.append_assoc,
      List.head?_append_of_ne_nil _ layout.gap_ne_nil] at hc
    exact blank_of_gap layout.gap_gap c (List.mem_of_head? hc)

/-- The blanks and the mnemonic that a text starts with are the ones of its layout. -/
theorem split_at_mnemonic (h : line.Plain)
    (htext : left ++ (mnemonic ++ (gap ++ rest)) = layout.text line) (hleft : Blank left)
    (hmnemonic : MnemonicToken mnemonic) (hne : gap ≠ []) (hgap : Gap gap) :
    left = layout.leading ∧ mnemonic = line.mnemonic ∧
      gap ++ rest = layout.operandText line.operands ++ layout.trailing := by
  rw [Layout.text, Layout.body, List.append_assoc, List.append_assoc] at htext
  obtain ⟨hleading, hbody⟩ := append_inj_of_head? htext hleft
    (fun c hc => by
      rw [List.head?_append_of_ne_nil _ hmnemonic.ne_nil] at hc
      exact not_isBlank_of_isMnemonicChar (hmnemonic.isMnemonicChar c (List.mem_of_head? hc)))
    layout.blank_leading
    (fun c hc => by
      rw [List.head?_append_of_ne_nil _ h.mnemonic_ne_nil] at hc
      exact h.not_isBlank c (List.mem_of_head? hc))
  obtain ⟨hname, hrest⟩ := append_inj_of_head? hbody hmnemonic.isMnemonicChar
    (fun c hc => by
      rw [List.head?_append_of_ne_nil _ hne] at hc
      exact not_isMnemonicChar_of_isBlank (blank_of_gap hgap c (List.mem_of_head? hc)))
    h.isMnemonicChar
    fun c hc => not_isMnemonicChar_of_isBlank (isBlank_of_head?_operandText layout h hc)
  exact ⟨hleading, hname, hrest⟩

theorem exists_layout_of_mnemonic (h : line.Plain)
    (htext : left ++ (mnemonic ++ (gap ++ rest)) = layout.text line) (hleft : Blank left)
    (hmnemonic : MnemonicToken mnemonic) (hne : gap ≠ []) (hgap : Gap gap) (hne' : gap' ≠ [])
    (hgap' : Gap gap') :
    ∃ changed : Layout, changed.text line = left ++ (mnemonic ++ (gap' ++ rest)) := by
  obtain ⟨rfl, rfl, hrest⟩ := split_at_mnemonic h htext hleft hmnemonic hne hgap
  by_cases hoperands : line.operands = []
  · -- Without operands, the gap belongs to the blanks at the end.
    rw [hoperands, Layout.operandText, List.nil_append] at hrest
    have hblank : Blank rest := fun c hc =>
      layout.blank_trailing c (hrest ▸ List.mem_append_right _ hc)
    refine ⟨{ layout with
      trailing := gap' ++ rest, blank_trailing := blank_append (blank_of_gap hgap') hblank }, ?_⟩
    change layout.leading ++ (line.mnemonic ++ layout.operandText line.operands) ++ _ = _
    rw [hoperands, Layout.operandText, List.append_nil, List.append_assoc]
  · obtain ⟨operands, hhead, hlayout⟩ := exists_operandText layout h hoperands
    have hsame := hlayout layout.gap layout.gap_ne_nil layout.gap_gap
    change layout.operandText line.operands = _ at hsame
    rw [hsame, List.append_assoc] at hrest
    obtain ⟨cut, hcut, rfl⟩ := exists_cut_of_head? hrest (gap_iff.mp hgap) hhead
    have hgapcut : Gap (gap' ++ cut) :=
      gap_append hgap' fun c hc => layout.gap_gap c (hcut ▸ List.mem_append_right _ hc)
    refine ⟨{ layout with
      gap := gap' ++ cut, gap_ne_nil := List.append_ne_nil_of_left_ne_nil hne' _
      gap_gap := hgapcut }, ?_⟩
    rw [Layout.text, Layout.body, hlayout]
    simp only [List.append_assoc]

/-- A change of spaces gives another layout of the same tokens. -/
theorem Respaced.exists_layout (h : Respaced text other) (hplain : line.Plain)
    (htext : text = layout.text line) : ∃ changed : Layout, changed.text line = other := by
  cases h with
  | start hgap hgap' => exact exists_layout_of_start hplain htext hgap hgap'
  | finish hgap hgap' => exact exists_layout_of_finish hplain htext hgap hgap'
  | comma hbefore hafter hbefore' hafter' =>
      exact exists_layout_of_comma hplain htext hbefore hafter hbefore' hafter'
  | mnemonic hleading hmnemonic hne hgap hne' hgap' =>
      exact exists_layout_of_mnemonic hplain htext hleading hmnemonic hne hgap hne' hgap'

end Changes

/-- What a text is read as stays the same when its spaces change. -/
theorem Respaced.parse_eq_ok (h : Respaced text other)
    (hparse : Instruction.parse text = .ok instruction) :
    Instruction.parse other = .ok instruction := by
  obtain ⟨line, layout, hplain, hread, rfl⟩ := exists_layout_of_parse hparse
  obtain ⟨changed, rfl⟩ := h.exists_layout hplain rfl
  rw [changed.parse_text hplain, hread]

theorem parse_eq_ok_of_respaced (h : Relation.ReflTransGen Respaced text other)
    (hparse : Instruction.parse text = .ok instruction) :
    Instruction.parse other = .ok instruction := by
  induction h with
  | refl => exact hparse
  | tail _ hlast ih => exact hlast.parse_eq_ok ih

/-! ## Words put together again -/

theorem solid_of_mem_operands (h : line.Plain) : ∀ token ∈ line.operands, Solid token :=
  fun token hmem c hc => (h.isTokenChar token hmem c hc).2

theorem gap_oneSpace (gap : List Char) : Gap (oneSpace gap) := by
  unfold oneSpace
  split <;> simp [Gap]

/-- Single spaces for all gaps are a layout of the same tokens. -/
theorem exists_layout_respace (layout : Layout) (h : line.Plain) :
    ∃ changed : Layout, changed.text line = respace (layout.text line) := by
  have hbody : respace (layout.text line) = respace (layout.body line) := by
    rw [respace, respace, Layout.text, words_append_blank layout.blank_trailing,
      words_blank_append layout.blank_leading]
  have hname : Solid line.mnemonic := h.not_isBlank
  have hnameNe := h.mnemonic_ne_nil
  have htoken := solid_of_mem_operands h
  have htokenNe := h.operand_ne_nil
  have hgap := blank_of_gap layout.gap_gap
  have hspace := oneSpace_ne_nil layout.gap_ne_nil
  rw [hbody]
  obtain ⟨name, operands⟩ := line
  rcases h.operands_cases with rfl | ⟨token, rfl⟩ | ⟨first, second, rfl⟩
  · refine ⟨simpleLayout, ?_⟩
    rw [Layout.body, Layout.operandText, List.append_nil, respace_of_solid hname hnameNe]
    simp [Layout.text, Layout.body, Layout.operandText, simpleLayout]
  · have hsolid := htoken token List.mem_cons_self
    have hne := htokenNe token List.mem_cons_self
    have hrespace := respace_append hname hnameNe hgap hsolid hne []
    rw [List.append_nil, respace_of_solid hsolid hne, hspace] at hrespace
    refine ⟨simpleLayout, ?_⟩
    rw [Layout.body, Layout.operandText, hrespace]
    simp [Layout.text, Layout.body, Layout.operandText, simpleLayout]
  · have hmem : second ∈ [first, second] := List.mem_cons_of_mem _ List.mem_cons_self
    have hcomma : Solid [','] := by decide
    have hlast := respace_append hcomma (by decide) (blank_of_gap layout.gap_after)
      (htoken second hmem) (htokenNe second hmem) []
    rw [List.append_nil, respace_of_solid (htoken second hmem) (htokenNe second hmem)] at hlast
    refine ⟨{ simpleLayout with
      before := oneSpace layout.before, after := oneSpace layout.after
      gap_before := gap_oneSpace _, gap_after := gap_oneSpace _ }, ?_⟩
    have hfirst := htoken first List.mem_cons_self
    have hfirstNe := htokenNe first List.mem_cons_self
    simp only [Layout.body, Layout.operandText, List.append_assoc]
    rw [respace_append hname hnameNe hgap hfirst hfirstNe, hspace,
      respace_append hfirst hfirstNe (blank_of_gap layout.gap_before) hcomma (by decide), hlast]
    simp [Layout.text, Layout.body, Layout.operandText, simpleLayout]

theorem parse_respace (h : Instruction.parse text = .ok instruction) :
    Instruction.parse (respace text) = .ok instruction := by
  obtain ⟨line, layout, hplain, hread, rfl⟩ := exists_layout_of_parse h
  obtain ⟨changed, hrespace⟩ := exists_layout_respace layout hplain
  rw [← hrespace, changed.parse_text hplain, hread]

end Line

/-! ## Instructions typed into the debugger -/

theorem Command.parseInstruction_words {text : List Char} {instruction : Instruction}
    (h : Instruction.parse text = .ok instruction) :
    parseInstruction (words text) = .ok instruction := by
  have hrespace := Line.parse_respace h
  cases hwords : words text with
  | nil =>
      rw [respace, hwords] at hrespace
      contradiction
  | cons word others =>
      rw [respace, hwords] at hrespace
      simp only [parseInstruction, hrespace]

namespace Debugger

variable {debugger : Debugger} {first second token text : List Char} {address : Word}
variable {instruction : Instruction}

/-- A line that writes an instruction to an address. -/
theorem words_assemble (hfirst : Blank first) (hfirstNe : first ≠ []) (htoken : Solid token)
    (htokenNe : token ≠ []) (hsecond : Blank second) (hsecondNe : second ≠ []) (text : List Char) :
    words (['a'] ++ first ++ (token ++ second ++ text)) = ['a'] :: token :: words text := by
  have hname : Solid ['a'] := by decide
  rw [words_append_gap hname (List.cons_ne_nil _ _) hfirst hfirstNe,
    words_append_gap htoken htokenNe hsecond hsecondNe]

theorem interpret_assemble {line : List Char} (hline : words line = ['a'] :: token :: words text)
    (haddress : debugger.context.address token = .ok address)
    (hparse : Instruction.parse text = .ok instruction) :
    debugger.interpret line = debugger.assemble address instruction := by
  have hcommand : debugger.command? line = some (.assemble address instruction) := by
    refine command?_eq_some_iff.mpr ⟨['a'], token :: words text, hline, ?_⟩
    simp only [Command.parse, List.head?_cons, List.tail_cons, CommandContext.requiredAddress,
      haddress, Command.parseInstruction_words hparse]
    rfl
  rw [interpret_of_command? hcommand]
  rfl

end Debugger

namespace Instruction

theorem assemble_eq_ok_iff {text : List Char} {bytes : List Byte} :
    assemble text = .ok bytes ↔
      ∃ instruction, parse text = .ok instruction ∧ instruction.encode = bytes :=
  except_map_eq_ok_iff

/-- Texts that differ in the case of letters are read as the same instruction or fail for the same
reason, and a text that is read stays the same instruction when its gaps change. The debugger writes
the bytes of the text that was typed. -/
theorem parse_ignores_case_and_spacing :
    (∀ first second, Text.lower first = Text.lower second →
      (∀ instruction, parse first = .ok instruction ↔ parse second = .ok instruction) ∧
      (∀ error, parse first = .error error →
        ∃ other, parse second = .error other ∧ other.lower = error.lower)) ∧
    (∀ text respaced instruction, Relation.ReflTransGen Line.Respaced text respaced →
      parse text = .ok instruction → parse respaced = .ok instruction) ∧
    (∀ (debugger : Debugger) (first token second text : List Char) (address : Word)
        (bytes : List Byte),
      Blank first → first ≠ [] → Solid token → token ≠ [] → Blank second → second ≠ [] →
      debugger.context.address token = .ok address → assemble text = .ok bytes →
      ∃ answer, debugger.interpret (['a'] ++ first ++ (token ++ second ++ text)) =
        (.ok answer, ((debugger.mapBoard (·.writeBytes address bytes)).withMachine
          (·.disassemble address)).2)) := by
  refine ⟨fun first second h => ?_,
    fun text respaced instruction h hparse => Line.parse_eq_ok_of_respaced h hparse, ?_⟩
  · have hcase := parse_mapError_of_lower_eq h
    constructor
    · intro instruction
      rw [← except_mapError_eq_ok_iff, hcase, except_mapError_eq_ok_iff]
    · intro error herror
      rw [herror] at hcase
      exact except_mapError_eq_error_iff.mp hcase.symm
  · intro debugger first token second text address bytes hfirst hfirstNe htoken htokenNe hsecond
      hsecondNe haddress hbytes
    obtain ⟨instruction, hparse, rfl⟩ := assemble_eq_ok_iff.mp hbytes
    have hline := Debugger.words_assemble hfirst hfirstNe htoken htokenNe hsecond hsecondNe text
    exact ⟨_, Debugger.interpret_assemble hline haddress hparse⟩

/-- A load in mixed case, with other gaps at its start, after its mnemonic and around its comma, typed
into the debugger. -/
theorem parse_ignores_case_and_spacing_of_byte_load :
    let text := "MovB J,[0X1f]".toList
    let respaced := "\tMovB \t J ,\t[0X1f]".toList
    let instruction : Instruction :=
      ⟨⟨0x06, .movSized .w8, [.register, .indirectImmediate]⟩, [.register .j, .indirectImmediate 0x1F]⟩
    let debugger := Debugger.ofMachine ⟨Board.empty { ramSize := 0x40 }, .empty⟩
    parse "mOVb j,[0x1F]".toList = .ok instruction ∧
      Relation.ReflTransGen Line.Respaced text respaced ∧ parse respaced = .ok instruction ∧
      ∃ answer, debugger.interpret (['a'] ++ ['\t'] ++ ("0x10".toList ++ [' '] ++ respaced)) =
        (.ok answer, ((debugger.mapBoard (·.writeBytes 0x10 instruction.encode)).withMachine
          (·.disassemble 0x10)).2) := by
  intro text respaced instruction debugger
  obtain ⟨hcase, hspacing, htyped⟩ := parse_ignores_case_and_spacing
  have hparse : parse text = .ok instruction := by decide +kernel
  have hgap : ∀ {gap : List Char}, gap.all Line.isGap = true → Line.Gap gap :=
    fun h => Line.gap_iff.mpr (List.all_eq_true.mp h)
  have hchars : ∀ c ∈ "MovB".toList, c.isAlphanum = true ∨ c = '.' :=
    fun c hc => Line.isMnemonicChar_iff.mp (List.all_eq_true.mp (by decide) c hc)
  have hstart : Line.Respaced ([] ++ text) (['\t'] ++ text) := .start (hgap rfl) (hgap rfl)
  have hmnemonic : Line.Respaced (['\t'] ++ ("MovB".toList ++ ([' '] ++ "J,[0X1f]".toList)))
      (['\t'] ++ ("MovB".toList ++ (" \t ".toList ++ "J,[0X1f]".toList))) :=
    .mnemonic (by decide) ⟨by decide, hchars⟩ (by decide) (hgap rfl) (by decide) (hgap rfl)
  have hcomma : Line.Respaced ("\tMovB \t J".toList ++ [] ++ ',' :: ([] ++ "[0X1f]".toList))
      ("\tMovB \t J".toList ++ [' '] ++ ',' :: (['\t'] ++ "[0X1f]".toList)) :=
    .comma (hgap rfl) (hgap rfl) (hgap rfl) (hgap rfl)
  have hrespaced : Relation.ReflTransGen Line.Respaced text respaced :=
    ((Relation.ReflTransGen.single hstart).tail hmnemonic).tail hcomma
  have hsame := hspacing text respaced instruction hrespaced hparse
  have htoken : debugger.context.address "0x10".toList = .ok 0x10 := by decide +kernel
  refine ⟨((hcase _ _ (by decide +kernel)).1 instruction).mp hparse, hrespaced, hsame, ?_⟩
  exact htyped debugger ['\t'] "0x10".toList [' '] respaced 0x10 instruction.encode (by decide)
    (by decide) (by decide) (by decide) (by decide) (by decide) htoken
    (assemble_eq_ok_iff.mpr ⟨instruction, hsame, rfl⟩)

end Instruction

end TinyComputer
