import TinyComputer.Proofs.InstructionText

/-!
# Blanks around and between words

Trimming takes away blanks at both ends of a text and nothing else. The words of a text are the same
whatever blanks stand around and between them, so that joining the words again puts one space for each
gap and leaves what has no gap together.
-/

namespace TinyComputer.Text

/-- A text of blanks only. -/
def Blank (text : List Char) : Prop :=
  ∀ c ∈ text, isBlank c = true

/-- A text without blanks. -/
def Solid (text : List Char) : Prop :=
  ∀ c ∈ text, isBlank c = false

instance (text : List Char) : Decidable (Blank text) :=
  List.decidableBAll _ text

instance (text : List Char) : Decidable (Solid text) :=
  List.decidableBAll _ text

variable {blanks text word rest : List Char}

/-! ## Trimming -/

theorem trim_blank_append (h : Blank blanks) (text : List Char) :
    trim (blanks ++ text) = trim text := by
  rw [trim, List.dropWhile_append_of_pos h, trim]

theorem trimEnd_append_blank (h : Blank blanks) (text : List Char) :
    trimEnd (text ++ blanks) = trimEnd text := by
  have hreverse : Blank blanks.reverse := fun c hc => h c (List.mem_reverse.mp hc)
  rw [trimEnd, List.reverse_append, List.dropWhile_append_of_pos hreverse, trimEnd]

theorem trim_append_blank (h : Blank blanks) (text : List Char) :
    trim (text ++ blanks) = trim text := by
  rw [trim, trim, List.dropWhile_append]
  split
  next hempty =>
    have hnone : blanks.dropWhile isBlank = [] := List.dropWhile_eq_nil_iff.mpr h
    rw [hnone, List.isEmpty_iff.mp hempty]
  next => exact trimEnd_append_blank h _

/-- What is taken away is blank. -/
theorem exists_blank_trim (text : List Char) :
    ∃ leading trailing, Blank leading ∧ Blank trailing ∧ text = leading ++ trim text ++ trailing := by
  let inner := text.dropWhile isBlank
  refine ⟨text.takeWhile isBlank, (inner.reverse.takeWhile isBlank).reverse,
    fun c => List.mem_takeWhile_imp,
    fun c hc => List.mem_takeWhile_imp (List.mem_reverse.mp hc), ?_⟩
  have hinner : trim text ++ (inner.reverse.takeWhile isBlank).reverse = inner := by
    rw [trim, trimEnd, ← List.reverse_append, List.takeWhile_append_dropWhile, List.reverse_reverse]
  rw [List.append_assoc, hinner, List.takeWhile_append_dropWhile]

theorem trim_trim (text : List Char) : trim (trim text) = trim text := by
  obtain ⟨leading, trailing, hleading, htrailing, htext⟩ := exists_blank_trim text
  conv_rhs => rw [htext]
  rw [trim_append_blank htrailing, trim_blank_append hleading]

theorem trim_eq_nil_iff : trim text = [] ↔ Blank text := by
  constructor
  · intro h
    obtain ⟨leading, trailing, hleading, htrailing, htext⟩ := exists_blank_trim text
    rw [h, List.append_nil] at htext
    rw [htext]
    exact List.forall_mem_append.mpr ⟨hleading, htrailing⟩
  · intro h
    have hnone := trim_append_blank h []
    rwa [List.nil_append] at hnone

/-! ## Words -/

/-- A blank ends a word. All else about words comes from this. -/
theorem words_append_blank_cons {c : Char} (hc : isBlank c = true) (left right : List Char) :
    words (left ++ c :: right) = words left ++ words right := by
  rw [words, splitWhere_append_cons hc, List.filter_append]
  rfl

theorem words_cons_of_blank {c : Char} (hc : isBlank c = true) (text : List Char) :
    words (c :: text) = words text :=
  words_append_blank_cons hc [] text

theorem words_blank_append (h : Blank blanks) (text : List Char) :
    words (blanks ++ text) = words text := by
  induction blanks with
  | nil => rfl
  | cons c rest ih =>
      obtain ⟨hc, hrest⟩ := List.forall_mem_cons.mp h
      rw [List.cons_append, words_cons_of_blank hc, ih hrest]

theorem words_blank (h : Blank blanks) : words blanks = [] := by
  rw [← List.append_nil blanks, words_blank_append h]
  rfl

theorem words_append_blank (h : Blank blanks) (text : List Char) :
    words (text ++ blanks) = words text := by
  cases blanks with
  | nil => rw [List.append_nil]
  | cons c rest =>
      obtain ⟨hc, hrest⟩ := List.forall_mem_cons.mp h
      rw [words_append_blank_cons hc, words_blank hrest, List.append_nil]

theorem words_of_solid (h : Solid word) (hne : word ≠ []) : words word = [word] := by
  rw [words, splitWhere_of_forall_not h, List.filter_singleton]
  cases word with
  | nil => contradiction
  | cons c rest => rfl

/-- A gap ends a word. -/
theorem words_append_gap (h : Solid word) (hne : word ≠ []) (hblanks : Blank blanks)
    (hgap : blanks ≠ []) (rest : List Char) : words (word ++ blanks ++ rest) = word :: words rest := by
  obtain ⟨c, others, rfl⟩ := List.exists_cons_of_ne_nil hgap
  obtain ⟨hc, hothers⟩ := List.forall_mem_cons.mp hblanks
  rw [List.append_assoc, List.cons_append, words_append_blank_cons hc, words_of_solid h hne,
    words_blank_append hothers, List.singleton_append]

/-! ## Words put together again -/

/-- A text with one space for each gap between its words. -/
def respace (text : List Char) : List Char :=
  join [' '] (words text)

/-- What is left of a gap between two words. -/
def oneSpace (gap : List Char) : List Char :=
  if gap.isEmpty then [] else [' ']

theorem oneSpace_ne_nil (hne : blanks ≠ []) : oneSpace blanks = [' '] := by
  cases blanks with
  | nil => contradiction
  | cons c rest => rfl

/-- A text that starts with a character of a word has words, of which the first one starts with it. -/
theorem words_cons_of_not_blank {c : Char} (hc : isBlank c = false) (text : List Char) :
    ∃ first others, splitWhere isBlank text = first :: others ∧
      words (c :: text) = (c :: first) :: others.filter fun word => !word.isEmpty := by
  cases hsplit : splitWhere isBlank text with
  | nil => exact absurd hsplit (splitWhere_ne_nil isBlank text)
  | cons first others =>
      refine ⟨first, others, rfl, ?_⟩
      rw [words, splitWhere, hc, if_neg Bool.false_ne_true, hsplit]
      rfl

theorem respace_cons_cons {c d : Char} (hc : isBlank c = false) (hd : isBlank d = false)
    (text : List Char) : respace (c :: d :: text) = c :: respace (d :: text) := by
  obtain ⟨first, others, hsplit, hwords⟩ := words_cons_of_not_blank hd text
  have hsplit' : splitWhere isBlank (d :: text) = (d :: first) :: others := by
    rw [splitWhere, hd, if_neg Bool.false_ne_true, hsplit]
    rfl
  obtain ⟨_, _, hsame, hwords'⟩ := words_cons_of_not_blank hc (d :: text)
  obtain ⟨rfl, rfl⟩ := List.cons.inj (hsplit'.symm.trans hsame)
  rw [respace, respace, hwords, hwords']
  cases others.filter fun word => !word.isEmpty <;> rfl

theorem respace_append_cons (h : Solid word) (hne : word ≠ []) (hblanks : Blank blanks) {c : Char}
    (hc : isBlank c = false) (rest : List Char) :
    respace (word ++ blanks ++ c :: rest) = word ++ oneSpace blanks ++ respace (c :: rest) := by
  cases blanks with
  | nil =>
      rw [List.append_nil, oneSpace, List.isEmpty_nil, if_pos rfl, List.append_nil]
      clear hne
      induction word with
      | nil => rfl
      | cons d others ih =>
          obtain ⟨hd, hothers⟩ := List.forall_mem_cons.mp h
          rw [List.cons_append, List.cons_append, ← ih hothers]
          cases others with
          | nil => exact respace_cons_cons hd hc rest
          | cons e others => exact respace_cons_cons hd (hothers e List.mem_cons_self) _
  | cons blank others =>
      obtain ⟨first, pieces, _, hwords⟩ := words_cons_of_not_blank hc rest
      rw [respace, words_append_gap h hne hblanks (List.cons_ne_nil _ _), respace, hwords]
      rfl

/-- What has no gap stays together, and a gap becomes one space. -/
theorem respace_append {token : List Char} (h : Solid word) (hne : word ≠ []) (hblanks : Blank blanks)
    (htoken : Solid token) (hne' : token ≠ []) (rest : List Char) :
    respace (word ++ (blanks ++ (token ++ rest))) =
      word ++ (oneSpace blanks ++ respace (token ++ rest)) := by
  obtain ⟨c, others, rfl⟩ := List.exists_cons_of_ne_nil hne'
  rw [List.cons_append, ← List.append_assoc, ← List.append_assoc]
  exact respace_append_cons h hne hblanks (htoken c List.mem_cons_self) (others ++ rest)

theorem respace_of_solid (h : Solid word) (hne : word ≠ []) : respace word = word := by
  rw [respace, words_of_solid h hne]
  rfl

end TinyComputer.Text
