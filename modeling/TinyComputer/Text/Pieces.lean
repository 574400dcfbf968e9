/-!
# Pieces of a text

Texts are lists of characters here, so that every reader is a recursion on its input. A text is cut
at separators into pieces, and pieces are put together with separators between them. Main facts: no
piece holds a separator, and a separator between two texts separates their pieces.
-/

namespace TinyComputer.Text

/-- Cut a text at every character that satisfies `p`. The separators are dropped, and `n` of them
leave `n + 1` pieces, some of which may be empty. -/
def splitWhere (p : Char → Bool) : List Char → List (List Char)
  | [] => [[]]
  | c :: rest =>
      if p c then [] :: splitWhere p rest else (splitWhere p rest).modifyHead (c :: ·)

def lines (text : List Char) : List (List Char) :=
  splitWhere (· == '\n') text

/-- Put `separator` between neighbouring pieces. -/
def join (separator : List Char) : List (List Char) → List Char
  | [] => []
  | [piece] => piece
  | piece :: rest => piece ++ separator ++ join separator rest

theorem splitWhere_ne_nil (p : Char → Bool) (text : List Char) : splitWhere p text ≠ [] := by
  induction text with
  | nil => simp [splitWhere]
  | cons c rest ih =>
      rw [splitWhere]
      split
      · simp
      · cases h : splitWhere p rest with
        | nil => exact absurd h ih
        | cons head tail => simp

theorem splitWhere_forall_not (p : Char → Bool) (text : List Char) :
    ∀ piece ∈ splitWhere p text, ∀ c ∈ piece, p c = false := by
  induction text with
  | nil => simp [splitWhere]
  | cons c rest ih =>
      rw [splitWhere]
      split
      · simpa using ih
      next hc =>
        cases h : splitWhere p rest with
        | nil => exact absurd h (splitWhere_ne_nil p rest)
        | cons head tail =>
            rw [h] at ih
            simp only [List.modifyHead_cons, List.forall_mem_cons] at ih ⊢
            exact ⟨⟨by simpa using hc, ih.1⟩, ih.2⟩

/-- A text without separators is its only piece. -/
theorem splitWhere_of_forall_not {p : Char → Bool} {text : List Char}
    (htext : ∀ c ∈ text, p c = false) : splitWhere p text = [text] := by
  induction text with
  | nil => rfl
  | cons c rest ih =>
      have hrest : ∀ d ∈ rest, p d = false := fun d hd => htext d (List.mem_cons_of_mem _ hd)
      rw [splitWhere, htext c List.mem_cons_self, ih hrest]
      rfl

/-- A separator between two texts separates their pieces. -/
theorem splitWhere_append_cons {p : Char → Bool} {c : Char} (hc : p c = true)
    (left right : List Char) :
    splitWhere p (left ++ c :: right) = splitWhere p left ++ splitWhere p right := by
  induction left with
  | nil => simp [splitWhere, hc]
  | cons d rest ih =>
      simp only [List.cons_append, splitWhere, ih]
      split
      · rfl
      · cases h : splitWhere p rest with
        | nil => exact absurd h (splitWhere_ne_nil p rest)
        | cons head tail => simp

end TinyComputer.Text
