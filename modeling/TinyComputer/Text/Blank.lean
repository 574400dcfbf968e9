import TinyComputer.Text.Pieces

/-!
# Blank characters

Blanks are the characters with the Unicode property `White_Space`. A text is trimmed of them at both
ends, or cut into the words between them. Main facts: the blanks of ASCII are among them, and words
are neither empty nor hold a blank.
-/

namespace TinyComputer.Text

/-- Whether `c` has the Unicode property `White_Space`. -/
def isBlank (c : Char) : Bool :=
  let code := c.toNat
  (0x09 ≤ code && code ≤ 0x0D) || code == 0x20 || code == 0x85 || code == 0xA0 ||
    code == 0x1680 || (0x2000 ≤ code && code ≤ 0x200A) || code == 0x2028 || code == 0x2029 ||
    code == 0x202F || code == 0x205F || code == 0x3000

def trimEnd (text : List Char) : List Char :=
  (text.reverse.dropWhile isBlank).reverse

def trim (text : List Char) : List Char :=
  trimEnd (text.dropWhile isBlank)

/-- The words of a text: the maximal runs of characters that are not blank. -/
def words (text : List Char) : List (List Char) :=
  (splitWhere isBlank text).filter fun word => !word.isEmpty

theorem ne_nil_of_mem_words {text word : List Char} (h : word ∈ words text) : word ≠ [] := by
  simpa using (List.mem_filter.mp h).2

theorem not_isBlank_of_mem_words {text word : List Char} (h : word ∈ words text) :
    ∀ c ∈ word, isBlank c = false :=
  splitWhere_forall_not isBlank text word (List.mem_filter.mp h).1

end TinyComputer.Text
