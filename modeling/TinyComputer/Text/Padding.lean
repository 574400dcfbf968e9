/-!
# Padding

Columns of text are made by padding with spaces. A text that is wider than its column stays as it
is.
-/

namespace TinyComputer.Text

/-- Extend a text with spaces on the right to `width` characters. -/
def padRight (width : Nat) (text : List Char) : List Char :=
  text ++ List.replicate (width - text.length) ' '

/-- Extend a text with spaces on the left to `width` characters. -/
def padLeft (width : Nat) (text : List Char) : List Char :=
  List.replicate (width - text.length) ' ' ++ text

@[simp] theorem length_padRight (width : Nat) (text : List Char) :
    (padRight width text).length = max width text.length := by
  simp [padRight]
  omega

@[simp] theorem length_padLeft (width : Nat) (text : List Char) :
    (padLeft width text).length = max width text.length := by
  simp [padLeft]
  omega

end TinyComputer.Text
