/-
# MiniC.Text.Gap — what stands between two tokens

A gap is a run of blank characters and comments. A comment opens with two slashes and runs up to
the next line feed or the end of the text; the line feed itself is a blank character and no part
of the comment.

* `gapLength` — the number of characters of the longest gap at the beginning of a text.
* `gapLength_le` — it stays within the text.
-/
import MiniC.Text.Blank

namespace MiniC

set_option autoImplicit false

/-- The length of the longest gap at the beginning of `text`, read from inside a comment if
`comment` holds. -/
def gapLengthFrom : (comment : Bool) → (text : List Char) → Nat
  | _, [] => 0
  | true, c :: rest => gapLengthFrom (c != '\n') rest + 1
  | false, c :: rest =>
    if isBlank c then gapLengthFrom false rest + 1
    else if c = '/' ∧ rest.head? = some '/' then gapLengthFrom true rest + 1
    else 0

/-- The length of the longest gap at the beginning of `text`. -/
def gapLength (text : List Char) : Nat :=
  gapLengthFrom false text

theorem gapLengthFrom_le (comment : Bool) (text : List Char) :
    gapLengthFrom comment text ≤ text.length := by
  fun_induction gapLengthFrom comment text <;> simp_all

theorem gapLength_le (text : List Char) : gapLength text ≤ text.length :=
  gapLengthFrom_le false text

end MiniC
