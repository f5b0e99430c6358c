/-
# MiniC.Text.Blank — the characters that separate tokens

The blank characters are those with the Unicode property White_Space, as closed ranges of scalar
values. The byte order mark, the zero-width space and the information separators U+001C to U+001F
are not among them.
-/

namespace MiniC

set_option autoImplicit false

/-- The ranges of the property White_Space, ends included, in increasing order. -/
def blankRanges : List (Nat × Nat) :=
  [(0x0009, 0x000D), (0x0020, 0x0020), (0x0085, 0x0085), (0x00A0, 0x00A0), (0x1680, 0x1680),
   (0x2000, 0x200A), (0x2028, 0x2029), (0x202F, 0x202F), (0x205F, 0x205F), (0x3000, 0x3000)]

/-- Whether `c` has the property White_Space. -/
def isBlank (c : Char) : Bool :=
  blankRanges.any fun range => range.1 ≤ c.toNat && c.toNat ≤ range.2

end MiniC
