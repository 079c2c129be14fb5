/-!
# Blanks

The characters that separate words are those of the Unicode property
White_Space: the ASCII blanks, the next line, the spaces of every width, and the
line and paragraph separators. The information separators U+001C to U+001F, the
zero width space and the byte order mark are not among them.
-/

namespace Rpn.Text

/-- Whether a character separates words. -/
def isBlank (c : Char) : Bool :=
  let n := c.toNat
  (0x09 ≤ n && n ≤ 0x0d) || n == 0x20 || n == 0x85 || n == 0xa0 || n == 0x1680 ||
    (0x2000 ≤ n && n ≤ 0x200a) || n == 0x2028 || n == 0x2029 || n == 0x202f || n == 0x205f ||
    n == 0x3000

/-- A text without the blanks at its two ends. -/
def trim (cs : List Char) : List Char :=
  ((cs.dropWhile isBlank).reverse.dropWhile isBlank).reverse

end Rpn.Text
