/-!
# Blank text

The characters of the Unicode property White_Space.  A text made of them alone is blank.
-/

namespace PartialEntity.Text

/-- White_Space: the ASCII blanks from tab to carriage return, the spaces of every width, the
separators of lines and paragraphs. -/
def isBlankChar (c : Char) : Bool :=
  let code := c.toNat
  (0x09 ≤ code && code ≤ 0x0D) || code == 0x20 || code == 0x85 || code == 0xA0 || code == 0x1680 ||
    (0x2000 ≤ code && code ≤ 0x200A) || code == 0x2028 || code == 0x2029 || code == 0x202F ||
    code == 0x205F || code == 0x3000

/-- Whether all characters are blank; the empty text is. -/
def isBlank (chars : List Char) : Bool :=
  chars.all isBlankChar

end PartialEntity.Text
