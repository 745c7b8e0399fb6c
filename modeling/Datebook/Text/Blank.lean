/-!
# Blank text

The characters with the Unicode property White_Space, and text made of nothing else. A title or an
owner that is blank counts as missing, and timestamps may have blanks between their parts.
-/

namespace Datebook

/-- The characters with the property White_Space. -/
def isBlankChar (c : Char) : Bool :=
  let n := c.toNat
  (9 ≤ n && n ≤ 13) || n == 0x20 || n == 0x85 || n == 0xA0 || n == 0x1680 ||
    (0x2000 ≤ n && n ≤ 0x200A) || n == 0x2028 || n == 0x2029 || n == 0x202F || n == 0x205F ||
    n == 0x3000

/-- Nothing is left of blank text once the blanks at both ends are taken off. -/
def isBlank (s : String) : Bool := s.toList.all isBlankChar

/-- The text from its first character that is not blank. -/
def skipBlanks (s : List Char) : List Char := s.dropWhile isBlankChar

theorem skipBlanks_of_head {c : Char} (h : isBlankChar c = false) (s : List Char) :
    skipBlanks (c :: s) = c :: s := by
  simp [skipBlanks, h]

/-- The text without the blanks at either end. -/
def trimBlanks (s : List Char) : List Char :=
  (skipBlanks (skipBlanks s).reverse).reverse

end Datebook
