/-!
# Blank characters

Feed values are read with their blanks cut off at both ends. Blanks are the characters
of Unicode's White_Space property, not only the ASCII ones.
-/

namespace TransitFeed

/-- Blank characters: the White_Space property of Unicode. -/
def isBlank (c : Char) : Bool :=
  let n := c.toNat
  (9 ≤ n && n ≤ 13) || n == 32 || n == 0x85 || n == 0xA0 || n == 0x1680 ||
    (0x2000 ≤ n && n ≤ 0x200A) || n == 0x2028 || n == 0x2029 || n == 0x202F ||
    n == 0x205F || n == 0x3000

/-- The text without its leading and trailing blanks. -/
def trimBlanks (s : String) : String :=
  String.ofList ((s.toList.dropWhile isBlank).reverse.dropWhile isBlank).reverse

/-- The text without its leading blanks. -/
def trimLeadingBlanks (s : String) : String :=
  String.ofList (s.toList.dropWhile isBlank)

end TransitFeed
