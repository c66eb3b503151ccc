import SchemaCompiler.Text.Ranges

/-!
White space: the characters of Unicode 14 that separate words or lines, and the ASCII separators
from U+001C to U+001F.
-/

namespace SchemaCompiler.Text

def blankRanges : List (Nat × Nat) := [
  (0x9, 0xd), (0x1c, 0x20), (0x85, 0x85), (0xa0, 0xa0), (0x1680, 0x1680), (0x2000, 0x200a),
  (0x2028, 0x2029), (0x202f, 0x202f), (0x205f, 0x205f), (0x3000, 0x3000)]

def isBlank (c : Char) : Bool := within blankRanges c.toNat

def strip (s : List Char) : List Char :=
  ((s.dropWhile isBlank).reverse.dropWhile isBlank).reverse

def words (s : List Char) : List (List Char) := (s.splitOnP isBlank).filter (· ≠ [])

end SchemaCompiler.Text
