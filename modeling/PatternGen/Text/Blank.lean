/-!
# Blanks

The white space characters of Unicode, and trimming by them.
-/

namespace PatternGen.Text

/-- The character has the property `White_Space`. -/
def isBlank (c : Char) : Bool :=
  let n := c.toNat
  (9 ≤ n && n ≤ 13) || n = 0x20 || n = 0x85 || n = 0xA0 || n = 0x1680 ||
    (0x2000 ≤ n && n ≤ 0x200A) || n = 0x2028 || n = 0x2029 || n = 0x202F || n = 0x205F || n = 0x3000

/-- The text without its leading characters that satisfy `p`. -/
def dropLeading (p : Char → Bool) (text : List Char) : List Char := text.dropWhile p

/-- The text without its trailing characters that satisfy `p`. -/
def dropTrailing (p : Char → Bool) (text : List Char) : List Char :=
  (text.reverse.dropWhile p).reverse

/-- The text without the blanks at both ends. -/
def trim (text : List Char) : List Char := dropTrailing isBlank (dropLeading isBlank text)

/-- The parts between the occurrences of a separator; always at least one. -/
def splitOn (separator : Char) : List Char → List (List Char)
  | [] => [[]]
  | c :: text =>
    let parts := splitOn separator text
    if c = separator then [] :: parts else (c :: parts.headD []) :: parts.tail

end PatternGen.Text
