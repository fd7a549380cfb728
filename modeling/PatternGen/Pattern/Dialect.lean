import PatternGen.Pattern.Token

/-!
# Dialects

The two ways of writing patterns that are read, and the shorthand classes, whose members depend on
the dialect for white space alone.
-/

namespace PatternGen

/-- How a pattern is written (`Syntax`). A `lenient` text gives every escape some meaning, if only
that of the character itself; a `strict` one refuses the escapes that it does not define. -/
inductive Dialect where
  | lenient
  | strict
deriving DecidableEq, Repr, Inhabited

/-- What a shorthand class is about. -/
inductive Shorthand.Kind where
  | digit
  | word
  | blank
deriving DecidableEq, Repr

/-- A class with an escape of its own, such as `\d`, or its complement, such as `\D`. -/
structure Shorthand where
  kind : Shorthand.Kind
  negate : Bool
deriving DecidableEq, Repr

namespace Shorthand

/-- The shorthand class of an escape letter. -/
def ofLetter? : Char → Option Shorthand
  | 'd' => some ⟨.digit, false⟩
  | 'D' => some ⟨.digit, true⟩
  | 'w' => some ⟨.word, false⟩
  | 'W' => some ⟨.word, true⟩
  | 's' => some ⟨.blank, false⟩
  | 'S' => some ⟨.blank, true⟩
  | _ => none

/-- The white space character that only one of the dialects knows. -/
def dialectBlank : Dialect → Char
  | .lenient => '\ufeff'
  | .strict => '\u0085'

/-- The items of the class that is not negated (`digits`, `words` and `whitespace`). -/
def items (dialect : Dialect) : Kind → List ClassItem
  | .digit => [.range '0' '9']
  | .word => [.char '_', .range 'a' 'z', .range 'A' 'Z', .range '0' '9']
  | .blank =>
    ['\t', '\n', '\x0b', '\x0c', '\r', ' ', '\u00a0', '\u1680', '\u2028', '\u2029', '\u202f',
      '\u205f', '\u3000', dialectBlank dialect].map .char ++ [.range '\u2000' '\u200a']

/-- The class that the shorthand stands for. -/
def toClass (dialect : Dialect) (s : Shorthand) : CharClass := ⟨s.negate, items dialect s.kind⟩

end Shorthand

/-- The class of `.`: everything but the ends of lines (`any_char`). -/
def CharClass.notLineEnd : CharClass :=
  ⟨true, [.char '\n', .char '\r', .char '\u2028', .char '\u2029']⟩

end PatternGen
