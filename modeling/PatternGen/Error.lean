import PatternGen.Pattern.Fault
import PatternGen.Text.Numeral
import PatternGen.Text.Quoted

/-!
# Errors

What can go wrong when a pattern is compiled, a string generated or a log read, and the messages.
-/

namespace PatternGen

/-- An error of the library. -/
inductive Error where
  /-- The text is no pattern; the offset counts bytes in UTF-8. -/
  | invalidPattern (offset : Nat) (reason : Pattern.Reason)
  /-- The text has a construct that is not generated from, at a byte offset. -/
  | unsupportedSyntax (offset : Nat) (construct : Pattern.Construct)
  /-- A flag text has an unknown letter. -/
  | unknownFlag (c : Char)
  /-- A replayed log ends before the generation does. -/
  | exhaustedLog (used : Nat)
  /-- A replayed value lies outside of the bounds of its question. -/
  | valueOutOfBounds (position value min max : Nat)
  /-- A number that was drawn lies outside of the list that it is an index of. -/
  | indexOutOfBounds (index size : Nat)
  /-- A part of a textual log is no numeral. -/
  | invalidLog (part : List Char) (fault : Numeral.Fault)
deriving DecidableEq

/-- The message of an error. -/
def Error.message : Error → String
  | invalidPattern offset reason => s!"invalid pattern at offset {offset}: " ++ reason.text
  | unsupportedSyntax offset construct =>
    s!"unsupported syntax at offset {offset}: " ++ construct.text
  | unknownFlag c => "unknown flag '" ++ c.toString ++ "'"
  | exhaustedLog used => s!"replay log exhausted after {used} decisions"
  | valueOutOfBounds position value min max =>
    s!"replayed value {value} at position {position} is outside {min}..={max}"
  | indexOutOfBounds index size => s!"index {index} is outside of a list of {size}"
  | invalidLog part fault =>
    "invalid decision log: " ++ Text.quoted part ++ ": " ++ fault.text

end PatternGen
