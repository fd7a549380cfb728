import PatternGen.DecisionLog.Basic
import PatternGen.Error
import PatternGen.Text.Blank

/-!
# Decision logs as text

A log is written as its decisions with commas between them. It is read with blanks around every
decision and in brackets or without.
-/

namespace PatternGen.DecisionLog

/-- The decisions with commas between them (`to_string`). -/
def text (log : DecisionLog) : String := String.intercalate "," (log.toList.map Nat.repr)

/-- The part of a text between its brackets: the first line of `from_str`. -/
def body (text : List Char) : List Char :=
  Text.dropTrailing (· = ']') (Text.dropLeading (· = '[') (Text.trim text))

/-- Reads one decision, as `from_str` reads each part; a failure quotes the part as it stands. -/
def parsePart (part : List Char) : Except Error Nat :=
  (Numeral.read (Text.trim part)).mapError (.invalidLog part)

/-- Reads decisions up to the first part that is none. -/
def parseParts : List (List Char) → Except Error (List Nat)
  | [] => .ok []
  | part :: parts =>
    match parsePart part with
    | .error e => .error e
    | .ok value => (parseParts parts).map (value :: ·)

/-- Reads a log (`from_str`). A text that is blank between its brackets is the empty log. -/
def parse (text : List Char) : Except Error DecisionLog :=
  if (Text.trim (body text)).isEmpty then .ok {}
  else (parseParts (Text.splitOn ',' (body text))).map ofList

end PatternGen.DecisionLog
