/-!
# Flags

The flags that a pattern is compiled with, and their letters.
-/

namespace PatternGen

/-- Flags of a pattern. `multiline` is kept for the reader; anchors are never interpreted. -/
structure Flags where
  caseInsensitive : Bool := false
  multiline : Bool := false
deriving DecidableEq, Repr, Inhabited

namespace Flags

/-- The flags set in `a` or in `b` (`union`). -/
def union (a b : Flags) : Flags :=
  ⟨a.caseInsensitive || b.caseInsensitive, a.multiline || b.multiline⟩

theorem empty_union (flags : Flags) : union {} flags = flags := by
  simp [union]

theorem union_empty (flags : Flags) : flags.union {} = flags := by
  simp [union]

/-- The flags with the one of the letter `c` set. Letters without an effect change nothing. -/
def insert (flags : Flags) (c : Char) : Flags :=
  match c with
  | 'i' => { flags with caseInsensitive := true }
  | 'm' => { flags with multiline := true }
  | _ => flags

/-- The letters that a flag text may hold. -/
def isLetter (c : Char) : Bool := "imgsuy".toList.contains c

/-- Reads a flag text such as `im` (`parse`); the error is its first unknown letter. -/
def parse (text : List Char) : Except Char Flags :=
  match text.find? fun c => !isLetter c with
  | some c => .error c
  | none => .ok (text.foldl insert {})

end Flags

end PatternGen
