/-!
# Faults of a pattern text

Why a text is no pattern, or none that can be generated from, and where. A fault holds the part of
the text that begins at the offending construct, so that it does not depend on what stands before.
-/

namespace PatternGen.Pattern

/-- Why a text is no pattern. -/
inductive Reason where
  | unmatchedClose
  | unterminatedGroup
  | invalidGroupName
  | unterminatedClass
  | rangeOutOfOrder
  | boundsOutOfOrder
  | nothingToRepeat
  | trailingBackslash
  | backreferenceOutOfRange
  | invalidHexEscape
  | unterminatedBoundary
deriving DecidableEq, Repr

def Reason.text : Reason → String
  | unmatchedClose => "unmatched ')'"
  | unterminatedGroup => "unterminated group"
  | invalidGroupName => "invalid group name"
  | unterminatedClass => "unterminated character class"
  | rangeOutOfOrder => "range out of order in character class"
  | boundsOutOfOrder => "numbers out of order in \x7b\x7d quantifier"
  | nothingToRepeat => "nothing to repeat"
  | trailingBackslash => "trailing backslash"
  | backreferenceOutOfRange => "backreference out of range"
  | invalidHexEscape => "invalid hexadecimal escape"
  | unterminatedBoundary => "unterminated word boundary"

/-- A construct that is known, and not generated from. -/
inductive Construct where
  | verboseMode
  | escape (c : Char)
  | namedGroup
  | groupForm (c : Char)
  | posixClass
  | nestedClass
  | classOperator (c : Char)
deriving DecidableEq, Repr

def Construct.text : Construct → String
  | verboseMode => "(?x)"
  | escape c => "\\" ++ c.toString
  | namedGroup => "(?<name>"
  | groupForm c => "(?" ++ c.toString
  | posixClass => "[[:name:]]"
  | nestedClass => "nested class"
  | classOperator c => c.toString ++ c.toString

/-- Why a text is not accepted. -/
inductive Cause where
  | invalid (reason : Reason)
  | unsupported (construct : Construct)
deriving DecidableEq, Repr

/-- A cause, and the text from the offending construct on. -/
structure Fault where
  cause : Cause
  here : List Char
deriving DecidableEq, Repr

/-- What a reader took from a text, with the text that is left. -/
abbrev Reading (α : Type) := Except Fault (α × List Char)

/-- Goes on reading after a success. -/
def Reading.andThen {α β : Type} (r : Reading α) (f : α → List Char → Reading β) : Reading β :=
  match r with
  | .error fault => .error fault
  | .ok (a, rest) => f a rest

theorem Reading.ok_andThen {α β : Type} (a : α) (rest : List Char)
    (f : α → List Char → Reading β) : Reading.andThen (.ok (a, rest)) f = f a rest := rfl

theorem Reading.andThen_eq_ok_iff {α β : Type} {r : Reading α} {f : α → List Char → Reading β}
    {b : β × List Char} :
    r.andThen f = .ok b ↔ ∃ a rest, r = .ok (a, rest) ∧ f a rest = .ok b := by
  cases r with
  | error fault => exact ⟨nofun, fun ⟨_, _, h, _⟩ => nomatch h⟩
  | ok a => exact ⟨fun h => ⟨a.1, a.2, rfl, h⟩, fun ⟨_, _, h, h'⟩ => by cases h; exact h'⟩

theorem Reading.andThen_eq_error_iff {α β : Type} {r : Reading α}
    {f : α → List Char → Reading β} {fault : Fault} :
    r.andThen f = .error fault ↔
      r = .error fault ∨ ∃ a rest, r = .ok (a, rest) ∧ f a rest = .error fault := by
  cases r with
  | error fault' =>
    constructor
    · intro h
      exact .inl (by cases h; rfl)
    · rintro (h | ⟨_, _, h, -⟩)
      · cases h
        rfl
      · cases h
  | ok a =>
    constructor
    · intro h
      exact .inr ⟨a.1, a.2, rfl, h⟩
    · rintro (h | ⟨_, _, h, h'⟩)
      · cases h
      · cases h
        exact h'

/-- Where what follows a reading cannot fail, the fault is that of the reading. -/
theorem Reading.eq_error_of_andThen {α β : Type} {r : Reading α}
    {f : α → List Char → β × List Char} {fault : Fault}
    (h : (r.andThen fun a rest => .ok (f a rest)) = .error fault) : r = .error fault := by
  rcases andThen_eq_error_iff.1 h with h | ⟨_, _, _, h⟩
  · exact h
  · cases h

/-- Stops with a reason why the text is no pattern (`invalid`). -/
def invalid {α : Type} (reason : Reason) (here : List Char) : Except Fault α :=
  .error ⟨.invalid reason, here⟩

/-- Stops at a construct that is not generated from (`unsupported`). -/
def unsupported {α : Type} (construct : Construct) (here : List Char) : Except Fault α :=
  .error ⟨.unsupported construct, here⟩

end PatternGen.Pattern
