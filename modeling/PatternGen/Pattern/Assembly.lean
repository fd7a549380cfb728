import PatternGen.Pattern.Lexeme

/-!
# Assembling a token tree

A token tree is put together from its lexemes, read from left to right. The groups that are still
open wait on a stack, each with what stands before it; a closing bracket makes the innermost one a
token. Where `parse_body` and `parse_group` call one another, the calls that have not returned are
the groups on the stack, and a `Draft` has the `branches` and the `stack` of one call.
-/

namespace PatternGen.Pattern

/-- A body of which a part is read: its finished branches and the tokens of the current one, both
with the latest first. -/
structure Draft where
  branches : List (List Token) := []
  tokens : List Token := []

namespace Draft

/-- The draft with one more token. -/
def push (draft : Draft) (token : Token) : Draft := { draft with tokens := token :: draft.tokens }

/-- The draft with its current branch finished and a new one begun. -/
def split (draft : Draft) : Draft := ⟨draft.tokens.reverse :: draft.branches, []⟩

/-- The body that the draft is when nothing more follows: the end of `parse_body`. Without a bar it
is a sequence. -/
def body (draft : Draft) : Body :=
  if draft.branches.isEmpty then .sequence draft.tokens.reverse
  else .alternation draft.split.branches.reverse

end Draft

/-- A group whose closing bracket is still to come. -/
structure OpenGroup where
  /-- The text from the bracket of the group on. -/
  here : List Char
  frame : Frame
  /-- What stands before the group in the body that holds it. -/
  before : Draft

/-- What is assembled so far; `groupCount` is the `group_counter` of the parser. -/
structure Assembly where
  /-- Number of capturing groups that have begun. -/
  groupCount : Nat := 0
  /-- The groups that are open, innermost first. -/
  openGroups : List OpenGroup := []
  /-- The body that is being read. -/
  draft : Draft := {}

namespace Assembly

/-- Begins a group, as `parse_group` does before the body. Capturing groups are numbered in the
order of their brackets. -/
def enter (a : Assembly) (here : List Char) : Opening → Assembly
  | .capturing =>
    { groupCount := a.groupCount + 1
      openGroups := ⟨here, { capture := some (a.groupCount + 1) }, a.draft⟩ :: a.openGroups }
  | .plain => { a with openGroups := ⟨here, {}, a.draft⟩ :: a.openGroups, draft := {} }
  | .looking look =>
    { a with openGroups := ⟨here, { look := some look }, a.draft⟩ :: a.openGroups, draft := {} }

/-- Ends the innermost group, as `parse_group` does behind the body. -/
def leave (a : Assembly) (here : List Char) : Except Fault Assembly :=
  match a.openGroups with
  | [] => invalid .unmatchedClose here
  | g :: outer =>
    .ok { a with openGroups := outer, draft := g.before.push (.group g.frame a.draft.body) }

/-- Repeats the latest token (`push_repetition`). -/
def repeatLast (a : Assembly) (here : List Char) (min : Nat) (max : Option Nat) :
    Except Fault Assembly :=
  match a.draft.tokens with
  | [] => invalid .nothingToRepeat here
  | token :: before =>
    if token.repeatable then
      .ok { a with draft := { a.draft with tokens := .repetition token min max :: before } }
    else invalid .nothingToRepeat here

/-- Takes the next lexeme: one turn of the loop of `parse_body`. -/
def take (a : Assembly) (l : Lexeme.Placed) : Except Fault Assembly :=
  match l.lexeme with
  | .atom atom => .ok { a with draft := a.draft.push (.atom atom) }
  | .bar => .ok { a with draft := a.draft.split }
  | .opening o => .ok (a.enter l.here o)
  | .closing => a.leave l.here
  | .quantifier min max => a.repeatLast l.here min max

/-- Takes lexemes in order, up to the first one that cannot stand where it does. -/
def takeAll (a : Assembly) : List Lexeme.Placed → Except Fault Assembly
  | [] => .ok a
  | l :: rest =>
    match a.take l with
    | .error fault => .error fault
    | .ok a => a.takeAll rest

/-- Ends the assembly, at the end of the text or at the fault of a lexeme that could not be
read. -/
def finish (a : Assembly) (fault : Option Fault) : Except Fault Assembly :=
  match fault, a.openGroups with
  | some fault, _ => .error fault
  | none, g :: _ => invalid .unterminatedGroup g.here
  | none, [] => .ok a

end Assembly

/-- The body that a text denotes, with the number of its capturing groups (`parse_body`). -/
def readBody (dialect : Dialect) (text : List Char) : Except Fault (Body × Nat) :=
  let (lexemes, fault) := Lexeme.readAll dialect text
  match ({} : Assembly).takeAll lexemes with
  | .error fault => .error fault
  | .ok a =>
    match a.finish fault with
    | .error fault => .error fault
    | .ok a => .ok (a.draft.body, a.groupCount)

/-- A text denotes what is assembled from all of its lexemes, with no group left open. -/
theorem readBody_eq_ok_iff_takeAll {dialect : Dialect} {text : List Char} {body : Body} {n : Nat} :
    readBody dialect text = .ok (body, n) ↔
      ∃ lexemes a, Lexeme.readAll dialect text = (lexemes, none) ∧
        ({} : Assembly).takeAll lexemes = .ok a ∧ a.openGroups = [] ∧ a.draft.body = body ∧
          a.groupCount = n := by
  unfold readBody
  constructor
  · intro h
    dsimp only at h
    split at h
    · cases h
    · next a ht =>
      split at h
      · cases h
      · next a' hf =>
        cases h
        unfold Assembly.finish at hf
        split at hf
        · cases hf
        · cases hf
        · next hfault ho =>
          cases hf
          exact ⟨_, a, Prod.ext rfl hfault, ht, ho, rfl, rfl⟩
  · rintro ⟨lexemes, a, hr, ht, ho, rfl, rfl⟩
    simp only [hr, ht, Assembly.finish, ho]

end PatternGen.Pattern
