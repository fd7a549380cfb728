import PatternGen.Flags

/-!
# Token trees

A pattern is a tree of tokens. Its leaves are `Atom`s; a `Token` is an atom, a repetition of a
token or a group, and the `Body` of a group is one sequence of tokens or several, of which one is
taken.
-/

namespace PatternGen

/-- A place in the text at which a pattern may require something. -/
inductive Anchor where
  | start
  | stop
  | wordBoundary
  | nonWordBoundary
deriving DecidableEq, Repr, Inhabited

/-- What a group that only looks around requires of the text next to it. -/
inductive Lookaround where
  | followedBy
  | notFollowedBy
  | precededBy
  | notPrecededBy
deriving DecidableEq, Repr, Inhabited

/-- A member of a class: a character, a range of characters or another class. -/
inductive ClassItem where
  | char (c : Char)
  | range (lo hi : Char)
  | nested (negate : Bool) (items : List ClassItem)
deriving Inhabited

/-- A class of characters: those that some item holds, or with `negate` all others. -/
structure CharClass where
  negate : Bool
  items : List ClassItem
deriving Inhabited

/-- A class as a member of another one. -/
def CharClass.asItem (cls : CharClass) : ClassItem := .nested cls.negate cls.items

/-- A leaf of a token tree. -/
inductive Atom where
  | literal (c : Char)
  | position (anchor : Anchor)
  | charClass (cls : CharClass)
  | reference (group : Nat)
deriving Inhabited

/-- Whether a group is the whole pattern or a part of it. -/
inductive Role where
  | root
  | group
deriving DecidableEq, Repr, Inhabited

/-- What is known of a group besides its body: the number under which its text is captured, and the
requirement that it stands for if it only looks around. With the body it is a `Group`, under a
`Root` if its role is that. -/
structure Frame where
  role : Role := .group
  capture : Option Nat := none
  look : Option Lookaround := none
deriving DecidableEq, Repr, Inhabited

mutual

/-- A token of a pattern. Without `max` a repetition has no upper bound of its own. -/
inductive Token where
  | atom (a : Atom)
  | repetition (token : Token) (min : Nat) (max : Option Nat)
  | group (frame : Frame) (body : Body)

/-- The body of a group. -/
inductive Body where
  | sequence (tokens : List Token)
  | alternation (branches : List (List Token))

end

instance : Inhabited Token := ⟨.atom default⟩

instance : Inhabited Body := ⟨.sequence []⟩

/-- The branches of a body; a sequence is its only branch. -/
def Body.branches : Body → List (List Token)
  | .sequence tokens => [tokens]
  | .alternation branches => branches

/-- A token that a quantifier may follow. -/
def Token.repeatable : Token → Bool
  | .atom (.position _) => false
  | .repetition .. => false
  | _ => true

/-- A pattern: its tree, the number of its capturing groups, and the flags that it sets itself. -/
structure Pattern where
  root : Token
  groupCount : Nat
  inlineFlags : Flags
deriving Inhabited

end PatternGen
