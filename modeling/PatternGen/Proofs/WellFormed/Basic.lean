import PatternGen.Pattern.Dialect
import PatternGen.Text.Numeral

/-!
# Well-formed patterns

Not every token tree is one that a text can stand for. In a well-formed pattern groups are numbered
in the order of their opening brackets, every alternation offers a choice, a quantifier repeats
something that can be repeated, bounds and ranges are in order, and classes and references are of
the kind that the dialect has.

Results:
* `Body.captures_eq`: the numbers of the groups in a body, branch by branch and token by token.
* `Shorthand.wellFormed_toClass`: a shorthand class is itself a well-formed class.
-/

namespace PatternGen

/-! ## Classes and leaves -/

/-- An item of a class: a character, a range whose ends are in order, or one of the shorthand
classes of the dialect. -/
inductive ClassItem.WellFormed (dialect : Dialect) : ClassItem → Prop
  | char (c : Char) : WellFormed dialect (.char c)
  | range {lo hi : Char} : lo ≤ hi → WellFormed dialect (.range lo hi)
  | shorthand (s : Shorthand) : WellFormed dialect (s.toClass dialect).asItem

/-- A class of well-formed items. A strict class has at least one. -/
structure CharClass.WellFormed (dialect : Dialect) (cls : CharClass) : Prop where
  items : ∀ item ∈ cls.items, item.WellFormed dialect
  ne_nil : dialect = .strict → cls.items ≠ []

/-- Only lenient texts refer to groups, by a number from one on. -/
def Atom.WellFormed (dialect : Dialect) : Atom → Prop
  | .literal _ => True
  | .position _ => True
  | .charClass cls => cls.WellFormed dialect
  | .reference n => dialect = .lenient ∧ 1 ≤ n ∧ n ≤ Numeral.largest

theorem Shorthand.wellFormed_toClass (dialect : Dialect) (s : Shorthand) :
    (s.toClass dialect).WellFormed dialect := by
  obtain ⟨kind, negate⟩ := s
  refine ⟨fun item hitem => ?_, fun _ => ?_⟩
  · cases kind with
    | digit =>
      rw [List.mem_singleton.1 hitem]
      exact .range (by decide)
    | word =>
      simp only [toClass, items, List.mem_cons, List.not_mem_nil, or_false] at hitem
      obtain rfl | rfl | rfl | rfl := hitem
      · exact .char '_'
      all_goals exact .range (by decide)
    | blank =>
      rcases List.mem_append.1 hitem with h | h
      · obtain ⟨c, -, rfl⟩ := List.mem_map.1 h
        exact .char c
      · rw [List.mem_singleton.1 h]
        exact .range (by decide)
  · cases kind <;> exact List.cons_ne_nil _ _

theorem CharClass.wellFormed_notLineEnd (dialect : Dialect) :
    CharClass.notLineEnd.WellFormed dialect := by
  refine ⟨fun item hitem => ?_, fun _ => List.cons_ne_nil _ _⟩
  simp only [notLineEnd, List.mem_cons, List.not_mem_nil, or_false] at hitem
  obtain rfl | rfl | rfl | rfl := hitem <;> exact .char _

/-! ## Token trees -/

/-- The bounds of a repetition: in order, and numerals where they are given. -/
structure BoundsInOrder (min : Nat) (max : Option Nat) : Prop where
  le_max : min ≤ max.getD Numeral.largest
  max_le : max.getD Numeral.largest ≤ Numeral.largest

/-- A group inside of a pattern captures or looks around, but not both. -/
structure Frame.Inner (frame : Frame) : Prop where
  role : frame.role = .group
  capture_or_look : frame.capture = none ∨ frame.look = none

/-- A body that is an alternation has at least two branches. -/
def Body.OffersChoice (body : Body) : Prop :=
  ∀ branches, body = .alternation branches → 2 ≤ branches.length

theorem Body.OffersChoice.branches_ne_nil {body : Body} (h : body.OffersChoice) :
    body.branches ≠ [] := by
  cases body with
  | sequence tokens => exact List.cons_ne_nil _ _
  | alternation branches =>
    have hlen := h branches rfl
    exact List.ne_nil_of_length_pos (Nat.lt_of_lt_of_le Nat.two_pos hlen)

/-- A token below the root of a pattern. -/
inductive Token.WellFormed (dialect : Dialect) : Token → Prop
  | atom {a : Atom} : a.WellFormed dialect → WellFormed dialect (.atom a)
  | repetition {token : Token} {min : Nat} {max : Option Nat} : token.repeatable = true →
      BoundsInOrder min max → WellFormed dialect token →
      WellFormed dialect (.repetition token min max)
  | group {frame : Frame} {body : Body} : frame.Inner → body.OffersChoice →
      (∀ tokens ∈ body.branches, ∀ token ∈ tokens, WellFormed dialect token) →
      WellFormed dialect (.group frame body)

/-- A body of well-formed tokens. -/
structure Body.WellFormed (dialect : Dialect) (body : Body) : Prop where
  choice : body.OffersChoice
  tokens : ∀ tokens ∈ body.branches, ∀ token ∈ tokens, token.WellFormed dialect

/-! ## Numbers of groups -/

mutual

/-- The numbers of the capturing groups of a token, in the order of their opening brackets. -/
def Token.captures : Token → List Nat
  | .atom _ => []
  | .repetition token _ _ => token.captures
  | .group frame body => frame.capture.toList ++ body.captures

/-- The numbers of the capturing groups of a body. -/
def Body.captures : Body → List Nat
  | .sequence tokens => Token.capturesAll tokens
  | .alternation branches => Token.branchCaptures branches

/-- The numbers of the capturing groups of a sequence. -/
def Token.capturesAll : List Token → List Nat
  | [] => []
  | token :: tokens => token.captures ++ Token.capturesAll tokens

/-- The numbers of the capturing groups of the branches of an alternation. -/
def Token.branchCaptures : List (List Token) → List Nat
  | [] => []
  | tokens :: branches => Token.capturesAll tokens ++ Token.branchCaptures branches

end

theorem Token.capturesAll_eq (tokens : List Token) :
    Token.capturesAll tokens = tokens.flatMap Token.captures := by
  induction tokens with
  | nil => rfl
  | cons token tokens ih => rw [capturesAll, List.flatMap_cons, ih]

theorem Token.branchCaptures_eq (branches : List (List Token)) :
    Token.branchCaptures branches = branches.flatMap Token.capturesAll := by
  induction branches with
  | nil => rfl
  | cons tokens branches ih => rw [branchCaptures, List.flatMap_cons, ih]

theorem Body.captures_eq (body : Body) :
    body.captures = body.branches.flatMap Token.capturesAll := by
  cases body with
  | sequence tokens => rw [captures, branches, List.flatMap_singleton]
  | alternation branches => rw [captures, Body.branches, Token.branchCaptures_eq]

/-! ## Patterns -/

/-- A pattern that a text of the dialect can stand for. -/
structure Pattern.WellFormed (dialect : Dialect) (pattern : Pattern) : Prop where
  root : ∃ body, pattern.root = .group { role := .root } body ∧ body.WellFormed dialect
  captures : pattern.root.captures = List.range' 1 pattern.groupCount

end PatternGen
