import PatternGen.Proofs.WellFormed.Parse
import PatternGen.Settings

/-!
# Regular token trees

A token tree is regular if something can always be generated from it: outside of groups that only
look around, every alternation has a branch, and the bounds of every repetition are in order.

Results:
* `Token.WellFormed.regular`: well-formed token trees are regular.
* `Pattern.regular_of_parse`: so is what is read from a text, in both dialects.
* `Settings.le_upperBound`: the count of a regular repetition has at least one value.
-/

namespace PatternGen

/-- Every alternation that is generated from has a branch, and every repetition a count. -/
inductive Token.Regular : Token → Prop
  | atom (a : Atom) : Regular (.atom a)
  | repetition {token : Token} {min : Nat} {max : Option Nat} :
      min ≤ max.getD Numeral.largest → Regular token → Regular (.repetition token min max)
  | looking {frame : Frame} {body : Body} : frame.look.isSome = true → Regular (.group frame body)
  | sequence {frame : Frame} {tokens : List Token} : frame.look = none →
      (∀ token ∈ tokens, Regular token) → Regular (.group frame (.sequence tokens))
  | alternation {frame : Frame} {branches : List (List Token)} : frame.look = none →
      branches ≠ [] → (∀ tokens ∈ branches, ∀ token ∈ tokens, Regular token) →
      Regular (.group frame (.alternation branches))

theorem Token.Regular.group {frame : Frame} {body : Body} (hne : body.branches ≠ [])
    (h : ∀ tokens ∈ body.branches, ∀ token ∈ tokens, token.Regular) :
    (Token.group frame body).Regular := by
  cases hl : frame.look with
  | some look => exact .looking (by rw [hl]; rfl)
  | none =>
    cases body with
    | sequence tokens => exact .sequence hl (h tokens (List.mem_singleton.2 rfl))
    | alternation branches => exact .alternation hl hne h

theorem Settings.le_upperBound (settings : Settings) {min : Nat} {max : Option Nat}
    (h : min ≤ max.getD Numeral.largest) : min ≤ settings.upperBound min max := by
  cases max with
  | some max => exact h
  | none => exact Nat.le_min.2 ⟨Nat.le_add_right min _, h⟩

/-- A well-formed token tree is regular. -/
theorem Token.WellFormed.regular {dialect : Dialect} {token : Token}
    (h : token.WellFormed dialect) : token.Regular := by
  induction h with
  | atom _ => exact .atom _
  | repetition _ hm _ ih => exact .repetition hm.le_max ih
  | group _ hchoice _ ih => exact .group hchoice.branches_ne_nil ih

namespace Pattern

/-- What is read from a text is regular. -/
theorem regular_of_parse {dialect : Dialect} {text : List Char} {pattern : Pattern}
    (h : parse dialect text = .ok pattern) : pattern.root.Regular := by
  obtain ⟨body, hroot, hbody⟩ := (wellFormed_of_readPattern (readPattern_of_parse h)).root
  rw [hroot]
  refine .group hbody.choice.branches_ne_nil fun tokens hts token ht => ?_
  exact (hbody.tokens tokens hts token ht).regular

/-- A letter or digits, some times, and the last of them again. -/
def echo : Pattern :=
  let digits : CharClass := ⟨false, [.range '0' '9']⟩
  let choice : Body := .alternation [[.atom (.literal 'a')], [.atom (.charClass digits)]]
  let body : Body :=
    .sequence [.repetition (.group { capture := some 1 } choice) 1 none, .atom (.reference 1)]
  ⟨.group { role := .root } body, 1, {}⟩

theorem parse_echo : parse .lenient "(a|\\d)+\\1".toList = .ok echo := by
  have h : readPattern .lenient "(a|\\d)+\\1".toList = .ok echo := by cbv
  rw [parse, h]
  rfl

end Pattern

end PatternGen
