import Mathlib.Data.List.GetD
import PatternGen.Proofs.Interpretation
import PatternGen.Proofs.Plan.Basic

/-!
# The plan of a token tree

What a pattern asks for, in the order of its tokens: a branch of each alternation, a member of each
class, the case of each letter, and two numbers for each repetition. This is a straight walk through
the tree, without a target, without trials and without going back.
-/

namespace PatternGen

namespace Plan

/-! ## The plans of the parts -/

def literal (ignoreCase : Bool) (c : Char) : Plan (List Char) :=
  let other := if ignoreCase then otherCase c else c
  if other = c then pure [c]
  else do
    let k ← question 0 1
    pure [if k = 1 then other else c]

def member (set : CodeSet) : Plan (List Char) :=
  if set.isEmpty then pure []
  else do
    let k ← question 0 (set.size - 1)
    pure [Chooser.characterAt set k]

def reference (group : Nat) : Plan (List Char) := fetch group done

def sequence : List (Plan (List Char)) → Plan (List Char)
  | [] => pure []
  | x :: xs => do
    let first ← x
    let others ← sequence xs
    pure (first ++ others)

def capturing (group : Option Nat) (x : Plan (List Char)) : Plan (List Char) := do
  let text ← x
  match group with
  | some n => capture n text (done text)
  | none => pure text

def alternation (xs : List (Plan (List Char))) : Plan (List Char) := do
  let k ← question 0 (xs.length - 1)
  xs.getD k (pure [])

/-- How often a token is taken when its counts were sampled and realized so. -/
def count (min sampled realized : Nat) : Nat := if realized < min then sampled else realized

def repetition (x : Plan (List Char)) (min max : Nat) : Plan (List Char) := do
  let sampled ← question min max
  let realized ← question 0 max
  sequence (List.replicate (count min sampled realized) x)

theorem ends_sequence_cons_iff {x : Plan (List Char)} {xs : List (Plan (List Char))}
    {c c₂ : Captures} {ws : List Nat} {text : List Char} :
    (sequence (x :: xs)).Ends c ws text c₂ ↔ ∃ us vs first others c₁, ws = us ++ vs ∧
      text = first ++ others ∧ x.Ends c us first c₁ ∧ (sequence xs).Ends c₁ vs others c₂ := by
  rw [sequence, ends_bind_iff]
  constructor
  · rintro ⟨us, vs, first, c₁, rfl, h₁, h⟩
    obtain ⟨vs, ws, others, c', rfl, h₂, h⟩ := ends_bind_iff.1 h
    obtain ⟨rfl, rfl, rfl⟩ := ends_pure_iff.1 h
    exact ⟨us, vs, first, others, c₁, by rw [List.append_nil], rfl, h₁, h₂⟩
  · rintro ⟨us, vs, first, others, c₁, rfl, rfl, h₁, h₂⟩
    refine ⟨us, vs, first, c₁, rfl, h₁, ends_bind_iff.2 ⟨vs, [], others, c₂, ?_, h₂, .done⟩⟩
    rw [List.append_nil]

theorem sequence_append (xs ys : List (Plan (List Char))) :
    sequence (xs ++ ys) =
      sequence xs >>= fun text => sequence ys >>= fun more => pure (text ++ more) := by
  induction xs with
  | nil => simp only [List.nil_append, sequence, pure_bind, bind_pure]
  | cons x xs ih =>
    simp only [List.cons_append, sequence, ih, bind_assoc, pure_bind, List.append_assoc]

theorem ends_sequence_append {xs ys : List (Plan (List Char))} {c c₁ c₂ : Captures}
    {us vs : List Nat} {text more : List Char} (hx : (sequence xs).Ends c us text c₁)
    (hy : (sequence ys).Ends c₁ vs more c₂) :
    (sequence (xs ++ ys)).Ends c (us ++ vs) (text ++ more) c₂ := by
  rw [sequence_append, ends_bind_iff]
  refine ⟨us, vs, text, c₁, rfl, hx, ends_bind_iff.2 ⟨vs, [], more, c₂, ?_, hy, .done⟩⟩
  rw [List.append_nil]

theorem ends_capturing_iff {group : Option Nat} {x : Plan (List Char)} {c c' : Captures}
    {vs : List Nat} {text : List Char} : (capturing group x).Ends c vs text c' ↔
      ∃ c₁, x.Ends c vs text c₁ ∧ c' = group.elim c₁ fun n => c₁.set n text := by
  rw [capturing, ends_bind_iff]
  constructor
  · rintro ⟨us, vs, w, c₁, rfl, h₁, h₂⟩
    cases group with
    | none =>
      obtain ⟨rfl, rfl, rfl⟩ := ends_pure_iff.1 h₂
      exact ⟨c', by rwa [List.append_nil], rfl⟩
    | some n =>
      cases h₂ with
      | capture h₂ =>
        obtain ⟨rfl, rfl, rfl⟩ := ends_pure_iff.1 h₂
        exact ⟨c₁, by rwa [List.append_nil], rfl⟩
  · rintro ⟨c₁, h₁, rfl⟩
    refine ⟨vs, [], text, c₁, (List.append_nil vs).symm, h₁, ?_⟩
    cases group with
    | none => exact .done
    | some n => exact .capture .done

theorem ends_alternation {xs : List (Plan (List Char))} {k : Nat} (h : k < xs.length)
    {c c' : Captures} {vs : List Nat} {text : List Char}
    (he : (xs.get ⟨k, h⟩).Ends c vs text c') : (alternation xs).Ends c (k :: vs) text c' := by
  refine ends_question_bind (Nat.zero_le k) (by omega) ?_
  rw [List.getD_eq_getElem _ _ h]
  exact he

end Plan

/-! ## Token trees -/

section

variable (settings : Settings)

def Atom.plan : Atom → Plan (List Char)
  | .literal c => Plan.literal settings.flags.caseInsensitive c
  | .position _ => pure []
  | .charClass cls => Plan.member (settings.expand cls)
  | .reference n => Plan.reference n

/-- The interpretation of token trees by plans. -/
def Plan.interpretation : Interpretation (Plan (List Char)) where
  atom a := a.plan settings
  looking := pure []
  sequence := Plan.sequence
  alternation := Plan.alternation
  capturing := Plan.capturing
  repetition x min max := Plan.repetition x min (settings.upperBound min max)

/-- The plan of a token. -/
def Token.plan (token : Token) : Plan (List Char) := token.interpret (Plan.interpretation settings)

end

end PatternGen
