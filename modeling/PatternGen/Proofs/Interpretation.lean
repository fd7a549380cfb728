import Mathlib.Data.List.Forall2
import PatternGen.Proofs.Regular
import PatternGen.Walk.Token

/-!
# Interpretations of token trees

A token tree means something as soon as its leaves do, and sequences, alternations, captures and
repetitions of what means something. The steps of a walk are one such meaning; others say what a
pattern asks for, or which texts belong to it.

Results:
* `Token.step_eq_interpret`: the step of a token is an interpretation.
* `Interpretation.Relates.interpret`: two interpretations that are related part by part are related
  on every regular token tree; `Interpretation.RelatesInside.interpret` asks that only of the leaves
  that the tree has.
* `Interpretation.RelatesAll.interpret`: the same on all token trees, where no part needs a bound.
* `Interpretation.Keeps.interpret`: a property that passes from the parts to the whole is one of
  every regular token tree.
-/

namespace PatternGen

/-- What each part of a token tree means, by the meanings of its own parts. -/
structure Interpretation (M : Type) where
  atom : Atom → M
  /-- Groups that only look around. -/
  looking : M
  sequence : List M → M
  alternation : List M → M
  capturing : Option Nat → M → M
  repetition : M → (min : Nat) → (max : Option Nat) → M

section

variable {M : Type} (i : Interpretation M)

mutual

/-- The meaning of a token. -/
def Token.interpret : Token → M
  | .atom a => i.atom a
  | .repetition token min max => i.repetition token.interpret min max
  | .group frame body =>
    if frame.look.isSome then i.looking else i.capturing frame.capture body.interpret

/-- The meaning of the body of a group. -/
def Body.interpret : Body → M
  | .sequence tokens => i.sequence (Token.interpretAll tokens)
  | .alternation branches => i.alternation (Token.interpretBranches branches)

/-- The meanings of the tokens of a sequence. -/
def Token.interpretAll : List Token → List M
  | [] => []
  | token :: tokens => token.interpret :: Token.interpretAll tokens

/-- The meanings of the branches of an alternation. -/
def Token.interpretBranches : List (List Token) → List M
  | [] => []
  | tokens :: branches =>
    i.sequence (Token.interpretAll tokens) :: Token.interpretBranches branches

end

theorem Token.interpretAll_eq_map (tokens : List Token) :
    Token.interpretAll i tokens = tokens.map (·.interpret i) := by
  induction tokens with
  | nil => rfl
  | cons token tokens ih => rw [interpretAll, ih, List.map_cons]

theorem Token.interpretBranches_eq_map (branches : List (List Token)) :
    Token.interpretBranches i branches =
      branches.map fun tokens => i.sequence (Token.interpretAll i tokens) := by
  induction branches with
  | nil => rfl
  | cons tokens branches ih => rw [interpretBranches, ih, List.map_cons]

end

/-! ## Steps -/

/-- From lists of related steps a number picks related ones, or none from either. -/
theorem Step.pick_cases {σ τ : Type} {R : Step σ → Step τ → Prop} {xs : List (Step σ)}
    {ys : List (Step τ)} (h : List.Forall₂ R xs ys) (k : Nat) :
    (∃ x y, R x y ∧ pick xs k = (pure x : Walk σ (Step σ)) ∧
      pick ys k = (pure y : Walk τ (Step τ))) ∨
    pick xs k = (throw (.indexOutOfBounds k xs.length) : Walk σ (Step σ)) ∧
      pick ys k = (throw (.indexOutOfBounds k xs.length) : Walk τ (Step τ)) := by
  have hlen := h.length_eq
  by_cases hk : k < xs.length
  · have hk' : k < ys.length := by omega
    refine .inl ⟨xs[k], ys[k], (List.forall₂_iff_get.1 h).2 k hk hk', ?_, ?_⟩
    · rw [pick, List.getElem?_eq_getElem hk]
    · rw [pick, List.getElem?_eq_getElem hk']
  · refine .inr ⟨?_, ?_⟩
    · rw [pick, List.getElem?_eq_none (by omega)]
    · rw [pick, List.getElem?_eq_none (by omega), hlen]

section

variable {σ : Type} (chooser : Chooser σ) (settings : Settings)

/-- The interpretation of token trees by the steps of walks. -/
def Step.interpretation : Interpretation (Step σ) where
  atom a := a.step chooser settings
  looking := Step.nothing
  sequence := Step.sequence
  alternation := Step.alternation chooser
  capturing := Step.capturing
  repetition step min max := Step.repetition chooser step min (settings.upperBound min max)

mutual

theorem Token.step_eq_interpret : (token : Token) →
    token.step chooser settings = token.interpret (Step.interpretation chooser settings)
  | .atom _ => rfl
  | .repetition token min max => by
    rw [Token.step, Token.interpret, token.step_eq_interpret]
    rfl
  | .group frame body => by
    rw [Token.step, Token.interpret, body.step_eq_interpret]
    rfl

theorem Body.step_eq_interpret : (body : Body) →
    body.step chooser settings = body.interpret (Step.interpretation chooser settings)
  | .sequence tokens => by
    rw [Body.step, Body.interpret, Token.steps_eq_interpretAll tokens]
    rfl
  | .alternation branches => by
    rw [Body.step, Body.interpret, Token.branchSteps_eq_interpretBranches branches]
    rfl

theorem Token.steps_eq_interpretAll : (tokens : List Token) →
    Token.steps chooser settings tokens =
      Token.interpretAll (Step.interpretation chooser settings) tokens
  | [] => rfl
  | token :: tokens => by
    rw [Token.steps, Token.interpretAll, token.step_eq_interpret,
      Token.steps_eq_interpretAll tokens]

theorem Token.branchSteps_eq_interpretBranches : (branches : List (List Token)) →
    Token.branchSteps chooser settings branches =
      Token.interpretBranches (Step.interpretation chooser settings) branches
  | [] => rfl
  | tokens :: branches => by
    rw [Token.branchSteps, Token.interpretBranches, Token.steps_eq_interpretAll tokens,
      Token.branchSteps_eq_interpretBranches branches]
    rfl

end

end

/-! ## Related interpretations -/

theorem Interpretation.forall₂_replicate {M N : Type} {R : M → N → Prop} {x : M} {y : N}
    (h : R x y) (n : Nat) : List.Forall₂ R (List.replicate n x) (List.replicate n y) := by
  induction n with
  | zero => exact .nil
  | succ n ih => exact .cons h ih

/-- The leaf stands in the token, and no group around it only looks around. -/
inductive Token.HasAtom : Token → Atom → Prop
  | here (a : Atom) : HasAtom (.atom a) a
  | repeated {token : Token} {a : Atom} {min : Nat} {max : Option Nat} : HasAtom token a →
      HasAtom (.repetition token min max) a
  | inside {frame : Frame} {body : Body} {tokens : List Token} {token : Token} {a : Atom} :
      frame.look = none → tokens ∈ body.branches → token ∈ tokens → HasAtom token a →
      HasAtom (.group frame body) a

namespace Interpretation

variable {M N : Type} {R : M → N → Prop} {i : Interpretation M} {j : Interpretation N}

/-- The interpretations are related by `R` wherever their parts are, leaves apart. -/
structure RelatesInside (R : M → N → Prop) (i : Interpretation M) (j : Interpretation N) :
    Prop where
  looking : R i.looking j.looking
  sequence : ∀ {xs ys}, List.Forall₂ R xs ys → R (i.sequence xs) (j.sequence ys)
  alternation : ∀ {xs ys}, ys ≠ [] → List.Forall₂ R xs ys → R (i.alternation xs) (j.alternation ys)
  capturing : ∀ {x y} group, R x y → R (i.capturing group x) (j.capturing group y)
  repetition : ∀ {x y min max}, min ≤ max.getD Numeral.largest → R x y →
    R (i.repetition x min max) (j.repetition y min max)

/-- The interpretations are related by `R` wherever their parts are. -/
structure Relates (R : M → N → Prop) (i : Interpretation M) (j : Interpretation N) : Prop
    extends RelatesInside R i j where
  atom : ∀ a, R (i.atom a) (j.atom a)

theorem forall₂_interpretAll {tokens : List Token}
    (h : ∀ token ∈ tokens, R (token.interpret i) (token.interpret j)) :
    List.Forall₂ R (Token.interpretAll i tokens) (Token.interpretAll j tokens) := by
  induction tokens with
  | nil => exact .nil
  | cons token tokens ih =>
    rw [List.forall_mem_cons] at h
    exact .cons h.1 (ih h.2)

theorem forall₂_interpretBranches (hR : RelatesInside R i j) {branches : List (List Token)}
    (h : ∀ tokens ∈ branches, ∀ token ∈ tokens, R (token.interpret i) (token.interpret j)) :
    List.Forall₂ R (Token.interpretBranches i branches) (Token.interpretBranches j branches) := by
  induction branches with
  | nil => exact .nil
  | cons tokens branches ih =>
    rw [List.forall_mem_cons] at h
    exact .cons (hR.sequence (forall₂_interpretAll h.1)) (ih h.2)

/-- What is related inside is related as a whole, if it is at the leaves of the token. -/
theorem RelatesInside.interpret (hR : RelatesInside R i j) {token : Token} (h : token.Regular)
    (hatom : ∀ a, token.HasAtom a → R (i.atom a) (j.atom a)) :
    R (token.interpret i) (token.interpret j) := by
  -- groups that look around need no hypothesis about their bodies, which no meaning reads
  induction h with
  | atom a => exact hatom a (.here a)
  | repetition hle _ ih => exact hR.repetition hle (ih fun a ha => hatom a (.repeated ha))
  | @looking frame body hl =>
    rw [Token.interpret, Token.interpret, if_pos hl, if_pos hl]
    exact hR.looking
  | @sequence frame tokens hl _ ih =>
    have hall : ∀ token ∈ tokens, R (token.interpret i) (token.interpret j) := fun token ht =>
      ih token ht fun a ha => hatom a (.inside hl (List.mem_singleton.2 rfl) ht ha)
    rw [Token.interpret, Token.interpret, hl]
    exact hR.capturing frame.capture (hR.sequence (forall₂_interpretAll hall))
  | @alternation frame branches hl hne _ ih =>
    have hall : ∀ tokens ∈ branches, ∀ token ∈ tokens, R (token.interpret i) (token.interpret j) :=
      fun tokens hts token ht => ih tokens hts token ht fun a ha => hatom a (.inside hl hts ht ha)
    rw [Token.interpret, Token.interpret, hl]
    refine hR.capturing frame.capture (hR.alternation ?_ (forall₂_interpretBranches hR hall))
    cases branches with
    | nil => exact absurd rfl hne
    | cons tokens branches => exact List.cons_ne_nil _ _

/-- What is related part by part is related as a whole. -/
theorem Relates.interpret (hR : Relates R i j) {token : Token} (h : token.Regular) :
    R (token.interpret i) (token.interpret j) :=
  hR.toRelatesInside.interpret h fun a _ => hR.atom a

/-! ## All token trees -/

/-- The interpretations are related by `R` wherever their parts are, whatever the number of branches
and the bounds of a repetition. -/
structure RelatesAll (R : M → N → Prop) (i : Interpretation M) (j : Interpretation N) : Prop where
  atom : ∀ a, R (i.atom a) (j.atom a)
  looking : R i.looking j.looking
  sequence : ∀ {xs ys}, List.Forall₂ R xs ys → R (i.sequence xs) (j.sequence ys)
  alternation : ∀ {xs ys}, List.Forall₂ R xs ys → R (i.alternation xs) (j.alternation ys)
  capturing : ∀ {x y} group, R x y → R (i.capturing group x) (j.capturing group y)
  repetition : ∀ {x y} min max, R x y → R (i.repetition x min max) (j.repetition y min max)

mutual

theorem RelatesAll.interpret (hR : RelatesAll R i j) :
    (token : Token) → R (token.interpret i) (token.interpret j)
  | .atom a => hR.atom a
  | .repetition token min max => hR.repetition min max (hR.interpret token)
  | .group frame body => by
    rw [Token.interpret, Token.interpret]
    split
    · exact hR.looking
    · exact hR.capturing frame.capture (hR.interpretBody body)

theorem RelatesAll.interpretBody (hR : RelatesAll R i j) :
    (body : Body) → R (body.interpret i) (body.interpret j)
  | .sequence tokens => hR.sequence (hR.interpretAll tokens)
  | .alternation branches => hR.alternation (hR.interpretBranches branches)

theorem RelatesAll.interpretAll (hR : RelatesAll R i j) : (tokens : List Token) →
    List.Forall₂ R (Token.interpretAll i tokens) (Token.interpretAll j tokens)
  | [] => .nil
  | token :: tokens => .cons (hR.interpret token) (hR.interpretAll tokens)

theorem RelatesAll.interpretBranches (hR : RelatesAll R i j) : (branches : List (List Token)) →
    List.Forall₂ R (Token.interpretBranches i branches) (Token.interpretBranches j branches)
  | [] => .nil
  | tokens :: branches =>
    .cons (hR.sequence (hR.interpretAll tokens)) (hR.interpretBranches branches)

end

/-! ## Kept properties -/

/-- The interpretation has the property `P` wherever its parts do. -/
structure Keeps (P : M → Prop) (i : Interpretation M) : Prop where
  atom : ∀ a, P (i.atom a)
  looking : P i.looking
  sequence : ∀ {xs}, (∀ x ∈ xs, P x) → P (i.sequence xs)
  alternation : ∀ {xs}, xs ≠ [] → (∀ x ∈ xs, P x) → P (i.alternation xs)
  capturing : ∀ {x} group, P x → P (i.capturing group x)
  repetition : ∀ {x min max}, min ≤ max.getD Numeral.largest → P x → P (i.repetition x min max)

theorem forall_of_forall₂ {P : M → Prop} {xs ys : List M}
    (h : List.Forall₂ (fun x _ => P x) xs ys) : ∀ x ∈ xs, P x := by
  induction h with
  | nil => simp
  | cons hx _ ih => exact List.forall_mem_cons.2 ⟨hx, ih⟩

theorem Keeps.relates {P : M → Prop} (hP : Keeps P i) : Relates (fun x _ => P x) i i where
  atom := hP.atom
  looking := hP.looking
  sequence h := hP.sequence (forall_of_forall₂ h)
  alternation {xs ys} hne h := by
    have hlen := h.length_eq
    apply hP.alternation _ (forall_of_forall₂ h)
    rw [← List.length_pos_iff] at hne ⊢
    omega
  capturing := hP.capturing
  repetition := hP.repetition

/-- A property of all parts is one of the whole. -/
theorem Keeps.interpret {P : M → Prop} (hP : Keeps P i) {token : Token} (h : token.Regular) :
    P (token.interpret i) :=
  hP.relates.interpret h

end Interpretation

end PatternGen
