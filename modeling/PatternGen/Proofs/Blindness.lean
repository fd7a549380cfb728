import PatternGen.Proofs.Replay

/-!
# Walks that are blind to their target

Every step is given a target, and hands on what is left of it. Where choices are not steered, that
decides nothing: with any two targets, a free run puts the same questions to its sampler and a
replay takes the same values of its log, up to the same error if there is one. All that depends on
the target is how much of it the text accounts for. This needs nothing of the token tree, the
sampler or the log.

Results:
* `Walk.Agree.bind`: walks that agree go on in agreement.
* `Step.blind_interpretation`: unsteered steps are blind part by part.
* `Token.sameStop_plan`: the replay of a token, with any target, is the walk of its plan.
* `Token.unsteered_ignores_target`: free runs and replays over every token tree, with two targets.
-/

namespace PatternGen

variable {σ : Type} {α β γ δ : Type} {chooser : Chooser σ}

/-! ## Walks that agree -/

namespace Walk

/-- Two walks stopped in the same state, with values that are related by `R` or with the same
error. -/
inductive SameStop (R : α → β → Prop) :
    EStateM.Result Error (State σ) α → EStateM.Result Error (State σ) β → Prop
  | ok {a : α} {b : β} (s : State σ) : R a b → SameStop R (.ok a s) (.ok b s)
  | error (e : Error) (s : State σ) : SameStop R (.error e s) (.error e s)

theorem SameStop.finalState_eq {R : α → β → Prop} {r : EStateM.Result Error (State σ) α}
    {r' : EStateM.Result Error (State σ) β} (h : SameStop R r r') :
    Plan.finalState r = Plan.finalState r' := by
  cases h with
  | ok s _ => rfl
  | error e s => rfl

/-- From every state the walks come to the same stop. -/
def Agree (R : α → β → Prop) (x : Walk σ α) (y : Walk σ β) : Prop := ∀ s, SameStop R (x s) (y s)

variable {R : α → β → Prop} {Q : γ → δ → Prop}

theorem agree_pure {a : α} {b : β} (h : R a b) : Agree R (pure a : Walk σ α) (pure b) :=
  fun s => .ok s h

theorem agree_refl {R : α → α → Prop} (h : ∀ a, R a a) (x : Walk σ α) : Agree R x x := by
  intro s
  cases x s with
  | ok a s' => exact .ok s' (h a)
  | error e s' => exact .error e s'

theorem Agree.bind {x : Walk σ α} {y : Walk σ β} {f : α → Walk σ γ} {g : β → Walk σ δ}
    (h : Agree R x y) (hf : ∀ a b, R a b → Agree Q (f a) (g b)) :
    Agree Q (x >>= f) (y >>= g) := by
  intro s
  have hxy := h s
  generalize hx : x s = r, hy : y s = r' at hxy
  cases hxy with
  | ok s' hab =>
    rw [bind_ok hx, bind_ok hy]
    exact hf _ _ hab s'
  | error e s' =>
    rw [bind_error hx, bind_error hy]
    exact .error e s'

/-- The first part is the same walk. -/
theorem agree_bind (x : Walk σ α) {f : α → Walk σ γ} {g : α → Walk σ δ}
    (hf : ∀ a, Agree Q (f a) (g a)) : Agree Q (x >>= f) (x >>= g) := by
  have hx : Agree Eq x x := agree_refl (fun _ => rfl) x
  refine hx.bind ?_
  rintro a _ rfl
  exact hf a

end Walk

/-- The same text, whatever it accounts for. -/
def Produced.SameText (p q : Produced) : Prop := p.text = q.text

theorem Produced.sameText_refl (p : Produced) : p.SameText p := rfl

/-! ## Steps -/

namespace Step

/-- With any two targets the walks agree, and have the same text. -/
def Blind (step : Step σ) : Prop :=
  ∀ target target', Walk.Agree Produced.SameText (step target) (step target')

variable {step : Step σ} {steps : List (Step σ)}

theorem blind_const (x : Walk σ Produced) : Blind fun _ => x :=
  fun _ _ => Walk.agree_refl Produced.sameText_refl x

theorem blind_literal (hc : chooser.steered = false) (ignoreCase : Bool) (c : Char) :
    Blind (literal chooser ignoreCase c) := by
  intro target target'
  -- a case that the target would force is not looked at
  have hcase : ∀ forced, chooser.letterCase forced = (do
      let k ← chooser.ask 0 1
      pure (decide (k = 1))) := by
    intro forced
    simp [Chooser.letterCase, hc]
  unfold literal
  dsimp only
  generalize (if ignoreCase = true then otherCase c else c) = other
  by_cases ho : other = c
  · rw [if_pos ho, if_pos ho]
    exact Walk.agree_bind _ fun swap => Walk.agree_pure rfl
  · rw [if_neg ho, if_neg ho, hcase, hcase]
    exact Walk.agree_bind _ fun swap => Walk.agree_pure rfl

theorem blind_member (hc : chooser.steered = false) (set : CodeSet) :
    Blind (member chooser set) := by
  intro target target'
  have hmember : ∀ next next', chooser.member set next = chooser.member set next' := by
    intro next next'
    simp [Chooser.member, Chooser.targetRank?, hc]
  unfold member
  split
  · exact Walk.agree_pure rfl
  · rw [hmember target.head? target'.head?]
    exact Walk.agree_bind _ fun m => Walk.agree_pure rfl

/-! ## Sequences and captures -/

/-- What is left of the two targets may differ too. -/
theorem blind_sequence (h : ∀ step ∈ steps, Blind step) : Blind (sequence steps) := by
  induction steps with
  | nil => exact blind_const _
  | cons step steps ih =>
    rw [List.forall_mem_cons] at h
    intro target target'
    refine (h.1 target target').bind fun p q hpq => ?_
    refine (ih h.2 (target.drop p.consumed) (target'.drop q.consumed)).bind fun p' q' hpq' => ?_
    have hsame : (p.append p').SameText (q.append q') := by
      show p.text ++ p'.text = q.text ++ q'.text
      rw [hpq, hpq']
    exact Walk.agree_pure hsame

theorem blind_capturing (h : Blind step) (group : Option Nat) : Blind (capturing group step) := by
  intro target target'
  refine (h target target').bind fun p q hpq => ?_
  cases group with
  | none => exact Walk.agree_pure hpq
  | some n =>
    dsimp only
    rw [show p.text = q.text from hpq]
    exact Walk.agree_bind _ fun _ => Walk.agree_pure hpq

/-! ## Alternations and repetitions -/

theorem follows_eq_false (hc : chooser.steered = false) (target : List Char) :
    follows chooser target = false := by
  rw [follows, hc, Bool.false_and]

/-- The branch is chosen before its step is given the target. -/
theorem blind_alternation (hc : chooser.steered = false) (h : ∀ step ∈ steps, Blind step) :
    Blind (alternation chooser steps) := by
  intro target target'
  have hchosen : ∀ target, alternation chooser steps target =
      chosenBranch chooser steps target := by
    intro target
    simp [alternation, follows_eq_false hc]
  rw [hchosen, hchosen]
  refine Walk.agree_bind _ fun k => ?_
  unfold pick
  split
  · next step hstep =>
    rw [pure_bind, pure_bind]
    exact h step (List.mem_of_getElem? hstep) target target'
  · exact fun s => .error _ s

/-- A repetition with no target to follow gives none to its iterations. -/
theorem blind_repetition (hc : chooser.steered = false) (step : Step σ) (min max : Nat) :
    Blind (repetition chooser step min max) := by
  intro target target'
  have hfree : ∀ target, repetition chooser step min max target =
      chooser.sampleCount min max >>= repeatFree chooser step min max := by
    intro target
    simp [repetition, follows_eq_false hc]
  rw [hfree, hfree]
  exact blind_const _ target target'

end Step

/-! ## Token trees -/

theorem Atom.blind (hc : chooser.steered = false) (settings : Settings) (a : Atom) :
    (a.step chooser settings).Blind := by
  cases a with
  | literal c => exact Step.blind_literal hc _ c
  | position anchor => exact Step.blind_const _
  | charClass cls => exact Step.blind_member hc _
  | reference n => exact Step.blind_const _

theorem Step.blind_interpretation (hc : chooser.steered = false) (settings : Settings) :
    Interpretation.RelatesAll (fun x _ => Blind x) (interpretation chooser settings)
      (interpretation chooser settings) where
  atom := Atom.blind hc settings
  looking := blind_const _
  sequence h := blind_sequence (Interpretation.forall_of_forall₂ h)
  alternation h := blind_alternation hc (Interpretation.forall_of_forall₂ h)
  capturing group h := blind_capturing h group
  repetition _ _ _ := blind_repetition hc _ _ _

/-- Unsteered walks do not see their target. -/
theorem Token.blind (hc : chooser.steered = false) (settings : Settings) (token : Token) :
    (token.step chooser settings).Blind := by
  rw [Token.step_eq_interpret]
  exact (Step.blind_interpretation hc settings).interpret token

/-- Whatever the target is, the replay of a token comes to the stop of the walk of its plan. -/
theorem Token.sameStop_plan (settings : Settings) {token : Token} (h : token.Regular)
    (target : List Char) (s : Walk.State Chooser.Replay) :
    Walk.SameStop (fun p text => p.text = text) (token.step .replay settings target s)
      ((token.plan settings).walk .replay s) := by
  have hsteered : Chooser.replay.steered = false := rfl
  have hblind := Token.blind hsteered settings token target [] s
  rw [Token.replays settings h] at hblind
  cases hwalk : (token.plan settings).walk .replay s with
  | ok text s₁ =>
    rw [Walk.bind_ok hwalk] at hblind
    generalize token.step .replay settings target s = r at hblind ⊢
    cases hblind with
    | ok _ htext => exact .ok s₁ htext
  | error e s₁ =>
    rw [Walk.bind_error hwalk] at hblind
    generalize token.step .replay settings target s = r at hblind ⊢
    cases hblind
    exact .error e s₁

/-- With two targets, from the same log, captures and source, a free run comes to the same text and
leaves the same log, the same captures and the same state of its source; with the draws kept, these
are the same too. So does the replay of any log: it also leaves the same values unused, and if it
stops with an error, it is the same one at the same place. Only what the text accounts for depends
on the target. -/
theorem Token.unsteered_ignores_target (settings : Settings) (token : Token)
    (target target' : List Char) :
    (∀ {σ : Type} (sampler : Sampler σ) (s : Walk.State σ),
      Walk.SameStop Produced.SameText (token.step (.free sampler) settings target s)
        (token.step (.free sampler) settings target' s)) ∧
    (∀ {σ : Type} (sampler : Sampler σ) (s : Walk.State (Traced σ)),
      Walk.SameStop Produced.SameText (token.step (.free sampler.traced) settings target s)
        (token.step (.free sampler.traced) settings target' s)) ∧
    ∀ s : Walk.State Chooser.Replay,
      Walk.SameStop Produced.SameText (token.step .replay settings target s)
        (token.step .replay settings target' s) := by
  refine ⟨?_, ?_, ?_⟩
  · intro σ sampler s
    exact Token.blind rfl settings token target target' s
  · intro σ sampler s
    exact Token.blind rfl settings token target target' s
  · intro s
    exact Token.blind rfl settings token target target' s

end PatternGen
