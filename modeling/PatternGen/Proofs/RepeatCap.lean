import PatternGen.Proofs.Interpretation
import PatternGen.Proofs.Plan.Basic

/-!
# Raising the cap of repetitions

The cap of the settings bounds the two counts of every repetition that has no upper bound of its
own, at any depth. The replay of a log meets it only as the bound of a question. Under two caps the
replays put the same questions, but for these bounds, and go side by side up to the first value
that the smaller cap refuses and the larger one takes. This needs nothing of the token tree, the
target or the log.

Results:
* `Settings.upperBound_mono`: the largest count grows with the cap, up to the largest numeral.
* `Step.tightens_interpretation`: the smaller cap only refuses, part by part.
* `Token.replay_of_raised_cap`: a log that is replayed under a cap is replayed alike under a larger
  one; where the larger cap refuses a value or finds no more, so does the smaller one, no later.
-/

namespace PatternGen

open Chooser (Replay)

/-- The position in a replayed log that an error is about. -/
def Error.position? : Error → Option Nat
  | exhaustedLog used => some used
  | valueOutOfBounds position _ _ _ => some position
  | _ => none

/-! ## Settings that differ in the cap -/

namespace Settings

theorem upperBound_mono {settings : Settings} {cap : Nat} (h : settings.repeatCap ≤ cap)
    (lower : Nat) (upper : Option Nat) :
    settings.upperBound lower upper ≤
      { settings with repeatCap := cap }.upperBound lower upper := by
  cases upper with
  | some n => exact Nat.le_refl n
  | none =>
    simp only [upperBound, Option.getD_none]
    omega

variable (settings : Settings) (cap : Nat)

mutual

theorem itemSet_repeatCap : (item : ClassItem) →
    { settings with repeatCap := cap }.itemSet item = settings.itemSet item
  | .char _ => rfl
  | .range _ _ => rfl
  | .nested negate items => by
    rw [itemSet, itemSet, itemsSet_repeatCap items]
    rfl

theorem itemsSet_repeatCap : (items : List ClassItem) →
    { settings with repeatCap := cap }.itemsSet items = settings.itemsSet items
  | [] => rfl
  | item :: items => by
    rw [itemsSet, itemsSet, itemSet_repeatCap item, itemsSet_repeatCap items]

end

/-- Classes are drawn from the same sets under every cap. -/
theorem expand_repeatCap (cls : CharClass) :
    { settings with repeatCap := cap }.expand cls = settings.expand cls := by
  rw [expand, itemsSet_repeatCap]
  rfl

end Settings

theorem Atom.step_repeatCap {σ : Type} (chooser : Chooser σ) (settings : Settings) (cap : Nat)
    (a : Atom) : a.step chooser { settings with repeatCap := cap } = a.step chooser settings := by
  cases a with
  | charClass cls => rw [step, step, settings.expand_repeatCap]
  | literal c => rfl
  | position anchor => rfl
  | reference n => rfl

/-! ## Walks that go on -/

namespace Walk

variable {α β : Type}

/-- The replay never goes back in its log, and an error tells the position that it came to. -/
structure Onward (x : Walk Replay α) : Prop where
  used_le : ∀ s, s.source.used ≤ (Plan.finalState (x s)).source.used
  position : ∀ {s e s'}, x s = .error e s' → ∀ p ∈ e.position?, p = s'.source.used

/-- The replay stays where it is in its log. -/
theorem onward_of_eq {x : Walk Replay α} {f : State Replay → α} {g : State Replay → State Replay}
    (h : ∀ s, x s = .ok (f s) (g s)) (hg : ∀ s, (g s).source = s.source) : Onward x where
  used_le s := by
    rw [h, ← hg s]
    exact Nat.le_refl _
  position he := by
    rw [h] at he
    cases he

theorem onward_pure (a : α) : Onward (pure a) := onward_of_eq (fun _ => rfl) fun _ => rfl

theorem onward_captured (group : Nat) : Onward (captured group) :=
  onward_of_eq (fun _ => rfl) fun _ => rfl

theorem onward_capture (group : Nat) (text : List Char) :
    Onward (capture group text) := onward_of_eq (fun _ => rfl) fun _ => rfl

theorem onward_ask (lo hi : Nat) : Onward (Chooser.replay.ask lo hi) where
  used_le s := by
    have h := Plan.used_le_walk (Plan.question lo hi) s
    rwa [show (Plan.question lo hi).walk .replay = Chooser.replay.ask lo hi from bind_pure _] at h
  position {s e s'} he := by
    obtain ⟨⟨pending, u⟩, log, c⟩ := s
    cases pending with
    | nil =>
      cases he
      simp [Error.position?]
    | cons v rest =>
      by_cases hv : v < lo ∨ hi < v
      · rw [Plan.ask_replay_outside hv] at he
        cases he
        simp [Error.position?]
      · rw [Plan.ask_replay (by omega) (by omega)] at he
        cases he

theorem Onward.bind {x : Walk Replay α} {f : α → Walk Replay β} (hx : Onward x)
    (hf : ∀ a, Onward (f a)) : Onward (x >>= f) where
  used_le s := by
    have hs := hx.used_le s
    cases h : x s with
    | ok a s₁ =>
      rw [h] at hs
      rw [bind_ok h]
      exact Nat.le_trans hs ((hf a).used_le s₁)
    | error e s₁ =>
      rw [h] at hs
      rw [bind_error h]
      exact hs
  position {s e s'} he := by
    cases h : x s with
    | ok a s₁ =>
      rw [bind_ok h] at he
      exact (hf a).position he
    | error e₁ s₁ =>
      rw [bind_error h] at he
      cases he
      exact hx.position h

/-! ## Walks that refuse more -/

/-- The first walk does what the second one does, or it has refused a value, no later than where the
second one came to. -/
structure Tightens (x y : Walk Replay α) : Prop where
  onward : Onward y
  eq_or_refused : ∀ s, x s = y s ∨ ∃ v lo hi s₁,
    x s = .error (.valueOutOfBounds s₁.source.used v lo hi) s₁ ∧
      s₁.source.used ≤ (Plan.finalState (y s)).source.used

theorem Onward.tightens {x : Walk Replay α} (h : Onward x) : Tightens x x := ⟨h, fun _ => .inl rfl⟩

/-- The larger bound takes what the smaller one refuses. -/
theorem tightens_ask (lo : Nat) {hi hi' : Nat} (h : hi ≤ hi') :
    Tightens (Chooser.replay.ask lo hi) (Chooser.replay.ask lo hi') where
  onward := onward_ask lo hi'
  eq_or_refused s := by
    have hs := (onward_ask lo hi').used_le s
    obtain ⟨⟨pending, u⟩, log, c⟩ := s
    cases pending with
    | nil => exact .inl rfl
    | cons v rest =>
      by_cases hv : v < lo ∨ hi < v
      · exact .inr ⟨v, lo, hi, _, Plan.ask_replay_outside hv rest u log c, hs⟩
      · rw [Plan.ask_replay (by omega) (by omega), Plan.ask_replay (by omega) (by omega)]
        exact .inl rfl

theorem Tightens.bind {x y : Walk Replay α} {f g : α → Walk Replay β} (hx : Tightens x y)
    (hf : ∀ a, Tightens (f a) (g a)) : Tightens (x >>= f) (y >>= g) where
  onward := hx.onward.bind fun a => (hf a).onward
  eq_or_refused s := by
    rcases hx.eq_or_refused s with he | ⟨v, lo, hi, s₁, he, hle⟩
    · cases h : y s with
      | ok a s₁ =>
        rw [bind_ok (he.trans h), bind_ok h]
        exact (hf a).eq_or_refused s₁
      | error e s₁ =>
        rw [bind_error (he.trans h), bind_error h]
        exact .inl rfl
    · refine .inr ⟨v, lo, hi, s₁, bind_error he, Nat.le_trans hle ?_⟩
      -- the second walk only goes further in its log
      cases h : y s with
      | ok a s₂ =>
        rw [bind_ok h]
        exact (hf a).onward.used_le s₂
      | error e s₂ =>
        rw [bind_error h]
        exact Nat.le_refl _

end Walk

/-! ## Steps -/

namespace Step

/-- With any target, the first step does what the second one does or has refused a value. -/
def Tightens (step step' : Step Replay) : Prop :=
  ∀ target, Walk.Tightens (step target) (step' target)

variable {step step' : Step Replay} {steps steps' : List (Step Replay)}

theorem tightens_nothing : Tightens nothing nothing := fun _ => (Walk.onward_pure _).tightens

theorem onward_literal (ignoreCase : Bool) (c : Char) (target : List Char) :
    Walk.Onward (literal .replay ignoreCase c target) := by
  unfold literal
  dsimp only
  generalize (if ignoreCase = true then otherCase c else c) = other
  split
  · exact (Walk.onward_pure false).bind fun swap => Walk.onward_pure _
  · have hcase : Walk.Onward (Chooser.replay.ask 0 1 >>= fun k => pure (decide (k = 1))) :=
      (Walk.onward_ask 0 1).bind fun k => Walk.onward_pure _
    exact hcase.bind fun swap => Walk.onward_pure _

theorem onward_member (set : CodeSet) (target : List Char) :
    Walk.Onward (member .replay set target) := by
  unfold member
  split
  · exact Walk.onward_pure _
  · have hmember : Walk.Onward (Chooser.replay.ask 0 (set.size - 1) >>= fun k =>
        pure (⟨Chooser.characterAt set k, false⟩ : Chooser.Member)) :=
      (Walk.onward_ask 0 (set.size - 1)).bind fun k => Walk.onward_pure _
    exact hmember.bind fun m => Walk.onward_pure _

theorem onward_reference (group : Nat) (target : List Char) :
    Walk.Onward (reference group target) :=
  (Walk.onward_captured group).bind fun _ => Walk.onward_pure _

theorem tightens_sequence (h : List.Forall₂ Tightens steps steps') :
    Tightens (sequence steps) (sequence steps') := by
  induction h with
  | nil => exact tightens_nothing
  | cons hstep _ ih =>
    intro target
    refine (hstep target).bind fun first => ?_
    refine (ih (target.drop first.consumed)).bind fun others => ?_
    exact (Walk.onward_pure _).tightens

theorem tightens_capturing (h : Tightens step step') (group : Option Nat) :
    Tightens (capturing group step) (capturing group step') := by
  intro target
  refine (h target).bind fun produced => ?_
  cases group with
  | none => exact (Walk.onward_pure produced).tightens
  | some n =>
    exact ((Walk.onward_capture n produced.text).bind fun _ => Walk.onward_pure produced).tightens

/-! ## Alternations and repetitions -/

theorem tightens_alternation (h : List.Forall₂ Tightens steps steps') :
    Tightens (alternation .replay steps) (alternation .replay steps') := by
  intro target
  show Walk.Tightens (chosenBranch .replay steps target) (chosenBranch .replay steps' target)
  rw [chosenBranch, chosenBranch, ← h.length_eq]
  refine (Walk.onward_ask _ _).tightens.bind fun k => ?_
  rcases pick_cases h k with ⟨x, y, hxy, hx, hy⟩ | ⟨hx, hy⟩
  · rw [hx, hy, pure_bind, pure_bind]
    exact hxy target
  · -- that there is no such branch says nothing of a position in the log
    rw [hx, hy]
    refine Walk.Onward.tightens ⟨fun s => Nat.le_refl _, fun he => ?_⟩
    cases he
    simp [Error.position?]

theorem tightens_times (h : Tightens step step') (n : Nat) :
    Walk.Tightens (times step n) (times step' n) := by
  rw [times_eq_sequence, times_eq_sequence]
  refine (tightens_sequence (Interpretation.forall₂_replicate h n) []).bind fun produced => ?_
  exact (Walk.onward_pure _).tightens

theorem tightens_pad (h : Tightens step step') (min sampled realized : Nat)
    (produced : Produced) :
    Walk.Tightens (pad step min sampled realized produced)
      (pad step' min sampled realized produced) := by
  unfold pad
  split
  · exact (tightens_times h _).bind fun more => (Walk.onward_pure _).tightens
  · exact (Walk.onward_pure _).tightens

/-- The bound stands in both questions for a count. What is repeated depends on the counts alone. -/
theorem tightens_repetition (h : Tightens step step') (min : Nat) {max max' : Nat}
    (hle : max ≤ max') :
    Tightens (repetition .replay step min max) (repetition .replay step' min max') := by
  intro target
  show Walk.Tightens (Chooser.replay.ask min max >>= repeatFree .replay step min max)
    (Chooser.replay.ask min max' >>= repeatFree .replay step' min max')
  refine (Walk.tightens_ask min hle).bind fun sampled => ?_
  refine (Walk.tightens_ask 0 hle).bind fun count => ?_
  exact (tightens_times h count).bind fun text => tightens_pad h min sampled count ⟨text, 0⟩

end Step

/-! ## Token trees -/

theorem Atom.tightens (settings : Settings) (a : Atom) :
    Step.Tightens (a.step .replay settings) (a.step .replay settings) := by
  intro target
  apply Walk.Onward.tightens
  cases a with
  | literal c => exact Step.onward_literal _ c target
  | position anchor => exact Walk.onward_pure _
  | charClass cls => exact Step.onward_member _ target
  | reference n => exact Step.onward_reference n target

theorem Step.tightens_interpretation (settings : Settings) {cap : Nat}
    (h : settings.repeatCap ≤ cap) :
    Interpretation.RelatesAll Tightens (interpretation .replay settings)
      (interpretation .replay { settings with repeatCap := cap }) where
  atom a := by
    show Tightens (a.step .replay settings) (a.step .replay { settings with repeatCap := cap })
    rw [a.step_repeatCap .replay settings cap]
    exact a.tightens settings
  looking := tightens_nothing
  sequence := tightens_sequence
  alternation := tightens_alternation
  capturing group h := tightens_capturing h group
  repetition min max hstep :=
    tightens_repetition hstep min (Settings.upperBound_mono h min max)

theorem Token.tightens (settings : Settings) {cap : Nat} (h : settings.repeatCap ≤ cap)
    (token : Token) :
    Step.Tightens (token.step .replay settings)
      (token.step .replay { settings with repeatCap := cap }) := by
  rw [Token.step_eq_interpret, Token.step_eq_interpret]
  exact (Step.tightens_interpretation settings h).interpret token

/-- A log that is replayed to an end under a cap comes to the same end under a larger one, from the
same state and with any target: the same text, captures and decisions, and the same values unused.
Where the replay under the larger cap stops at a position of the log, because no value is left or
one is out of bounds, the replay under the smaller cap has stopped there or before. -/
theorem Token.replay_of_raised_cap (settings : Settings) {cap : Nat}
    (h : settings.repeatCap ≤ cap) (token : Token) (target : List Char) (s : Walk.State Replay) :
    (∀ produced s', token.step .replay settings target s = .ok produced s' →
      token.step .replay { settings with repeatCap := cap } target s = .ok produced s') ∧
    ∀ e s', token.step .replay { settings with repeatCap := cap } target s = .error e s' →
      ∀ p ∈ e.position?, ∃ e₀ s₀, token.step .replay settings target s = .error e₀ s₀ ∧
        ∃ p₀ ∈ e₀.position?, p₀ ≤ p := by
  have ht := token.tightens settings h target
  constructor
  · intro produced s' hok
    rcases ht.eq_or_refused s with he | ⟨v, lo, hi, s₁, he, -⟩
    · rw [← he, hok]
    · rw [hok] at he
      cases he
  · intro e s' herr p hp
    rcases ht.eq_or_refused s with he | ⟨v, lo, hi, s₁, he, hle⟩
    · exact ⟨e, s', he.trans herr, p, hp, Nat.le_refl p⟩
    · refine ⟨_, s₁, he, s₁.source.used, rfl, ?_⟩
      rw [herr] at hle
      rw [ht.onward.position herr p hp]
      exact hle

/-- Under the largest cap the sum of cap and lower bound is cut off at the largest numeral. -/
theorem Token.replay_of_largest_cap :
    let start (log : List Nat) : Walk.State Replay := ⟨⟨log, 0⟩, {}, {}⟩
    let stop : Walk.State Replay := ⟨⟨[7], 6⟩, .ofList [2, 2, 1, 0, 1, 5], ⟨[(1, ['5'])]⟩⟩
    let run (cap : Nat) (log : List Nat) :=
      Pattern.echo.root.step .replay { repeatCap := cap } [] (start log)
    1 ≤ Numeral.largest ∧
    run 1 [2, 2, 1, 0, 1, 5, 7] = .ok ⟨"055".toList, 0⟩ stop ∧
    run Numeral.largest [2, 2, 1, 0, 1, 5, 7] = .ok ⟨"055".toList, 0⟩ stop ∧
    run Numeral.largest [3, 9, 1] = .error (.exhaustedLog 3) ⟨⟨[], 3⟩, .ofList [3, 9, 1], {}⟩ ∧
    ∃ e s, run 1 [3, 9, 1] = .error e s ∧ ∃ p ∈ e.position?, p ≤ 3 := by
  intro start stop run
  have hle : 1 ≤ Numeral.largest := by decide
  have hok : run 1 [2, 2, 1, 0, 1, 5, 7] = .ok ⟨"055".toList, 0⟩ stop := by rfl
  have hlate : run Numeral.largest [3, 9, 1] =
      .error (.exhaustedLog 3) ⟨⟨[], 3⟩, .ofList [3, 9, 1], {}⟩ := by rfl
  have h (log : List Nat) :=
    Token.replay_of_raised_cap { repeatCap := 1 } hle Pattern.echo.root [] (start log)
  exact ⟨hle, hok, (h _).1 _ _ hok, hlate, (h _).2 _ _ hlate 3 rfl⟩

end PatternGen
