import PatternGen.Proofs.Production

/-!
# Tapes

A tape is a list of numbers from which a free run draws. The text of a token tells what to write on
it: the number of a branch, of a member or of a case, and the count of a repetition, each at the
place where the run asks for it.

Results:
* `Sampler.tape_withinBounds`: a tape answers every question within its bounds.
* `Token.reaches`: for every text of a regular token there is a tape from which a free run produces
  it.
-/

namespace PatternGen

namespace Sampler

/-- Draws the next number of a tape, or the nearest one within the bounds. -/
def tape : Sampler (List Nat) := fun lo hi numbers =>
  match numbers with
  | [] => (lo, [])
  | v :: rest => (max lo (min v hi), rest)

theorem tape_withinBounds : tape.WithinBounds := by
  intro lo hi numbers h
  cases numbers with
  | nil => exact ⟨Nat.le_refl lo, h⟩
  | cons v rest =>
    show lo ≤ max lo (min v hi) ∧ max lo (min v hi) ≤ hi
    omega

theorem tape_cons {lo hi v : Nat} (hlo : lo ≤ v) (hhi : v ≤ hi) (rest : List Nat) :
    tape lo hi (v :: rest) = (v, rest) := by
  have hv : max lo (min v hi) = v := by omega
  rw [tape, hv]

end Sampler

/-- For every text of the production there are numbers for a tape from which the step produces the
text, whatever comes after them. -/
def Step.Reaches (step : Step (List Nat)) (y : Production) : Prop :=
  ∀ {c w c'}, y c w c' → ∃ draws : List Nat, ∀ (rest : List Nat) (log : DecisionLog),
    ∃ log', step [] ⟨draws ++ rest, log, c⟩ = .ok ⟨w, 0⟩ ⟨rest, log', c'⟩

namespace Step

theorem ask_tape {lo hi v : Nat} (hlo : lo ≤ v) (hhi : v ≤ hi) (rest : List Nat) (log : DecisionLog)
    (c : Captures) : (Chooser.free Sampler.tape).ask lo hi ⟨v :: rest, log, c⟩ =
      .ok v ⟨rest, log.push v, c⟩ := by
  simp only [Chooser.ask, Chooser.free, Chooser.sampled, Sampler.tape_cons hlo hhi]

theorem letterCase_tape {k : Nat} (hk : k ≤ 1) (forced : Option Bool) (rest : List Nat)
    (log : DecisionLog) (c : Captures) :
    (Chooser.free Sampler.tape).letterCase forced ⟨k :: rest, log, c⟩ =
      .ok (decide (k = 1)) ⟨rest, log.push k, c⟩ :=
  Walk.bind_ok (ask_tape (Nat.zero_le k) hk rest log c)

theorem member_tape {set : CodeSet} {k : Nat} (hk : k < set.size) (next : Option Char)
    (rest : List Nat) (log : DecisionLog) (c : Captures) :
    (Chooser.free Sampler.tape).member set next ⟨k :: rest, log, c⟩ =
      .ok ⟨Chooser.characterAt set k, false⟩ ⟨rest, log.push k, c⟩ :=
  Walk.bind_ok (ask_tape (Nat.zero_le k) (Nat.le_sub_one_of_lt hk) rest log c)

theorem reaches_nothing : Reaches nothing .nothing := by
  rintro c w c' ⟨rfl, rfl⟩
  exact ⟨[], fun rest log => ⟨log, rfl⟩⟩

theorem reaches_literal (ignoreCase : Bool) (ch : Char) :
    Reaches (literal (.free .tape) ignoreCase ch) (.literal ignoreCase ch) := by
  intro _ w c hy
  obtain ⟨hw, rfl⟩ := Production.literal_iff.1 hy
  unfold literal
  dsimp only
  generalize (if ignoreCase = true then otherCase ch else ch) = other at hw ⊢
  by_cases ho : other = ch
  · rw [ho, or_self] at hw
    simp only [if_pos ho]
    exact ⟨[], fun rest log => ⟨log, by rw [hw]; rfl⟩⟩
  · simp only [if_neg ho]
    rcases hw with rfl | rfl
    · refine ⟨[0], fun rest log => ⟨log.push 0, ?_⟩⟩
      exact Walk.bind_ok (letterCase_tape (Nat.zero_le 1) _ rest log c)
    · refine ⟨[1], fun rest log => ⟨log.push 1, ?_⟩⟩
      exact Walk.bind_ok (letterCase_tape (Nat.le_refl 1) _ rest log c)

theorem reaches_member (set : CodeSet) :
    Reaches (member (.free .tape) set) (.member set) := by
  rintro _ w c ⟨hw, rfl⟩
  unfold member
  by_cases he : set.isEmpty = true
  · have hnone := CodeSet.isEmpty_iff.1 he
    rcases hw with ⟨ch, hch, -⟩ | ⟨-, rfl⟩
    · exact absurd hch (hnone _)
    · simp only [if_pos he]
      exact ⟨[], fun rest log => ⟨log, rfl⟩⟩
  · rcases hw with ⟨ch, hch, rfl⟩ | ⟨hnone, -⟩
    · obtain ⟨k, hk⟩ := CodeSet.exists_rank hch
      obtain ⟨hlt, hch⟩ := Chooser.characterAt_of_rank hk
      simp only [if_neg he]
      refine ⟨[k], fun rest log => ⟨log.push k, ?_⟩⟩
      rw [← hch]
      exact Walk.bind_ok (member_tape hlt _ rest log c)
    · exact absurd (CodeSet.isEmpty_iff.2 hnone) he

theorem reaches_reference (n : Nat) : Reaches (reference n) (.reference n) := by
  rintro c w _ ⟨rfl, rfl⟩
  exact ⟨[], fun rest log => ⟨log, rfl⟩⟩

theorem reaches_sequence {steps : List (Step (List Nat))} {ys : List Production}
    (h : List.Forall₂ Reaches steps ys) : Reaches (sequence steps) (.sequence ys) := by
  induction h with
  | nil => exact reaches_nothing
  | @cons step y steps ys hstep _ ih =>
    rintro c w c' ⟨first, others, c₁, rfl, h₁, h₂⟩
    obtain ⟨draws₁, h₁⟩ := hstep h₁
    obtain ⟨draws₂, h₂⟩ := ih h₂
    refine ⟨draws₁ ++ draws₂, fun rest log => ?_⟩
    obtain ⟨log₁, h₁⟩ := h₁ (draws₂ ++ rest) log
    obtain ⟨log₂, h₂⟩ := h₂ rest log₁
    refine ⟨log₂, ?_⟩
    rw [List.append_assoc, sequence, Walk.bind_ok h₁]
    exact Walk.bind_ok h₂

theorem reaches_capturing {step : Step (List Nat)} {y : Production} (h : Reaches step y)
    (group : Option Nat) : Reaches (capturing group step) (.capturing group y) := by
  rintro c w _ ⟨c₁, h₁, rfl⟩
  obtain ⟨draws, h₁⟩ := h h₁
  refine ⟨draws, fun rest log => ?_⟩
  obtain ⟨log₁, h₁⟩ := h₁ rest log
  refine ⟨log₁, (Walk.bind_ok h₁).trans ?_⟩
  cases group with
  | none => rfl
  | some n => rfl

theorem reaches_alternation {steps : List (Step (List Nat))} {ys : List Production}
    (h : List.Forall₂ Reaches steps ys) :
    Reaches (alternation (.free .tape) steps) (.alternation ys) := by
  have hlen := h.length_eq
  rintro c w c' ⟨y, hy, hyields⟩
  obtain ⟨⟨k, hk⟩, rfl⟩ := List.mem_iff_get.1 hy
  have hk' : k < steps.length := by omega
  have hle : k ≤ steps.length - 1 := by omega
  obtain ⟨draws, h₁⟩ := (List.forall₂_iff_get.1 h).2 k hk' hk hyields
  refine ⟨k :: draws, fun rest log => ?_⟩
  obtain ⟨log₁, h₁⟩ := h₁ rest (log.push k)
  refine ⟨log₁, ?_⟩
  have hask := ask_tape (Nat.zero_le k) hle (draws ++ rest) log c
  exact (Walk.bind_ok hask).trans ((Walk.bind_ok (pick_of_lt hk' _)).trans h₁)

theorem times_reaches {step : Step (List Nat)} {y : Production} (h : Reaches step y) {n : Nat}
    {c c' : Captures} {w : List Char} (hy : Production.sequence (List.replicate n y) c w c') :
    ∃ draws : List Nat, ∀ (rest : List Nat) (log : DecisionLog),
      ∃ log', times step n ⟨draws ++ rest, log, c⟩ = .ok w ⟨rest, log', c'⟩ := by
  obtain ⟨draws, hdraws⟩ := reaches_sequence (Interpretation.forall₂_replicate @h n) hy
  refine ⟨draws, fun rest log => ?_⟩
  obtain ⟨log', hrun⟩ := hdraws rest log
  refine ⟨log', ?_⟩
  rw [times_eq_sequence]
  exact Walk.bind_ok hrun

/-- The count is drawn once; it is in order, so that nothing is padded. -/
theorem reaches_repetition {step : Step (List Nat)} {y : Production} (h : Reaches step y)
    (min max : Nat) :
    Reaches (repetition (.free .tape) step min max) (.repetition y min max) := by
  rintro c w c' ⟨n, hn, hy⟩
  obtain ⟨draws, ht⟩ := times_reaches h hy
  refine ⟨n :: draws, fun rest log => ?_⟩
  obtain ⟨log', ht⟩ := ht rest ((log.push n).push n)
  refine ⟨log', (Walk.bind_ok (ask_tape hn.1 hn.2 (draws ++ rest) log c)).trans ?_⟩
  show repeatFree (.free .tape) step min max n _ = _
  have hcount : (Chooser.free Sampler.tape).realizeCount n max ⟨draws ++ rest, log.push n, c⟩ =
      .ok n ⟨draws ++ rest, (log.push n).push n, c⟩ := rfl
  have hpad : ¬ n < min := by omega
  rw [repeatFree, Walk.bind_ok hcount, Walk.bind_ok ht, pad, if_neg hpad]
  rfl

end Step

/-! ## Token trees -/

theorem Atom.reaches (settings : Settings) (a : Atom) :
    Step.Reaches (a.step (.free .tape) settings) (a.Yields settings) := by
  cases a with
  | literal ch => exact Step.reaches_literal _ ch
  | position => exact Step.reaches_nothing
  | charClass cls => exact Step.reaches_member _
  | reference n => exact Step.reaches_reference n

theorem Step.reaches_interpretation (settings : Settings) :
    Interpretation.Relates Reaches (Step.interpretation (.free .tape) settings)
      (Production.interpretation settings) where
  atom := Atom.reaches settings
  looking := reaches_nothing
  sequence := reaches_sequence
  alternation _ := reaches_alternation
  capturing group h := reaches_capturing h group
  repetition _ h := reaches_repetition h _ _

/-- For every text of a token there is a tape from which a free run produces it. -/
theorem Token.reaches (settings : Settings) {token : Token} (h : token.Regular) :
    Step.Reaches (token.step (.free .tape) settings) (token.Yields settings) := by
  rw [Token.step_eq_interpret]
  exact (Step.reaches_interpretation settings).interpret h

end PatternGen
