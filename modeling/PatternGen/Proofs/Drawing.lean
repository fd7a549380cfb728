import PatternGen.Proofs.CodeSet.Rank
import PatternGen.Proofs.Plan.Token

/-!
# Runs that draw

A free run and a steered one draw what they do not know. A steered run tries branches and takes them
back, writes counts into places that it kept free, undoes the last attempt of a repetition and pads
what is missing. In the end, however, its log is a list of answers to the plan of the pattern, and
these lead to the text that it produced and to the captures that it holds.

Results:
* `Token.follows`: every run over a regular token tree comes to an end, in this way.
-/

namespace PatternGen

variable {σ : Type} {I : σ → Prop} {chooser : Chooser σ}

/-- From states that satisfy `I` the chooser answers within the bounds, if these are in order. It
keeps to such states, and does not ask again for a count that was sampled. -/
structure Chooser.Draws (chooser : Chooser σ) (I : σ → Prop) : Prop where
  answer : ∀ {lo hi : Nat} {s : σ}, lo ≤ hi → I s →
    ∃ v s', chooser.answer lo hi s = .ok v s' ∧ (lo ≤ v ∧ v ≤ hi) ∧ I s'
  recounts : chooser.recounts = false

/-- A step always comes to an end, and what it adds to the log are answers that lead to the end of
the plan, with the text and the captures of the step. -/
def Step.Follows (I : σ → Prop) (step : Step σ) (plan : Plan (List Char)) : Prop :=
  ∀ target (s : Walk.State σ), I s.source → ∃ p s' vs, step target s = .ok p s' ∧ I s'.source ∧
    s'.log = s.log.append vs ∧ plan.Ends s.captures vs p.text s'.captures

/-! ## Choices -/

theorem Chooser.bestScore?_lt {scores : List Nat} {k : Nat} (h : bestScore? scores = some k) :
    k < scores.length := by
  unfold bestScore? at h
  dsimp only at h
  split at h
  · cases h
  · exact (List.findIdx?_eq_some_iff_findIdx_eq.1 h).1

namespace Chooser.Draws

variable (hd : chooser.Draws I)
include hd

theorem ask {lo hi : Nat} (h : lo ≤ hi) {s : Walk.State σ} (hs : I s.source) :
    ∃ v s', chooser.ask lo hi s = .ok v s' ∧ (lo ≤ v ∧ v ≤ hi) ∧ I s'.source ∧
      s'.log = s.log.append [v] ∧ s'.captures = s.captures := by
  obtain ⟨v, source, ha, hv, hi'⟩ := hd.answer h hs
  refine ⟨v, ⟨source, s.log.push v, s.captures⟩, ?_, hv, hi', s.log.push_eq_append v, rfl⟩
  rw [Chooser.ask, ha]

theorem letterCase (forced : Option Bool) {s : Walk.State σ} (hs : I s.source) :
    ∃ swap s' k, chooser.letterCase forced s = .ok swap s' ∧ k ≤ 1 ∧ swap = decide (k = 1) ∧
      I s'.source ∧ s'.log = s.log.append [k] ∧ s'.captures = s.captures := by
  unfold Chooser.letterCase
  cases hf : if chooser.steered then forced else none with
  | some swap =>
    refine ⟨swap, { s with log := s.log.push swap.toNat }, swap.toNat, rfl, swap.toNat_le, ?_, hs,
      s.log.push_eq_append _, rfl⟩
    cases swap <;> rfl
  | none =>
    obtain ⟨k, s', ha, hk, hi', hl, hc⟩ := hd.ask (Nat.zero_le 1) hs
    exact ⟨decide (k = 1), s', k, Walk.bind_ok ha, hk.2, rfl, hi', hl, hc⟩

theorem member (set : CodeSet) (next : Option Char) {s : Walk.State σ} (hs : I s.source) :
    ∃ m s' k, chooser.member set next s = .ok m s' ∧ k ≤ set.size - 1 ∧
      m.value = characterAt set k ∧ I s'.source ∧ s'.log = s.log.append [k] ∧
      s'.captures = s.captures := by
  unfold Chooser.member
  cases ht : chooser.targetRank? set next with
  | some ck =>
    obtain ⟨c, k⟩ := ck
    have hr : set.rank c.val = some k := by
      unfold targetRank? at ht
      split at ht
      · obtain ⟨c', -, h⟩ := Option.bind_eq_some_iff.1 ht
        obtain ⟨k', hk', h⟩ := Option.map_eq_some_iff.1 h
        cases h
        exact hk'
      · cases ht
    obtain ⟨hk, hc⟩ := characterAt_of_rank hr
    exact ⟨⟨c, true⟩, { s with log := s.log.push k }, k, rfl, by omega, hc.symm, hs,
      s.log.push_eq_append _, rfl⟩
  | none =>
    obtain ⟨k, s', ha, hk, hi', hl, hc⟩ := hd.ask (Nat.zero_le (set.size - 1)) hs
    exact ⟨⟨characterAt set k, false⟩, s', k, Walk.bind_ok ha, hk.2, rfl, hi', hl, hc⟩

theorem branch {scores : List Nat} (hne : scores ≠ []) {s : Walk.State σ} (hs : I s.source) :
    ∃ k s', chooser.branch scores s = .ok k s' ∧ k < scores.length ∧ I s'.source ∧
      s'.log = s.log.append [k] ∧ s'.captures = s.captures := by
  unfold Chooser.branch
  cases hb : if chooser.steered then bestScore? scores else none with
  | some k =>
    refine ⟨k, { s with log := s.log.push k }, rfl, ?_, hs, s.log.push_eq_append _, rfl⟩
    split at hb
    · exact bestScore?_lt hb
    · cases hb
  | none =>
    obtain ⟨k, s', ha, hk, hi', hl, hc⟩ := hd.ask (Nat.zero_le (scores.length - 1)) hs
    have := List.length_pos_iff.2 hne
    exact ⟨k, s', ha, by omega, hi', hl, hc⟩

end Chooser.Draws

/-! ## Steps -/

namespace Step

theorem follows_nothing : Follows I (nothing : Step σ) (pure []) := by
  intro target s hs
  exact ⟨{}, s, [], rfl, hs, s.log.append_nil.symm, .done⟩

theorem follows_literal (hd : chooser.Draws I) (ignoreCase : Bool) (c : Char) :
    Follows I (literal chooser ignoreCase c) (Plan.literal ignoreCase c) := by
  intro target s hs
  unfold literal Plan.literal
  dsimp only
  generalize (if ignoreCase = true then otherCase c else c) = other
  by_cases ho : other = c
  · rw [if_pos ho, if_pos ho]
    exact ⟨_, s, [], rfl, hs, s.log.append_nil.symm, .done⟩
  · rw [if_neg ho, if_neg ho]
    obtain ⟨swap, s', k, ha, hk, hswap, hi, hl, hc⟩ := hd.letterCase _ hs
    refine ⟨_, s', [k], Walk.bind_ok ha, hi, hl, Plan.ends_question_bind (Nat.zero_le k) hk ?_⟩
    rw [hswap, hc]
    simp only [decide_eq_true_eq]
    exact .done

theorem follows_member (hd : chooser.Draws I) (set : CodeSet) :
    Follows I (member chooser set) (Plan.member set) := by
  intro target s hs
  unfold member Plan.member
  by_cases he : set.isEmpty = true
  · rw [if_pos he, if_pos he]
    exact ⟨{}, s, [], rfl, hs, s.log.append_nil.symm, .done⟩
  · rw [if_neg he, if_neg he]
    obtain ⟨m, s', k, ha, hk, hm, hi, hl, hc⟩ := hd.member set target.head? hs
    refine ⟨_, s', [k], Walk.bind_ok ha, hi, hl, Plan.ends_question_bind (Nat.zero_le k) hk ?_⟩
    rw [hm, hc]
    exact .done

theorem follows_reference (n : Nat) : Follows I (reference n : Step σ) (Plan.reference n) := by
  intro target s hs
  exact ⟨_, s, [], rfl, hs, s.log.append_nil.symm, .fetch .done⟩

theorem follows_sequence {steps : List (Step σ)} {plans : List (Plan (List Char))}
    (h : List.Forall₂ (Follows I) steps plans) : Follows I (sequence steps) (.sequence plans) := by
  induction h with
  | nil => exact follows_nothing
  | @cons step plan steps plans hstep _ ih =>
    intro target s hs
    obtain ⟨p₁, s₁, vs₁, h₁, hi₁, hl₁, he₁⟩ := hstep target s hs
    obtain ⟨p₂, s₂, vs₂, h₂, hi₂, hl₂, he₂⟩ := ih (target.drop p₁.consumed) s₁ hi₁
    refine ⟨p₁.append p₂, s₂, vs₁ ++ vs₂, ?_, hi₂, ?_, ?_⟩
    · rw [sequence, Walk.bind_ok h₁, Walk.bind_ok h₂]
      rfl
    · rw [hl₂, hl₁, DecisionLog.append_append]
    · exact Plan.ends_sequence_cons_iff.2 ⟨vs₁, vs₂, _, _, _, rfl, rfl, he₁, he₂⟩

theorem follows_capturing {step : Step σ} {plan : Plan (List Char)} (h : Follows I step plan)
    (group : Option Nat) : Follows I (capturing group step) (.capturing group plan) := by
  intro target s hs
  obtain ⟨p, s₁, vs, h₁, hi, hl, he⟩ := h target s hs
  have hplan : (Plan.capturing group plan).Ends s.captures vs p.text
      (group.elim s₁.captures fun n => s₁.captures.set n p.text) :=
    Plan.ends_capturing_iff.2 ⟨s₁.captures, he, rfl⟩
  cases group with
  | none => exact ⟨p, s₁, vs, Walk.bind_ok h₁, hi, hl, hplan⟩
  | some n =>
    exact ⟨p, { s₁ with captures := s₁.captures.set n p.text }, vs, Walk.bind_ok h₁, hi, hl, hplan⟩

/-! ## Alternations -/

/-- An attempt leaves nothing behind but the state of the source. What is kept of it are answers to
the plan. -/
theorem attempt_follows {step : Step σ} {plan : Plan (List Char)} (h : Follows I step plan)
    (target : List Char) {s : Walk.State σ} (hs : I s.source) :
    ∃ trial s', attempt step target s = .ok trial s' ∧ I s'.source ∧ s'.log = s.log ∧
      s'.captures = s.captures ∧ plan.Ends s.captures trial.kept.decisions trial.produced.text
        trial.kept.captures := by
  obtain ⟨p, s₁, vs, h₁, hi, hl, he⟩ := h target s hs
  exact ⟨_, _, attempt_ok h₁ hl, hi, rfl, rfl, he⟩

theorem attempts_follow {steps : List (Step σ)} {plans : List (Plan (List Char))}
    (h : List.Forall₂ (Follows I) steps plans) (target : List Char) {s : Walk.State σ}
    (hs : I s.source) : ∃ trials s', attempts steps target s = .ok trials s' ∧ I s'.source ∧
      s'.log = s.log ∧ s'.captures = s.captures ∧ List.Forall₂ (fun (trial : Trial) plan =>
        plan.Ends s.captures trial.kept.decisions trial.produced.text trial.kept.captures)
          trials plans := by
  induction h generalizing s with
  | nil => exact ⟨[], s, rfl, hs, rfl, rfl, .nil⟩
  | @cons step plan steps plans hstep _ ih =>
    obtain ⟨trial, s₁, h₁, hi₁, hl₁, hc₁, he⟩ := attempt_follows hstep target hs
    obtain ⟨trials, s₂, h₂, hi₂, hl₂, hc₂, hall⟩ := ih hi₁
    refine ⟨trial :: trials, s₂, ?_, hi₂, hl₂.trans hl₁, hc₂.trans hc₁, .cons he ?_⟩
    · rw [attempts, Walk.bind_ok h₁, Walk.bind_ok h₂]
      rfl
    · rw [hc₁] at hall
      exact hall

theorem follows_bestBranch (hd : chooser.Draws I) {steps : List (Step σ)}
    {plans : List (Plan (List Char))} (hne : plans ≠ [])
    (h : List.Forall₂ (Follows I) steps plans) :
    Follows I (bestBranch chooser steps) (.alternation plans) := by
  intro target s hs
  obtain ⟨trials, s₁, h₁, hi₁, hl₁, hc₁, hall⟩ := attempts_follow h target hs
  have hlen := hall.length_eq
  have hpos := List.length_pos_iff.2 hne
  have hscores : trials.map (·.produced.consumed) ≠ [] := by
    rw [← List.length_pos_iff, List.length_map]
    omega
  obtain ⟨k, s₂, h₂, hk, hi₂, hl₂, hc₂⟩ := hd.branch hscores hi₁
  rw [List.length_map] at hk
  have he := (List.forall₂_iff_get.1 hall).2 k hk (by omega)
  refine ⟨(trials.get ⟨k, hk⟩).produced, { s₂ with
    log := s₂.log.append (trials.get ⟨k, hk⟩).kept.decisions
    captures := (trials.get ⟨k, hk⟩).kept.captures },
    k :: (trials.get ⟨k, hk⟩).kept.decisions, ?_, hi₂, ?_, Plan.ends_alternation (by omega) he⟩
  · rw [bestBranch, Walk.bind_ok h₁, Walk.bind_ok h₂, Walk.bind_ok (pick_of_lt hk s₂)]
    rfl
  · show s₂.log.append _ = _
    rw [hl₂, hl₁, DecisionLog.append_append]
    rfl

theorem follows_chosenBranch (hd : chooser.Draws I) {steps : List (Step σ)}
    {plans : List (Plan (List Char))} (hne : plans ≠ [])
    (h : List.Forall₂ (Follows I) steps plans) :
    Follows I (chosenBranch chooser steps) (.alternation plans) := by
  intro target s hs
  have hlen := h.length_eq
  have hpos := List.length_pos_iff.2 hne
  obtain ⟨k, s₁, h₁, hk, hi₁, hl₁, hc₁⟩ := hd.ask (Nat.zero_le (steps.length - 1)) hs
  have hk' : k < steps.length := by omega
  obtain ⟨p, s₂, vs, h₂, hi₂, hl₂, he⟩ :=
    (List.forall₂_iff_get.1 h).2 k hk' (by omega) target s₁ hi₁
  refine ⟨p, s₂, k :: vs, ?_, hi₂, ?_, Plan.ends_alternation (by omega) (hc₁ ▸ he)⟩
  · rw [chosenBranch, Chooser.index, Walk.bind_ok h₁, Walk.bind_ok (pick_of_lt hk' s₁)]
    exact h₂
  · rw [hl₂, hl₁, DecisionLog.append_append]
    rfl

theorem follows_alternation (hd : chooser.Draws I) {steps : List (Step σ)}
    {plans : List (Plan (List Char))} (hne : plans ≠ [])
    (h : List.Forall₂ (Follows I) steps plans) :
    Follows I (alternation chooser steps) (.alternation plans) := by
  intro target s hs
  unfold alternation
  split
  · exact follows_bestBranch hd hne h target s hs
  · exact follows_chosenBranch hd hne h target s hs

/-! ## Repetitions -/

theorem times_follow {step : Step σ} {plan : Plan (List Char)} (h : Follows I step plan) (n : Nat)
    {s : Walk.State σ} (hs : I s.source) : ∃ text s' vs, times step n s = .ok text s' ∧
      I s'.source ∧ s'.log = s.log.append vs ∧
      (Plan.sequence (List.replicate n plan)).Ends s.captures vs text s'.captures := by
  obtain ⟨p, s', vs, hrun, hi, hl, he⟩ :=
    follows_sequence (Interpretation.forall₂_replicate h n) [] s hs
  refine ⟨p.text, s', vs, ?_, hi, hl, he⟩
  rw [times_eq_sequence, Walk.bind_ok hrun]
  rfl

/-- The attempts that account for some of the target are repetitions of the plan, and the last one,
which does not, leaves nothing behind. -/
theorem whileConsuming_follows {step : Step σ} {plan : Plan (List Char)} (h : Follows I step plan)
    (max : Nat) (target : List Char) {s : Walk.State σ} (hs : I s.source) :
    ∃ n p s' vs, whileConsuming step max target s = .ok (n, p) s' ∧ n ≤ max ∧ n ≤ p.consumed ∧
      I s'.source ∧ s'.log = s.log.append vs ∧
      (Plan.sequence (List.replicate n plan)).Ends s.captures vs p.text s'.captures := by
  induction max generalizing target s with
  | zero =>
    exact ⟨0, {}, s, [], rfl, Nat.le_refl 0, Nat.le_refl 0, hs, s.log.append_nil.symm, .done⟩
  | succ max ih =>
    obtain ⟨p, s₁, vs₁, h₁, hi₁, hl₁, he₁⟩ := h target s hs
    by_cases hc : p.consumed = 0
    · exact ⟨0, {}, _, [], whileConsuming_of_eq_zero h₁ hc hl₁, Nat.zero_le _, Nat.le_refl 0, hi₁,
        s.log.append_nil.symm, .done⟩
    · obtain ⟨n, others, s₂, vs₂, h₂, hn, hcount, hi₂, hl₂, he₂⟩ := ih (target.drop p.consumed) hi₁
      refine ⟨n + 1, p.append others, s₂, vs₁ ++ vs₂, whileConsuming_of_ne_zero h₁ hc h₂,
        Nat.succ_le_succ hn, ?_, hi₂, ?_, ?_⟩
      · show n + 1 ≤ p.consumed + others.consumed
        omega
      · rw [hl₂, hl₁, DecisionLog.append_append]
      · exact Plan.ends_sequence_cons_iff.2 ⟨vs₁, vs₂, _, _, _, rfl, rfl, he₁, he₂⟩

/-- After `n` repetitions, padding completes the count that the sampled number and `n` stand for. -/
theorem pad_follows {step : Step σ} {plan : Plan (List Char)} (h : Follows I step plan)
    {min sampled n : Nat} (hmin : min ≤ sampled) (p : Produced) {c : Captures} {vs : List Nat}
    {s : Walk.State σ} (hs : I s.source)
    (he : (Plan.sequence (List.replicate n plan)).Ends c vs p.text s.captures) :
    ∃ p' s' us, pad step min sampled n p s = .ok p' s' ∧ p'.consumed = p.consumed ∧ I s'.source ∧
      s'.log = s.log.append us ∧
      (Plan.sequence (List.replicate (Plan.count min sampled n) plan)).Ends c (vs ++ us) p'.text
        s'.captures := by
  unfold pad Plan.count
  by_cases hn : n < min
  · obtain ⟨text, s', us, ht, hi, hl, he'⟩ := times_follow h (sampled - n) hs
    refine ⟨{ p with text := p.text ++ text }, s', us, ?_, rfl, hi, hl, ?_⟩
    · rw [if_pos hn]
      exact Walk.bind_ok ht
    · -- the `n` repetitions along the target and the free ones are the sampled number together
      rw [if_pos hn, show sampled = n + (sampled - n) by omega, List.replicate_add]
      exact Plan.ends_sequence_append he he'
  · refine ⟨p, s, [], by rw [if_neg hn]; rfl, rfl, hs, s.log.append_nil.symm, ?_⟩
    rw [if_neg hn, List.append_nil]
    exact he

theorem follows_repeatAlong {step : Step σ} {plan : Plan (List Char)} (h : Follows I step plan)
    {min max sampled : Nat} (hmin : min ≤ sampled) :
    ∀ target (s : Walk.State σ), I s.source → ∃ p s' n vs,
      repeatAlong step min max sampled target s = .ok p s' ∧ n ≤ max ∧ n ≤ p.consumed ∧
      I s'.source ∧ s'.log = s.log.append (n :: vs) ∧
      (Plan.sequence (List.replicate (Plan.count min sampled n) plan)).Ends s.captures vs p.text
        s'.captures := by
  intro target s hs
  obtain ⟨n, p, s₁, vs, h₁, hn, hcount, hi₁, hl₁, he₁⟩ :=
    whileConsuming_follows h max target (s := { s with log := s.log.push 0 }) hs
  obtain ⟨p', s₂, us, h₂, hc₂, hi₂, hl₂, he₂⟩ :=
    pad_follows h hmin p (s := { s₁ with log := (s.log.push n).append vs }) hi₁ he₁
  refine ⟨p', s₂, n, vs ++ us, ?_, hn, hc₂ ▸ hcount, hi₂, ?_, he₂⟩
  · rw [repeatAlong_of_whileConsuming h₁ hl₁, h₂]
  · rw [hl₂, DecisionLog.push_eq_append, DecisionLog.append_append, DecisionLog.append_append]
    rfl

theorem follows_repeatFree (hd : chooser.Draws I) {step : Step σ} {plan : Plan (List Char)}
    (h : Follows I step plan) {min max sampled : Nat} (hmin : min ≤ sampled) (hmax : sampled ≤ max)
    {s : Walk.State σ} (hs : I s.source) : ∃ p s' n vs,
      repeatFree chooser step min max sampled s = .ok p s' ∧ n ≤ max ∧ I s'.source ∧
      s'.log = s.log.append (n :: vs) ∧
      (Plan.sequence (List.replicate (Plan.count min sampled n) plan)).Ends s.captures vs p.text
        s'.captures := by
  have hcount : chooser.realizeCount sampled max s =
      .ok sampled { s with log := s.log.push sampled } := by
    unfold Chooser.realizeCount
    rw [hd.recounts]
    rfl
  obtain ⟨text, s₁, vs, h₁, hi₁, hl₁, he₁⟩ :=
    times_follow h sampled (s := { s with log := s.log.push sampled }) hs
  obtain ⟨p', s₂, us, h₂, -, hi₂, hl₂, he₂⟩ := pad_follows h hmin ⟨text, 0⟩ hi₁ he₁
  refine ⟨p', s₂, sampled, vs ++ us, ?_, hmax, hi₂, ?_, he₂⟩
  · rw [repeatFree, Walk.bind_ok hcount, Walk.bind_ok h₁]
    exact h₂
  · rw [hl₂, hl₁, DecisionLog.push_eq_append, DecisionLog.append_append, DecisionLog.append_append]
    rfl

theorem follows_repetition (hd : chooser.Draws I) {step : Step σ} {plan : Plan (List Char)}
    (h : Follows I step plan) {min max : Nat} (hle : min ≤ max) :
    Follows I (repetition chooser step min max) (.repetition plan min max) := by
  intro target s hs
  obtain ⟨sampled, s₁, h₁, hsampled, hi₁, hl₁, hc₁⟩ := hd.ask hle hs
  have hrest : ∃ p s' n vs,
      (if follows chooser target then repeatAlong step min max sampled target
        else repeatFree chooser step min max sampled) s₁ = .ok p s' ∧ n ≤ max ∧ I s'.source ∧
      s'.log = s₁.log.append (n :: vs) ∧
      (Plan.sequence (List.replicate (Plan.count min sampled n) plan)).Ends s₁.captures vs p.text
        s'.captures := by
    split
    · obtain ⟨p, s₂, n, vs, h₂, hn, -, hrest⟩ := follows_repeatAlong h hsampled.1 target s₁ hi₁
      exact ⟨p, s₂, n, vs, h₂, hn, hrest⟩
    · exact follows_repeatFree hd h hsampled.1 hsampled.2 hi₁
  obtain ⟨p, s₂, n, vs, h₂, hn, hi₂, hl₂, he⟩ := hrest
  refine ⟨p, s₂, sampled :: n :: vs, (Walk.bind_ok h₁).trans h₂, hi₂, ?_, ?_⟩
  · rw [hl₂, hl₁, DecisionLog.append_append]
    rfl
  · rw [hc₁] at he
    exact Plan.ends_question_bind hsampled.1 hsampled.2
      (Plan.ends_question_bind (Nat.zero_le n) hn he)

/-- Along a target, the log gets the sampled count and the realized one first. The realized count is
no larger than what the repetitions account for. -/
theorem repetition_counts (hd : chooser.Draws I) {step : Step σ} {plan : Plan (List Char)}
    (h : Follows I step plan) {min max : Nat} (hle : min ≤ max) {target : List Char}
    (ht : follows chooser target = true) {s : Walk.State σ} (hs : I s.source) :
    ∃ p s' sampled n vs, repetition chooser step min max target s = .ok p s' ∧
      s'.log = s.log.append (sampled :: n :: vs) ∧ n ≤ max ∧ n ≤ p.consumed := by
  obtain ⟨sampled, s₁, h₁, hsampled, hi₁, hl₁, -⟩ := hd.ask hle hs
  obtain ⟨p, s₂, n, vs, h₂, hn, hcount, -, hl₂, -⟩ := follows_repeatAlong h hsampled.1 target s₁ hi₁
  refine ⟨p, s₂, sampled, n, vs, ?_, ?_, hn, hcount⟩
  · rw [repetition, Chooser.sampleCount, Walk.bind_ok h₁, if_pos ht]
    exact h₂
  · rw [hl₂, hl₁, DecisionLog.append_append]
    rfl

end Step

/-! ## Token trees -/

theorem Atom.follows (hd : chooser.Draws I) (settings : Settings) (a : Atom) :
    Step.Follows I (a.step chooser settings) (a.plan settings) := by
  cases a with
  | literal c => exact Step.follows_literal hd _ c
  | position => exact Step.follows_nothing
  | charClass cls => exact Step.follows_member hd _
  | reference n => exact Step.follows_reference n

theorem Step.follows_interpretation (hd : chooser.Draws I) (settings : Settings) :
    Interpretation.Relates (Step.Follows I) (Step.interpretation chooser settings)
      (Plan.interpretation settings) where
  atom := Atom.follows hd settings
  looking := Step.follows_nothing
  sequence := Step.follows_sequence
  alternation := Step.follows_alternation hd
  capturing group h := Step.follows_capturing h group
  repetition hle h := Step.follows_repetition hd h (settings.le_upperBound hle)

/-- A run that draws comes to an end, and its log leads through the plan of the token. -/
theorem Token.follows (hd : chooser.Draws I) (settings : Settings) {token : Token}
    (h : token.Regular) : Step.Follows I (token.step chooser settings) (token.plan settings) := by
  rw [Token.step_eq_interpret]
  exact (Step.follows_interpretation hd settings).interpret h

end PatternGen
