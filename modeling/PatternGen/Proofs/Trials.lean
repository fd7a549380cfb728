import Mathlib.Order.Bounds.Defs
import PatternGen.Proofs.Generation
import PatternGen.Proofs.Lockstep

/-!
# Trials leave no trace

Along a target a walk tries more than it takes: every branch of an alternation, and an iteration of
a repetition beyond the last one. If the answers of the sampler depend on their questions alone,
nothing is left of that. An alternation does what its best branch does on its own, and a repetition
what its iterations do one after another.

What a walk gives is said of all states with the same captures at once, so that neither the log
before it nor the state of the source has a part in it.

Results:
* `Walk.Gives.bind`: what two walks in a row give.
* `Token.steady`: what the steps of a token give depends on the target and the captures alone.
* `Step.gives_alternation`, `Step.gives_repetition`: what alternations and repetitions give, by
  what their parts give.
* `Token.trials_leave_no_trace`: both, for all parts of token trees.
-/

namespace PatternGen

variable {σ : Type} {α β : Type}

/-! ## What a walk gives -/

namespace Walk

/-- The decisions of two walks in a row, with the captures that the second one leaves. -/
def Kept.append (a b : Kept) : Kept := ⟨a.decisions ++ b.decisions, b.captures⟩

/-- From every state with the captures `c` the walk ends with the value `a`. It adds the decisions
of `kept` to the log, and leaves its captures. -/
def Gives (x : Walk σ α) (c : Captures) (a : α) (kept : Kept) : Prop :=
  ∀ s, s.captures = c →
    ∃ source, x s = .ok a ⟨source, s.log.append kept.decisions, kept.captures⟩

variable {c : Captures}

theorem gives_pure (a : α) (c : Captures) : Gives (pure a : Walk σ α) c a ⟨[], c⟩ := by
  rintro s rfl
  refine ⟨s.source, ?_⟩
  rw [DecisionLog.append_nil]
  rfl

theorem Gives.bind {x : Walk σ α} {f : α → Walk σ β} {a : α} {b : β} {first second : Kept}
    (hx : Gives x c a first) (hf : Gives (f a) first.captures b second) :
    Gives (x >>= f) c b (first.append second) := by
  intro s hc
  obtain ⟨source, h₁⟩ := hx s hc
  obtain ⟨source', h₂⟩ := hf ⟨source, s.log.append first.decisions, first.captures⟩ rfl
  refine ⟨source', ?_⟩
  rw [bind_ok h₁, h₂, DecisionLog.append_append]
  rfl

/-- The first walk adds nothing. -/
theorem Gives.bind_of_nil {x : Walk σ α} {f : α → Walk σ β} {a : α} {b : β} {kept : Kept}
    (hx : Gives x c a ⟨[], c⟩) (hf : Gives (f a) c b kept) : Gives (x >>= f) c b kept :=
  hx.bind hf

/-- The first walk adds one decision. -/
theorem Gives.bind_of_singleton {x : Walk σ α} {f : α → Walk σ β} {a : α} {b : β} {value : Nat}
    {values : List Nat} {c' : Captures} (hx : Gives x c a ⟨[value], c⟩)
    (hf : Gives (f a) c b ⟨values, c'⟩) : Gives (x >>= f) c b ⟨value :: values, c'⟩ :=
  hx.bind hf

/-- The second walk adds nothing. -/
theorem Gives.bind_pure {x : Walk σ α} {a : α} {kept : Kept} (hx : Gives x c a kept)
    (g : α → β) : Gives (x >>= fun a => pure (g a)) c (g a) kept := by
  have h := hx.bind (f := fun a => (pure (g a) : Walk σ β)) (gives_pure (g a) kept.captures)
  rw [Kept.append, List.append_nil] at h
  exact h

theorem Gives.unique [Nonempty σ] {x : Walk σ α} {a b : α} {k l : Kept} (h : Gives x c a k)
    (h' : Gives x c b l) : a = b ∧ k = l := by
  obtain ⟨source⟩ := ‹Nonempty σ›
  obtain ⟨_, h₁⟩ := h ⟨source, {}, c⟩ rfl
  obtain ⟨_, h₂⟩ := h' ⟨source, {}, c⟩ rfl
  obtain ⟨decisions, captures⟩ := k
  obtain ⟨decisions', captures'⟩ := l
  rw [h₁, EStateM.Result.ok.injEq, State.mk.injEq] at h₂
  obtain ⟨rfl, -, hlog, rfl⟩ := h₂
  obtain rfl := DecisionLog.append_left_cancel hlog
  exact ⟨rfl, rfl⟩

theorem gives_record (value : Nat) (c : Captures) :
    Gives (record value : Walk σ Unit) c () ⟨[value], c⟩ := by
  rintro s rfl
  refine ⟨s.source, ?_⟩
  rw [← DecisionLog.push_eq_append]
  rfl

theorem gives_attach (kept : Kept) (c : Captures) :
    Gives (attach kept : Walk σ Unit) c () kept :=
  fun s _ => ⟨s.source, rfl⟩

end Walk

/-! ## Answers that depend on the question alone -/

/-- The sampler answers the question for a number from `lo` to `hi` with `f lo hi`, whatever its
state is. -/
def Sampler.AnswersBy (sampler : Sampler σ) (f : Nat → Nat → Nat) : Prop :=
  ∀ lo hi s, (sampler lo hi s).1 = f lo hi

/-- The branch that a steered choice takes: the first one of the best score, or the number that is
drawn if no branch has a score. -/
inductive Chooser.Picks (drawn : Nat) (scores : List Nat) : Nat → Prop
  | best {b score : Nat} : scores[b]? = some score → 0 < score → (∀ x ∈ scores, x ≤ score) →
      (∀ x ∈ scores.take b, x < score) → Picks drawn scores b
  | drawn : (∀ x ∈ scores, x = 0) → Picks drawn scores drawn

variable {sampler : Sampler σ} {f : Nat → Nat → Nat}

namespace Chooser

theorem max?_eq_foldl {scores : List Nat} (h : scores ≠ []) :
    scores.max? = some (scores.foldl max 0) := by
  rw [List.foldl_max]
  cases hm : scores.max? with
  | none => exact absurd (List.max?_eq_none_iff.1 hm) h
  | some m => rw [Option.getD_some, Nat.zero_max]

/-- The best score is one of the scores, and no other one is larger. -/
theorem foldl_max_spec {scores : List Nat} {x : Nat} (h : x ∈ scores) :
    scores.foldl max 0 ∈ scores ∧ x ≤ scores.foldl max 0 := by
  have hmax := List.max?_eq_some_iff.1 (max?_eq_foldl (List.ne_nil_of_mem h))
  exact ⟨hmax.1, hmax.2 x h⟩

theorem picks_of_bestScore? {drawn : Nat} {scores : List Nat} {b : Nat}
    (h : bestScore? scores = some b) : Picks drawn scores b := by
  unfold bestScore? at h
  dsimp only at h
  split at h
  · cases h
  · next hpos =>
    obtain ⟨hlt, heq, hfirst⟩ := List.findIdx?_eq_some_iff_getElem.1 h
    rw [decide_eq_true_eq] at heq
    refine .best (List.getElem?_eq_getElem hlt) (by omega) (fun x hx => ?_) fun x hx => ?_
    · rw [heq]
      exact (foldl_max_spec hx).2
    · obtain ⟨i, hi, rfl⟩ := List.mem_iff_getElem.1 hx
      have hle := (foldl_max_spec (List.mem_of_mem_take hx)).2
      rw [List.length_take] at hi
      rw [List.getElem_take] at hle ⊢
      have hne := hfirst i (by omega)
      rw [decide_eq_true_eq] at hne
      omega

theorem eq_zero_of_bestScore? {scores : List Nat} (h : bestScore? scores = none) :
    ∀ x ∈ scores, x = 0 := by
  intro x hx
  obtain ⟨hmem, hle⟩ := foldl_max_spec hx
  unfold bestScore? at h
  dsimp only at h
  split at h
  · omega
  · have hne := List.findIdx?_eq_none_iff.1 h _ hmem
    exact absurd rfl (of_decide_eq_false hne)

theorem gives_ask (hf : sampler.AnswersBy f) (lo hi : Nat) (c : Captures) :
    Walk.Gives ((Chooser.steer sampler).ask lo hi) c (f lo hi) ⟨[f lo hi], c⟩ := by
  rintro s rfl
  refine ⟨(sampler lo hi s.source).2, ?_⟩
  rw [← DecisionLog.push_eq_append, ← hf lo hi s.source]
  rfl

/-- A steered choice of a branch, and the score or the number that settles it. -/
theorem gives_branch (hf : sampler.AnswersBy f) (scores : List Nat) (c : Captures) :
    ∃ b, Picks (f 0 (scores.length - 1)) scores b ∧
      Walk.Gives ((Chooser.steer sampler).branch scores) c b ⟨[b], c⟩ := by
  unfold branch
  cases hb : if (steer sampler).steered then bestScore? scores else none with
  | some b =>
    exact ⟨b, picks_of_bestScore? hb, (Walk.gives_record b c).bind_pure fun _ => b⟩
  | none => exact ⟨_, .drawn (eq_zero_of_bestScore? hb), gives_ask hf 0 _ c⟩

theorem Picks.lt {drawn : Nat} {scores : List Nat} {b : Nat} (h : Picks drawn scores b)
    (hd : drawn < scores.length) : b < scores.length := by
  cases h with
  | best hb => exact (List.getElem?_eq_some_iff.1 hb).1
  | drawn => exact hd

/-- A sampler whose answers depend on the question alone answers itself alike. -/
theorem inStep_of_answersBy (hf : sampler.AnswersBy f) :
    (Chooser.steer sampler).InStep (fun _ _ => True) (Chooser.steer sampler) where
  answer {s t} lo hi _ := by
    refine .inl ⟨f lo hi, (sampler lo hi s).2, (sampler lo hi t).2, ?_, ?_, trivial⟩
    · rw [← hf lo hi s]
      rfl
    · rw [← hf lo hi t]
      rfl
  steered := rfl
  recounts := rfl

end Chooser

/-! ## Steps -/

namespace Step

/-- One after the other. -/
def Trial.append (a b : Trial) : Trial := ⟨a.produced.append b.produced, a.kept.append b.kept⟩

/-- Along the target, from every state with the captures `c`, the step does what the trial says. -/
def Gives (step : Step σ) (target : List Char) (c : Captures) (trial : Trial) : Prop :=
  Walk.Gives (step target) c trial.produced trial.kept

/-- What the step does depends on the target and the captures alone. -/
def Steady (step : Step σ) : Prop := ∀ target c, ∃ trial, step.Gives target c trial

variable {step : Step σ} {steps : List (Step σ)} {target : List Char} {c : Captures}

theorem Gives.unique [Nonempty σ] {a b : Trial} (ha : step.Gives target c a)
    (hb : step.Gives target c b) : a = b := by
  obtain ⟨produced, kept⟩ := a
  obtain ⟨produced', kept'⟩ := b
  obtain ⟨hproduced, hkept⟩ := Walk.Gives.unique ha hb
  exact congr (congrArg Trial.mk hproduced) hkept

end Step

theorem Token.steady [Nonempty σ] (hf : sampler.AnswersBy f) (hs : sampler.WithinBounds)
    (settings : Settings) {token : Token} (h : token.Regular) :
    (token.step (.steer sampler) settings).Steady := by
  intro target c
  obtain ⟨source⟩ := ‹Nonempty σ›
  have hd := hs.draws (I := fun _ => True) (fun _ _ => trivial) true
  obtain ⟨p, s₁, -, hrun, -⟩ := Token.follows hd settings h target ⟨source, {}, c⟩ trivial
  have hsame := Token.inStep (Chooser.inStep_of_answersBy hf) settings h target
  refine ⟨⟨p, ⟨s₁.log.toList, s₁.captures⟩⟩, ?_⟩
  rintro s rfl
  obtain ⟨source', -, hs'⟩ := hsame.from_log (r := .ok p) trivial hrun s.log
  exact ⟨source', hs'⟩

namespace Step

variable {step : Step σ} {steps : List (Step σ)} {target : List Char} {c : Captures}

/-! ## Alternations -/

/-- What a trial did is kept aside, and the walk is back where it was. -/
theorem gives_attempt {trial : Trial} (h : step.Gives target c trial) :
    Walk.Gives (attempt step target) c trial ⟨[], c⟩ := by
  rintro s rfl
  obtain ⟨source, hrun⟩ := h s rfl
  refine ⟨source, ?_⟩
  rw [attempt_ok hrun rfl, DecisionLog.append_nil]

theorem gives_attempts {trials : List Trial}
    (h : List.Forall₂ (fun step trial => Gives step target c trial) steps trials) :
    Walk.Gives (attempts steps target) c trials ⟨[], c⟩ := by
  induction h with
  | nil => exact Walk.gives_pure [] c
  | cons hstep _ ih => exact (gives_attempt hstep).bind_of_nil (ih.bind_pure _)

theorem gives_pick {xs : List α} {k : Nat} {x : α} (h : xs[k]? = some x) (c : Captures) :
    Walk.Gives (pick xs k : Walk σ α) c x ⟨[], c⟩ := by
  unfold pick
  rw [h]
  exact Walk.gives_pure x c

/-- All branches start from the same captures, and an alternation gives what the branch that it
picks gives, after the number of that branch. -/
theorem gives_alternation (hf : sampler.AnswersBy f)
    (hb : f 0 (steps.length - 1) ≤ steps.length - 1) (ht : target ≠ []) (hne : steps ≠ [])
    {trials : List Trial}
    (h : List.Forall₂ (fun step trial => Gives step target c trial) steps trials) :
    ∃ b trial, Chooser.Picks (f 0 (steps.length - 1)) (trials.map (·.produced.consumed)) b ∧
      trials[b]? = some trial ∧ (alternation (.steer sampler) steps).Gives target c
        ⟨trial.produced, ⟨b :: trial.kept.decisions, trial.kept.captures⟩⟩ := by
  have hlen := h.length_eq
  have hpos := List.length_pos_iff.2 hne
  obtain ⟨b, hpicks, hbranch⟩ := Chooser.gives_branch hf (trials.map (·.produced.consumed)) c
  rw [List.length_map, ← hlen] at hpicks
  have hlt : b < trials.length := by
    have hscores := hpicks.lt (by rw [List.length_map]; omega)
    rw [List.length_map] at hscores
    exact hscores
  refine ⟨b, trials[b], hpicks, List.getElem?_eq_getElem hlt, ?_⟩
  have hbest : (bestBranch (.steer sampler) steps).Gives target c
      ⟨trials[b].produced, ⟨b :: trials[b].kept.decisions, trials[b].kept.captures⟩⟩ := by
    refine (gives_attempts h).bind_of_nil (hbranch.bind_of_singleton ?_)
    exact (gives_pick (List.getElem?_eq_getElem hlt) c).bind_of_nil
      ((Walk.gives_attach _ c).bind_pure _)
  unfold Gives alternation
  rw [if_pos (follows_steer sampler ht)]
  exact hbest

/-! ## Repetitions -/

/-- One iteration of the step after the other gives this, each along what the ones before it left of
the target. -/
inductive Iterates (step : Step σ) : Nat → List Char → Captures → Trial → Prop
  | zero {target : List Char} {c : Captures} : Iterates step 0 target c ⟨{}, ⟨[], c⟩⟩
  | succ {n : Nat} {target : List Char} {c : Captures} {first others : Trial} :
      step.Gives target c first →
      Iterates step n (target.drop first.produced.consumed) first.kept.captures others →
      Iterates step (n + 1) target c (first.append others)

/-- After `n` iterations, the next one accounts for nothing. -/
def StallsAfter (step : Step σ) (target : List Char) (c : Captures) (n : Nat) : Prop :=
  ∃ before next, step.Iterates n target c before ∧
    step.Gives (target.drop before.produced.consumed) before.kept.captures next ∧
    next.produced.consumed = 0

theorem stallsAfter_zero_iff [Nonempty σ] {first : Trial} (h : step.Gives target c first) :
    step.StallsAfter target c 0 ↔ first.produced.consumed = 0 := by
  constructor
  · rintro ⟨_, next, ⟨⟩, hnext, hzero⟩
    rw [h.unique hnext]
    exact hzero
  · intro hzero
    exact ⟨_, first, .zero, h, hzero⟩

theorem stallsAfter_succ_iff [Nonempty σ] {first : Trial} (h : step.Gives target c first)
    {n : Nat} : step.StallsAfter target c (n + 1) ↔
      step.StallsAfter (target.drop first.produced.consumed) first.kept.captures n := by
  constructor
  · rintro ⟨_, next, hbefore, hnext, hzero⟩
    cases hbefore with
    | succ hfirst hothers =>
      obtain rfl := h.unique hfirst
      refine ⟨_, next, hothers, ?_, hzero⟩
      rw [List.drop_drop]
      exact hnext
  · rintro ⟨others, next, hothers, hnext, hzero⟩
    refine ⟨_, next, .succ h hothers, ?_, hzero⟩
    rw [List.drop_drop] at hnext
    exact hnext

/-- The realized count grows by an iteration in front that accounts for something. -/
theorem isLeast_succ [Nonempty σ] {first : Trial} (h : step.Gives target c first)
    (hne : first.produced.consumed ≠ 0) {max k : Nat}
    (hk : IsLeast {n | n = max ∨ step.StallsAfter (target.drop first.produced.consumed)
      first.kept.captures n} k) :
    IsLeast {n | n = max + 1 ∨ step.StallsAfter target c n} (k + 1) := by
  refine ⟨hk.1.imp (congrArg _) (stallsAfter_succ_iff h).2, fun n hn => ?_⟩
  cases n with
  | zero =>
    rcases hn with hn | hn
    · cases hn
    · exact absurd ((stallsAfter_zero_iff h).1 hn) hne
  | succ n => exact Nat.succ_le_succ (hk.2 (hn.imp Nat.succ.inj (stallsAfter_succ_iff h).1))

/-- The iteration that accounts for nothing is undone; the others are what is left. -/
theorem gives_whileConsuming [Nonempty σ] (h : step.Steady) (max : Nat) (target : List Char)
    (c : Captures) : ∃ k along, step.Iterates k target c along ∧
      IsLeast {n | n = max ∨ step.StallsAfter target c n} k ∧
      Walk.Gives (whileConsuming step max target) c (k, along.produced) along.kept := by
  induction max generalizing target c with
  | zero => exact ⟨0, _, .zero, ⟨.inl rfl, fun n _ => n.zero_le⟩, Walk.gives_pure _ c⟩
  | succ max ih =>
    obtain ⟨first, hfirst⟩ := h target c
    by_cases hzero : first.produced.consumed = 0
    · have hstalls := (stallsAfter_zero_iff hfirst).2 hzero
      refine ⟨0, _, .zero, ⟨.inr hstalls, fun n _ => n.zero_le⟩, ?_⟩
      rintro s rfl
      obtain ⟨source, hrun⟩ := hfirst s rfl
      refine ⟨source, ?_⟩
      rw [whileConsuming_of_eq_zero hrun hzero rfl, DecisionLog.append_nil]
    · obtain ⟨k, others, hothers, hleast, hrest⟩ :=
        ih (target.drop first.produced.consumed) first.kept.captures
      refine ⟨k + 1, _, .succ hfirst hothers, isLeast_succ hfirst hzero hleast, ?_⟩
      rintro s rfl
      obtain ⟨source, hrun⟩ := hfirst s rfl
      obtain ⟨source', hrun'⟩ :=
        hrest ⟨source, s.log.append first.kept.decisions, first.kept.captures⟩ rfl
      refine ⟨source', ?_⟩
      rw [whileConsuming_of_ne_zero hrun hzero hrun', DecisionLog.append_append]
      rfl

theorem gives_times (h : step.Steady) (n : Nat) (c : Captures) :
    ∃ free, step.Iterates n [] c free ∧
      Walk.Gives (times step n) c free.produced.text free.kept := by
  induction n generalizing c with
  | zero => exact ⟨_, .zero, Walk.gives_pure [] c⟩
  | succ n ih =>
    obtain ⟨first, hfirst⟩ := h [] c
    obtain ⟨others, hothers, hrest⟩ := ih first.kept.captures
    refine ⟨first.append others, .succ hfirst ?_, hfirst.bind (hrest.bind_pure _)⟩
    rw [List.drop_nil]
    exact hothers

theorem gives_pad (h : step.Steady) (min sampled k : Nat) (p : Produced) (c : Captures) :
    ∃ free, step.Iterates (if k < min then sampled - k else 0) [] c free ∧
      Walk.Gives (pad step min sampled k p) c ⟨p.text ++ free.produced.text, p.consumed⟩
        free.kept := by
  unfold pad
  by_cases hk : k < min
  · obtain ⟨free, hfree, hrun⟩ := gives_times h (sampled - k) c
    rw [if_pos hk]
    exact ⟨free, hfree, by rw [if_pos hk]; exact hrun.bind_pure _⟩
  · rw [if_neg hk]
    refine ⟨_, .zero, ?_⟩
    rw [if_neg hk, List.append_nil]
    exact Walk.gives_pure p c

/-- The place of the realized count is filled in before what the iterations record. -/
theorem gives_repeatAlong [Nonempty σ] (h : step.Steady) (min max sampled : Nat)
    (target : List Char) (c : Captures) : ∃ k along free, step.Iterates k target c along ∧
      IsLeast {n | n = max ∨ step.StallsAfter target c n} k ∧
      step.Iterates (if k < min then sampled - k else 0) [] along.kept.captures free ∧
      (repeatAlong step min max sampled).Gives target c
        ⟨⟨along.produced.text ++ free.produced.text, along.produced.consumed⟩,
          ⟨k :: (along.kept.decisions ++ free.kept.decisions), free.kept.captures⟩⟩ := by
  obtain ⟨k, along, halong, hleast, hrun⟩ := gives_whileConsuming h max target c
  obtain ⟨free, hfree, hpad⟩ := gives_pad h min sampled k along.produced along.kept.captures
  refine ⟨k, along, free, halong, hleast, hfree, ?_⟩
  rintro s rfl
  obtain ⟨source, hrun⟩ := hrun { s with log := s.log.push 0 } rfl
  obtain ⟨source', hpad⟩ := hpad
    ⟨source, (s.log.push k).append along.kept.decisions, along.kept.captures⟩ rfl
  refine ⟨source', ?_⟩
  rw [repeatAlong_of_whileConsuming hrun rfl, hpad, DecisionLog.push_eq_append,
    DecisionLog.append_append, DecisionLog.append_append]
  rfl

/-- A repetition gives what its iterations give one after the other, and then the free ones that
are missing, after the sampled count and the realized one. -/
theorem gives_repetition [Nonempty σ] (hf : sampler.AnswersBy f) (h : step.Steady)
    (min max : Nat) (ht : target ≠ []) (c : Captures) :
    ∃ k along free, step.Iterates k target c along ∧
      IsLeast {n | n = max ∨ step.StallsAfter target c n} k ∧
      step.Iterates (if k < min then f min max - k else 0) [] along.kept.captures free ∧
      (repetition (.steer sampler) step min max).Gives target c
        ⟨⟨along.produced.text ++ free.produced.text, along.produced.consumed⟩,
          ⟨f min max :: k :: (along.kept.decisions ++ free.kept.decisions),
            free.kept.captures⟩⟩ := by
  obtain ⟨k, along, free, halong, hleast, hfree, hrun⟩ :=
    gives_repeatAlong h min max (f min max) target c
  refine ⟨k, along, free, halong, hleast, hfree, ?_⟩
  refine (Chooser.gives_ask hf min max c).bind_of_singleton ?_
  rw [if_pos (follows_steer sampler ht)]
  exact hrun

end Step

/-! ## Token trees -/

theorem Token.branchSteps_eq_map (chooser : Chooser σ) (settings : Settings)
    (branches : List (List Token)) : Token.branchSteps chooser settings branches =
      branches.map fun tokens => (Body.sequence tokens).step chooser settings := by
  induction branches with
  | nil => rfl
  | cons tokens branches ih => rw [Token.branchSteps, ih, List.map_cons, Body.step]

theorem Step.capturing_none (step : Step σ) : Step.capturing none step = step := by
  funext target
  simp only [Step.capturing, bind_pure]

/-- A branch is a group that captures nothing. -/
theorem Body.steady [Nonempty σ] (hf : sampler.AnswersBy f) (hs : sampler.WithinBounds)
    (settings : Settings) {tokens : List Token} (h : ∀ token ∈ tokens, token.Regular) :
    ((Body.sequence tokens).step (.steer sampler) settings).Steady := by
  have hgroup : (Token.group {} (.sequence tokens)).Regular := .sequence rfl h
  have hstep : (Token.group {} (.sequence tokens)).step (.steer sampler) settings =
      (Body.sequence tokens).step (.steer sampler) settings := Step.capturing_none _
  rw [← hstep]
  exact Token.steady hf hs settings hgroup

/-- Each branch gives something of its own. -/
theorem Step.Steady.trials {steps : List (Step σ)} (h : ∀ step ∈ steps, step.Steady)
    (target : List Char) (c : Captures) :
    ∃ trials, List.Forall₂ (fun step trial => Step.Gives step target c trial) steps trials := by
  induction steps with
  | nil => exact ⟨[], .nil⟩
  | cons step steps ih =>
    rw [List.forall_mem_cons] at h
    obtain ⟨trial, htrial⟩ := h.1 target c
    obtain ⟨trials, htrials⟩ := ih h.2
    exact ⟨trial :: trials, .cons htrial htrials⟩

/-- Let the answers of the sampler depend on the questions alone. Along a target, an alternation
does what the branch that it picks does on its own, after the number of that branch: this is the
first branch of the best score that one has on its own, or the drawn one if no branch has a score. A
repetition does what its iterations do one after the other, after the sampled count and the realized
one. The realized count is the first one that is the largest count, or after which the next
iteration accounts for nothing; if it is below the least count, free iterations follow up to the
sampled one. -/
theorem Token.trials_leave_no_trace (hf : sampler.AnswersBy f) (hs : sampler.WithinBounds)
    (settings : Settings) {target : List Char} (ht : target ≠ []) (s : Walk.State σ) :
    (∀ branches : List (List Token), branches ≠ [] →
      (∀ tokens ∈ branches, ∀ token ∈ tokens, token.Regular) → ∃ trials b trial,
        List.Forall₂ (fun tokens trial => ((Body.sequence tokens).step (.steer sampler)
          settings).Gives target s.captures trial) branches trials ∧
        Chooser.Picks (f 0 (branches.length - 1)) (trials.map (·.produced.consumed)) b ∧
        trials[b]? = some trial ∧
        ((Body.alternation branches).step (.steer sampler) settings).Gives target s.captures
          ⟨trial.produced, ⟨b :: trial.kept.decisions, trial.kept.captures⟩⟩) ∧
    ∀ (token : Token) (lower : Nat) (upper : Option Nat), token.Regular → ∃ k along free,
      (token.step (.steer sampler) settings).Iterates k target s.captures along ∧
      IsLeast {n | n = settings.upperBound lower upper ∨
        (token.step (.steer sampler) settings).StallsAfter target s.captures n} k ∧
      (token.step (.steer sampler) settings).Iterates
        (if k < lower then f lower (settings.upperBound lower upper) - k else 0) []
        along.kept.captures free ∧
      ((Token.repetition token lower upper).step (.steer sampler) settings).Gives target s.captures
        ⟨⟨along.produced.text ++ free.produced.text, along.produced.consumed⟩,
          ⟨f lower (settings.upperBound lower upper) :: k ::
            (along.kept.decisions ++ free.kept.decisions), free.kept.captures⟩⟩ := by
  have : Nonempty σ := ⟨s.source⟩
  constructor
  · intro branches hne hreg
    have hbound : f 0 (branches.length - 1) ≤ branches.length - 1 := by
      rw [← hf 0 (branches.length - 1) s.source]
      exact (hs 0 _ s.source (Nat.zero_le _)).2
    have hsteady : ∀ step ∈ branches.map fun tokens =>
        (Body.sequence tokens).step (.steer sampler) settings, step.Steady := by
      intro step hstep
      obtain ⟨tokens, htokens, rfl⟩ := List.mem_map.1 hstep
      exact Body.steady hf hs settings (hreg tokens htokens)
    obtain ⟨trials, htrials⟩ := Step.Steady.trials hsteady target s.captures
    obtain ⟨b, trial, hpicks, htrial, hrun⟩ := Step.gives_alternation hf
      (by rw [List.length_map]; exact hbound) ht (mt List.map_eq_nil_iff.1 hne) htrials
    rw [List.length_map] at hpicks
    refine ⟨trials, b, trial, List.forall₂_map_left_iff.1 htrials, hpicks, htrial, ?_⟩
    rw [Body.step, Token.branchSteps_eq_map]
    exact hrun
  · intro token lower upper hreg
    have hsteady := Token.steady hf hs settings hreg
    obtain ⟨k, along, free, halong, hleast, hfree, hrun⟩ := Step.gives_repetition hf hsteady lower
      (settings.upperBound lower upper) ht s.captures
    refine ⟨k, along, free, halong, hleast, hfree, ?_⟩
    rw [Token.step]
    exact hrun

/-- The alternation `a|b` and the repetition `(a|b){2,5}` along `bxa`, with the lowest answer to
every question. -/
theorem Token.trials_leave_no_trace_letters :
    let lowest : Sampler Unit := fun lo _ s => (lo, s)
    let branches : List (List Token) := [[.atom (.literal 'a')], [.atom (.literal 'b')]]
    let inner : Token := .group { capture := some 1 } (.alternation branches)
    let target := ['b', 'x', 'a']
    lowest.AnswersBy (fun lo _ => lo) ∧ lowest.WithinBounds ∧ inner.Regular ∧
    (∃ trials b trial,
      List.Forall₂ (fun tokens trial => ((Body.sequence tokens).step (.steer lowest) {}).Gives
        target {} trial) branches trials ∧
      Chooser.Picks 0 (trials.map (·.produced.consumed)) b ∧ trials[b]? = some trial ∧
      ((Body.alternation branches).step (.steer lowest) {}).Gives target {}
        ⟨trial.produced, ⟨b :: trial.kept.decisions, trial.kept.captures⟩⟩) ∧
    ∃ k along free,
      (inner.step (.steer lowest) {}).Iterates k target {} along ∧
      IsLeast {n | n = 5 ∨ (inner.step (.steer lowest) {}).StallsAfter target {} n} k ∧
      (inner.step (.steer lowest) {}).Iterates (if k < 2 then 2 - k else 0) []
        along.kept.captures free ∧
      ((Token.repetition inner 2 (some 5)).step (.steer lowest) {}).Gives target {}
        ⟨⟨along.produced.text ++ free.produced.text, along.produced.consumed⟩,
          ⟨2 :: k :: (along.kept.decisions ++ free.kept.decisions), free.kept.captures⟩⟩ := by
  intro lowest branches inner target
  have hf : lowest.AnswersBy fun lo _ => lo := fun _ _ _ => rfl
  have hs : lowest.WithinBounds := fun lo hi _ h => ⟨Nat.le_refl lo, h⟩
  have hbranches : ∀ tokens ∈ branches, ∀ token ∈ tokens, token.Regular := by
    intro tokens hts token ht
    simp only [branches, List.mem_cons, List.not_mem_nil, or_false] at hts
    rcases hts with rfl | rfl <;>
    · rw [List.mem_singleton.1 ht]
      exact .atom _
  have hne : branches ≠ [] := List.cons_ne_nil _ _
  have hinner : inner.Regular := .alternation rfl hne hbranches
  obtain ⟨halternation, hrepetition⟩ := Token.trials_leave_no_trace hf hs {}
    (List.cons_ne_nil 'b' ['x', 'a']) { source := () }
  exact ⟨hf, hs, hinner, halternation branches hne hbranches,
    hrepetition inner 2 (some 5) hinner⟩

end PatternGen
