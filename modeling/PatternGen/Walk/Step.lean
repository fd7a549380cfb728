import PatternGen.Expansion
import PatternGen.Walk.Choice

/-!
# Steps

A `Step` is a walk that has a target text before it: it produces some text, and tells how many
characters of the target that accounts for. The steps of the leaves of a token tree are given one
by one; sequences, alternations, repetitions and captures put steps together. They are the models of
the methods of `Evaluator`, with the step of a part where the method calls itself on that part.
-/

namespace PatternGen

/-- The text that a step produced, and how many characters of its target it accounts for
(`Produced`). -/
structure Produced where
  text : List Char := []
  consumed : Nat := 0
deriving DecidableEq, Repr, Inhabited

/-- One text after the other. -/
def Produced.append (a b : Produced) : Produced := ⟨a.text ++ b.text, a.consumed + b.consumed⟩

/-- Walks on with a target text ahead. -/
abbrev Step (σ : Type) := (target : List Char) → Walk σ Produced

namespace Step

variable {σ : Type} (chooser : Chooser σ)

/-- A target text is followed: there is one, and the choices are steered. `eval_alternation` and
`eval_repetition` ask for this. -/
def follows (target : List Char) : Bool := chooser.steered && !target.isEmpty

theorem follows_steer (sampler : Sampler σ) {target : List Char} (h : target ≠ []) :
    follows (.steer sampler) target = true := by
  cases target with
  | nil => exact absurd rfl h
  | cons => rfl

/-! ## Leaves -/

/-- Produces nothing, as `eval` does for positions and for groups that look around. -/
def nothing : Step σ := fun _ => pure {}

/-- How many characters of a text precede the first one that satisfies `p`, and that character: the
search of `eval_literal`. -/
def seek (p : Char → Bool) : List Char → Option (Nat × Char)
  | [] => none
  | c :: text => if p c then some (0, c) else (seek p text).map fun (n, c) => (n + 1, c)

/-- Produces a literal (`eval_literal`). It accounts for the target up to the first character that
it can be. -/
def literal (ignoreCase : Bool) (c : Char) : Step σ := fun target => do
  let other := if ignoreCase then otherCase c else c
  let found := seek (fun next => next = c || next = other) target
  let swap ←
    if other = c then pure false else chooser.letterCase (found.map fun (_, next) => next ≠ c)
  pure ⟨[if swap then other else c], (found.map fun (skipped, _) => skipped + 1).getD 0⟩

/-- Produces a member of a set, or nothing if the set is empty (`eval_class`). -/
def member (set : CodeSet) : Step σ := fun target =>
  if set.isEmpty then pure {}
  else do
    let m ← chooser.member set target.head?
    pure ⟨[m.value], m.fromTarget.toNat⟩

/-- Produces what a group captured, as `eval` does for references. That accounts for nothing of the
target. -/
def reference (group : Nat) : Step σ := fun _ => do
  let text ← Walk.captured group
  pure ⟨text, 0⟩

/-! ## Sequences and captures -/

/-- Takes steps one after the other, each with what is left of the target (`eval_stack`, with `drop`
for `advance`). -/
def sequence : List (Step σ) → Step σ
  | [], _ => pure {}
  | step :: steps, target => do
    let first ← step target
    let others ← sequence steps (target.drop first.consumed)
    pure (first.append others)

/-- Captures what a step produces (`eval_group`). -/
def capturing (group : Option Nat) (step : Step σ) : Step σ := fun target => do
  let produced ← step target
  match group with
  | some n => Walk.capture n produced.text
  | none => pure ()
  pure produced

/-! ## Alternations -/

/-- Something tried and kept aside (`Trial`). -/
structure Trial where
  produced : Produced
  kept : Walk.Kept

/-- Tries a step and goes back: one turn of the scoring loop of `eval_alternation`. -/
def attempt (step : Step σ) (target : List Char) : Walk σ Trial := do
  let point ← Walk.checkpoint
  let produced ← step target
  let kept ← Walk.detach point
  pure ⟨produced, kept⟩

/-- Tries steps one after the other, all from the same place: the scoring loop of
`eval_alternation`. -/
def attempts : List (Step σ) → (target : List Char) → Walk σ (List Trial)
  | [], _ => pure []
  | step :: steps, target => do
    let trial ← attempt step target
    let trials ← attempts steps target
    pure (trial :: trials)

/-- The element at a chosen place, as `eval_alternation` takes its branch or its trial. A place that
is not there is an error. -/
def pick {α : Type} (xs : List α) (k : Nat) : Walk σ α :=
  match xs[k]? with
  | some x => pure x
  | none => throw (.indexOutOfBounds k xs.length)

theorem pick_of_lt {α : Type} {xs : List α} {k : Nat} (h : k < xs.length) (s : Walk.State σ) :
    pick xs k s = .ok (xs.get ⟨k, h⟩) s := by
  unfold pick
  rw [List.getElem?_eq_getElem h]
  rfl

/-- Takes the step of a branch that is chosen beforehand: `eval_alternation` without a target to
follow. -/
def chosenBranch (steps : List (Step σ)) : Step σ := fun target => do
  let k ← chooser.index steps.length
  let step ← pick steps k
  step target

/-- Tries all branches, and keeps the one that accounts for most of the target: `eval_alternation`
along a target. -/
def bestBranch (steps : List (Step σ)) : Step σ := fun target => do
  let trials ← attempts steps target
  let k ← chooser.branch (trials.map (·.produced.consumed))
  let trial ← pick trials k
  Walk.attach trial.kept
  pure trial.produced

/-- Takes one of several steps (`eval_alternation`). -/
def alternation (steps : List (Step σ)) : Step σ := fun target =>
  if follows chooser target then bestBranch chooser steps target
  else chosenBranch chooser steps target

/-! ## Repetitions -/

/-- Takes a step a number of times with no target: both counting loops of `eval_repetition`. -/
def times (step : Step σ) : Nat → Walk σ (List Char)
  | 0 => pure []
  | n + 1 => do
    let first ← step []
    let others ← times step n
    pure (first.text ++ others)

/-- Takes a step at most `max` times, for as long as it accounts for some of the target; the attempt
that does not is undone. Tells how often it was taken. This is the matching loop of
`eval_repetition`. -/
def whileConsuming (step : Step σ) : (max : Nat) → (target : List Char) → Walk σ (Nat × Produced)
  | 0, _ => pure (0, {})
  | max + 1, target => do
    let point ← Walk.checkpoint
    let first ← step target
    if first.consumed = 0 then
      Walk.rollback point
      pure (0, {})
    else
      let (count, others) ← whileConsuming step max (target.drop first.consumed)
      pure (count + 1, first.append others)

/-- Adds free repetitions up to the sampled count to a number of repetitions that is too small: the
end of `eval_repetition`. -/
def pad (step : Step σ) (min sampled realized : Nat) (produced : Produced) : Walk σ Produced :=
  if realized < min then do
    let more ← times step (sampled - realized)
    pure { produced with text := produced.text ++ more }
  else pure produced

/-- Repeats a step along the target: `eval_repetition` from behind the sampled count on. The log has
the sampled count first, then the realized one. -/
def repeatAlong (step : Step σ) (min max sampled : Nat) : Step σ := fun target => do
  let slot ← Walk.reserve
  let (count, produced) ← whileConsuming step max target
  Walk.fill slot count
  pad step min sampled count produced

/-- Repeats a step with no target: `eval_repetition` from behind the sampled count on. -/
def repeatFree (step : Step σ) (min max sampled : Nat) : Walk σ Produced := do
  let count ← chooser.realizeCount sampled max
  let text ← times step count
  pad step min sampled count ⟨text, 0⟩

/-- Repeats a step (`eval_repetition`). -/
def repetition (step : Step σ) (min max : Nat) : Step σ := fun target => do
  let sampled ← chooser.sampleCount min max
  if follows chooser target then repeatAlong step min max sampled target
  else repeatFree chooser step min max sampled

/-! ## Attempts and loops in one run -/

section

variable {step : Step σ} {target : List Char} {p q : Produced} {k max : Nat} {values : List Nat}
  {s s₁ s' : Walk.State σ}

/-- What a trial recorded and captured is kept aside. -/
theorem attempt_ok (h : step target s = .ok p s') (hlog : s'.log = s.log.append values) :
    attempt step target s =
      .ok ⟨p, ⟨values, s'.captures⟩⟩ { s' with log := s.log, captures := s.captures } := by
  rw [attempt, Walk.bind_ok (Walk.checkpoint_apply s), Walk.bind_ok h,
    Walk.bind_ok (Walk.detach_of_log hlog)]
  rfl

/-- Repetitions with no target are a sequence with none. -/
theorem times_eq_sequence (step : Step σ) (n : Nat) :
    times step n = sequence (List.replicate n step) [] >>= fun produced => pure produced.text := by
  induction n with
  | zero => rfl
  | succ n ih =>
    rw [times, List.replicate_succ, sequence, ih]
    simp only [bind_assoc, pure_bind, List.drop_nil, Produced.append]

/-- The last attempt is undone, but for what it did to the source. -/
theorem whileConsuming_of_eq_zero (h : step target s = .ok p s') (hp : p.consumed = 0)
    (hlog : s'.log = s.log.append values) :
    whileConsuming step (max + 1) target s =
      .ok (0, {}) { s' with log := s.log, captures := s.captures } := by
  rw [whileConsuming, Walk.bind_ok (Walk.checkpoint_apply s), Walk.bind_ok h, if_pos hp]
  -- what the attempt added is the end of the log, so that cutting it off undoes the attempt
  rw [Walk.bind_ok (Walk.rollback_of_log hlog)]
  rfl

theorem whileConsuming_of_ne_zero (h : step target s = .ok p s₁) (hp : p.consumed ≠ 0)
    (hrest : whileConsuming step max (target.drop p.consumed) s₁ = .ok (k, q) s') :
    whileConsuming step (max + 1) target s = .ok (k + 1, p.append q) s' := by
  rw [whileConsuming, Walk.bind_ok (Walk.checkpoint_apply s), Walk.bind_ok h, if_neg hp,
    Walk.bind_ok hrest]
  rfl

/-- The realized count stands before what the iterations recorded. -/
theorem repeatAlong_of_whileConsuming {min sampled : Nat}
    (h : whileConsuming step max target { s with log := s.log.push 0 } = .ok (k, p) s')
    (hlog : s'.log = (s.log.push 0).append values) :
    repeatAlong step min max sampled target s =
      pad step min sampled k p { s' with log := (s.log.push k).append values } := by
  rw [repeatAlong, Walk.bind_ok (Walk.reserve_apply s), Walk.bind_ok h]
  exact Walk.bind_ok (Walk.fill_of_log hlog k)

end

end Step

end PatternGen
