import PatternGen.Proofs.Interpretation

/-!
# Walks in lockstep

What a walk does depends on the log that it starts with in no way, and on the state of its source
only through the answers that it gets. Two walks over one token tree whose sources answer alike make
the same decisions, produce the same text and capture the same; if one stops with an error, so does
the other. This is proved of walks over different kinds of sources, with a relation between their
states.

Results:
* `Token.inStep`: the steps of a token with two choosers that answer alike.
* `Walk.InStep.from_log`: what a walk does from the empty log, one in step with it does from every
  log.
-/

namespace PatternGen

variable {σ τ : Type} {S : σ → τ → Prop} {α β : Type}

/-! ## Walks -/

namespace Walk

/-- From `s` to `s'` and from `t` to `t'` the same happened: the same decisions were added to the
logs, and the captures are the same again. -/
structure Alike (S : σ → τ → Prop) (s s' : State σ) (t t' : State τ) : Prop where
  source : S s'.source t'.source
  captures : s'.captures = t'.captures
  log : ∃ vs, s'.log = s.log.append vs ∧ t'.log = t.log.append vs

/-- Two walks from `s` and from `t` end with the same value, or stop with the same error. -/
inductive SameEnd (S : σ → τ → Prop) (s : State σ) (t : State τ) :
    EStateM.Result Error (State σ) α → EStateM.Result Error (State τ) α → Prop where
  | ok (a : α) {s' : State σ} {t' : State τ} : Alike S s s' t t' →
      SameEnd S s t (.ok a s') (.ok a t')
  | error (e : Error) {s' : State σ} {t' : State τ} : Alike S s s' t t' →
      SameEnd S s t (.error e s') (.error e t')

/-- From states with the same captures and related sources, whatever their logs, the walks come to
the same end. -/
def InStep (S : σ → τ → Prop) (x : Walk σ α) (y : Walk τ α) : Prop :=
  ∀ s t, S s.source t.source → s.captures = t.captures → SameEnd S s t (x s) (y t)

theorem Alike.stay {s s' : State σ} {t t' : State τ} (hs : S s'.source t'.source)
    (hc : s'.captures = t'.captures) (hsl : s'.log = s.log) (htl : t'.log = t.log) :
    Alike S s s' t t' := by
  refine ⟨hs, hc, [], ?_, ?_⟩
  · rw [hsl, DecisionLog.append_nil]
  · rw [htl, DecisionLog.append_nil]

theorem Alike.push {s s' : State σ} {t t' : State τ} (value : Nat) (hs : S s'.source t'.source)
    (hc : s'.captures = t'.captures) (hsl : s'.log = s.log.push value)
    (htl : t'.log = t.log.push value) : Alike S s s' t t' := by
  refine ⟨hs, hc, [value], ?_, ?_⟩
  · rw [hsl, DecisionLog.push_eq_append]
  · rw [htl, DecisionLog.push_eq_append]

theorem Alike.trans {s₁ s₂ s₃ : State σ} {t₁ t₂ t₃ : State τ} (h₁ : Alike S s₁ s₂ t₁ t₂)
    (h₂ : Alike S s₂ s₃ t₂ t₃) : Alike S s₁ s₃ t₁ t₃ := by
  obtain ⟨vs, hs, ht⟩ := h₁.log
  obtain ⟨us, hs', ht'⟩ := h₂.log
  refine ⟨h₂.source, h₂.captures, vs ++ us, ?_, ?_⟩
  · rw [hs', hs, DecisionLog.append_append]
  · rw [ht', ht, DecisionLog.append_append]

/-- Where the second walk began with the empty log, its log holds what the first one added. -/
theorem Alike.eq_append {s s' : State σ} {t t' : State τ} (h : Alike S s s' t t')
    (ht : t.log = {}) : s' = ⟨s'.source, s.log.append t'.log.toList, t'.captures⟩ := by
  obtain ⟨vs, hsl, htl⟩ := h.log
  have hvs : t'.log.toList = vs := by
    rw [htl, ht, DecisionLog.toList_append, DecisionLog.toList_empty, List.nil_append]
  rw [hvs, ← hsl, ← h.captures]

theorem Alike.sameEnd {s s' : State σ} {t t' : State τ} (h : Alike S s s' t t')
    {r : EStateM.Result Error (State σ) α} {r' : EStateM.Result Error (State τ) α}
    (he : SameEnd S s' t' r r') : SameEnd S s t r r' := by
  cases he with
  | ok a h' => exact .ok a (h.trans h')
  | error e h' => exact .error e (h.trans h')

theorem InStep.bind {x : Walk σ α} {y : Walk τ α} {f : α → Walk σ β} {g : α → Walk τ β}
    (h : InStep S x y) (hf : ∀ a, InStep S (f a) (g a)) : InStep S (x >>= f) (y >>= g) := by
  intro s t hs hc
  have hxy := h s t hs hc
  generalize hx : x s = r, hy : y t = r' at hxy
  cases hxy with
  | ok a hal =>
    rw [bind_ok hx, bind_ok hy]
    exact hal.sameEnd (hf a _ _ hal.source hal.captures)
  | error e hal =>
    rw [bind_error hx, bind_error hy]
    exact .error e hal

/-- The walk stops in the state `s`, with a value or with an error. -/
def stop : Except Error α → State σ → EStateM.Result Error (State σ) α
  | .ok a, s => .ok a s
  | .error e, s => .error e s

theorem exists_stop (r : EStateM.Result Error (State σ) α) : ∃ r' s, r = stop r' s := by
  cases r with
  | ok a s => exact ⟨.ok a, s, rfl⟩
  | error e s => exact ⟨.error e, s, rfl⟩

/-- What the second walk does from the empty log, the first one does from every log. -/
theorem InStep.from_log {x : Walk σ α} {y : Walk τ α} (h : InStep S x y) {source : σ} {t : τ}
    (hs : S source t) {c : Captures} {r : Except Error α} {t' : State τ}
    (hy : y ⟨t, {}, c⟩ = stop r t') (log : DecisionLog) :
    ∃ source', S source' t'.source ∧
      x ⟨source, log, c⟩ = stop r ⟨source', log.append t'.log.toList, t'.captures⟩ := by
  have hxy := h ⟨source, log, c⟩ ⟨t, {}, c⟩ hs rfl
  rw [hy] at hxy
  generalize x ⟨source, log, c⟩ = r' at hxy ⊢
  cases r with
  | ok a =>
    cases hxy with
    | @ok _ s' _ hal =>
      exact ⟨s'.source, hal.source, congrArg (EStateM.Result.ok a) (hal.eq_append rfl)⟩
  | error e =>
    cases hxy with
    | @error _ s' _ hal =>
      exact ⟨s'.source, hal.source, congrArg (EStateM.Result.error e) (hal.eq_append rfl)⟩

theorem inStep_pure (a : α) : InStep S (pure a) (pure a) := by
  intro s t hs hc
  exact .ok a (.stay hs hc rfl rfl)

theorem inStep_throw (e : Error) : InStep S (throw e : Walk σ α) (throw e) := by
  intro s t hs hc
  exact .error e (.stay hs hc rfl rfl)

theorem inStep_record (value : Nat) : InStep S (record value) (record value) := by
  intro s t hs hc
  exact .ok () (.push value hs hc rfl rfl)

/-- A choice that the target settles. -/
theorem inStep_settle (value : Nat) (a : α) :
    InStep S (do record value; pure a) (do record value; pure a) := by
  apply (inStep_record value).bind
  intro _
  exact inStep_pure a

theorem inStep_attach (kept : Kept) : InStep S (attach kept) (attach kept) := by
  intro s t hs _
  exact .ok () ⟨hs, rfl, kept.decisions, rfl, rfl⟩

theorem inStep_captured (group : Nat) : InStep S (captured group) (captured group) := by
  intro s t hs hc
  unfold captured
  rw [hc]
  exact .ok _ (.stay hs hc rfl rfl)

theorem inStep_capture (group : Nat) (text : List Char) :
    InStep S (capture group text) (capture group text) := by
  intro s t hs hc
  refine .ok () (.stay hs ?_ rfl rfl)
  show s.captures.set group text = t.captures.set group text
  rw [hc]

end Walk

/-! ## Choices -/

/-- From related states the choosers give the same answers, or stop with the same error. -/
structure Chooser.InStep (S : σ → τ → Prop) (c : Chooser σ) (d : Chooser τ) : Prop where
  answer : ∀ {s t} (lo hi : Nat), S s t →
    (∃ v s' t', c.answer lo hi s = .ok v s' ∧ d.answer lo hi t = .ok v t' ∧ S s' t') ∨
      ∃ e s' t', c.answer lo hi s = .error e s' ∧ d.answer lo hi t = .error e t' ∧ S s' t'
  steered : c.steered = d.steered
  recounts : c.recounts = d.recounts

namespace Chooser.InStep

variable {c : Chooser σ} {d : Chooser τ} (h : c.InStep S d)
include h

theorem ask (lo hi : Nat) : Walk.InStep S (c.ask lo hi) (d.ask lo hi) := by
  intro s t hs hc
  unfold Chooser.ask
  rcases h.answer lo hi hs with ⟨v, s', t', ha, hb, hs'⟩ | ⟨e, s', t', ha, hb, hs'⟩
  · rw [ha, hb]
    exact .ok v (.push v hs' hc rfl rfl)
  · rw [ha, hb]
    exact .error e (.stay hs' hc rfl rfl)

theorem branch (scores : List Nat) : Walk.InStep S (c.branch scores) (d.branch scores) := by
  unfold Chooser.branch
  rw [h.steered]
  split
  · exact Walk.inStep_settle _ _
  · exact h.ask _ _

theorem member (set : CodeSet) (next : Option Char) :
    Walk.InStep S (c.member set next) (d.member set next) := by
  unfold Chooser.member targetRank?
  rw [h.steered]
  split
  · exact Walk.inStep_settle _ _
  · apply (h.ask _ _).bind
    intro k
    exact Walk.inStep_pure _

theorem realizeCount (sampled max : Nat) :
    Walk.InStep S (c.realizeCount sampled max) (d.realizeCount sampled max) := by
  unfold Chooser.realizeCount
  rw [h.recounts]
  split
  · exact h.ask _ _
  · exact Walk.inStep_settle _ _

theorem letterCase (forced : Option Bool) :
    Walk.InStep S (c.letterCase forced) (d.letterCase forced) := by
  unfold Chooser.letterCase
  rw [h.steered]
  split
  · exact Walk.inStep_settle _ _
  · apply (h.ask _ _).bind
    intro k
    exact Walk.inStep_pure _

end Chooser.InStep

/-! ## Steps -/

namespace Step

/-- Whatever the target, the two steps come to the same end. -/
def InStep (S : σ → τ → Prop) (x : Step σ) (y : Step τ) : Prop :=
  ∀ target, Walk.InStep S (x target) (y target)

variable {c : Chooser σ} {d : Chooser τ} {x : Step σ} {y : Step τ} {xs : List (Step σ)}
  {ys : List (Step τ)}

theorem inStep_nothing : InStep S (nothing : Step σ) (nothing : Step τ) :=
  fun _ => Walk.inStep_pure _

theorem inStep_literal (h : c.InStep S d) (ignoreCase : Bool) (ch : Char) :
    InStep S (literal c ignoreCase ch) (literal d ignoreCase ch) := by
  intro target
  unfold literal
  dsimp only
  generalize (if ignoreCase = true then otherCase ch else ch) = other
  by_cases ho : other = ch
  · simp only [if_pos ho, pure_bind]
    exact Walk.inStep_pure _
  · simp only [if_neg ho]
    apply (h.letterCase _).bind
    intro swap
    exact Walk.inStep_pure _

theorem inStep_member (h : c.InStep S d) (set : CodeSet) :
    InStep S (member c set) (member d set) := by
  intro target
  unfold member
  split
  · exact Walk.inStep_pure _
  · apply (h.member set _).bind
    intro m
    exact Walk.inStep_pure _

theorem inStep_reference (n : Nat) : InStep S (reference n : Step σ) (reference n) := by
  intro target
  apply (Walk.inStep_captured n).bind
  intro text
  exact Walk.inStep_pure _

theorem inStep_sequence (h : List.Forall₂ (InStep S) xs ys) :
    InStep S (sequence xs) (sequence ys) := by
  induction h with
  | nil => exact inStep_nothing
  | cons hx _ ih =>
    intro target
    apply (hx target).bind
    intro first
    apply (ih (target.drop first.consumed)).bind
    intro others
    exact Walk.inStep_pure _

theorem inStep_capturing (h : InStep S x y) (group : Option Nat) :
    InStep S (capturing group x) (capturing group y) := by
  intro target
  apply (h target).bind
  intro produced
  cases group with
  | none => exact Walk.inStep_pure _
  | some n =>
    apply (Walk.inStep_capture n _).bind
    intro _
    exact Walk.inStep_pure _

/-! ## Alternations -/

/-- What is kept of an attempt is the same, and the attempt leaves both walks where they were. -/
theorem inStep_attempt (h : InStep S x y) (target : List Char) :
    Walk.InStep S (attempt x target) (attempt y target) := by
  intro s t hs hc
  have hxy := h target s t hs hc
  unfold attempt
  rw [Walk.bind_ok (Walk.checkpoint_apply s), Walk.bind_ok (Walk.checkpoint_apply t)]
  generalize hx : x target s = r, hy : y target t = r' at hxy
  cases hxy with
  | @ok produced s' t' hal =>
    obtain ⟨vs, hsl, htl⟩ := hal.log
    rw [Walk.bind_ok hx, Walk.bind_ok hy, Walk.bind_ok (Walk.detach_of_log hsl),
      Walk.bind_ok (Walk.detach_of_log htl), hal.captures]
    exact .ok _ (.stay hal.source hc rfl rfl)
  | error e hal =>
    rw [Walk.bind_error hx, Walk.bind_error hy]
    exact .error e hal

theorem inStep_attempts (h : List.Forall₂ (InStep S) xs ys) (target : List Char) :
    Walk.InStep S (attempts xs target) (attempts ys target) := by
  induction h with
  | nil => exact Walk.inStep_pure _
  | cons hx _ ih =>
    apply (inStep_attempt hx target).bind
    intro trial
    apply ih.bind
    intro trials
    exact Walk.inStep_pure _

theorem inStep_pick (zs : List α) (k : Nat) : Walk.InStep S (pick zs k) (pick zs k) := by
  unfold pick
  split
  · exact Walk.inStep_pure _
  · exact Walk.inStep_throw _

theorem inStep_bestBranch (hd : c.InStep S d) (h : List.Forall₂ (InStep S) xs ys) :
    InStep S (bestBranch c xs) (bestBranch d ys) := by
  intro target
  apply (inStep_attempts h target).bind
  intro trials
  apply (hd.branch _).bind
  intro k
  apply (inStep_pick trials k).bind
  intro trial
  apply (Walk.inStep_attach trial.kept).bind
  intro _
  exact Walk.inStep_pure _

theorem inStep_chosenBranch (hd : c.InStep S d) (h : List.Forall₂ (InStep S) xs ys) :
    InStep S (chosenBranch c xs) (chosenBranch d ys) := by
  intro target
  unfold chosenBranch Chooser.index
  rw [← h.length_eq]
  apply (hd.ask _ _).bind
  intro k
  rcases pick_cases h k with ⟨x, y, hxy, hx, hy⟩ | ⟨hx, hy⟩
  · rw [hx, hy, pure_bind, pure_bind]
    exact hxy target
  · rw [hx, hy]
    exact Walk.inStep_throw _

theorem inStep_alternation (hd : c.InStep S d) (h : List.Forall₂ (InStep S) xs ys) :
    InStep S (alternation c xs) (alternation d ys) := by
  intro target
  unfold alternation follows
  rw [hd.steered]
  split
  · exact inStep_bestBranch hd h target
  · exact inStep_chosenBranch hd h target

/-! ## Repetitions -/

theorem inStep_times (h : InStep S x y) (n : Nat) : Walk.InStep S (times x n) (times y n) := by
  rw [times_eq_sequence, times_eq_sequence]
  apply (inStep_sequence (Interpretation.forall₂_replicate h n) []).bind
  intro produced
  exact Walk.inStep_pure _

theorem inStep_pad (h : InStep S x y) (min sampled realized : Nat) (produced : Produced) :
    Walk.InStep S (pad x min sampled realized produced) (pad y min sampled realized produced) := by
  unfold pad
  split
  · apply (inStep_times h _).bind
    intro more
    exact Walk.inStep_pure _
  · exact Walk.inStep_pure _

theorem inStep_whileConsuming (h : InStep S x y) (max : Nat) (target : List Char) :
    Walk.InStep S (whileConsuming x max target) (whileConsuming y max target) := by
  induction max generalizing target with
  | zero => exact Walk.inStep_pure _
  | succ max ih =>
    intro s t hs hc
    have hxy := h target s t hs hc
    unfold whileConsuming
    rw [Walk.bind_ok (Walk.checkpoint_apply s), Walk.bind_ok (Walk.checkpoint_apply t)]
    generalize hx : x target s = r, hy : y target t = r' at hxy
    cases hxy with
    | @ok first s' t' hal =>
      rw [Walk.bind_ok hx, Walk.bind_ok hy]
      split
      · obtain ⟨vs, hsl, htl⟩ := hal.log
        rw [Walk.bind_ok (Walk.rollback_of_log hsl), Walk.bind_ok (Walk.rollback_of_log htl)]
        exact .ok _ (.stay hal.source hc rfl rfl)
      · have hrest := (ih (target.drop first.consumed)).bind fun counted =>
          Walk.inStep_pure (counted.1 + 1, first.append counted.2)
        exact hal.sameEnd (hrest s' t' hal.source hal.captures)
    | error e hal =>
      rw [Walk.bind_error hx, Walk.bind_error hy]
      exact .error e hal

theorem inStep_repeatAlong (h : InStep S x y) (min max sampled : Nat) :
    InStep S (repeatAlong x min max sampled) (repeatAlong y min max sampled) := by
  intro target s t hs hc
  have hxy := inStep_whileConsuming h max target { s with log := s.log.push 0 }
    { t with log := t.log.push 0 } hs hc
  unfold repeatAlong
  rw [Walk.bind_ok (Walk.reserve_apply s), Walk.bind_ok (Walk.reserve_apply t)]
  generalize hx : whileConsuming x max target { s with log := s.log.push 0 } = r,
    hy : whileConsuming y max target { t with log := t.log.push 0 } = r' at hxy
  cases hxy with
  | @ok counted s' t' hal =>
    obtain ⟨n, produced⟩ := counted
    obtain ⟨vs, hsl, htl⟩ := hal.log
    have hfilled : Walk.Alike S s { s' with log := (s.log.push n).append vs } t
        { t' with log := (t.log.push n).append vs } := by
      refine ⟨hal.source, hal.captures, n :: vs, ?_, ?_⟩
      · show (s.log.push n).append vs = _
        rw [DecisionLog.push_eq_append, DecisionLog.append_append]
        rfl
      · show (t.log.push n).append vs = _
        rw [DecisionLog.push_eq_append, DecisionLog.append_append]
        rfl
    rw [Walk.bind_ok hx, Walk.bind_ok hy]
    dsimp only
    rw [Walk.bind_ok (Walk.fill_of_log hsl n), Walk.bind_ok (Walk.fill_of_log htl n)]
    exact hfilled.sameEnd (inStep_pad h min sampled n produced _ _ hal.source hal.captures)
  | error e hal =>
    rw [Walk.bind_error hx, Walk.bind_error hy]
    have hopen : Walk.Alike S s { s with log := s.log.push 0 } t { t with log := t.log.push 0 } :=
      .push 0 hs hc rfl rfl
    exact .error e (hopen.trans hal)

theorem inStep_repeatFree (hd : c.InStep S d) (h : InStep S x y) (min max sampled : Nat) :
    Walk.InStep S (repeatFree c x min max sampled) (repeatFree d y min max sampled) := by
  apply (hd.realizeCount sampled max).bind
  intro count
  apply (inStep_times h count).bind
  intro text
  exact inStep_pad h min sampled count ⟨text, 0⟩

theorem inStep_repetition (hd : c.InStep S d) (h : InStep S x y) (min max : Nat) :
    InStep S (repetition c x min max) (repetition d y min max) := by
  intro target
  apply (hd.ask min max).bind
  intro sampled
  unfold follows
  rw [hd.steered]
  split
  · exact inStep_repeatAlong h min max sampled target
  · exact inStep_repeatFree hd h min max sampled

end Step

/-! ## Token trees -/

variable {c : Chooser σ} {d : Chooser τ}

theorem Atom.inStep (h : c.InStep S d) (settings : Settings) (a : Atom) :
    Step.InStep S (a.step c settings) (a.step d settings) := by
  cases a with
  | literal ch => exact Step.inStep_literal h _ ch
  | position => exact Step.inStep_nothing
  | charClass cls => exact Step.inStep_member h _
  | reference n => exact Step.inStep_reference n

theorem Step.inStep_interpretation (h : c.InStep S d) (settings : Settings) :
    Interpretation.Relates (Step.InStep S) (Step.interpretation c settings)
      (Step.interpretation d settings) where
  atom := Atom.inStep h settings
  looking := Step.inStep_nothing
  sequence := Step.inStep_sequence
  alternation _ := Step.inStep_alternation h
  capturing group hx := Step.inStep_capturing hx group
  repetition _ hx := Step.inStep_repetition h hx _ _

/-- Choosers that answer alike lead through a token in lockstep. -/
theorem Token.inStep (h : c.InStep S d) (settings : Settings) {token : Token}
    (hr : token.Regular) : Step.InStep S (token.step c settings) (token.step d settings) := by
  rw [Token.step_eq_interpret, Token.step_eq_interpret]
  exact (Step.inStep_interpretation h settings).interpret hr

end PatternGen
