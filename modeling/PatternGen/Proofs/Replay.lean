import PatternGen.Engine
import PatternGen.Proofs.Plan.Token

/-!
# Replaying

A replay of a log walks straight through the plan of the pattern: it puts the questions of the plan
to the log, in order, and does nothing else.

Results:
* `Token.replays`: the step of a token under replay is the walk of its plan.
* `Token.answerable`: every question of a regular token tree has an answer.
* `Engine.replay_of_ends`, `Engine.replay_of_asks_end`, `Engine.replay_of_asks_outside`: the three
  outcomes of a replay, by where the log leads in the plan.
-/

namespace PatternGen

/-- With no target ahead, the step is the walk of the plan under replay. -/
def Step.Replays (step : Step Chooser.Replay) (plan : Plan (List Char)) : Prop :=
  step [] = do
    let text ← plan.walk .replay
    pure ⟨text, 0⟩

/-- After a question, only the answers within its bounds matter. -/
theorem Chooser.replay_ask_congr {α : Type} {lo hi : Nat} {f g : Nat → Walk Chooser.Replay α}
    (h : ∀ v, lo ≤ v → v ≤ hi → f v = g v) :
    Chooser.replay.ask lo hi >>= f = Chooser.replay.ask lo hi >>= g := by
  funext s
  obtain ⟨⟨pending, u⟩, log, c⟩ := s
  cases pending with
  | nil => rfl
  | cons v rest =>
    by_cases hv : v < lo ∨ hi < v
    · rw [Walk.bind_error (Plan.ask_replay_outside hv _ _ _ _),
        Walk.bind_error (Plan.ask_replay_outside hv _ _ _ _)]
    · have hlo : lo ≤ v := by omega
      have hhi : v ≤ hi := by omega
      rw [Walk.bind_ok (Plan.ask_replay hlo hhi _ _ _ _),
        Walk.bind_ok (Plan.ask_replay hlo hhi _ _ _ _), h v hlo hhi]

namespace Step

theorem replays_nothing : Replays nothing (pure []) := rfl

theorem replays_literal (ignoreCase : Bool) (c : Char) :
    Replays (literal .replay ignoreCase c) (.literal ignoreCase c) := by
  unfold Replays literal Plan.literal
  dsimp only
  generalize (if ignoreCase = true then otherCase c else c) = other
  by_cases ho : other = c
  · rw [if_pos ho, if_pos ho]
    rfl
  · rw [if_neg ho, if_neg ho, Plan.walk_question_bind, bind_assoc]
    show ((Chooser.replay.ask 0 1 >>= fun k => pure (decide (k = 1))) >>= _) = _
    rw [bind_assoc]
    congr 1
    funext k
    simp only [Plan.walk_pure, pure_bind, decide_eq_true_eq]
    rfl

theorem replays_member (set : CodeSet) : Replays (member .replay set) (.member set) := by
  unfold Replays member Plan.member
  by_cases he : set.isEmpty = true
  · rw [if_pos he, if_pos he]
    rfl
  · rw [if_neg he, if_neg he, Plan.walk_question_bind, bind_assoc]
    show ((Chooser.replay.ask 0 (set.size - 1) >>= fun k => pure _) >>= _) = _
    rw [bind_assoc]
    rfl

theorem replays_reference (n : Nat) : Replays (reference n) (.reference n) := rfl

theorem replays_sequence {steps : List (Step Chooser.Replay)} {plans : List (Plan (List Char))}
    (h : List.Forall₂ Replays steps plans) : Replays (sequence steps) (.sequence plans) := by
  induction h with
  | nil => rfl
  | @cons step plan steps plans hstep _ ih =>
    unfold Replays at hstep ih ⊢
    rw [sequence, Plan.sequence, hstep]
    simp only [Plan.walk_bind, Plan.walk_pure, bind_assoc, pure_bind, List.drop_nil, ih]
    rfl

theorem replays_capturing {step : Step Chooser.Replay} {plan : Plan (List Char)}
    (h : Replays step plan) (group : Option Nat) :
    Replays (capturing group step) (.capturing group plan) := by
  unfold Replays at h ⊢
  unfold capturing Plan.capturing
  rw [h, Plan.walk_bind, bind_assoc, bind_assoc]
  congr 1
  funext text
  cases group with
  | none => rfl
  | some n => rfl

theorem replays_alternation {steps : List (Step Chooser.Replay)} {plans : List (Plan (List Char))}
    (hne : plans ≠ []) (h : List.Forall₂ Replays steps plans) :
    Replays (alternation .replay steps) (.alternation plans) := by
  have hlen := h.length_eq
  have hpos := List.length_pos_iff.2 hne
  show (Chooser.replay.ask 0 (steps.length - 1) >>= fun k => pick steps k >>= fun step => step []) =
    _
  unfold Plan.alternation
  rw [Plan.walk_question_bind, bind_assoc, hlen]
  apply Chooser.replay_ask_congr
  intro k _ hk
  have hk₁ : k < steps.length := by omega
  have hk₂ : k < plans.length := by omega
  rw [pick, List.getElem?_eq_getElem hk₁, List.getD_eq_getElem _ _ hk₂]
  exact (List.forall₂_iff_get.1 h).2 k hk₁ hk₂

theorem times_replays {step : Step Chooser.Replay} {plan : Plan (List Char)} (h : Replays step plan)
    (n : Nat) : times step n = (Plan.sequence (List.replicate n plan)).walk .replay := by
  have hsequence : sequence (List.replicate n step) [] = _ :=
    replays_sequence (Interpretation.forall₂_replicate h n)
  rw [times_eq_sequence, hsequence]
  simp only [bind_assoc, pure_bind, bind_pure]

/-- Repeating and padding is repeating as often as the two counts together say. -/
theorem pad_replays {step : Step Chooser.Replay} {plan : Plan (List Char)} (h : Replays step plan)
    {min sampled : Nat} (hmin : min ≤ sampled) (n : Nat) :
    (times step n >>= fun text => pad step min sampled n ⟨text, 0⟩) =
      (Plan.sequence (List.replicate (Plan.count min sampled n) plan)).walk .replay >>=
        fun text => pure ⟨text, 0⟩ := by
  unfold pad Plan.count
  by_cases hn : n < min
  · rw [if_pos hn, show sampled = n + (sampled - n) by omega, List.replicate_add,
      Plan.sequence_append, ← show sampled = n + (sampled - n) by omega]
    simp only [if_pos hn, times_replays h, Plan.walk_bind, Plan.walk_pure, bind_assoc, pure_bind]
  · simp only [if_neg hn, times_replays h]

theorem replays_repetition {step : Step Chooser.Replay} {plan : Plan (List Char)}
    (h : Replays step plan) {min max : Nat} :
    Replays (repetition .replay step min max) (.repetition plan min max) := by
  show (Chooser.replay.ask min max >>= fun sampled => Chooser.replay.ask 0 max >>= fun n =>
    times step n >>= fun text => pad step min sampled n ⟨text, 0⟩) = _
  unfold Plan.repetition
  rw [Plan.walk_question_bind, bind_assoc]
  apply Chooser.replay_ask_congr
  intro sampled hmin _
  rw [Plan.walk_question_bind, bind_assoc]
  apply Chooser.replay_ask_congr
  intro n _ _
  exact pad_replays h hmin n

end Step

/-! ## Token trees -/

theorem Atom.replays (settings : Settings) (a : Atom) :
    Step.Replays (a.step .replay settings) (a.plan settings) := by
  cases a with
  | literal c => exact Step.replays_literal _ c
  | position => exact Step.replays_nothing
  | charClass cls => exact Step.replays_member _
  | reference n => exact Step.replays_reference n

theorem Step.replays_interpretation (settings : Settings) :
    Interpretation.Relates Step.Replays (Step.interpretation .replay settings)
      (Plan.interpretation settings) where
  atom := Atom.replays settings
  looking := Step.replays_nothing
  sequence := Step.replays_sequence
  alternation := Step.replays_alternation
  capturing group h := Step.replays_capturing h group
  repetition _ h := Step.replays_repetition h

/-- The step of a token under replay is the walk of its plan. -/
theorem Token.replays (settings : Settings) {token : Token} (h : token.Regular) :
    Step.Replays (token.step .replay settings) (token.plan settings) := by
  rw [Token.step_eq_interpret]
  exact (Step.replays_interpretation settings).interpret h

/-! ## Every question has an answer -/

namespace Plan

theorem answerable_question_bind {α : Type} {lo hi : Nat} {f : Nat → Plan α} (hle : lo ≤ hi)
    (hf : ∀ v, (f v).Answerable) : (question lo hi >>= f).Answerable :=
  ⟨hle, fun v _ _ => hf v⟩

theorem answerable_sequence {xs : List (Plan (List Char))} (h : ∀ x ∈ xs, x.Answerable) :
    (sequence xs).Answerable := by
  induction xs with
  | nil => trivial
  | cons x xs ih =>
    rw [sequence]
    apply answerable_bind (h x List.mem_cons_self)
    intro first
    apply answerable_bind (ih fun y hy => h y (List.mem_cons_of_mem x hy))
    intro others
    trivial

theorem answerable_literal (ignoreCase : Bool) (c : Char) : (literal ignoreCase c).Answerable := by
  unfold literal
  dsimp only
  generalize (if ignoreCase = true then otherCase c else c) = other
  split
  · trivial
  · exact answerable_question_bind (Nat.zero_le 1) fun _ => trivial

theorem answerable_member (set : CodeSet) : (member set).Answerable := by
  unfold member
  split
  · trivial
  · exact answerable_question_bind (Nat.zero_le _) fun _ => trivial

theorem answerable_capturing {x : Plan (List Char)} (h : x.Answerable) (group : Option Nat) :
    (capturing group x).Answerable := by
  apply answerable_bind h
  intro text
  cases group with
  | none => trivial
  | some n => trivial

theorem answerable_alternation {xs : List (Plan (List Char))} (h : ∀ x ∈ xs, x.Answerable) :
    (alternation xs).Answerable := by
  apply answerable_question_bind (Nat.zero_le _)
  intro k
  rw [List.getD_eq_getElem?_getD]
  cases hk : xs[k]? with
  | none => trivial
  | some x => exact h x (List.mem_of_getElem? hk)

theorem answerable_repetition {x : Plan (List Char)} (h : x.Answerable) {min max : Nat}
    (hle : min ≤ max) : (repetition x min max).Answerable := by
  apply answerable_question_bind hle
  intro sampled
  apply answerable_question_bind (Nat.zero_le max)
  intro realized
  apply answerable_sequence
  intro y hy
  rw [List.eq_of_mem_replicate hy]
  exact h

end Plan

theorem Atom.answerable (settings : Settings) (a : Atom) : (a.plan settings).Answerable := by
  cases a with
  | literal c => exact Plan.answerable_literal _ c
  | position => trivial
  | charClass cls => exact Plan.answerable_member _
  | reference n => exact fun _ => trivial

theorem Plan.answerable_interpretation (settings : Settings) :
    Interpretation.Keeps Plan.Answerable (Plan.interpretation settings) where
  atom := Atom.answerable settings
  looking := trivial
  sequence := Plan.answerable_sequence
  alternation _ := Plan.answerable_alternation
  capturing group h := Plan.answerable_capturing h group
  repetition hle h := Plan.answerable_repetition h (settings.le_upperBound hle)

/-- Every question of a regular token tree has an answer. -/
theorem Token.answerable (settings : Settings) {token : Token} (h : token.Regular) :
    (token.plan settings).Answerable :=
  (Plan.answerable_interpretation settings).interpret h

/-! ## Engines -/

namespace Engine

variable {engine : Engine}

/-- The plan of the pattern under the settings. -/
def plan (engine : Engine) : Plan (List Char) := engine.pattern.root.plan engine.settings

theorem walk_replay (h : engine.pattern.root.Regular) (log : List Nat) :
    engine.walk .replay ⟨log, 0⟩ [] = (engine.plan.walk .replay >>= fun text => pure ⟨text, 0⟩)
      ⟨⟨log, 0⟩, {}, {}⟩ :=
  congrFun (Token.replays engine.settings h) ⟨⟨log, 0⟩, {}, {}⟩

theorem empty_append (values : List Nat) :
    ({} : DecisionLog).append values = .ofList values := by
  rw [← DecisionLog.toList_inj, DecisionLog.toList_append, DecisionLog.toList_ofList]
  rfl

/-- A log that begins with the answers to the plan gives the text that they lead to. -/
theorem walk_replay_of_ends (h : engine.pattern.root.Regular) {vs : List Nat} {text : List Char}
    {c : Captures} (he : engine.plan.Ends {} vs text c) (rest : List Nat) :
    engine.walk .replay ⟨vs ++ rest, 0⟩ [] =
      .ok ⟨text, 0⟩ ⟨⟨rest, vs.length⟩, .ofList vs, c⟩ := by
  rw [walk_replay h, Walk.bind_ok (Plan.walk_of_ends he rest 0 {}), Nat.zero_add, empty_append]
  rfl

theorem replay_of_ends (h : engine.pattern.root.Regular) {vs : List Nat} {text : List Char}
    {c : Captures} (he : engine.plan.Ends {} vs text c) (rest : List Nat) :
    engine.replay (vs ++ rest) =
      (.ok ⟨String.ofList text, .ofList vs, 0⟩, ⟨rest, vs.length⟩) := by
  rw [replay, walk_replay_of_ends h he]
  rfl

/-- A log that stops at a question is exhausted. -/
theorem replay_of_asks_end (h : engine.pattern.root.Regular) {vs : List Nat} {lo hi : Nat}
    (ha : engine.plan.Asks {} vs lo hi) :
    engine.replay vs = (.error (.exhaustedLog vs.length), ⟨[], vs.length⟩) := by
  obtain ⟨c, hw⟩ := Plan.walk_of_asks_end ha {}
  rw [replay, walk_replay h, Walk.bind_error hw]
  rfl

/-- A value out of the bounds of its question is refused, at its position. -/
theorem replay_of_asks_outside (h : engine.pattern.root.Regular) {vs : List Nat} {lo hi v : Nat}
    (ha : engine.plan.Asks {} vs lo hi) (hv : v < lo ∨ hi < v) (rest : List Nat) :
    engine.replay (vs ++ v :: rest) =
      (.error (.valueOutOfBounds vs.length v lo hi), ⟨v :: rest, vs.length⟩) := by
  obtain ⟨c, hw⟩ := Plan.walk_of_asks_outside ha hv {}
  rw [replay, walk_replay h, Walk.bind_error (hw rest)]
  rfl

theorem generationOf_snd {σ : Type} (r : EStateM.Result Error (Walk.State σ) Produced) :
    (generationOf r).2 = (Plan.finalState r).source := by
  cases r with
  | ok p s => rfl
  | error e s => rfl

/-- A value within the bounds of its question is used. -/
theorem used_of_asks (h : engine.pattern.root.Regular) {vs : List Nat} {lo hi v : Nat}
    (ha : engine.plan.Asks {} vs lo hi) (hlo : lo ≤ v) (hhi : v ≤ hi) (rest : List Nat) :
    vs.length < (engine.replay (vs ++ v :: rest)).2.used := by
  have hu := Plan.used_of_asks ha hlo hhi rest {}
  rw [replay, walk_replay h, generationOf_snd, Plan.finalState_bind_pure]
  exact hu

end Engine

end PatternGen
