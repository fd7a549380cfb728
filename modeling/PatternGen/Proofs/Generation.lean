import PatternGen.Proofs.Drawing
import PatternGen.Proofs.Replay
import PatternGen.Proofs.Tape

/-!
# Generating and replaying

What an engine generates, freely or along a target, and what it replays are the same: the texts of
its pattern.

Results:
* `Engine.replay_generate`: the log of a generation gives the same text again, and the same log.
* `Engine.yields_of_generate_or_replay`: every text that is generated or replayed is one of the
  pattern.
* `Engine.generate_and_replay_of_yields`: every text of the pattern is generated and replayed.
-/

namespace PatternGen

variable {σ : Type} {sampler : Sampler σ}

/-- Draws from a sampler, steered or not. -/
def Chooser.drawing (sampler : Sampler σ) (steered : Bool) : Chooser σ :=
  ⟨Chooser.sampled sampler, steered, false⟩

theorem Sampler.WithinBounds.draws (hs : sampler.WithinBounds) {I : σ → Prop}
    (hI : ∀ {lo hi : Nat} {s : σ}, lo ≤ hi → I s → I (sampler lo hi s).2) (steered : Bool) :
    (Chooser.drawing sampler steered).Draws I where
  answer h hs' := ⟨_, _, rfl, hs _ _ _ h, hI h hs'⟩
  recounts := rfl

namespace Engine

variable {engine : Engine}

/-- The walk of a generation. -/
def generating (engine : Engine) (sampler : Sampler σ) (target : Option String) (source : σ) :
    EStateM.Result Error (Walk.State σ) Produced :=
  match target with
  | some target => engine.walk (.steer sampler) source target.toList
  | none => engine.walk (.free sampler) source []

theorem generate_eq (target : Option String) (source : σ) :
    engine.generate sampler target source =
      generationOf (engine.generating sampler target source) := by
  cases target with
  | none => rfl
  | some target => rfl

theorem generate_of_generating {target : Option String} {source : σ} {p : Produced}
    {s : Walk.State σ} (h : engine.generating sampler target source = .ok p s) :
    engine.generate sampler target source =
      (.ok ⟨String.ofList p.text, s.log, p.consumed⟩, s.source) := by
  rw [generate_eq, h]
  rfl

theorem generating_eq_walk (target : Option String) (source : σ) :
    engine.generating sampler target source =
      engine.walk (.drawing sampler target.isSome) source (target.getD "").toList := by
  cases target with
  | none => rfl
  | some target => rfl

theorem walk_ends {chooser : Chooser σ} (hd : chooser.Draws fun _ => True)
    (h : engine.pattern.root.Regular) (source : σ) (target : List Char) :
    ∃ p s, engine.walk chooser source target = .ok p s ∧
      engine.plan.Ends {} s.log.toList p.text s.captures := by
  obtain ⟨p, s, vs, hw, -, hl, he⟩ :=
    Token.follows hd engine.settings h target { source } trivial
  refine ⟨p, s, hw, ?_⟩
  rw [hl, DecisionLog.toList_append, DecisionLog.toList_empty, List.nil_append]
  exact he

/-- A generation comes to an end, and its log leads through the plan of the pattern. -/
theorem generating_ends (h : engine.pattern.root.Regular) (hs : sampler.WithinBounds)
    (target : Option String) (source : σ) :
    ∃ p s, engine.generating sampler target source = .ok p s ∧
      engine.plan.Ends {} s.log.toList p.text s.captures := by
  rw [generating_eq_walk]
  exact walk_ends (hs.draws (fun _ _ => trivial) _) h source _

/-! ## Replaying what was generated -/

/-- Every generation succeeds. Its log gives the same text, is the log of that replay too, and is
used to its end. -/
theorem replay_generate {dialect : Dialect} {text : List Char}
    (h : Pattern.parse dialect text = .ok engine.pattern) (hs : sampler.WithinBounds)
    (target : Option String) (source : σ) :
    ∃ g source', engine.generate sampler target source = (.ok g, source') ∧
      engine.replay g.decisions.toList =
        (.ok ⟨g.output, g.decisions, 0⟩, ⟨[], g.decisions.toList.length⟩) := by
  have hreg := Pattern.regular_of_parse h
  obtain ⟨p, s, hw, he⟩ := generating_ends hreg hs target source
  have hr := replay_of_ends hreg he []
  rw [List.append_nil, DecisionLog.ofList_toList] at hr
  exact ⟨_, s.source, generate_of_generating hw, hr⟩

theorem replay_generate_echo : ∃ g source',
    (Engine.mk .echo {}).generate .tape (some "a7") [2, 0, 5] = (.ok g, source') ∧
      (Engine.mk .echo {}).replay g.decisions.toList =
        (.ok ⟨g.output, g.decisions, 0⟩, ⟨[], g.decisions.toList.length⟩) :=
  replay_generate Pattern.parse_echo Sampler.tape_withinBounds (some "a7") [2, 0, 5]

/-! ## The texts of the pattern -/

theorem exists_ends_iff (h : engine.pattern.root.Regular) {w : List Char} {c : Captures} :
    (∃ vs, engine.plan.Ends {} vs w c) ↔ engine.Yields w c :=
  Token.exists_ends_iff engine.settings h

/-- A log whose replay succeeds begins with answers to the plan. -/
theorem ends_of_replay (h : engine.pattern.root.Regular) {log : List Nat} {g : Generation}
    {left : Chooser.Replay} (hg : engine.replay log = (.ok g, left)) :
    ∃ vs text c, log = vs ++ left.pending ∧ g = ⟨String.ofList text, .ofList vs, 0⟩ ∧
      left.used = vs.length ∧ engine.plan.Ends {} vs text c := by
  have hans := Token.answerable engine.settings h
  rcases Plan.ends_or_asks hans {} log with
    ⟨vs, rest, text, c, rfl, he⟩ | ⟨lo, hi, ha⟩ | ⟨vs, v, rest, lo, hi, rfl, ha, -, hv⟩
  · rw [replay_of_ends h he rest] at hg
    cases hg
    exact ⟨vs, text, c, rfl, rfl, rfl, he⟩
  · rw [replay_of_asks_end h ha] at hg
    cases hg
  · rw [replay_of_asks_outside h ha hv rest] at hg
    cases hg

/-- Whatever a generation produces, free or along a target, and whatever the replay of any log
does, is a text of the pattern, with the captures that it leaves behind. Every generation comes to
an end. -/
theorem yields_of_generate_or_replay {dialect : Dialect} {text : List Char}
    (h : Pattern.parse dialect text = .ok engine.pattern) :
    (∀ {σ : Type} {sampler : Sampler σ}, sampler.WithinBounds →
      ∀ (target : Option String) (source : σ), ∃ g p s,
        engine.generate sampler target source = (.ok g, s.source) ∧
        engine.generating sampler target source = .ok p s ∧
        g.output = String.ofList p.text ∧ g.decisions = s.log ∧ g.consumed = p.consumed ∧
        engine.Yields p.text s.captures) ∧
    ∀ log g left, engine.replay log = (.ok g, left) → ∃ p s,
      engine.walk .replay ⟨log, 0⟩ [] = .ok p s ∧ left = s.source ∧
      g.output = String.ofList p.text ∧ g.decisions = s.log ∧ g.consumed = p.consumed ∧
      engine.Yields p.text s.captures := by
  have hreg := Pattern.regular_of_parse h
  constructor
  · intro σ sampler hs target source
    obtain ⟨p, s, hw, he⟩ := generating_ends hreg hs target source
    exact ⟨_, p, s, generate_of_generating hw, hw, rfl, rfl, rfl,
      (exists_ends_iff hreg).1 ⟨_, he⟩⟩
  · rintro log g ⟨pending, used⟩ hg
    obtain ⟨vs, w, c, rfl, rfl, rfl, he⟩ := ends_of_replay hreg hg
    have hw := walk_replay_of_ends hreg he pending
    exact ⟨_, _, hw, rfl, rfl, rfl, rfl, (exists_ends_iff hreg).1 ⟨vs, he⟩⟩

/-- The second log has a count, zero, that is too small for the pattern. -/
theorem yields_of_generate_or_replay_echo :
    (∃ g p s, (Engine.mk .echo {}).generate .tape (some "a7") [2, 0, 5] = (.ok g, s.source) ∧
      (Engine.mk .echo {}).generating .tape (some "a7") [2, 0, 5] = .ok p s ∧
      g.output = String.ofList p.text ∧ g.decisions = s.log ∧ g.consumed = p.consumed ∧
      (Engine.mk .echo {}).Yields p.text s.captures) ∧
    ∃ p s, (Engine.mk .echo {}).walk .replay ⟨[2, 0, 0, 1, 7], 0⟩ [] = .ok p s ∧
      ⟨[], 5⟩ = s.source ∧ "a77" = String.ofList p.text ∧
      DecisionLog.ofList [2, 0, 0, 1, 7] = s.log ∧ 0 = p.consumed ∧
      (Engine.mk .echo {}).Yields p.text s.captures :=
  have h := yields_of_generate_or_replay Pattern.parse_echo
  ⟨h.1 Sampler.tape_withinBounds (some "a7") [2, 0, 5],
    h.2 [2, 0, 0, 1, 7] ⟨"a77", .ofList [2, 0, 0, 1, 7], 0⟩ _ rfl⟩

/-- Some source gives the text, without a target. -/
def Generates (engine : Engine) (text : String) : Prop :=
  ∃ (σ : Type) (sampler : Sampler σ) (source : σ) (g : Generation) (source' : σ),
    sampler.WithinBounds ∧ engine.generate sampler none source = (.ok g, source') ∧
      g.output = text

/-- Some log gives the text. -/
def Replays (engine : Engine) (text : String) : Prop :=
  ∃ log g left, engine.replay log = (.ok g, left) ∧ g.output = text

theorem exists_replay_of_yields (h : engine.pattern.root.Regular) {w : List Char} {c : Captures}
    (hw : engine.Yields w c) : ∃ log, engine.replay log =
      (.ok ⟨String.ofList w, .ofList log, 0⟩, ⟨[], log.length⟩) := by
  obtain ⟨vs, he⟩ := (exists_ends_iff h).2 hw
  have hr := replay_of_ends h he []
  rw [List.append_nil] at hr
  exact ⟨vs, hr⟩

theorem generates_of_yields (h : engine.pattern.root.Regular) {w : List Char} {c : Captures}
    (hw : engine.Yields w c) : engine.Generates (String.ofList w) := by
  obtain ⟨draws, hd⟩ := Token.reaches engine.settings h hw
  obtain ⟨log, hd⟩ := hd [] {}
  rw [List.append_nil] at hd
  have hwalk : engine.generating .tape none draws = .ok ⟨w, 0⟩ ⟨[], log, c⟩ := hd
  exact ⟨_, .tape, draws, _, [], Sampler.tape_withinBounds, generate_of_generating hwalk, rfl⟩

theorem replays_of_generates (h : engine.pattern.root.Regular) {text : String}
    (hg : engine.Generates text) : engine.Replays text := by
  obtain ⟨σ, sampler, source, g, source', hs, hg, rfl⟩ := hg
  obtain ⟨p, s, hw, he⟩ := generating_ends h hs none source
  rw [generate_of_generating hw] at hg
  cases hg
  exact ⟨_, _, _, replay_of_ends h he [], rfl⟩

theorem generates_of_replays (h : engine.pattern.root.Regular) {text : String}
    (hr : engine.Replays text) : engine.Generates text := by
  obtain ⟨log, g, left, hg, rfl⟩ := hr
  obtain ⟨vs, w, c, -, rfl, -, he⟩ := ends_of_replay h hg
  exact generates_of_yields h ((exists_ends_iff h).1 ⟨vs, he⟩)

/-- Every text of the pattern is replayed from a log that is used to its end, and generated from a
source that answers within bounds. In this way generating and replaying give the same texts. -/
theorem generate_and_replay_of_yields {dialect : Dialect} {text : List Char}
    (h : Pattern.parse dialect text = .ok engine.pattern) :
    (∀ w c, engine.Yields w c →
      (∃ log, engine.replay log = (.ok ⟨String.ofList w, .ofList log, 0⟩, ⟨[], log.length⟩)) ∧
        engine.Generates (String.ofList w)) ∧
    ∀ output, engine.Generates output ↔ engine.Replays output := by
  have hreg := Pattern.regular_of_parse h
  constructor
  · intro w c hw
    exact ⟨exists_replay_of_yields hreg hw, generates_of_yields hreg hw⟩
  · intro output
    exact ⟨replays_of_generates hreg, generates_of_replays hreg⟩

theorem generate_and_replay_of_yields_echo :
    (∃ w c, String.ofList w = "a77" ∧ (Engine.mk .echo {}).Yields w c ∧
      (∃ log, (Engine.mk .echo {}).replay log =
        (.ok ⟨String.ofList w, .ofList log, 0⟩, ⟨[], log.length⟩)) ∧
      (Engine.mk .echo {}).Generates (String.ofList w)) ∧
    ((Engine.mk .echo {}).Generates "a77" ↔ (Engine.mk .echo {}).Replays "a77") := by
  have h := @generate_and_replay_of_yields ⟨.echo, {}⟩ _ _ Pattern.parse_echo
  have hreg := Pattern.regular_of_parse Pattern.parse_echo
  have hr : (Engine.mk .echo {}).replay [2, 0, 0, 1, 7] =
      (.ok ⟨"a77", .ofList [2, 0, 0, 1, 7], 0⟩, ⟨[], 5⟩) := rfl
  obtain ⟨vs, w, c, -, hg, -, he⟩ := ends_of_replay hreg hr
  have hw : (Engine.mk .echo {}).Yields w c := (exists_ends_iff hreg).1 ⟨vs, he⟩
  exact ⟨⟨w, c, (congrArg Generation.output hg).symm, hw, h.1 w c hw⟩, h.2 "a77"⟩

end Engine

end PatternGen
