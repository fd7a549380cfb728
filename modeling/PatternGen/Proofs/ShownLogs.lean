import PatternGen.CommandLine.Run
import PatternGen.Proofs.DecisionRange
import PatternGen.Proofs.LogText
import PatternGen.Supply

/-!
# Shown logs

A request that asks for the logs gets, for each generated string, a line with the string and its
log. The log of a line is all that is needed to print this line again: with the pattern, the flags
and the largest count of the request, but without its target and its source.

Results:
* `Engine.generate_ends`: the log of a generation leads through the plan of the pattern.
* `CommandLine.generateLines_eq`: the lines of generations that follow one another.
* `CommandLine.run_replays_shown_logs`: the lines of a request, and of replaying each of their logs.
-/

namespace PatternGen

variable {σ : Type} {sampler : Sampler σ}

namespace Engine

variable {engine : Engine}

/-- These generations follow one another, from the one state of the source to the other. -/
inductive Successive (engine : Engine) (sampler : Sampler σ) (target : Option String) :
    σ → List Generation → σ → Prop
  | nil {source : σ} : Successive engine sampler target source [] source
  | cons {source next last : σ} {g : Generation} {gs : List Generation} :
      engine.generate sampler target source = (.ok g, next) →
      Successive engine sampler target next gs last →
      Successive engine sampler target source (g :: gs) last

/-- The log of the generation leads through the plan of the pattern, to its output. -/
def Accounts (engine : Engine) (g : Generation) : Prop :=
  ∃ text c, g.output = String.ofList text ∧ engine.plan.Ends {} g.decisions.toList text c

theorem generate_ends (h : engine.pattern.root.Regular) (hs : sampler.WithinBounds)
    (target : Option String) (source : σ) :
    ∃ g next, engine.generate sampler target source = (.ok g, next) ∧ engine.Accounts g := by
  obtain ⟨p, s, hw, he⟩ := generating_ends h hs target source
  exact ⟨_, s.source, generate_of_generating hw, p.text, s.captures, rfl, he⟩

theorem Accounts.replay {g : Generation} (hg : engine.Accounts g)
    (h : engine.pattern.root.Regular) : engine.replay g.decisions.toList =
      (.ok ⟨g.output, g.decisions, 0⟩, ⟨[], g.decisions.toList.length⟩) := by
  obtain ⟨text, c, houtput, he⟩ := hg
  have hr := replay_of_ends h he []
  rw [List.append_nil, DecisionLog.ofList_toList] at hr
  rw [hr, houtput]

end Engine

namespace CommandLine

theorem engineOf_eq_ok {request : Request} {flags : Flags} {pattern : Pattern}
    (hflags : Flags.parse request.flags = .ok flags)
    (hpattern : Pattern.parse .lenient request.pattern = .ok pattern) :
    engineOf request =
      .ok ⟨pattern, { repeatCap := request.max, flags := flags.union pattern.inlineFlags }⟩ := by
  simp only [engineOf, hflags, hpattern]

theorem line_of_showLog {request : Request} (h : request.showLog = true) (g : Generation) :
    line request false g = g.output ++ "\t" ++ g.decisions.text := by
  rw [line, if_pos h]
  rfl

/-- If every generation succeeds, there is a line for each of a number of them. -/
theorem generateLines_eq {engine : Engine} {target : Option String} {P : Generation → Prop}
    (h : ∀ source, ∃ g next, engine.generate sampler target source = (.ok g, next) ∧ P g)
    (format : Generation → String) (n : Nat) (source : σ) :
    ∃ gs last, engine.Successive sampler target source gs last ∧ gs.length = n ∧
      (∀ g ∈ gs, P g) ∧
      generateLines engine sampler target format n source = ⟨gs.map format, none⟩ := by
  induction n generalizing source with
  | zero => exact ⟨[], source, .nil, rfl, fun g hg => (nomatch hg), rfl⟩
  | succ n ih =>
    obtain ⟨g, next, hg, hP⟩ := h source
    obtain ⟨gs, last, hgs, hlen, hall, hlines⟩ := ih next
    refine ⟨g :: gs, last, .cons hg hgs, congrArg _ hlen, List.forall_mem_cons.2 ⟨hP, hall⟩, ?_⟩
    rw [generateLines, hg]
    dsimp only
    rw [hlines]
    rfl

/-- A request that asks for the logs, in no colour, prints a line for each of its generations: the
output, and behind a tab the log. They are generations of its pattern with its largest count, its
flags and those that the pattern sets. Every such log is read back from its text, and replaying it
prints its line again, whatever the count, the seed and the source are. Texts in memory are shorter
than the largest numeral, which is what `hlen` says of the pattern. -/
theorem run_replays_shown_logs {request : Request} {flags : Flags} {pattern : Pattern}
    (hflags : Flags.parse request.flags = .ok flags)
    (hpattern : Pattern.parse .lenient request.pattern = .ok pattern)
    (hlen : request.pattern.length ≤ Numeral.largest) (hfresh : request.replay = none)
    (hshow : request.showLog = true) {terminal : Bool}
    (hcolor : request.color.resolve terminal = false) (hs : sampler.WithinBounds) (source : σ) :
    let engine : Engine :=
      ⟨pattern, { repeatCap := request.max, flags := flags.union pattern.inlineFlags }⟩
    engineOf request = .ok engine ∧ ∃ (gs : List Generation) (last : σ),
      engine.Successive sampler (request.target.map String.ofList) source gs last ∧
      gs.length = request.count ∧
      run request terminal sampler source =
        ⟨gs.map fun g => g.output ++ "\t" ++ g.decisions.text, none⟩ ∧
      ∀ g ∈ gs, DecisionLog.parse g.decisions.text.toList = .ok g.decisions ∧
        ∀ {τ : Type} (other : Sampler τ) (state : τ) (count : Nat) (seed : Option Nat),
          run { request with replay := some g.decisions, target := none, count, seed } terminal
            other state = ⟨[g.output ++ "\t" ++ g.decisions.text], none⟩ := by
  intro engine
  have hline := line_of_showLog hshow
  have hreg : engine.pattern.root.Regular := Pattern.regular_of_parse hpattern
  have hengine : engineOf request = .ok engine := engineOf_eq_ok hflags hpattern
  obtain ⟨gs, last, hgs, hcount, hall, hlines⟩ := generateLines_eq
    (Engine.generate_ends hreg hs (request.target.map String.ofList)) (line request false)
    request.count source
  refine ⟨hengine, gs, last, hgs, hcount, ?_, fun g hg => ⟨?_, ?_⟩⟩
  · simp only [run, hengine, hfresh, hcolor]
    rw [hlines, funext hline]
  · obtain ⟨text, c, -, he⟩ := hall g hg
    have hrange := Pattern.plan_upTo engine.settings hpattern hlen
    exact DecisionLog.parse_text (hrange.le_of_ends he)
  · intro τ other state count seed
    have hreplay := (hall g hg).replay hreg
    have hsame : engineOf { request with
        replay := some g.decisions, target := none, count, seed } = .ok engine := hengine
    simp only [run, hsame, hcolor, hreplay]
    rw [← hline g]
    rfl

/-- Two lines of the program with a seed, for a letter or digits, some times, and the last of them
again. -/
theorem run_replays_shown_logs_echo :
    let request : Request :=
      { pattern := "(a|\\d)+\\1".toList, flags := ['i'], count := 2, max := 3,
        target := some ['7'], showLog := true }
    let engine : Engine := ⟨.echo, { repeatCap := 3, flags := { caseInsensitive := true } }⟩
    Flags.parse request.flags = .ok { caseInsensitive := true } ∧
    Pattern.parse .lenient request.pattern = .ok .echo ∧
    request.pattern.length ≤ Numeral.largest ∧ request.color.resolve true = false ∧
    Supply.generator.WithinBounds ∧
    engineOf request = .ok engine ∧ ∃ (gs : List Generation) (last : Nat),
      engine.Successive Supply.generator (some (String.ofList ['7'])) 5 gs last ∧ gs.length = 2 ∧
      run request true Supply.generator 5 =
        ⟨gs.map fun g => g.output ++ "\t" ++ g.decisions.text, none⟩ ∧
      ∀ g ∈ gs, DecisionLog.parse g.decisions.text.toList = .ok g.decisions ∧
        ∀ {τ : Type} (other : Sampler τ) (state : τ) (count : Nat) (seed : Option Nat),
          run { request with replay := some g.decisions, target := none, count, seed } true other
            state = ⟨[g.output ++ "\t" ++ g.decisions.text], none⟩ := by
  intro request engine
  have hflags : Flags.parse request.flags = .ok { caseInsensitive := true } := rfl
  have hpattern : Pattern.parse .lenient request.pattern = .ok .echo := Pattern.parse_echo
  have hlen : request.pattern.length ≤ Numeral.largest := by decide
  have hcolor : request.color.resolve true = false := rfl
  have hs := Supply.generator_withinBounds
  exact ⟨hflags, hpattern, hlen, hcolor, hs,
    run_replays_shown_logs hflags hpattern hlen rfl rfl hcolor hs 5⟩

end CommandLine

end PatternGen
