import PatternGen.Pattern.Parse
import PatternGen.Walk.Token

/-!
# Engines

An engine is a compiled pattern with its settings. It generates strings freely, steered toward a
target string, or from the log of an earlier generation. A `Session` is an engine in use: it has a
random source of its own, and remembers the log of its latest generation.

The definitions are models of the functions of `randexp`. Their docstrings name these functions, here
and in the other modules.
-/

namespace PatternGen

/-- A pattern that is ready to generate from. -/
structure Engine where
  pattern : Pattern
  settings : Settings
deriving Inhabited

/-- The result of a generation. -/
structure Generation where
  output : String
  decisions : DecisionLog
  /-- How many characters of the target the output accounts for. -/
  consumed : Nat

namespace Engine

/-- Compiles a pattern text with the flags of a flag text and those that the pattern itself sets
(`compile`). The flag text is read first. -/
def compile (dialect : Dialect) (source flags : String) : Except Error Engine :=
  match Flags.parse flags.toList with
  | .error c => .error (.unknownFlag c)
  | .ok flags =>
    match Pattern.parse dialect source.toList with
    | .error e => .error e
    | .ok pattern => .ok ⟨pattern, { flags := flags.union pattern.inlineFlags }⟩

section

variable {dialect : Dialect} {source flagText : String} {flags : Flags}

theorem compile_eq_ok {pattern : Pattern} (hf : Flags.parse flagText.toList = .ok flags)
    (hp : Pattern.parse dialect source.toList = .ok pattern) :
    compile dialect source flagText =
      .ok ⟨pattern, { flags := flags.union pattern.inlineFlags }⟩ := by
  rw [compile, hf]
  dsimp only
  rw [hp]

theorem compile_eq_error {e : Error} (hf : Flags.parse flagText.toList = .ok flags)
    (he : Pattern.parse dialect source.toList = .error e) :
    compile dialect source flagText = .error e := by
  rw [compile, hf]
  dsimp only
  rw [he]

end

/-- Replaces the settings, except that flags once set stay set (`with_config`). -/
def withSettings (engine : Engine) (settings : Settings) : Engine :=
  { engine with settings := settings.addFlags engine.settings.flags }

/-- Walks through the pattern with a target ahead (`walk`). -/
def walk {σ : Type} (engine : Engine) (chooser : Chooser σ) (source : σ) (target : List Char) :
    EStateM.Result Error (Walk.State σ) Produced :=
  engine.pattern.root.step chooser engine.settings target { source }

/-- The generation that a finished walk amounts to, and the state of its source (`finish`). -/
def generationOf {σ : Type} :
    EStateM.Result Error (Walk.State σ) Produced → Except Error Generation × σ
  | .ok produced s => (.ok ⟨String.ofList produced.text, s.log, produced.consumed⟩, s.source)
  | .error e s => (.error e, s.source)

/-- Generates a string, steered toward the target if there is one (`generate_with_rng`). -/
def generate {σ : Type} (engine : Engine) (sampler : Sampler σ) (target : Option String)
    (source : σ) : Except Error Generation × σ :=
  match target with
  | some target => generationOf (engine.walk (.steer sampler) source target.toList)
  | none => generationOf (engine.walk (.free sampler) source [])

/-- Generates the string that a log stands for, and tells which values were not used
(`generate_from_log`). -/
def replay (engine : Engine) (log : List Nat) : Except Error Generation × Chooser.Replay :=
  generationOf (engine.walk .replay ⟨log, 0⟩ [])

end Engine

/-- An engine with a random source, and the log of its latest generation. -/
structure Session (σ : Type) where
  engine : Engine
  source : σ
  last : DecisionLog := {}

namespace Session

variable {σ τ : Type}

/-- Remembers the log of a generation (`finish`). One that failed leaves the earlier log. -/
def remember (session : Session σ) : Except Error Generation → Session σ
  | .ok g => { session with last := g.decisions }
  | .error _ => session

/-- Generates from the source of the session (`generate`). -/
def generate (session : Session σ) (sampler : Sampler σ) (target : Option String) :
    Except Error Generation × Session σ :=
  let (result, source) := session.engine.generate sampler target session.source
  (result, { session with source }.remember result)

/-- Generates from another source (`generate_with_rng`). -/
def generateFrom (session : Session σ) (sampler : Sampler τ) (source : τ)
    (target : Option String) : Except Error Generation × τ × Session σ :=
  let (result, source) := session.engine.generate sampler target source
  (result, source, session.remember result)

/-- Generates from a log (`generate_from_log`). -/
def replay (session : Session σ) (log : List Nat) : Except Error Generation × Session σ :=
  let (result, _) := session.engine.replay log
  (result, session.remember result)

/-- A random string (`sample`). -/
def sample (session : Session σ) (sampler : Sampler σ) : Except Error String × Session σ :=
  let (result, session) := session.generate sampler none
  (result.map (·.output), session)

end Session

end PatternGen
