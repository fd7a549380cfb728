import PatternGen.CommandLine.Arguments
import PatternGen.Engine

/-!
# Running a request

What the command line prints for a request: a line for each generated string, with its log if that
is asked for.
-/

namespace PatternGen.CommandLine

/-- Why a request could not be carried out. -/
inductive Failure where
  | badFlags (flags : List Char) (e : Error)
  | cannotCompile (pattern : List Char) (e : Error)
  | cannotReplay (log : DecisionLog) (e : Error)
  | cannotGenerate (e : Error)

/-- What was being done, and the message of the error, as the contexts of `run` tell it. -/
def Failure.message : Failure → String
  | badFlags flags e => "bad flags " ++ Text.quoted flags ++ ": " ++ e.message
  | cannotCompile pattern e => "cannot compile " ++ Text.quoted pattern ++ ": " ++ e.message
  | cannotReplay log e => "cannot replay [" ++ log.text ++ "]: " ++ e.message
  | cannotGenerate e => e.message

/-- The lines that a run printed, and the failure that ended it. -/
structure Outcome where
  lines : List String
  failure : Option Failure := none

namespace Outcome

/-- All that the run printed; every line has its end. -/
def output (o : Outcome) : String := String.join (o.lines.map (· ++ "\n"))

/-- The status that the program ends with. -/
def exitCode (o : Outcome) : Nat := if o.failure.isSome then 2 else 0

end Outcome

/-- Whether colours are used, given whether the output goes to a terminal (`resolve_use_color`). -/
def ColorWhen.resolve (terminal : Bool) : ColorWhen → Bool
  | .always => true
  | .never => false
  | .auto => terminal

/-- The text in the colour of logs (`maybe_colorize`). -/
def colored (on : Bool) (text : String) : String :=
  if on then "\x1b[01;31m" ++ text ++ "\x1b[m" else text

/-- The line of a generation: its output, and behind a tab its log (`format_generation`). -/
def line (request : Request) (color : Bool) (g : Generation) : String :=
  if request.showLog then g.output ++ "\t" ++ colored color g.decisions.text else g.output

/-- The engine of a request: the first half of `run`. -/
def engineOf (request : Request) : Except Failure Engine :=
  match Flags.parse request.flags with
  | .error c => .error (.badFlags request.flags (.unknownFlag c))
  | .ok flags =>
    match Pattern.parse .lenient request.pattern with
    | .error e => .error (.cannotCompile request.pattern e)
    | .ok pattern =>
      .ok ⟨pattern, { repeatCap := request.max, flags := flags.union pattern.inlineFlags }⟩

/-- The lines of a number of generations, one after the other: the loop of `run`. -/
def generateLines {σ : Type} (engine : Engine) (sampler : Sampler σ) (target : Option String)
    (format : Generation → String) : Nat → σ → Outcome
  | 0, _ => ⟨[], none⟩
  | n + 1, source =>
    match engine.generate sampler target source with
    | (.error e, _) => ⟨[], some (.cannotGenerate e)⟩
    | (.ok g, source) =>
      let rest := generateLines engine sampler target format n source
      { rest with lines := format g :: rest.lines }

/-- Carries out a request (`run`). A log is replayed once, whatever the count is. -/
def run {σ : Type} (request : Request) (terminal : Bool) (sampler : Sampler σ) (source : σ) :
    Outcome :=
  match engineOf request with
  | .error failure => ⟨[], some failure⟩
  | .ok engine =>
    let line := line request (request.color.resolve terminal)
    match request.replay with
    | some log =>
      match engine.replay log.toList with
      | (.error e, _) => ⟨[], some (.cannotReplay log e)⟩
      | (.ok g, _) => ⟨[line g], none⟩
    | none =>
      generateLines engine sampler (request.target.map String.ofList) line request.count source

end PatternGen.CommandLine
