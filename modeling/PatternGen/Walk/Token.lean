import PatternGen.Walk.Step

/-!
# The steps of a token tree

Every token is a step: its meaning is put together from the meanings of its parts.
-/

namespace PatternGen

section

variable {σ : Type} (chooser : Chooser σ) (settings : Settings)

/-- The step of a leaf (`eval`). Positions require something of the text, and are not generated. -/
def Atom.step : Atom → Step σ
  | .literal c => Step.literal chooser settings.flags.caseInsensitive c
  | .position _ => Step.nothing
  | .charClass cls => Step.member chooser (settings.expand cls)
  | .reference n => Step.reference n

mutual

/-- The step of a token (`eval`, and `eval_group` for a group). Groups that look around require
something of the text, and are not generated. -/
def Token.step : Token → Step σ
  | .atom a => a.step chooser settings
  | .repetition token min max =>
    Step.repetition chooser token.step min (settings.upperBound min max)
  | .group frame body =>
    if frame.look.isSome then Step.nothing else Step.capturing frame.capture body.step

/-- The step of the body of a group, within `eval_group`. -/
def Body.step : Body → Step σ
  | .sequence tokens => Step.sequence (Token.steps tokens)
  | .alternation branches => Step.alternation chooser (Token.branchSteps branches)

/-- The steps of the tokens of a sequence. -/
def Token.steps : List Token → List (Step σ)
  | [] => []
  | token :: tokens => token.step :: Token.steps tokens

/-- The steps of the branches of an alternation. -/
def Token.branchSteps : List (List Token) → List (Step σ)
  | [] => []
  | tokens :: branches => Step.sequence (Token.steps tokens) :: Token.branchSteps branches

end

end

end PatternGen
