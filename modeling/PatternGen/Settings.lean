import PatternGen.CodeSet.Basic
import PatternGen.Flags
import PatternGen.Text.Numeral

/-!
# Settings

What generation depends on besides the pattern. `Settings` is the model of `GeneratorConfig`.
-/

namespace PatternGen

/-- What is added to the lower bound of a repetition without an upper one, unless settings say
otherwise (`DEFAULT_REPEAT_CAP`). -/
def defaultRepeatCap : Nat := 100

/-- The settings of a generator. -/
structure Settings where
  /-- Added to the lower bound of a repetition that has no upper one. -/
  repeatCap : Nat := defaultRepeatCap
  /-- The code points that classes are drawn from. -/
  alphabet : CodeSet := .printable
  flags : Flags := {}
deriving DecidableEq, Inhabited

namespace Settings

/-- The settings with the flags of an engine added to their own, as `with_config` takes them. -/
def addFlags (settings : Settings) (flags : Flags) : Settings :=
  { settings with flags := settings.flags.union flags }

/-- The largest count of a repetition, as `eval_repetition` settles it. Without an upper bound of
its own that is the lower one and the cap together, or the largest numeral if they go beyond it. -/
def upperBound (settings : Settings) (lower : Nat) (upper : Option Nat) : Nat :=
  upper.getD (min (lower + settings.repeatCap) Numeral.largest)

end Settings

end PatternGen
