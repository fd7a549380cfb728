import PatternGen.CodeSet.Basic
import PatternGen.Text.Numeral
import PatternGen.Walk.Basic

/-!
# Choices

The questions that a walk asks, with the numbers that stand for their answers in the log: which
branch, which member of a class, how many repetitions, and which case of a letter. Each question is
the model of one method of `DecisionChannel`, for all channels at once.
-/

namespace PatternGen

namespace Chooser

variable {σ : Type} (chooser : Chooser σ)

/-- Asks for a number within bounds, and records the answer (`draw`, or `pop` of a replay). -/
def ask (lo hi : Nat) : Walk σ Nat := fun s =>
  match chooser.answer lo hi s.source with
  | .ok value source => .ok value { s with source, log := s.log.push value }
  | .error e source => .error e { s with source }

/-! ## Branches -/

/-- Chooses one of `size` things (`choose_index`). -/
def index (size : Nat) : Walk σ Nat := chooser.ask 0 (size - 1)

/-- The first place of the largest score, if that is not zero: what the loop of `choose_branch`
looks for. -/
def bestScore? (scores : List Nat) : Option Nat :=
  let best := scores.foldl max 0
  if best = 0 then none else scores.findIdx? (· = best)

/-- Chooses a branch (`choose_branch`). A steered choice is the branch with the best score. -/
def branch (scores : List Nat) : Walk σ Nat :=
  match if chooser.steered then bestScore? scores else none with
  | some best => do
    Walk.record best
    pure best
  | none => chooser.index scores.length

/-! ## Members of a set -/

/-- The character at a place of a set (`nth_char`). Sets hold nothing but characters; the
replacement character stands for what is none. -/
def characterAt (set : CodeSet) (k : Nat) : Char :=
  ((set.index k).bind fun v => Numeral.char? v.toNat).getD '\ufffd'

/-- A chosen member, and whether it is the next character of the target (`ClassChoice`). -/
structure Member where
  value : Char
  fromTarget : Bool
deriving DecidableEq, Repr

/-- The place in the set of the next character of the target, if that settles the choice. -/
def targetRank? (set : CodeSet) (next : Option Char) : Option (Char × Nat) :=
  if chooser.steered then next.bind fun c => (set.rank c.val).map (c, ·) else none

/-- Chooses a member of a set (`choose_value_from_range`). A steered choice is the next character of
the target if the set holds it. -/
def member (set : CodeSet) (next : Option Char) : Walk σ Member :=
  match chooser.targetRank? set next with
  | some (c, k) => do
    Walk.record k
    pure ⟨c, true⟩
  | none => do
    let k ← chooser.index set.size
    pure ⟨characterAt set k, false⟩

/-! ## Counts -/

/-- Samples the count of a repetition (`choose_repeat_count`). -/
def sampleCount (min max : Nat) : Walk σ Nat := chooser.ask min max

/-- Settles the count of a repetition that does not follow a target (`choose_realized_count`). -/
def realizeCount (sampled max : Nat) : Walk σ Nat :=
  if chooser.recounts then chooser.ask 0 max
  else do
    Walk.record sampled
    pure sampled

/-! ## Case -/

/-- Chooses whether a letter changes its case (`choose_case`). A steered choice is the forced one if
there is one. -/
def letterCase (forced : Option Bool) : Walk σ Bool :=
  match if chooser.steered then forced else none with
  | some swap => do
    Walk.record swap.toNat
    pure swap
  | none => do
    let k ← chooser.ask 0 1
    pure (k = 1)

end Chooser

end PatternGen
