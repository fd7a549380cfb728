/-!
# Samplers

Where random numbers come from. A sampler over states `σ` answers a question, which is a lower and
an upper bound, with a number and its next state. What is generated from a pattern is a function of
the sampler, so that everything stated of all samplers holds of every run.
-/

namespace PatternGen

/-- Answers the question for a number from `lo` to `hi` (`rand_int` of a `RandomSource`). -/
abbrev Sampler (σ : Type) := (lo hi : Nat) → σ → Nat × σ

/-- A question put to a sampler, and its answer. -/
structure Draw where
  lo : Nat
  hi : Nat
  value : Nat
deriving DecidableEq, Repr

/-- A state of a sampler, with the draws that were made to reach it. -/
structure Traced (σ : Type) where
  state : σ
  draws : Array Draw := #[]

namespace Sampler

variable {σ : Type}

/-- Every question whose bounds are in order is answered within its bounds. -/
def WithinBounds (sampler : Sampler σ) : Prop :=
  ∀ lo hi s, lo ≤ hi → lo ≤ (sampler lo hi s).1 ∧ (sampler lo hi s).1 ≤ hi

/-- The sampler that also keeps its draws. -/
def traced (sampler : Sampler σ) : Sampler (Traced σ) := fun lo hi t =>
  let (value, state) := sampler lo hi t.state
  (value, ⟨state, t.draws.push ⟨lo, hi, value⟩⟩)

end Sampler

end PatternGen
