import PatternGen.Proofs.Consumption

/-!
# Leaves along a target

What a literal and a class do in a steered walk, as equations between walks. Where the target has a
character for them they take it, and write down which one it is; otherwise they ask for one.

Results:
* `Step.literal_of_seek`, `Step.literal_of_seek_eq_none`: a literal, with and without such a
  character ahead.
* `Step.member_of_mem`, `Step.member_of_not_mem`: the same for a class, which looks at the next
  character only.
-/

namespace PatternGen

variable {σ : Type} {sampler : Sampler σ}

namespace Step

/-! ## Literals -/

/-- The second character that a literal stands for; the same one again unless case is ignored. -/
def variant (ignoreCase : Bool) (c : Char) : Char := if ignoreCase then otherCase c else c

/-- The literal stands for the character. -/
def fits (ignoreCase : Bool) (c next : Char) : Bool := next = c || next = variant ignoreCase c

/-- Writes down which of its characters a literal is, if there are two. -/
def recordCase (ignoreCase : Bool) (c next : Char) : Walk σ Unit :=
  if variant ignoreCase c = c then pure () else Walk.record (decide (next ≠ c)).toNat

/-- Asks for one of the characters of a literal, if there are two. -/
def askCase (chooser : Chooser σ) (ignoreCase : Bool) (c : Char) : Walk σ Char :=
  if variant ignoreCase c = c then pure c
  else do
    let k ← chooser.ask 0 1
    pure (if k = 1 then variant ignoreCase c else c)

variable {ignoreCase : Bool} {c d : Char} {target : List Char}

theorem fits_iff : fits ignoreCase c d = true ↔ d = c ∨ d = variant ignoreCase c := by
  simp [fits]

theorem literal_eq (chooser : Chooser σ) : literal chooser ignoreCase c target = (do
    let found := seek (fits ignoreCase c) target
    let swap ←
      if variant ignoreCase c = c then pure false
      else chooser.letterCase (found.map fun (_, next) => next ≠ c)
    pure ⟨[if swap then variant ignoreCase c else c],
      (found.map fun (skipped, _) => skipped + 1).getD 0⟩) :=
  rfl

theorem literal_of_seek {n : Nat} (h : seek (fits ignoreCase c) target = some (n, d)) :
    literal (.steer sampler) ignoreCase c target = (do
      recordCase ignoreCase c d
      pure ⟨[d], n + 1⟩) := by
  have hd := fits_iff.1 (seek_eq_some h).2
  rw [literal_eq, h]
  unfold recordCase
  by_cases hv : variant ignoreCase c = c
  · rw [hv, or_self] at hd
    simp [hv, hd]
  · by_cases hc : d = c
    · simp [hv, hc, Chooser.letterCase, Chooser.steer]
    · have hd := hd.resolve_left hc
      simp [hv, hd, Chooser.letterCase, Chooser.steer]

theorem literal_of_seek_eq_none (h : seek (fits ignoreCase c) target = none) :
    literal (.steer sampler) ignoreCase c target = (do
      let d ← askCase (.steer sampler) ignoreCase c
      pure ⟨[d], 0⟩) := by
  rw [literal_eq, h]
  unfold askCase
  by_cases hv : variant ignoreCase c = c
  · simp [hv]
  · simp [hv, Chooser.letterCase, Chooser.steer]

/-! ## Classes -/

variable {set : CodeSet}

theorem member_of_mem (sampler : Sampler σ) (h : d.val ∈ set) (rest : List Char) :
    ∃ k, member (.steer sampler) set (d :: rest) = (do
      Walk.record k
      pure ⟨[d], 1⟩) := by
  obtain ⟨k, hk⟩ := CodeSet.exists_rank h
  have hne : ¬ set.isEmpty = true := fun he => CodeSet.isEmpty_iff.1 he _ h
  refine ⟨k, ?_⟩
  simp [member, hne, Chooser.member, Chooser.targetRank?, Chooser.steer, hk]

theorem member_of_not_mem (hne : ¬ set.isEmpty = true) (h : ∀ d ∈ target.head?, d.val ∉ set) :
    member (.steer sampler) set target = (do
      let k ← (Chooser.steer sampler).index set.size
      pure ⟨[Chooser.characterAt set k], 0⟩) := by
  cases hd : target.head? with
  | none => simp [member, hne, hd, Chooser.member, Chooser.targetRank?, Chooser.steer]
  | some d =>
    have hrank := CodeSet.rank_eq_none (h d hd)
    simp [member, hne, hd, hrank, Chooser.member, Chooser.targetRank?, Chooser.steer]

end Step

end PatternGen
