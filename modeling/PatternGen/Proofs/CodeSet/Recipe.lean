import PatternGen.Proofs.CodeSet.Words

/-!
# Sets that the operations build

A `Recipe` tells how a set is built, from nothing or from spans, by adding spans and by union,
difference and intersection, with any words as bounds. What it builds has a simple meaning, one
membership condition for each operation.

Results:
* `CodeSet.Recipe.spans?_eq`: the loops over words build the spans of the set.
* `CodeSet.Recipe.mem_set_iff`: the members of the set that is built.
* `CodeSet.Recipe.canonical_of_recipe`: the spans that are stored, and when two sets are equal.
-/

namespace PatternGen.CodeSet

/-- How a set is built. -/
inductive Recipe where
  | empty
  | single (v : UInt32)
  | span (lo hi : UInt32)
  | printable
  | addSpan (r : Recipe) (lo hi : UInt32)
  | union (a b : Recipe)
  | subtract (a b : Recipe)
  | intersect (a b : Recipe)

namespace Recipe

/-- The set that is built. -/
def set : Recipe → CodeSet
  | empty => .empty
  | single v => .single v
  | span lo hi => .span lo hi
  | printable => .printable
  | addSpan r lo hi => r.set.addSpan lo hi
  | union a b => a.set.union b.set
  | subtract a b => a.set.subtract b.set
  | intersect a b => a.set.intersect b.set

/-- The spans that the loops over words build. -/
def spans? : Recipe → Option (List Span)
  | empty => some []
  | single v => Span.addSpan? [] v v
  | span lo hi => Span.addSpan? [] lo hi
  | printable => Span.addSpan? [] 32 126
  | addSpan r lo hi => r.spans?.bind fun l => Span.addSpan? l lo hi
  | union a b => a.spans?.bind fun l => b.spans?.bind fun m => Span.addAll? l m
  | subtract a b => a.spans?.bind fun l => b.spans?.bind fun m => Span.subtract? m l
  | intersect a b => a.spans?.bind fun l => b.spans?.bind fun m => some (Span.sweep l m)

/-- The members, operation by operation. -/
def Holds : Recipe → UInt32 → Prop
  | empty, _ => False
  | single w, v => v = w
  | span lo hi, v => lo ≤ v ∧ v ≤ hi
  | printable, v => 32 ≤ v ∧ v ≤ 126
  | addSpan r lo hi, v => r.Holds v ∨ lo ≤ v ∧ v ≤ hi
  | union a b, v => a.Holds v ∨ b.Holds v
  | subtract a b, v => a.Holds v ∧ ¬ b.Holds v
  | intersect a b, v => a.Holds v ∧ b.Holds v

/-- No sum or difference leaves the words, and no search goes astray. -/
theorem spans?_eq (r : Recipe) : r.spans? = some r.set.spans := by
  induction r with
  | empty => rfl
  | single v => exact Span.addSpan?_eq .empty v v
  | span lo hi => exact Span.addSpan?_eq .empty lo hi
  | printable => exact Span.addSpan?_eq .empty 32 126
  | addSpan r lo hi ih => rw [spans?, ih, Option.bind_some, Span.addSpan?_eq, set]
  | union a b iha ihb =>
    rw [spans?, iha, ihb, Option.bind_some, Option.bind_some, Span.addAll?_eq, set]
  | subtract a b iha ihb =>
    rw [spans?, iha, ihb, Option.bind_some, Option.bind_some, Span.subtract?_eq, set]
  | intersect a b iha ihb =>
    rw [spans?, iha, ihb, Option.bind_some, Option.bind_some, Span.sweep_eq, set]

theorem mem_set_iff (r : Recipe) (v : UInt32) : v ∈ r.set ↔ r.Holds v := by
  induction r with
  | empty => exact iff_of_false not_mem_empty id
  | single w =>
    rw [set, CodeSet.single, mem_span, Holds, Span.le_def, Span.le_def, ← UInt32.toNat_inj]
    omega
  | span lo hi => exact mem_span
  | printable => exact mem_span
  | addSpan r lo hi ih => rw [set, mem_addSpan, ih, Holds, or_comm]
  | union a b iha ihb => rw [set, mem_union, iha, ihb, Holds]
  | subtract a b iha ihb => rw [set, mem_subtract, iha, ihb, Holds]
  | intersect a b iha ihb => rw [set, mem_intersect, iha, ihb, Holds]

theorem addSpan_of_lt {set : CodeSet} {lo hi : UInt32} (h : hi < lo) : set.addSpan lo hi = set :=
  dif_neg (UInt32.not_le.2 h)

/-- Whatever set the operations build, the loops over words end with its spans. These are in order,
none is empty and between two of them a code point is missing; their members are those that the
operations say, where a span with its bounds out of order adds nothing; and another set is equal
exactly if it has the same members. -/
theorem canonical_of_recipe (r : Recipe) :
    ∃ l, r.spans? = some l ∧ r.set.spans = l ∧ Span.Canonical l ∧
      (∀ v, Span.Covers l v ↔ r.Holds v) ∧
      (∀ lo hi, hi < lo → (r.addSpan lo hi).set = r.set) ∧
      ∀ r' : Recipe, r.set = r'.set ↔ ∀ v, r.Holds v ↔ r'.Holds v := by
  refine ⟨r.set.spans, r.spans?_eq, rfl, r.set.canonical, r.mem_set_iff, ?_, ?_⟩
  · intro lo hi h
    exact addSpan_of_lt h
  · intro r'
    simp only [eq_iff_mem, mem_set_iff]

/-- All words but those from 10 to 20. -/
def outside : Recipe := (span 0 0xFFFFFFFF).subtract (span 10 20)

theorem canonical_of_recipe_outside :
    outside.spans? = some [⟨0, 9⟩, ⟨21, 0xFFFFFFFF⟩] ∧ (12 : UInt32) < 15 ∧
      (outside.addSpan 15 12).set = outside.set := by
  obtain ⟨_, _, _, _, _, hadd, _⟩ := canonical_of_recipe outside
  exact ⟨by decide, by decide, hadd 15 12 (by decide)⟩

end Recipe

end PatternGen.CodeSet
