import Mathlib.Data.Set.Card
import PatternGen.Proofs.CodeSet.Rank
import PatternGen.Proofs.CodeSet.Recipe

/-!
# The order of the members

The numbers of the members of a set are the members in another notation: `index` goes through the
members in ascending order, `rank` goes back, and the number of a member is the count of those below
it. Both walk along the spans with a running offset. Here they do so once more with checked words: a
span may be as wide as there are code points, one more than the largest 32-bit word.

Results:
* `CodeSet.index_lt`, `CodeSet.rank_of_index`: numbers are in the order of the members, and lead
  back to them.
* `CodeSet.rank_eq_ncard`, `CodeSet.size_eq_ncard`: what the numbers count.
* `Span.total?_eq`, `Span.index?_eq`, `Span.rank?_eq`: no sum, difference or cast is out of range.
* `CodeSet.Recipe.numbers_of_recipe`: all of this for every set that the operations build.
-/

namespace PatternGen

/-! ## Ascending order -/

namespace Span

theorem index_eq_none {l : List Span} {k : Nat} (h : total l ≤ k) : index l k = none := by
  induction l generalizing k with
  | nil => rfl
  | cons s l ih =>
    rw [total] at h
    rw [index, if_neg (by omega)]
    exact ih (by omega)

/-- A later number is that of a larger member. -/
theorem index_lt {l : List Span} (hl : Canonical l) {j k : Nat} (h : j < k) {v w : UInt32}
    (hv : index l j = some v) (hw : index l k = some w) : v < w := by
  induction l generalizing j k with
  | nil => cases hv
  | cons s l ih =>
    obtain ⟨hs, hap, hl⟩ := canonical_cons.1 hl
    rw [index] at hv hw
    by_cases hj : j < s.width
    · rw [if_pos hj, Option.some.injEq] at hv
      subst hv
      by_cases hk : k < s.width
      · rw [if_pos hk, Option.some.injEq] at hw
        subst hw
        rw [lt_def, toNat_add_ofNat hs hj, toNat_add_ofNat hs hk]
        omega
      · -- the first member is in this span, the second one in a span behind it
        rw [if_neg hk] at hw
        have hmem : Covers l w := by
          by_cases hlt : k - s.width < total l
          · obtain ⟨w', hw', hc⟩ := index_covers hl hlt
            rw [hw, Option.some.injEq] at hw'
            exact hw' ▸ hc
          · rw [index_eq_none (by omega)] at hw
            cases hw
        obtain ⟨t, ht, hc⟩ := hmem
        have hgap := hap t ht
        have hin := holds_add_ofNat hs hj
        rw [holds_def] at hin hc
        simp only [Apart] at hgap
        rw [lt_def]
        omega
    · rw [if_neg hj] at hv
      rw [if_neg (by omega)] at hw
      exact ih hl (by omega) hv hw

end Span

namespace CodeSet

variable {set : CodeSet} {j k : Nat} {v w : UInt32}

theorem index_isSome_iff : (set.index k).isSome = true ↔ k < set.size := by
  constructor
  · intro h
    by_contra hk
    rw [index, Span.index_eq_none (Nat.le_of_not_lt hk)] at h
    cases h
  · intro hk
    obtain ⟨v, -, hv⟩ := exists_index hk
    rw [hv]
    rfl

theorem index_lt (h : j < k) (hv : set.index j = some v) (hw : set.index k = some w) : v < w :=
  Span.index_lt set.canonical h hv hw

/-- A member has only one number. -/
theorem index_inj (hj : set.index j = some v) (hk : set.index k = some v) : j = k := by
  rcases Nat.lt_trichotomy j k with h | h | h
  · exact absurd (index_lt h hj hk) (UInt32.lt_irrefl v)
  · exact h
  · exact absurd (index_lt h hk hj) (UInt32.lt_irrefl v)

theorem rank_of_index (h : set.index k = some v) : set.rank v = some k := by
  have hk : k < set.size := index_isSome_iff.1 (by rw [h]; rfl)
  obtain ⟨w, hw, hindex⟩ := exists_index hk
  rw [h, Option.some.injEq] at hindex
  obtain ⟨j, hj⟩ := exists_rank (hindex ▸ hw)
  rw [hj, index_inj (index_of_rank hj).2 h]

theorem rank_isSome_iff : (set.rank v).isSome = true ↔ v ∈ set := contains_iff

/-! ## What the numbers count -/

/-- There are `n` members with a number below `n`. -/
theorem ncard_index_lt {n : Nat} (hn : n ≤ set.size) :
    Set.ncard {w | ∃ j < n, set.index j = some w} = n := by
  have hsome : ∀ j < n, set.index j = some ((set.index j).getD 0) := by
    intro j hj
    obtain ⟨w, -, hw⟩ := exists_index (Nat.lt_of_lt_of_le hj hn)
    rw [hw, Option.getD_some]
  refine Set.ncard_eq_of_bijective (fun j _ => (set.index j).getD 0) ?_ ?_ ?_
  · rintro w ⟨j, hj, hw⟩
    exact ⟨j, hj, by rw [hw, Option.getD_some]⟩
  · intro j hj
    exact ⟨j, hj, hsome j hj⟩
  · intro i j hi hj heq
    exact index_inj (hsome i hi) (heq ▸ hsome j hj)

/-- The number of a member is the count of the members below it. -/
theorem rank_eq_ncard (h : set.rank v = some k) : k = Set.ncard {w | w ∈ set ∧ w < v} := by
  obtain ⟨hk, hindex⟩ := index_of_rank h
  have hbelow : {w | w ∈ set ∧ w < v} = {w | ∃ j < k, set.index j = some w} := by
    ext w
    constructor
    · rintro ⟨hw, hlt⟩
      obtain ⟨j, hj⟩ := exists_rank hw
      have hw := (index_of_rank hj).2
      refine ⟨j, ?_, hw⟩
      by_contra hge
      rcases Nat.lt_or_eq_of_le (Nat.le_of_not_lt hge) with hkj | rfl
      · exact absurd (UInt32.lt_trans hlt (index_lt hkj hindex hw)) (UInt32.lt_irrefl w)
      · rw [hw, Option.some.injEq] at hindex
        exact absurd (hindex ▸ hlt) (UInt32.lt_irrefl w)
    · rintro ⟨j, hj, hw⟩
      exact ⟨mem_of_rank (rank_of_index hw), index_lt hj hw hindex⟩
  rw [hbelow, ncard_index_lt (Nat.le_of_lt hk)]

theorem size_eq_ncard (set : CodeSet) : set.size = Set.ncard {v | v ∈ set} := by
  have hall : {v | v ∈ set} = {v | ∃ j < set.size, set.index j = some v} := by
    ext v
    constructor
    · intro hv
      obtain ⟨j, hj⟩ := exists_rank hv
      exact ⟨j, index_of_rank hj⟩
    · rintro ⟨j, -, hv⟩
      exact mem_of_rank (rank_of_index hv)
  rw [hall, ncard_index_lt (Nat.le_refl _)]

theorem isEmpty_iff_size : set.isEmpty = true ↔ set.size = 0 := by
  constructor
  · intro h
    rw [isEmpty, List.isEmpty_iff] at h
    rw [size, h]
    rfl
  · intro h
    by_contra hne
    have hpos := size_pos hne
    omega

end CodeSet

/-! ## Checked words -/

namespace Span

/-- A sum of counts, if it has a numeral. -/
def sum? (a b : Nat) : Option Nat := if a + b < Numeral.limit then some (a + b) else none

/-- What a count exceeds another one by, if it does not fall short of it. -/
def excess? (a b : Nat) : Option Nat := if b ≤ a then some (a - b) else none

/-- The distance from the word `b` up to the word `a`. -/
def distance? (a b : UInt32) : Option UInt32 := if b ≤ a then some (a - b) else none

/-- The word of a count, if it is none too large. -/
def word? (k : Nat) : Option UInt32 := if k < UInt32.size then some (UInt32.ofNat k) else none

/-- The sum of two words, if it is a word. -/
def shift? (a b : UInt32) : Option UInt32 :=
  if a.toNat + b.toNat < UInt32.size then some (a + b) else none

def width? (s : Span) : Option Nat := do
  let d ← distance? s.hi s.lo
  sum? d.toNat 1

/-- Adds the number of code points to those counted before (`len`). -/
def total? (before : Nat) : List Span → Option Nat
  | [] => some before
  | s :: rest => do
    let width ← s.width?
    let before ← sum? before width
    total? before rest

/-- The `k`-th smallest code point (`index`). -/
def index? : List Span → Nat → Option (Option UInt32)
  | [], _ => some none
  | s :: rest, k => do
    let width ← s.width?
    if k < width then
      let offset ← word? k
      let v ← shift? s.lo offset
      some (some v)
    else
      let k ← excess? k width
      index? rest k

/-- How many members are smaller than the member `v`, added to those counted before (`rank`). -/
def rank? (before : Nat) : List Span → UInt32 → Option (Option Nat)
  | [], _ => some none
  | s :: rest, v =>
    if v < s.lo then some none
    else if v ≤ s.hi then do
      let d ← distance? v s.lo
      let k ← sum? before d.toNat
      some (some k)
    else do
      let width ← s.width?
      let before ← sum? before width
      rank? before rest v

theorem sum?_of_lt {a b : Nat} (h : a + b < Numeral.limit) : sum? a b = some (a + b) := if_pos h

theorem width_le (s : Span) : s.width ≤ UInt32.size := by
  have := (s.hi - s.lo).toNat_lt_size
  rw [width]
  omega

theorem width?_eq {s : Span} (h : s.lo ≤ s.hi) : s.width? = some s.width := by
  have hlimit : UInt32.size < Numeral.limit := by decide
  have hle := s.width_le
  rw [width] at hle
  rw [width?, distance?, if_pos h]
  exact sum?_of_lt (by omega)

theorem total?_eq {l : List Span} (hl : Canonical l) {before : Nat}
    (hb : before + total l < Numeral.limit) : total? before l = some (before + total l) := by
  induction l generalizing before with
  | nil => rfl
  | cons s l ih =>
    obtain ⟨hs, -, hl⟩ := canonical_cons.1 hl
    rw [total] at hb ⊢
    rw [total?, width?_eq hs, Option.bind_eq_bind, Option.bind_some, sum?_of_lt (by omega),
      Option.bind_some, ih hl (by omega), Nat.add_assoc]

theorem index?_eq {l : List Span} (hl : Canonical l) (k : Nat) : index? l k = some (index l k) := by
  induction l generalizing k with
  | nil => rfl
  | cons s l ih =>
    obtain ⟨hs, -, hl⟩ := canonical_cons.1 hl
    rw [index?, width?_eq hs, Option.bind_eq_bind, Option.bind_some, index]
    by_cases hk : k < s.width
    · have hword : k < UInt32.size := Nat.lt_of_lt_of_le hk s.width_le
      have hin := holds_add_ofNat hs hk
      have hshift : s.lo.toNat + (UInt32.ofNat k).toNat < UInt32.size := by
        have hsum := toNat_add_ofNat hs hk
        have hlt := (s.lo + UInt32.ofNat k).toNat_lt_size
        rw [UInt32.toNat_ofNat_of_lt' hword]
        omega
      rw [if_pos hk, if_pos hk, word?, if_pos hword, Option.bind_eq_bind, Option.bind_some, shift?,
        if_pos hshift]
      rfl
    · rw [if_neg hk, if_neg hk, excess?, if_pos (by omega), Option.bind_some, ih hl]

theorem rank?_eq {l : List Span} (hl : Canonical l) {before : Nat}
    (hb : before + total l < Numeral.limit) (v : UInt32) :
    rank? before l v = some ((rank l v).map (before + ·)) := by
  induction l generalizing before with
  | nil => rfl
  | cons s l ih =>
    obtain ⟨hs, -, hl⟩ := canonical_cons.1 hl
    have hle := le_def.1 hs
    rw [total] at hb
    rw [rank?, rank]
    by_cases hlo : v < s.lo
    · rw [if_pos hlo, if_pos hlo]
      rfl
    · rw [if_neg hlo, if_neg hlo]
      have hlo : s.lo ≤ v := UInt32.not_lt.1 hlo
      by_cases hhi : v ≤ s.hi
      · have hwidth : (v - s.lo).toNat < s.width := by
          have h₁ := le_def.1 hhi
          rw [width, UInt32.toNat_sub_of_le _ _ hs, UInt32.toNat_sub_of_le _ _ hlo]
          omega
        rw [if_pos hhi, if_pos hhi, distance?, if_pos hlo, Option.bind_eq_bind, Option.bind_some,
          sum?_of_lt (by omega)]
        rfl
      · rw [if_neg hhi, if_neg hhi, width?_eq hs, Option.bind_eq_bind, Option.bind_some,
          sum?_of_lt (by omega), Option.bind_some, ih hl (by omega), Option.map_map]
        simp [Function.comp_def, Nat.add_assoc]

end Span

/-! ## Sets that the operations build -/

namespace CodeSet

/-- The set has the code points of which `P` is true, and numbers them from zero on in ascending
order. -/
structure Numbers (set : CodeSet) (P : UInt32 → Prop) : Prop where
  index_isSome_iff : ∀ k, (set.index k).isSome = true ↔ k < set.size
  index_lt : ∀ {j k v w}, j < k → set.index j = some v → set.index k = some w → v < w
  rank_isSome_iff : ∀ v, (set.rank v).isSome = true ↔ P v
  contains_iff : ∀ v, set.contains v = true ↔ P v
  rank_of_index : ∀ {k v}, set.index k = some v → set.rank v = some k
  index_of_rank : ∀ {v k}, set.rank v = some k → set.index k = some v
  rank_eq_ncard : ∀ {v k}, set.rank v = some k → k = Set.ncard {w | P w ∧ w < v}
  size_eq_ncard : set.size = Set.ncard {v | P v}
  size_le : set.size ≤ UInt32.size
  isEmpty_iff : set.isEmpty = true ↔ set.size = 0

/-- Whatever set the operations build, it numbers its members in ascending order. The loops over
words build its spans, and on these they find the size, every member and every number. -/
theorem Recipe.numbers_of_recipe (r : Recipe) :
    r.set.Numbers r.Holds ∧
      ∃ l, r.spans? = some l ∧ Span.total? 0 l = some r.set.size ∧
        (∀ k, Span.index? l k = some (r.set.index k)) ∧
        ∀ v, Span.rank? 0 l v = some (r.set.rank v) := by
  have hmem : r.Holds = fun v => v ∈ r.set := funext fun v => propext (r.mem_set_iff v).symm
  have hlimit : 0 + Span.total r.set.spans < Numeral.limit := by
    have hle := r.set.size_le
    have hlt : UInt32.size < Numeral.limit := by decide
    rw [size] at hle
    omega
  constructor
  · rw [hmem]
    exact {
      index_isSome_iff := fun _ => CodeSet.index_isSome_iff
      index_lt := CodeSet.index_lt
      rank_isSome_iff := fun _ => CodeSet.rank_isSome_iff
      contains_iff := fun _ => CodeSet.contains_iff
      rank_of_index := CodeSet.rank_of_index
      index_of_rank := fun h => (CodeSet.index_of_rank h).2
      rank_eq_ncard := CodeSet.rank_eq_ncard
      size_eq_ncard := r.set.size_eq_ncard
      size_le := r.set.size_le
      isEmpty_iff := isEmpty_iff_size }
  · refine ⟨r.set.spans, r.spans?_eq, ?_, fun k => Span.index?_eq r.set.canonical k, fun v => ?_⟩
    · rw [Span.total?_eq r.set.canonical hlimit, Nat.zero_add]
      rfl
    · rw [Span.rank?_eq r.set.canonical hlimit]
      simp [rank]

/-- All words but those from 10 to 20. -/
example : let set := (Recipe.subtract (.span 0 0xFFFFFFFF) (.span 10 20)).set
    set.size = 4294967285 ∧ set.index 10 = some 21 ∧ set.rank 21 = some 10 := by decide

end CodeSet

end PatternGen
