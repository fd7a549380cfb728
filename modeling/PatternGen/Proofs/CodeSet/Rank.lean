import Mathlib.Tactic.SplitIfs
import PatternGen.Expansion
import PatternGen.Walk.Choice

/-!
# Members of a set by number

The members of a set are numbered in ascending order, so that a number below the size of the set
stands for one of them. In the expansion of a class every number stands for a character.

Results:
* `CodeSet.size_le`: a set has no more members than there are code points.
* `CodeSet.exists_index`: every number below the size is the number of a member.
* `CodeSet.exists_rank`, `CodeSet.index_of_rank`: every member has a number, which leads back to it.
* `CodeSet.mem_of_rank`, `CodeSet.contains_iff`: nothing but members has a number.
* `Chooser.characterAt_mem`, `Chooser.characterAt_of_rank`: the same for characters; the replacement
  character is no way out.
-/

namespace PatternGen

namespace Span

theorem toNat_add_ofNat {s : Span} (hs : s.lo ≤ s.hi) {k : Nat} (hk : k < s.width) :
    (s.lo + UInt32.ofNat k).toNat = s.lo.toNat + k := by
  have h₁ := le_def.1 hs
  have h₂ := s.hi.toNat_lt
  rw [width, UInt32.toNat_sub_of_le _ _ hs] at hk
  have h₃ : k < UInt32.size := by
    rw [UInt32.size]
    omega
  rw [UInt32.toNat_add, UInt32.toNat_ofNat_of_lt' h₃, Nat.mod_eq_of_lt (by omega)]

theorem holds_add_ofNat {s : Span} (hs : s.lo ≤ s.hi) {k : Nat} (hk : k < s.width) :
    s.Holds (s.lo + UInt32.ofNat k) := by
  have h₁ := le_def.1 hs
  rw [holds_def, toNat_add_ofNat hs hk]
  rw [width, UInt32.toNat_sub_of_le _ _ hs] at hk
  omega

theorem index_covers {l : List Span} (hl : Canonical l) {k : Nat} (hk : k < total l) :
    ∃ v, index l k = some v ∧ Covers l v := by
  induction l generalizing k with
  | nil => exact absurd hk (Nat.not_lt_zero k)
  | cons s l ih =>
    obtain ⟨hs, -, hl⟩ := canonical_cons.1 hl
    rw [total] at hk
    rw [index]
    split_ifs with h
    · exact ⟨_, rfl, covers_cons.2 (.inl (holds_add_ofNat hs h))⟩
    · obtain ⟨v, hv, hc⟩ := ih hl (k := k - s.width) (by omega)
      exact ⟨v, hv, covers_cons.2 (.inr hc)⟩

theorem exists_rank {l : List Span} (hl : Canonical l) {v : UInt32} (hv : Covers l v) :
    ∃ k, rank l v = some k := by
  induction l with
  | nil => exact absurd hv not_covers_nil
  | cons s l ih =>
    obtain ⟨hs, hap, hl⟩ := canonical_cons.1 hl
    have h₁ := le_def.1 hs
    rw [rank]
    split_ifs with h h'
    · rw [lt_def] at h
      rcases covers_cons.1 hv with hv | hv
      · rw [holds_def] at hv
        omega
      · exact absurd hv (not_covers_of_apart hap (by omega))
    · exact ⟨_, rfl⟩
    · rcases covers_cons.1 hv with hv | hv
      · exact absurd hv.2 h'
      · obtain ⟨k, hk⟩ := ih hl hv
        exact ⟨s.width + k, by rw [hk]; rfl⟩

theorem index_of_rank {l : List Span} (hl : Canonical l) {v : UInt32} {k : Nat}
    (h : rank l v = some k) : k < total l ∧ index l k = some v := by
  induction l generalizing k with
  | nil => cases h
  | cons s l ih =>
    obtain ⟨hs, -, hl⟩ := canonical_cons.1 hl
    have h₁ := le_def.1 hs
    rw [rank] at h
    rw [total, index]
    split_ifs at h with hlo hhi
    · cases h
      rw [lt_def] at hlo
      rw [le_def] at hhi
      have hsub : (v - s.lo).toNat = v.toNat - s.lo.toNat :=
        UInt32.toNat_sub_of_le _ _ (le_def.2 (by omega))
      have hw : (v - s.lo).toNat < s.width := by
        rw [width, UInt32.toNat_sub_of_le _ _ hs, hsub]
        omega
      rw [if_pos hw]
      refine ⟨by omega, congrArg some (UInt32.toNat_inj.1 ?_)⟩
      rw [toNat_add_ofNat hs hw, hsub]
      omega
    · obtain ⟨j, hj, rfl⟩ := Option.map_eq_some_iff.1 h
      obtain ⟨hlt, hi⟩ := ih hl hj
      rw [if_neg (by omega), Nat.add_sub_cancel_left]
      exact ⟨by omega, hi⟩

/-- The members are spread over what is left of all code points from `a` on. -/
theorem add_total_le {l : List Span} (hl : Canonical l) {a : Nat} (ha : a ≤ UInt32.size)
    (hlo : ∀ s ∈ l, a ≤ s.lo.toNat) : a + total l ≤ UInt32.size := by
  induction l generalizing a with
  | nil => exact ha
  | cons s l ih =>
    obtain ⟨hs, hap, hl⟩ := canonical_cons.1 hl
    have hle := le_def.1 hs
    have hhi := s.hi.toNat_lt_size
    rw [List.forall_mem_cons] at hlo
    have hrest : s.hi.toNat + 1 + total l ≤ UInt32.size :=
      ih hl hhi fun t ht => Nat.le_of_lt (hap t ht)
    rw [total, width, UInt32.toNat_sub_of_le _ _ hs]
    omega

end Span

namespace CodeSet

/-- There are no more members than code points. -/
theorem size_le (set : CodeSet) : set.size ≤ UInt32.size := by
  have h := Span.add_total_le set.canonical (Nat.zero_le UInt32.size) fun _ _ => Nat.zero_le _
  rw [Nat.zero_add] at h
  exact h

theorem exists_index {set : CodeSet} {k : Nat} (hk : k < set.size) :
    ∃ v ∈ set, set.index k = some v := by
  obtain ⟨v, hv, hc⟩ := Span.index_covers set.canonical hk
  exact ⟨v, hc, hv⟩

theorem exists_rank {set : CodeSet} {v : UInt32} (hv : v ∈ set) : ∃ k, set.rank v = some k :=
  Span.exists_rank set.canonical hv

theorem index_of_rank {set : CodeSet} {v : UInt32} {k : Nat} (h : set.rank v = some k) :
    k < set.size ∧ set.index k = some v :=
  Span.index_of_rank set.canonical h

theorem mem_of_rank {set : CodeSet} {v : UInt32} {k : Nat} (h : set.rank v = some k) : v ∈ set := by
  obtain ⟨hlt, hindex⟩ := index_of_rank h
  obtain ⟨w, hw, hindex'⟩ := exists_index hlt
  rw [hindex, Option.some.injEq] at hindex'
  exact hindex' ▸ hw

theorem rank_eq_none {set : CodeSet} {v : UInt32} (h : v ∉ set) : set.rank v = none := by
  cases hk : set.rank v with
  | none => rfl
  | some k => exact absurd (mem_of_rank hk) h

theorem contains_iff {set : CodeSet} {v : UInt32} : set.contains v = true ↔ v ∈ set := by
  rw [contains, Option.isSome_iff_exists]
  exact ⟨fun ⟨_, hk⟩ => mem_of_rank hk, exists_rank⟩

theorem isEmpty_iff {set : CodeSet} : set.isEmpty = true ↔ ∀ v, v ∉ set := by
  rw [isEmpty, List.isEmpty_iff]
  constructor
  · intro h v hv
    rw [mem_def, h] at hv
    exact Span.not_covers_nil hv
  · intro h
    cases hl : set.spans with
    | nil => rfl
    | cons s l =>
      have hs := set.canonical.1 s (by rw [hl]; exact List.mem_cons_self)
      have hm : s.lo ∈ set := by
        rw [mem_def, hl, Span.covers_cons, Span.holds_def]
        exact .inl ⟨Nat.le_refl _, Span.le_def.1 hs⟩
      exact absurd hm (h s.lo)

theorem size_pos {set : CodeSet} (h : ¬ set.isEmpty = true) : 0 < set.size := by
  rw [isEmpty_iff] at h
  obtain ⟨v, hv⟩ := Classical.not_forall.1 h
  obtain ⟨k, hk⟩ := exists_rank (Classical.not_not.1 hv)
  exact Nat.zero_lt_of_lt (index_of_rank hk).1

/-- The scalar values are the code points of characters. -/
theorem mem_scalars {v : UInt32} : v ∈ scalars ↔ v.toNat.isValidChar := by
  rw [scalars, mem_subtract, mem_span, mem_span, Span.le_def, Span.le_def, Span.le_def, Span.le_def,
    Nat.isValidChar]
  simp only [UInt32.reduceToNat]
  omega

end CodeSet

theorem Settings.isValidChar_of_mem_expand {settings : Settings} {cls : CharClass} {v : UInt32}
    (h : v ∈ settings.expand cls) : v.toNat.isValidChar := by
  rw [expand, bound] at h
  exact CodeSet.mem_scalars.1 (CodeSet.mem_intersect.1 h).2

namespace Chooser

theorem characterAt_of_index {set : CodeSet} {k : Nat} {c : Char}
    (h : set.index k = some c.val) : characterAt set k = c := by
  have hc : Numeral.char? c.val.toNat = some c := Numeral.char?_toNat c
  rw [characterAt, h, Option.bind_some, hc, Option.getD_some]

theorem characterAt_of_rank {set : CodeSet} {k : Nat} {c : Char} (h : set.rank c.val = some k) :
    k < set.size ∧ characterAt set k = c := by
  obtain ⟨hk, hi⟩ := CodeSet.index_of_rank h
  exact ⟨hk, characterAt_of_index hi⟩

/-- A number below the size of a set of characters stands for one of them. -/
theorem characterAt_mem {set : CodeSet} (hs : ∀ v ∈ set, v.toNat.isValidChar) {k : Nat}
    (hk : k < set.size) : (characterAt set k).val ∈ set := by
  obtain ⟨v, hv, hi⟩ := CodeSet.exists_index hk
  have hc : characterAt set k = ⟨v, hs v hv⟩ := characterAt_of_index hi
  rw [hc]
  exact hv

end Chooser

end PatternGen
