import Mathlib.Data.List.Basic
import PatternGen.CodeSet.Basic

/-!
# Sets of code points in words

The operations on sets once more, as loops over words that run through each list of spans once. A
span is added by a search for the first span that it could touch and a scan over those that it does
touch, subtracted from by moving its lower end past one cut after the other, and two lists are
intersected by a sweep over both. A sum or difference that is no word, and a search in a list that
is not ordered for it, end a loop with `none`.

Results:
* `Span.succ?_eq_some_iff`, `Span.pred?_eq_some_iff`: the checks of the arithmetic.
* `Span.addSpan?_eq`, `Span.addAll?_eq`, `Span.subtract?_eq`, `Span.sweep_eq`: on canonical lists no
  loop ends with `none`, and each gives the spans of the operation.
-/

namespace PatternGen

namespace Span

/-! ## Checked arithmetic -/

/-- The word after `a`, if there is one. -/
def succ? (a : UInt32) : Option UInt32 := if a < 0xFFFFFFFF then some (a + 1) else none

/-- The word before `a`, if there is one. -/
def pred? (a : UInt32) : Option UInt32 := if 0 < a then some (a - 1) else none

/-- The word after `a`; the largest word is its own next one. -/
def nextOrLast (a : UInt32) : UInt32 := (succ? a).getD a

theorem succ?_of_lt {a b : UInt32} (h : a < b) : succ? a = some (a + 1) := by
  have h₁ := lt_def.1 h
  have h₂ := b.toNat_lt
  refine if_pos (lt_def.2 ?_)
  rw [show (0xFFFFFFFF : UInt32).toNat = 4294967295 from rfl]
  omega

theorem pred?_of_lt {a b : UInt32} (h : a < b) : pred? b = some (b - 1) := by
  have h₁ := lt_def.1 h
  refine if_pos (lt_def.2 ?_)
  rw [show (0 : UInt32).toNat = 0 from rfl]
  omega

theorem succ?_eq_some_iff {a b : UInt32} : succ? a = some b ↔ b.toNat = a.toNat + 1 := by
  constructor
  · intro h
    unfold succ? at h
    split at h
    · next hlt =>
      cases h
      exact toNat_succ hlt
    · cases h
  · intro h
    have hlt : a < b := lt_def.2 (by omega)
    rw [succ?_of_lt hlt, Option.some.injEq, ← UInt32.toNat_inj, toNat_succ hlt, h]

theorem pred?_eq_some_iff {a b : UInt32} : pred? b = some a ↔ b.toNat = a.toNat + 1 := by
  constructor
  · intro h
    unfold pred? at h
    split at h
    · next hlt =>
      cases h
      have h₁ := lt_def.1 hlt
      rw [toNat_pred hlt]
      omega
    · cases h
  · intro h
    have hlt : a < b := lt_def.2 (by omega)
    rw [pred?_of_lt hlt, Option.some.injEq, ← UInt32.toNat_inj, toNat_pred hlt, h]
    rfl

/-- That the largest word is its own next one makes no difference to a comparison. -/
theorem nextOrLast_lt_iff {a b : UInt32} : nextOrLast a < b ↔ Apart a b := by
  unfold nextOrLast
  cases h : succ? a with
  | some c => rw [Option.getD_some, lt_def, succ?_eq_some_iff.1 h, Apart]
  | none =>
    rw [Option.getD_none, lt_def, Apart]
    constructor
    · intro hlt
      rw [succ?_of_lt (lt_def.2 hlt)] at h
      cases h
    · omega

/-! ## Adding a span -/

/-- The elements before the first one without a property, and the others, if none of these has the
property again. This is what a binary search finds out. -/
def partition? {α : Type} (p : α → Bool) (l : List α) : Option (List α × List α) :=
  if (l.dropWhile p).any p then none else some (l.takeWhile p, l.dropWhile p)

/-- Widens `s` by the spans that begin no later than right behind it: the scan of `add_span`. -/
def absorb (s : Span) : List Span → Span × List Span
  | [] => (s, [])
  | t :: rest =>
    if t.lo ≤ nextOrLast s.hi then absorb ⟨min s.lo t.lo, max s.hi t.hi⟩ rest else (s, t :: rest)

/-- The span ends so far below `lo` that a span from `lo` on does not touch it: what `add_span`
searches by. -/
def endsBefore (lo : UInt32) (t : Span) : Bool := nextOrLast t.hi < lo

/-- Puts one span in the place of those that it overlaps or touches. -/
def splice? (s : Span) (l : List Span) : Option (List Span) :=
  (partition? (endsBefore s.lo) l).map fun (before, rest) =>
    let (merged, after) := s.absorb rest
    before ++ merged :: after

/-- Adds the code points from `lo` to `hi` (`add_span`). -/
def addSpan? (l : List Span) (lo hi : UInt32) : Option (List Span) :=
  if hi < lo then some l else splice? ⟨lo, hi⟩ l

/-- Adds the spans of a second list in order (`add`). -/
def addAll? (l : List Span) : List Span → Option (List Span)
  | [] => some l
  | s :: rest => (addSpan? l s.lo s.hi).bind fun l => addAll? l rest

theorem endsBefore_iff {lo : UInt32} {t : Span} : endsBefore lo t = true ↔ Apart t.hi lo := by
  rw [endsBefore, decide_eq_true_eq, nextOrLast_lt_iff]

/-- In a canonical list no span behind the first one that could touch `lo` ends before it. -/
theorem not_apart_of_mem_dropWhile {lo : UInt32} {l : List Span} (hl : Canonical l) :
    ∀ t ∈ l.dropWhile (endsBefore lo), ¬ Apart t.hi lo := by
  induction l with
  | nil => simp
  | cons s l ih =>
    obtain ⟨-, hap, hl'⟩ := canonical_cons.1 hl
    by_cases h : endsBefore lo s = true
    · rw [List.dropWhile_cons_of_pos h]
      exact ih hl'
    · rw [List.dropWhile_cons_of_neg h]
      rw [endsBefore_iff] at h
      intro t ht
      rcases List.mem_cons.1 ht with rfl | ht
      · exact h
      · have h₁ := hap t ht
        have h₂ := le_def.1 (hl'.1 t ht)
        simp only [Apart] at h h₁ ⊢
        omega

theorem partition?_eq {lo : UInt32} {l : List Span} (hl : Canonical l) :
    partition? (endsBefore lo) l =
      some (l.takeWhile (endsBefore lo), l.dropWhile (endsBefore lo)) := by
  refine if_neg ?_
  rw [List.any_eq_true]
  rintro ⟨t, ht, hp⟩
  exact not_apart_of_mem_dropWhile hl t ht (endsBefore_iff.1 hp)

theorem insert_eq_absorb {s : Span} {l : List Span} (hl : Canonical l)
    (h : ∀ t ∈ l, ¬ Apart t.hi s.lo) : s.insert l = (s.absorb l).1 :: (s.absorb l).2 := by
  induction l generalizing s with
  | nil => rfl
  | cons t l ih =>
    obtain ⟨ht, hap, hl'⟩ := canonical_cons.1 hl
    have htouch : t.lo ≤ nextOrLast s.hi ↔ ¬ Apart s.hi t.lo := by
      rw [← nextOrLast_lt_iff, lt_def, le_def]
      omega
    rw [insert, if_neg (h t List.mem_cons_self), absorb]
    by_cases hs : Apart s.hi t.lo
    · rw [if_pos hs, if_neg (mt htouch.1 (not_not_intro hs))]
    · rw [if_neg hs, if_pos (htouch.2 hs)]
      refine ih hl' fun u hu => ?_
      have h₁ := hap u hu
      have h₂ := le_def.1 ht
      have h₃ := le_def.1 (hl'.1 u hu)
      simp only [Apart, toNat_min] at h₁ ⊢
      omega

theorem insert_eq_append {s : Span} {l : List Span} (hl : Canonical l) :
    s.insert l = l.takeWhile (endsBefore s.lo) ++ s.insert (l.dropWhile (endsBefore s.lo)) := by
  induction l with
  | nil => rfl
  | cons t l ih =>
    by_cases h : endsBefore s.lo t = true
    · rw [List.takeWhile_cons_of_pos h, List.dropWhile_cons_of_pos h, List.cons_append,
        ← ih (canonical_cons.1 hl).2.2, insert, if_pos (endsBefore_iff.1 h)]
    · rw [List.takeWhile_cons_of_neg h, List.dropWhile_cons_of_neg h, List.nil_append]

theorem canonical_dropWhile {l : List Span} (hl : Canonical l) (p : Span → Bool) :
    Canonical (l.dropWhile p) := by
  have hs := List.dropWhile_suffix (l := l) p
  exact ⟨fun t ht => hl.1 t (hs.mem ht), hl.2.sublist hs.sublist⟩

theorem splice?_eq {s : Span} {l : List Span} (hl : Canonical l) :
    splice? s l = some (s.insert l) := by
  rw [splice?, partition?_eq hl, insert_eq_append hl,
    insert_eq_absorb (canonical_dropWhile hl _) (not_apart_of_mem_dropWhile hl)]
  rfl

/-- The spans of a set once a span is added to it. -/
theorem addSpan?_eq (set : CodeSet) (lo hi : UInt32) :
    addSpan? set.spans lo hi = some (set.addSpan lo hi).spans := by
  unfold addSpan? CodeSet.addSpan
  by_cases h : lo ≤ hi
  · rw [if_neg (UInt32.not_lt.2 h), dif_pos h, splice?_eq set.canonical]
  · rw [if_pos (UInt32.not_le.1 h), dif_neg h]

theorem addAll?_eq (a b : CodeSet) : addAll? a.spans b.spans = some (a.union b).spans := by
  unfold CodeSet.union
  generalize b.spans = l
  induction l generalizing a with
  | nil => rfl
  | cons s l ih => rw [addAll?, addSpan?_eq, Option.bind_some, ih, List.foldl_cons]

/-! ## Cutting spans away -/

/-- What is left of `s` once the spans of a list are cut out of it: the inner loop of `subtract`. -/
def cut? (s : Span) : List Span → Option (List Span)
  | [] => some [s]
  | cut :: cuts =>
    if cut.hi < s.lo then s.cut? cuts
    else if s.hi < cut.lo then some [s]
    else
      (if s.lo < cut.lo then (pred? cut.lo).map fun hi => [⟨s.lo, hi⟩]
        else some []).bind fun below =>
        (if s.hi ≤ cut.hi then some []
          else (succ? cut.hi).bind fun lo => cut? ⟨lo, s.hi⟩ cuts).map fun above => below ++ above

/-- Cuts the spans of a second list out of those of the first one (`subtract`). -/
def subtract? (cuts : List Span) : List Span → Option (List Span)
  | [] => some []
  | s :: rest => (s.cut? cuts).bind fun kept => (subtract? cuts rest).map fun more => kept ++ more

theorem cut?_eq (s : Span) (l : List Span) : s.cut? l = some (s.minus l) := by
  fun_induction minus s l with
  | case1 => rfl
  | case2 s cut cuts h ih => rw [cut?, if_pos h, ih]
  | case3 s cut cuts h h' => rw [cut?, if_neg h, if_pos h']
  | case4 s cut cuts h h' ih =>
    have hbelow : (if s.lo < cut.lo then (pred? cut.lo).map fun hi => [(⟨s.lo, hi⟩ : Span)]
          else some []) =
        some (if s.lo < cut.lo then [⟨s.lo, cut.lo - 1⟩] else []) := by
      split
      · next hlt => rw [pred?_of_lt hlt, Option.map_some]
      · rfl
    have habove : (if s.hi ≤ cut.hi then some []
          else (succ? cut.hi).bind fun lo => cut? ⟨lo, s.hi⟩ cuts) =
        some (if cut.hi < s.hi then minus ⟨cut.hi + 1, s.hi⟩ cuts else []) := by
      by_cases hlt : cut.hi < s.hi
      · rw [if_neg (UInt32.not_le.2 hlt), if_pos hlt, succ?_of_lt hlt, Option.bind_some, ih]
      · rw [if_pos (UInt32.not_lt.1 hlt), if_neg hlt]
    rw [cut?, if_neg h, if_neg h', hbelow, habove, Option.bind_some, Option.map_some]

theorem subtract?_eq (a b : CodeSet) :
    subtract? b.spans a.spans = some (a.subtract b).spans := by
  show _ = some (a.spans.flatMap (·.minus b.spans))
  generalize a.spans = l
  induction l with
  | nil => rfl
  | cons s l ih =>
    rw [subtract?, cut?_eq, ih, Option.bind_some, Option.map_some, List.flatMap_cons]

/-! ## Common parts -/

/-- The common parts of two lists (`intersect`). Of the two spans at their heads, the one that ends
first is done with. -/
def sweep : List Span → List Span → List Span
  | [], _ => []
  | _, [] => []
  | s :: a, t :: b =>
    (s.meet? t).toList ++ if s.hi < t.hi then sweep a (t :: b) else sweep (s :: a) b
termination_by a b => a.length + b.length

theorem meet_cons (s t : Span) (l : List Span) :
    s.meet (t :: l) = (s.meet? t).toList ++ s.meet l := by
  unfold meet
  rw [List.filterMap_cons]
  cases s.meet? t with
  | none => rfl
  | some u => rfl

theorem meet?_eq_none {s t : Span} (h : s.hi.toNat < t.lo.toNat ∨ t.hi.toNat < s.lo.toNat) :
    s.meet? t = none := by
  refine if_neg fun hle => ?_
  rw [le_def, toNat_max, toNat_min] at hle
  omega

theorem meet_eq_nil {s : Span} {l : List Span} (h : ∀ t ∈ l, s.hi.toNat < t.lo.toNat) :
    s.meet l = [] := by
  unfold meet
  rw [List.filterMap_eq_nil_iff]
  intro t ht
  exact meet?_eq_none (.inl (h t ht))

theorem sweep_eq_flatMap {a b : List Span} (ha : Canonical a) (hb : Canonical b) :
    sweep a b = a.flatMap (·.meet b) := by
  fun_induction sweep a b with
  | case1 => rfl
  | case2 a =>
    symm
    rw [List.flatMap_eq_nil_iff]
    intro s _
    rfl
  | case3 s a t b ih₁ ih₂ =>
    obtain ⟨hs, haps, ha'⟩ := canonical_cons.1 ha
    obtain ⟨ht, hapt, hb'⟩ := canonical_cons.1 hb
    have hs' := le_def.1 hs
    have ht' := le_def.1 ht
    rw [List.flatMap_cons, meet_cons]
    by_cases hlt : s.hi < t.hi
    · -- nothing behind `t` is in `s`
      have hnil : s.meet b = [] := by
        refine meet_eq_nil fun u hu => ?_
        have h₁ := hapt u hu
        have h₂ := lt_def.1 hlt
        simp only [Apart] at h₁
        omega
      rw [if_pos hlt, ih₁ ha' hb, hnil, List.append_nil]
    · -- nothing behind `s` is in `t`
      have hskip : a.flatMap (·.meet (t :: b)) = a.flatMap (·.meet b) := by
        refine List.flatMap_congr fun u hu => ?_
        have h₁ := haps u hu
        have h₂ := mt lt_def.2 hlt
        simp only [Apart] at h₁
        rw [meet_cons, meet?_eq_none (.inr (by omega))]
        rfl
      rw [if_neg hlt, ih₂ ha hb', hskip, List.flatMap_cons, List.append_assoc]

theorem sweep_eq (a b : CodeSet) : sweep a.spans b.spans = (a.intersect b).spans :=
  sweep_eq_flatMap a.canonical b.canonical

end Span

end PatternGen
