/-!
# Spans of code points

A `Span` is an inclusive interval of 32-bit code points. A set of code points is written as a list
of spans that is *canonical*: no span is empty, and between two consecutive spans at least one
code point is missing. A set has exactly one canonical list.

Results:
* `Span.canonical_insert`, `Span.canonical_minus`, `Span.canonical_meet`: inserting a span, cutting
  spans away and meeting two lists keep lists canonical.
* `Span.covers_insert`, `Span.covers_minus`, `Span.covers_meet`: what each of them does to membership.
* `Span.canonical_unique`: canonical lists with the same members are the same list.
-/

namespace PatternGen

/-- The code points from `lo` to `hi`, both included. -/
structure Span where
  lo : UInt32
  hi : UInt32
deriving DecidableEq, Inhabited

namespace Span

/-- At least one code point lies strictly between `a` and `b`. -/
def Apart (a b : UInt32) : Prop := a.toNat + 1 < b.toNat

instance (a b : UInt32) : Decidable (Apart a b) := inferInstanceAs (Decidable (_ < _))

/-- Number of code points in the span. -/
def width (s : Span) : Nat := (s.hi - s.lo).toNat + 1

/-- The code point `v` lies in the span. -/
def Holds (s : Span) (v : UInt32) : Prop := s.lo ≤ v ∧ v ≤ s.hi

instance (s : Span) (v : UInt32) : Decidable (s.Holds v) := inferInstanceAs (Decidable (_ ∧ _))

/-- The code point `v` lies in one of the spans. -/
def Covers (spans : List Span) (v : UInt32) : Prop := ∃ s ∈ spans, s.Holds v

/-- No span of the list is empty, and consecutive spans are apart. -/
def Canonical (spans : List Span) : Prop :=
  (∀ s ∈ spans, s.lo ≤ s.hi) ∧ spans.Pairwise fun s t => Apart s.hi t.lo

/-! ## Operations on lists of spans -/

/-- Inserts a span, merging it with every span that it overlaps or touches. This is what `add_span`
does to its list. -/
def insert (s : Span) : List Span → List Span
  | [] => [s]
  | t :: rest =>
    if Apart t.hi s.lo then t :: s.insert rest
    else if Apart s.hi t.lo then s :: t :: rest
    else insert ⟨min s.lo t.lo, max s.hi t.hi⟩ rest

/-- What is left of a span once the spans of a list are cut out of it, as in the inner loop of
`subtract`. -/
def minus (s : Span) : List Span → List Span
  | [] => [s]
  | cut :: cuts =>
    if cut.hi < s.lo then s.minus cuts
    else if s.hi < cut.lo then [s]
    else
      (if s.lo < cut.lo then [⟨s.lo, cut.lo - 1⟩] else []) ++
        (if cut.hi < s.hi then minus ⟨cut.hi + 1, s.hi⟩ cuts else [])

/-- The common part of two spans, if they have one. -/
def meet? (s t : Span) : Option Span :=
  if max s.lo t.lo ≤ min s.hi t.hi then some ⟨max s.lo t.lo, min s.hi t.hi⟩ else none

/-- The common parts of a span with the spans of a list. Those of all spans of a set are what
`intersect` collects. -/
def meet (s : Span) (spans : List Span) : List Span := spans.filterMap s.meet?

/-- Number of code points of a canonical list (`len`). -/
def total : List Span → Nat
  | [] => 0
  | s :: rest => s.width + total rest

/-- The `k`-th smallest code point of a canonical list. -/
def index : List Span → Nat → Option UInt32
  | [], _ => none
  | s :: rest, k => if k < s.width then some (s.lo + UInt32.ofNat k) else index rest (k - s.width)

/-- How many members of a canonical list are smaller than its member `v`. -/
def rank : List Span → UInt32 → Option Nat
  | [], _ => none
  | s :: rest, v =>
    if v < s.lo then none
    else if v ≤ s.hi then some (v - s.lo).toNat
    else (rank rest v).map (s.width + ·)

/-! ## Words -/

theorem le_def {a b : UInt32} : a ≤ b ↔ a.toNat ≤ b.toNat := UInt32.le_iff_toNat_le

theorem lt_def {a b : UInt32} : a < b ↔ a.toNat < b.toNat := UInt32.lt_iff_toNat_lt

theorem toNat_min (a b : UInt32) : (min a b).toNat = min a.toNat b.toNat := by
  by_cases h : a ≤ b
  · rw [show min a b = a from if_pos h, Nat.min_eq_left (le_def.1 h)]
  · rw [show min a b = b from if_neg h, Nat.min_eq_right]
    have := mt le_def.2 h
    omega

theorem toNat_max (a b : UInt32) : (max a b).toNat = max a.toNat b.toNat := by
  by_cases h : a ≤ b
  · rw [show max a b = b from if_pos h, Nat.max_eq_right (le_def.1 h)]
  · rw [show max a b = a from if_neg h, Nat.max_eq_left]
    have := mt le_def.2 h
    omega

/-- One more than a code point that is not the largest does not wrap. -/
theorem toNat_succ {a b : UInt32} (h : a < b) : (a + 1).toNat = a.toNat + 1 := by
  have := lt_def.1 h
  have := b.toNat_lt
  rw [UInt32.toNat_add, show (1 : UInt32).toNat = 1 from rfl, Nat.mod_eq_of_lt (by omega)]

/-- One less than a code point that is not the smallest does not wrap. -/
theorem toNat_pred {a b : UInt32} (h : a < b) : (b - 1).toNat = b.toNat - 1 := by
  have := lt_def.1 h
  rw [UInt32.toNat_sub_of_le _ _ (le_def.2 (by rw [show (1 : UInt32).toNat = 1 from rfl]; omega))]
  rfl

/-! ## Canonical lists -/

theorem canonical_nil : Canonical [] := ⟨by simp, .nil⟩

theorem canonical_cons {s : Span} {l : List Span} :
    Canonical (s :: l) ↔ s.lo ≤ s.hi ∧ (∀ t ∈ l, Apart s.hi t.lo) ∧ Canonical l := by
  simp only [Canonical, List.mem_cons, forall_eq_or_imp, List.pairwise_cons]
  exact ⟨fun ⟨⟨a, b⟩, c, d⟩ => ⟨a, c, b, d⟩, fun ⟨a, c, b, d⟩ => ⟨⟨a, b⟩, c, d⟩⟩

theorem canonical_singleton {s : Span} (h : s.lo ≤ s.hi) : Canonical [s] :=
  canonical_cons.2 ⟨h, by simp, canonical_nil⟩

/-- Inserting a span keeps a bound that all spans stay above. -/
theorem apart_insert {a : UInt32} (s : Span) (l : List Span) (hs : Apart a s.lo)
    (hl : ∀ t ∈ l, Apart a t.lo) : ∀ t ∈ s.insert l, Apart a t.lo := by
  fun_induction insert s l with
  | case1 => simpa using hs
  | case2 s t rest h ih =>
    simp only [List.mem_cons, forall_eq_or_imp] at hl ⊢
    exact ⟨hl.1, ih hs hl.2⟩
  | case3 s t rest h h' =>
    simp only [List.mem_cons, forall_eq_or_imp] at hl ⊢
    exact ⟨hs, hl⟩
  | case4 s t rest h h' ih =>
    simp only [List.mem_cons, forall_eq_or_imp] at hl
    refine ih ?_ hl.2
    have h₁ := hl.1
    simp only [Apart, toNat_min] at hs h₁ ⊢
    omega

theorem canonical_insert (s : Span) (l : List Span) (hs : s.lo ≤ s.hi) (hl : Canonical l) :
    Canonical (s.insert l) := by
  fun_induction insert s l with
  | case1 => exact canonical_singleton hs
  | case2 s t rest h ih =>
    obtain ⟨ht, hap, hrest⟩ := canonical_cons.1 hl
    exact canonical_cons.2 ⟨ht, apart_insert s rest h hap, ih hs hrest⟩
  | case3 s t rest h h' =>
    obtain ⟨ht, hap, hrest⟩ := canonical_cons.1 hl
    refine canonical_cons.2 ⟨hs, ?_, hl⟩
    simp only [List.mem_cons, forall_eq_or_imp]
    refine ⟨h', fun u hu => ?_⟩
    have h₁ := hap u hu
    have h₂ := le_def.1 ht
    simp only [Apart] at h' h₁ ⊢
    omega
  | case4 s t rest h h' ih =>
    obtain ⟨ht, hap, hrest⟩ := canonical_cons.1 hl
    refine ih ?_ hrest
    have h₁ := le_def.1 hs
    rw [le_def, toNat_min, toNat_max]
    omega

/-- What is left of a span lies inside it, and is canonical. -/
theorem canonical_minus (s : Span) (l : List Span) (hs : s.lo ≤ s.hi) (hl : Canonical l) :
    Canonical (s.minus l) ∧ ∀ t ∈ s.minus l, s.lo ≤ t.lo ∧ t.hi ≤ s.hi := by
  fun_induction minus s l with
  | case1 s => exact ⟨canonical_singleton hs, by simp [le_def]⟩
  | case2 s cut cuts h ih => exact ih hs (canonical_cons.1 hl).2.2
  | case3 s cut cuts h h' => exact ⟨canonical_singleton hs, by simp [le_def]⟩
  | case4 s cut cuts h h' ih =>
    obtain ⟨hcut, -, hcuts⟩ := canonical_cons.1 hl
    have hcut' := le_def.1 hcut
    have hlow : cut.hi < s.hi →
        Canonical (minus ⟨cut.hi + 1, s.hi⟩ cuts) ∧
          ∀ t ∈ minus ⟨cut.hi + 1, s.hi⟩ cuts, cut.hi.toNat + 1 ≤ t.lo.toNat ∧ t.hi ≤ s.hi := by
      intro hlt
      have hsucc := toNat_succ hlt
      obtain ⟨h₁, h₂⟩ := ih (le_def.2 (by have := lt_def.1 hlt; simp only [hsucc]; omega)) hcuts
      exact ⟨h₁, fun t ht => ⟨by rw [← hsucc]; exact le_def.1 (h₂ t ht).1, (h₂ t ht).2⟩⟩
    have hge := mt lt_def.2 h
    have hge' := mt lt_def.2 h'
    by_cases h₁ : s.lo < cut.lo <;> by_cases h₂ : cut.hi < s.hi
    · obtain ⟨hc, hin⟩ := hlow h₂
      have hpred := toNat_pred h₁
      have h₃ := lt_def.1 h₁
      simp only [h₁, h₂, if_true, List.singleton_append]
      refine ⟨canonical_cons.2 ⟨le_def.2 (by simp only [hpred]; omega), fun t ht => ?_, hc⟩, ?_⟩
      · have := (hin t ht).1
        simp only [Apart, hpred]
        omega
      · simp only [List.mem_cons, forall_eq_or_imp]
        refine ⟨⟨le_def.2 (Nat.le_refl _), le_def.2 (by rw [hpred]; omega)⟩, fun t ht => ?_⟩
        exact ⟨le_def.2 (by have := (hin t ht).1; omega), (hin t ht).2⟩
    · have hpred := toNat_pred h₁
      have h₃ := lt_def.1 h₁
      simp only [h₁, h₂, if_true, if_false, List.append_nil, List.mem_singleton, forall_eq]
      exact ⟨canonical_singleton (le_def.2 (by simp only [hpred]; omega)),
        le_def.2 (Nat.le_refl _), le_def.2 (by rw [hpred]; omega)⟩
    · obtain ⟨hc, hin⟩ := hlow h₂
      simp only [h₁, h₂, if_true, if_false, List.nil_append]
      exact ⟨hc, fun t ht => ⟨le_def.2 (by have := (hin t ht).1; omega), (hin t ht).2⟩⟩
    · simp [h₁, h₂, canonical_nil]

theorem meet?_eq_some_iff {s t u : Span} :
    s.meet? t = some u ↔ u = ⟨max s.lo t.lo, min s.hi t.hi⟩ ∧ u.lo ≤ u.hi := by
  unfold meet?
  constructor
  · intro h
    split at h
    · cases h
      exact ⟨rfl, ‹_›⟩
    · cases h
  · rintro ⟨rfl, h⟩
    exact if_pos h

/-- The common parts with a span lie inside it, and are canonical. -/
theorem canonical_meet (s : Span) (l : List Span) (hl : Canonical l) :
    Canonical (s.meet l) ∧ ∀ t ∈ s.meet l, s.lo ≤ t.lo ∧ t.hi ≤ s.hi := by
  refine ⟨⟨fun u hu => ?_, ?_⟩, fun u hu => ?_⟩
  · obtain ⟨t, -, h⟩ := List.mem_filterMap.1 hu
    exact (meet?_eq_some_iff.1 h).2
  · refine List.Pairwise.filterMap _ (fun t u htu t' ht' u' hu' => ?_) hl.2
    obtain ⟨rfl, -⟩ := meet?_eq_some_iff.1 ht'
    obtain ⟨rfl, -⟩ := meet?_eq_some_iff.1 hu'
    simp only [Apart, toNat_min, toNat_max] at htu ⊢
    omega
  · obtain ⟨t, -, h⟩ := List.mem_filterMap.1 hu
    obtain ⟨rfl, -⟩ := meet?_eq_some_iff.1 h
    simp only [le_def, toNat_min, toNat_max]
    omega

/-- Replacing each span of a canonical list by a canonical list inside it is canonical. -/
theorem canonical_flatMap {l : List Span} {f : Span → List Span} (hl : Canonical l)
    (hf : ∀ s ∈ l, Canonical (f s) ∧ ∀ t ∈ f s, s.lo ≤ t.lo ∧ t.hi ≤ s.hi) :
    Canonical (l.flatMap f) := by
  refine ⟨fun t ht => ?_, List.pairwise_flatMap.2 ⟨fun s hs => (hf s hs).1.2, ?_⟩⟩
  · obtain ⟨s, hs, ht⟩ := List.mem_flatMap.1 ht
    exact (hf s hs).1.1 t ht
  · refine List.Pairwise.imp_of_mem (fun {s t} hs ht hst u hu v hv => ?_) hl.2
    have h₁ := le_def.1 ((hf s hs).2 u hu).2
    have h₂ := le_def.1 ((hf t ht).2 v hv).1
    simp only [Apart] at hst ⊢
    omega

/-! ## Membership -/

theorem holds_def {s : Span} {v : UInt32} :
    s.Holds v ↔ s.lo.toNat ≤ v.toNat ∧ v.toNat ≤ s.hi.toNat := by
  rw [Holds, le_def, le_def]

theorem not_covers_nil {v : UInt32} : ¬ Covers [] v := by simp [Covers]

theorem covers_cons {s : Span} {l : List Span} {v : UInt32} :
    Covers (s :: l) v ↔ s.Holds v ∨ Covers l v := by simp [Covers]

theorem covers_append {l₁ l₂ : List Span} {v : UInt32} :
    Covers (l₁ ++ l₂) v ↔ Covers l₁ v ∨ Covers l₂ v := by
  simp only [Covers, List.mem_append, or_and_right, exists_or]

theorem covers_flatMap {l : List Span} {f : Span → List Span} {v : UInt32} :
    Covers (l.flatMap f) v ↔ ∃ s ∈ l, Covers (f s) v := by
  simp only [Covers, List.mem_flatMap]
  exact ⟨fun ⟨t, ⟨s, hs, ht⟩, hv⟩ => ⟨s, hs, t, ht, hv⟩, fun ⟨s, hs, t, ht, hv⟩ => ⟨t, ⟨s, hs, ht⟩, hv⟩⟩

/-- Code points below the gap that precedes a list are not in the list. -/
theorem not_covers_of_apart {a v : UInt32} {l : List Span} (hl : ∀ t ∈ l, Apart a t.lo)
    (hv : v.toNat ≤ a.toNat + 1) : ¬ Covers l v := by
  rintro ⟨t, ht, hc⟩
  have h₁ := hl t ht
  have h₂ := holds_def.1 hc
  simp only [Apart] at h₁
  omega

theorem covers_insert (s : Span) (l : List Span) (hs : s.lo ≤ s.hi) (hl : Canonical l)
    (v : UInt32) : Covers (s.insert l) v ↔ s.Holds v ∨ Covers l v := by
  fun_induction insert s l with
  | case1 => exact covers_cons
  | case2 s t rest h ih =>
    rw [covers_cons, covers_cons, ih hs (canonical_cons.1 hl).2.2]
    exact or_left_comm
  | case3 s t rest h h' => exact covers_cons
  | case4 s t rest h h' ih =>
    obtain ⟨ht, -, hrest⟩ := canonical_cons.1 hl
    have h₁ := le_def.1 hs
    have h₂ := le_def.1 ht
    rw [ih (by rw [le_def, toNat_min, toNat_max]; omega) hrest, covers_cons, ← or_assoc]
    refine or_congr_left ?_
    simp only [Apart] at h h'
    simp only [holds_def, toNat_min, toNat_max]
    omega

theorem covers_minus (s : Span) (l : List Span) (hs : s.lo ≤ s.hi) (hl : Canonical l)
    (v : UInt32) : Covers (s.minus l) v ↔ s.Holds v ∧ ¬ Covers l v := by
  fun_induction minus s l with
  | case1 => simp [covers_cons, not_covers_nil]
  | case2 s cut cuts h ih =>
    rw [ih hs (canonical_cons.1 hl).2.2, covers_cons, not_or]
    refine and_congr_right fun hv => ⟨fun hno => ⟨?_, hno⟩, And.right⟩
    have h₁ := lt_def.1 h
    rw [holds_def] at hv ⊢
    omega
  | case3 s cut cuts h h' =>
    obtain ⟨hcut, hap, -⟩ := canonical_cons.1 hl
    have h₁ := lt_def.1 h'
    have h₂ := le_def.1 hcut
    rw [covers_cons, covers_cons, or_iff_left not_covers_nil, not_or]
    refine ⟨fun hv => ⟨hv, ?_⟩, And.left⟩
    rw [holds_def] at hv
    exact ⟨by rw [holds_def]; omega, not_covers_of_apart hap (by omega)⟩
  | case4 s cut cuts h h' ih =>
    obtain ⟨hcut, hap, hcuts⟩ := canonical_cons.1 hl
    have hcut' := le_def.1 hcut
    have hge := mt lt_def.2 h
    have hge' := mt lt_def.2 h'
    have hbelow : Covers (if s.lo < cut.lo then [⟨s.lo, cut.lo - 1⟩] else []) v ↔
        s.lo.toNat ≤ v.toNat ∧ v.toNat < cut.lo.toNat := by
      by_cases h₁ : s.lo < cut.lo
      · have hpred := toNat_pred h₁
        have := lt_def.1 h₁
        rw [if_pos h₁, covers_cons, or_iff_left not_covers_nil, holds_def]
        simp only [hpred]
        omega
      · have := mt lt_def.2 h₁
        rw [if_neg h₁, iff_false_left not_covers_nil]
        omega
    have habove : Covers (if cut.hi < s.hi then minus ⟨cut.hi + 1, s.hi⟩ cuts else []) v ↔
        (cut.hi.toNat < v.toNat ∧ v.toNat ≤ s.hi.toNat) ∧ ¬ Covers cuts v := by
      by_cases h₂ : cut.hi < s.hi
      · have hsucc := toNat_succ h₂
        have := lt_def.1 h₂
        rw [if_pos h₂, ih (le_def.2 (by simp only [hsucc]; omega)) hcuts, holds_def]
        simp only [hsucc]
        exact and_congr_left fun _ => by omega
      · have := mt lt_def.2 h₂
        rw [if_neg h₂, iff_false_left not_covers_nil]
        omega
    rw [covers_append, hbelow, habove, covers_cons, not_or, holds_def, holds_def]
    constructor
    · rintro (hv | ⟨hv, hno⟩)
      · exact ⟨by omega, by omega, not_covers_of_apart hap (by omega)⟩
      · exact ⟨by omega, by omega, hno⟩
    · rintro ⟨hv, hcutv, hno⟩
      by_cases hlt : v.toNat < cut.lo.toNat
      · exact .inl ⟨hv.1, hlt⟩
      · exact .inr ⟨⟨by omega, hv.2⟩, hno⟩

theorem covers_meet (s : Span) (l : List Span) (v : UInt32) :
    Covers (s.meet l) v ↔ s.Holds v ∧ Covers l v := by
  constructor
  · rintro ⟨u, hu, hv⟩
    obtain ⟨t, ht, h⟩ := List.mem_filterMap.1 hu
    obtain ⟨rfl, -⟩ := meet?_eq_some_iff.1 h
    simp only [holds_def, toNat_min, toNat_max] at hv
    exact ⟨holds_def.2 (by omega), t, ht, holds_def.2 (by omega)⟩
  · rintro ⟨hs, t, ht, hv⟩
    simp only [holds_def] at hs hv
    refine ⟨⟨max s.lo t.lo, min s.hi t.hi⟩,
      List.mem_filterMap.2 ⟨t, ht, meet?_eq_some_iff.2 ⟨rfl, ?_⟩⟩, ?_⟩
    · simp only [le_def, toNat_min, toNat_max]
      omega
    · simp only [holds_def, toNat_min, toNat_max]
      omega

/-! ## Uniqueness -/

/-- The first span of a canonical list begins at its least member. -/
theorem lo_le_of_covers {s : Span} {l : List Span} (hl : Canonical (s :: l)) {v : UInt32}
    (hv : Covers (s :: l) v) : s.lo.toNat ≤ v.toNat := by
  obtain ⟨hs, hap, -⟩ := canonical_cons.1 hl
  have h₁ := le_def.1 hs
  rcases covers_cons.1 hv with hv | ⟨t, ht, hv⟩
  · exact (holds_def.1 hv).1
  · have h₂ := hap t ht
    have h₃ := holds_def.1 hv
    simp only [Apart] at h₂
    omega

theorem covers_lo {s : Span} {l : List Span} (hl : Canonical (s :: l)) : Covers (s :: l) s.lo := by
  obtain ⟨hs, -, -⟩ := canonical_cons.1 hl
  exact covers_cons.2 (.inl (holds_def.2 ⟨Nat.le_refl _, le_def.1 hs⟩))

/-- The members behind the first span are those that it does not hold. -/
theorem covers_tail {s : Span} {l : List Span} (hl : Canonical (s :: l)) {v : UInt32} :
    Covers l v ↔ Covers (s :: l) v ∧ ¬ s.Holds v := by
  obtain ⟨-, hap, -⟩ := canonical_cons.1 hl
  constructor
  · intro hv
    refine ⟨covers_cons.2 (.inr hv), fun hs => ?_⟩
    have h₁ := (holds_def.1 hs).2
    exact not_covers_of_apart hap (by omega) hv
  · rintro ⟨hv, hs⟩
    exact (covers_cons.1 hv).resolve_left hs

/-- Of two first spans that begin at the same place, the one of the larger set ends no earlier. -/
theorem hi_le_of_covers {s t : Span} {a b : List Span} (ha : Canonical (s :: a))
    (hb : Canonical (t :: b)) (hlo : s.lo = t.lo) (h : ∀ v, Covers (s :: a) v → Covers (t :: b) v) :
    s.hi.toNat ≤ t.hi.toNat := by
  refine Nat.le_of_not_lt fun hlt => ?_
  obtain ⟨hs, -, -⟩ := canonical_cons.1 ha
  obtain ⟨ht, hap, -⟩ := canonical_cons.1 hb
  have hle := le_def.1 ht
  -- the code point right behind `t` is in `s`, but lies in the gap that follows `t`
  have hsucc : (t.hi + 1).toNat = t.hi.toNat + 1 := toNat_succ (lt_def.2 hlt)
  have hmem : s.Holds (t.hi + 1) := by
    rw [holds_def, hsucc, hlo]
    omega
  rcases covers_cons.1 (h _ (covers_cons.2 (.inl hmem))) with hv | hv
  · have := (holds_def.1 hv).2
    omega
  · exact not_covers_of_apart hap (by omega) hv

theorem canonical_unique {a b : List Span} (ha : Canonical a) (hb : Canonical b)
    (h : ∀ v, Covers a v ↔ Covers b v) : a = b := by
  induction a generalizing b with
  | nil =>
    cases b with
    | nil => rfl
    | cons t b => exact absurd ((h t.lo).2 (covers_lo hb)) not_covers_nil
  | cons s a ih =>
    cases b with
    | nil => exact absurd ((h s.lo).1 (covers_lo ha)) not_covers_nil
    | cons t b =>
      have h₁ := lo_le_of_covers hb ((h s.lo).1 (covers_lo ha))
      have h₂ := lo_le_of_covers ha ((h t.lo).2 (covers_lo hb))
      have hlo : s.lo = t.lo := UInt32.toNat_inj.1 (by omega)
      have h₃ := hi_le_of_covers ha hb hlo fun v => (h v).1
      have h₄ := hi_le_of_covers hb ha hlo.symm fun v => (h v).2
      have hhi : s.hi = t.hi := UInt32.toNat_inj.1 (by omega)
      have hst : s = t := by
        obtain ⟨lo, hi⟩ := s
        obtain ⟨lo', hi'⟩ := t
        cases hlo
        cases hhi
        rfl
      subst hst
      rw [ih (canonical_cons.1 ha).2.2 (canonical_cons.1 hb).2.2 fun v => ?_]
      rw [covers_tail ha, covers_tail hb, h v]

end Span

end PatternGen
