import Mathlib.Logic.Basic
import PatternGen.Proofs.CodeSet.Rank

/-!
# What a class holds

An item of a class holds code points: a character itself, a range those between its ends, a class
those scalar values that it selects. A class selects what one of its items holds, or if it is
negated all else; without regard to case, a code point is held along with its other case. The
alphabet has no part in this. Expanding a class clips every class inside it to the alphabet and to
scalar values before cases are added and before the outer class is negated, and still gives nothing
but the members of the alphabet that the class selects.

Results:
* `CodeSet.mem_otherCases`: the other cases of the letters of a set.
* `Settings.agrees_itemSet`: an item expands to what it holds, as far as the alphabet goes.
* `Settings.expand_spec`: a class expands to the scalar values of the alphabet that it selects.
-/

namespace PatternGen

/-! ## Other cases -/

/-- The other case of an ASCII letter; every other code point itself. -/
def swapCase (v : UInt32) : UInt32 :=
  if 'a'.val ≤ v ∧ v ≤ 'z'.val then v - 32
  else if 'A'.val ≤ v ∧ v ≤ 'Z'.val then v + 32
  else v

theorem toNat_swapCase (v : UInt32) : (swapCase v).toNat =
    if 97 ≤ v.toNat ∧ v.toNat ≤ 122 then v.toNat - 32
    else if 65 ≤ v.toNat ∧ v.toNat ≤ 90 then v.toNat + 32
    else v.toNat := by
  unfold swapCase
  simp only [Span.le_def, show 'a'.val.toNat = 97 from rfl, show 'z'.val.toNat = 122 from rfl,
    show 'A'.val.toNat = 65 from rfl, show 'Z'.val.toNat = 90 from rfl]
  have h32 : (32 : UInt32).toNat = 32 := rfl
  split_ifs with hlower hupper
  · rw [UInt32.toNat_sub_of_le _ _ (Span.le_def.2 (by omega)), h32]
  · rw [UInt32.toNat_add, h32, Nat.mod_eq_of_lt (by omega)]
  · rfl

theorem swapCase_swapCase (v : UInt32) : swapCase (swapCase v) = v := by
  rw [← UInt32.toNat_inj, toNat_swapCase, toNat_swapCase]
  split_ifs <;> omega

/-- On characters the two cases are those of the literals of a pattern. -/
theorem val_otherCase (c : Char) : (otherCase c).val = swapCase c.val := by
  have hlower : c.isLower = true ↔ 'a'.val ≤ c.val ∧ c.val ≤ 'z'.val := by
    delta Char.isLower
    rw [Bool.and_eq_true, decide_eq_true_iff, decide_eq_true_iff]
  have hupper : c.isUpper = true ↔ 'A'.val ≤ c.val ∧ c.val ≤ 'Z'.val := decide_eq_true_iff
  unfold otherCase swapCase
  simp only [hlower, hupper]
  split_ifs with hlow hupp
  · delta Char.toUpper
    rw [dif_pos hlow, UInt32.sub_eq_add_neg c.val]
    rfl
  · delta Char.toLower
    rw [dif_pos hupp]
    rfl
  · rfl

namespace Span

/-- Moving a span of small letters down by the distance of the cases. -/
theorem holds_sub_iff {s : Span} (hlo : 97 ≤ s.lo.toNat) (hle : s.lo.toNat ≤ s.hi.toNat)
    (hhi : s.hi.toNat ≤ 122) {v : UInt32} :
    s.lo - 32 ≤ v ∧ v ≤ s.hi - 32 ↔ s.Holds (swapCase v) := by
  have h32 : (32 : UInt32).toNat = 32 := rfl
  rw [le_def, le_def, UInt32.toNat_sub_of_le _ _ (le_def.2 (by omega)),
    UInt32.toNat_sub_of_le _ _ (le_def.2 (by omega)), h32, holds_def, toNat_swapCase]
  split_ifs <;> omega

/-- Moving a span of capital letters up by the distance of the cases. -/
theorem holds_add_iff {s : Span} (hlo : 65 ≤ s.lo.toNat) (hle : s.lo.toNat ≤ s.hi.toNat)
    (hhi : s.hi.toNat ≤ 90) {v : UInt32} :
    s.lo + 32 ≤ v ∧ v ≤ s.hi + 32 ↔ s.Holds (swapCase v) := by
  have h32 : (32 : UInt32).toNat = 32 := rfl
  rw [le_def, le_def, UInt32.toNat_add, UInt32.toNat_add, h32, Nat.mod_eq_of_lt (by omega),
    Nat.mod_eq_of_lt (by omega), holds_def, toNat_swapCase]
  split_ifs <;> omega

end Span

namespace CodeSet

theorem mem_addSpans {set : CodeSet} {spans : List (UInt32 × UInt32)} {v : UInt32} :
    v ∈ set.addSpans spans ↔ (∃ s ∈ spans, s.1 ≤ v ∧ v ≤ s.2) ∨ v ∈ set := by
  unfold addSpans
  induction spans generalizing set with
  | nil => simp
  | cons s spans ih =>
    rw [List.foldl_cons, ih, mem_addSpan, ← or_assoc]
    simp only [List.mem_cons, exists_eq_or_imp]
    rw [or_comm (a := s.1 ≤ v ∧ v ≤ s.2)]

/-- Mapping the ends of all spans of a set, where that maps the code points in them. -/
theorem exists_map_spans_iff {set : CodeSet} {f : UInt32 → UInt32} {v w : UInt32}
    (h : ∀ s ∈ set.spans, (f s.lo ≤ v ∧ v ≤ f s.hi ↔ s.Holds w)) :
    (∃ p ∈ set.spans.map fun s => (f s.lo, f s.hi), p.1 ≤ v ∧ v ≤ p.2) ↔ w ∈ set := by
  rw [mem_def, Span.Covers]
  constructor
  · rintro ⟨p, hp, hv⟩
    obtain ⟨s, hs, rfl⟩ := List.mem_map.1 hp
    exact ⟨s, hs, (h s hs).1 hv⟩
  · rintro ⟨s, hs, hw⟩
    exact ⟨_, List.mem_map.2 ⟨s, hs, rfl⟩, (h s hs).2 hw⟩

/-- The ends of a span of a set are members. -/
theorem ends_mem {set : CodeSet} {s : Span} (hs : s ∈ set.spans) :
    s.lo.toNat ≤ s.hi.toNat ∧ s.lo ∈ set ∧ s.hi ∈ set := by
  have hle := Span.le_def.1 (set.canonical.1 s hs)
  refine ⟨hle, ⟨s, hs, ?_⟩, ⟨s, hs, ?_⟩⟩
  · rw [Span.holds_def]
    exact ⟨Nat.le_refl _, hle⟩
  · rw [Span.holds_def]
    exact ⟨hle, Nat.le_refl _⟩

theorem mem_otherCases {set : CodeSet} {v : UInt32} :
    v ∈ set.otherCases ↔ swapCase v ∈ set ∧ swapCase v ≠ v := by
  have hlower : ∀ w, w ∈ set.intersect (span 'a'.val 'z'.val) ↔
      w ∈ set ∧ 97 ≤ w.toNat ∧ w.toNat ≤ 122 := by
    intro w
    rw [mem_intersect, mem_span, Span.le_def, Span.le_def]
    rfl
  have hupper : ∀ w, w ∈ set.intersect (span 'A'.val 'Z'.val) ↔
      w ∈ set ∧ 65 ≤ w.toNat ∧ w.toNat ≤ 90 := by
    intro w
    rw [mem_intersect, mem_span, Span.le_def, Span.le_def]
    rfl
  unfold otherCases
  dsimp only
  rw [mem_addSpans, mem_addSpans, or_iff_left not_mem_empty,
    exists_map_spans_iff (f := (· + 32)) (w := swapCase v) fun s hs => ?upper,
    exists_map_spans_iff (f := (· - 32)) (w := swapCase v) fun s hs => ?lower, hupper, hlower]
  case upper =>
    obtain ⟨hle, hlo, hhi⟩ := ends_mem hs
    exact Span.holds_add_iff ((hupper _).1 hlo).2.1 hle ((hupper _).1 hhi).2.2
  case lower =>
    obtain ⟨hle, hlo, hhi⟩ := ends_mem hs
    exact Span.holds_sub_iff ((hlower _).1 hlo).2.1 hle ((hlower _).1 hhi).2.2
  rw [← and_or_left]
  refine and_congr_right fun _ => ?_
  rw [ne_eq, ← UInt32.toNat_inj, toNat_swapCase]
  split_ifs <;> omega

theorem mem_union_otherCases {set : CodeSet} {v : UInt32} :
    v ∈ set.union set.otherCases ↔ v ∈ set ∨ swapCase v ∈ set := by
  rw [mem_union, mem_otherCases]
  by_cases h : swapCase v = v
  · rw [h]
    simp
  · simp [h]

end CodeSet

/-! ## Holding -/

/-- A class selects what its items hold, in either case without regard to case; a negated one
selects all else. -/
def CharClass.Selects (ignoreCase negate : Bool) (held : UInt32 → Prop) (v : UInt32) : Prop :=
  Xor (held v ∨ ignoreCase = true ∧ held (swapCase v)) (negate = true)

mutual

/-- The item holds the code point. -/
def ClassItem.Holds (ignoreCase : Bool) : ClassItem → UInt32 → Prop
  | .char c, v => v = c.val
  | .range lo hi, v => lo.val ≤ v ∧ v ≤ hi.val
  | .nested negate items, v =>
    v.toNat.isValidChar ∧
      CharClass.Selects ignoreCase negate (ClassItem.SomeHolds ignoreCase items) v

/-- One of the items holds the code point. -/
def ClassItem.SomeHolds (ignoreCase : Bool) : List ClassItem → UInt32 → Prop
  | [], _ => False
  | item :: items, v => item.Holds ignoreCase v ∨ ClassItem.SomeHolds ignoreCase items v

end

/-- The class has the code point as a member, whatever the alphabet. -/
def CharClass.Member (ignoreCase : Bool) (cls : CharClass) (v : UInt32) : Prop :=
  Selects ignoreCase cls.negate (ClassItem.SomeHolds ignoreCase cls.items) v

theorem ClassItem.someHolds_iff {ignoreCase : Bool} {items : List ClassItem} {v : UInt32} :
    SomeHolds ignoreCase items v ↔ ∃ item ∈ items, item.Holds ignoreCase v := by
  induction items with
  | nil => simp [SomeHolds]
  | cons item items ih => simp [SomeHolds, ih]

/-- Without regard to case, a code point is selected along with its other case. -/
theorem CharClass.selects_swapCase {negate : Bool} {held : UInt32 → Prop} {v : UInt32} :
    Selects true negate held (swapCase v) ↔ Selects true negate held v := by
  unfold Selects
  rw [swapCase_swapCase, or_comm]
  simp

theorem CharClass.selects_congr {ignoreCase negate : Bool} {p q : UInt32 → Prop} {v : UInt32}
    (h : p v ∨ ignoreCase = true ∧ p (swapCase v) ↔ q v ∨ ignoreCase = true ∧ q (swapCase v)) :
    Selects ignoreCase negate p v ↔ Selects ignoreCase negate q v := by
  unfold Selects
  rw [h]

/-- The class of all else. -/
def CharClass.complement (cls : CharClass) : CharClass := { cls with negate := !cls.negate }

theorem CharClass.member_complement {ignoreCase : Bool} {cls : CharClass} {v : UInt32} :
    cls.complement.Member ignoreCase v ↔ ¬ cls.Member ignoreCase v := by
  unfold Member Selects complement
  dsimp only
  rw [Bool.not_eq_true', ← Bool.not_eq_true, xor_not_right, not_xor]

/-- Lists of items that differ in order and repetition only, also in the classes among the items. -/
inductive ClassItem.Rearranged : List ClassItem → List ClassItem → Prop where
  | same {xs ys : List ClassItem} (h : ∀ item, item ∈ xs ↔ item ∈ ys) : Rearranged xs ys
  | inside {xs ys : List ClassItem} (before after : List ClassItem) (negate : Bool)
      (h : Rearranged xs ys) :
      Rearranged (before ++ .nested negate xs :: after) (before ++ .nested negate ys :: after)
  | trans {xs ys zs : List ClassItem} (h₁ : Rearranged xs ys) (h₂ : Rearranged ys zs) :
      Rearranged xs zs

theorem ClassItem.Rearranged.someHolds_eq {ignoreCase : Bool} {xs ys : List ClassItem}
    (h : Rearranged xs ys) : SomeHolds ignoreCase xs = SomeHolds ignoreCase ys := by
  induction h with
  | same h =>
    funext v
    rw [eq_iff_iff, someHolds_iff, someHolds_iff]
    simp only [h]
  | @inside xs ys before after negate _ ih =>
    have hitem : (nested negate xs).Holds ignoreCase = (nested negate ys).Holds ignoreCase := by
      funext v
      rw [Holds, Holds, ih]
    funext v
    rw [eq_iff_iff, someHolds_iff, someHolds_iff]
    simp only [List.mem_append, List.mem_cons, or_and_right, exists_or, exists_eq_left, hitem]
  | trans _ _ ih₁ ih₂ => exact ih₁.trans ih₂

/-! ## Expanding -/

namespace Settings

variable {settings : Settings}

/-- The scalar values of the alphabet. -/
def Admits (settings : Settings) (v : UInt32) : Prop := v ∈ settings.alphabet ∧ v.toNat.isValidChar

theorem mem_bound {negate : Bool} {held : CodeSet} {v : UInt32} :
    v ∈ settings.bound negate held ↔ settings.Admits v ∧
      CharClass.Selects settings.flags.caseInsensitive negate (· ∈ held) v := by
  have hfold : v ∈ (if settings.flags.caseInsensitive then held.union held.otherCases else held) ↔
      v ∈ held ∨ settings.flags.caseInsensitive = true ∧ swapCase v ∈ held := by
    cases settings.flags.caseInsensitive with
    | true => rw [if_pos rfl, CodeSet.mem_union_otherCases, and_iff_right rfl]
    | false => simp
  unfold bound CharClass.Selects Admits
  dsimp only
  rw [CodeSet.mem_intersect, CodeSet.mem_scalars, ← hfold]
  cases negate with
  | true =>
    rw [if_pos rfl, CodeSet.mem_subtract]
    simp [Xor, and_right_comm]
  | false =>
    rw [if_neg Bool.false_ne_true, CodeSet.mem_intersect]
    simp [Xor, and_right_comm]

/-- The set has only code points of which `P` is true, and of the alphabet it has all of these. If
`P` is true of the other case of such a code point, the set has one of the two. -/
structure Agrees (settings : Settings) (set : CodeSet) (P : UInt32 → Prop) : Prop where
  sound : ∀ v ∈ set, P v
  complete : ∀ v, settings.Admits v → P v → v ∈ set
  swapped : settings.flags.caseInsensitive = true → ∀ v, settings.Admits v → P (swapCase v) →
    v ∈ set ∨ swapCase v ∈ set

theorem agrees_of_iff {set : CodeSet} {P : UInt32 → Prop} (h : ∀ v, v ∈ set ↔ P v) :
    settings.Agrees set P where
  sound v := (h v).1
  complete v _ := (h v).2
  swapped _ v _ hv := .inr ((h (swapCase v)).2 hv)

theorem Agrees.union {a b : CodeSet} {P Q : UInt32 → Prop} (ha : settings.Agrees a P)
    (hb : settings.Agrees b Q) : settings.Agrees (a.union b) fun v => P v ∨ Q v where
  sound v hv := by
    rcases CodeSet.mem_union.1 hv with hv | hv
    · exact .inl (ha.sound v hv)
    · exact .inr (hb.sound v hv)
  complete v hadm hv := by
    rw [CodeSet.mem_union]
    exact hv.imp (ha.complete v hadm) (hb.complete v hadm)
  swapped hcase v hadm hv := by
    rw [CodeSet.mem_union, CodeSet.mem_union]
    rcases hv with hv | hv
    · exact (ha.swapped hcase v hadm hv).imp .inl .inl
    · exact (hb.swapped hcase v hadm hv).imp .inr .inr

theorem Agrees.selects_iff {set : CodeSet} {P : UInt32 → Prop} (h : settings.Agrees set P)
    {negate : Bool} {v : UInt32} (hadm : settings.Admits v) :
    CharClass.Selects settings.flags.caseInsensitive negate (· ∈ set) v ↔
      CharClass.Selects settings.flags.caseInsensitive negate P v := by
  apply CharClass.selects_congr
  constructor
  · rintro (hv | ⟨hcase, hv⟩)
    · exact .inl (h.sound v hv)
    · exact .inr ⟨hcase, h.sound _ hv⟩
  · rintro (hv | ⟨hcase, hv⟩)
    · exact .inl (h.complete v hadm hv)
    · exact (h.swapped hcase v hadm hv).imp_right fun hv => ⟨hcase, hv⟩

/-- A class inside another one: clipping it to the alphabet loses no case of a letter, since what it
selects it selects in both cases. -/
theorem Agrees.bound {set : CodeSet} {P : UInt32 → Prop} (h : settings.Agrees set P)
    (negate : Bool) : settings.Agrees (settings.bound negate set) fun v =>
      v.toNat.isValidChar ∧ CharClass.Selects settings.flags.caseInsensitive negate P v where
  sound v hv := by
    obtain ⟨hadm, hv⟩ := mem_bound.1 hv
    exact ⟨hadm.2, (h.selects_iff hadm).1 hv⟩
  complete v hadm hv := mem_bound.2 ⟨hadm, (h.selects_iff hadm).2 hv.2⟩
  swapped hcase v hadm hv := by
    refine .inl (mem_bound.2 ⟨hadm, (h.selects_iff hadm).2 ?_⟩)
    rw [hcase] at hv ⊢
    exact CharClass.selects_swapCase.1 hv.2

mutual

theorem agrees_itemSet : (item : ClassItem) →
    settings.Agrees (settings.itemSet item) (item.Holds settings.flags.caseInsensitive)
  | .char c => agrees_of_iff fun v => by
    rw [itemSet, CodeSet.single, CodeSet.mem_span, ClassItem.Holds, Span.le_def, Span.le_def,
      ← UInt32.toNat_inj]
    omega
  | .range lo hi => agrees_of_iff fun v => CodeSet.mem_span
  | .nested negate items => (agrees_itemsSet items).bound negate

theorem agrees_itemsSet : (items : List ClassItem) →
    settings.Agrees (settings.itemsSet items)
      (ClassItem.SomeHolds settings.flags.caseInsensitive items)
  | [] => agrees_of_iff fun v => by
    rw [itemsSet, ClassItem.SomeHolds, iff_false]
    exact CodeSet.not_mem_empty
  | item :: items => (agrees_itemSet item).union (agrees_itemsSet items)

end

theorem mem_expand {cls : CharClass} {v : UInt32} :
    v ∈ settings.expand cls ↔ settings.Admits v ∧
      cls.Member settings.flags.caseInsensitive v := by
  rw [expand, mem_bound]
  exact and_congr_right fun hadm => (agrees_itemsSet cls.items).selects_iff hadm

/-- The settings with every code point in the alphabet. -/
def unconfined (settings : Settings) : Settings := { settings with alphabet := .span 0 0xFFFFFFFF }

theorem admits_unconfined {v : UInt32} : settings.unconfined.Admits v ↔ v.toNat.isValidChar := by
  refine and_iff_right (CodeSet.mem_span.2 ⟨Span.le_def.2 (Nat.zero_le _), Span.le_def.2 ?_⟩)
  exact Nat.le_of_lt_succ v.toNat_lt

/-- A class expands to a canonical set, that of the scalar values of the alphabet which it selects.
So the alphabet is but an outer bound; a class and its complement share out the scalar values of the
alphabet; and what counts of the items of a class, and of those of the classes among them, is which
they are. -/
theorem expand_spec (settings : Settings) (cls : CharClass) :
    Span.Canonical (settings.expand cls).spans ∧
      (∀ v, v ∈ settings.expand cls ↔ settings.Admits v ∧
        cls.Member settings.flags.caseInsensitive v) ∧
      settings.expand cls = (settings.unconfined.expand cls).intersect settings.alphabet ∧
      (∀ v, settings.Admits v ↔
        Xor (v ∈ settings.expand cls) (v ∈ settings.expand cls.complement)) ∧
      ∀ items, ClassItem.Rearranged cls.items items →
        settings.expand ⟨cls.negate, items⟩ = settings.expand cls := by
  refine ⟨(settings.expand cls).canonical, fun v => mem_expand, ?_, fun v => ?_, fun items h => ?_⟩
  · rw [CodeSet.eq_iff_mem]
    intro v
    rw [CodeSet.mem_intersect, mem_expand, mem_expand, admits_unconfined, Admits,
      and_comm (a := v ∈ settings.alphabet), and_right_comm]
    rfl
  · rw [mem_expand, mem_expand, CharClass.member_complement]
    grind
  · rw [CodeSet.eq_iff_mem]
    intro v
    rw [mem_expand, mem_expand, CharClass.Member, CharClass.Member, h.someHolds_eq]

/-- Both cases of a letter count, and the alphabet has the small ones only. -/
def smallLetters : Settings :=
  { alphabet := .span 'a'.val 'z'.val, flags := { caseInsensitive := true } }

/-- What neither `K` nor the class of all but `b` to `d` holds, with the items in another order and
one of them repeated. -/
theorem expand_spec_smallLetters :
    ClassItem.Rearranged [.char 'K', .nested true [.range 'b' 'd']]
        [.nested true [.range 'b' 'd'], .char 'K', .char 'K'] ∧
      smallLetters.expand ⟨true, [.nested true [.range 'b' 'd'], .char 'K', .char 'K']⟩ =
        .span 'b'.val 'd'.val :=
  have h : ClassItem.Rearranged [.char 'K', .nested true [.range 'b' 'd']]
      [.nested true [.range 'b' 'd'], .char 'K', .char 'K'] := .same (by simp [or_comm])
  ⟨h, ((expand_spec smallLetters ⟨true, _⟩).2.2.2.2 _ h).trans (by decide)⟩

end Settings

end PatternGen
