import PatternGen.Pattern.Lexeme
import PatternGen.Proofs.WellFormed.Basic

/-!
# Well-formed lexemes

Every lexeme that is read from a text is well formed, so that what is wrong with a pattern can only
be where its lexemes stand.

Results:
* `ClassText.wellFormed_read`: the classes that are read, and that a strict one is not empty.
* `Lexeme.reference_of_readReference`: references are numbered from one.
* `Lexeme.wellFormed_readAll`: all lexemes of a text.
-/

namespace PatternGen.Pattern

/-! ## Numerals -/

theorem le_largest_of_read? {text : List Char} {n : Nat} (h : Numeral.read? text = some n) :
    n ≤ Numeral.largest := by
  unfold Numeral.read? at h
  cases hr : Numeral.read text with
  | error fault =>
    rw [hr] at h
    cases h
  | ok m =>
    rw [hr] at h
    cases h
    exact Nat.le_sub_one_of_lt (Numeral.read_lt hr)

/-- Further digits make a number no smaller. -/
theorem le_of_readDigits {n m : Nat} {text : List Char} (h : Numeral.readDigits n text = .ok m) :
    n ≤ m := by
  fun_induction Numeral.readDigits n text with
  | case1 =>
    cases h
    exact Nat.le_refl _
  | case2 n c rest hc next hlt ih =>
    have hnext : n ≤ next := by omega
    exact Nat.le_trans hnext (ih h)
  | case3 => cases h
  | case4 => cases h

theorem one_le_digitValue {c : Char} (hc : c.isDigit = true) (h0 : c ≠ '0') :
    1 ≤ Numeral.digitValue c := by
  have hle : '0'.toNat ≤ c.toNat := by
    simp only [Char.isDigit, Bool.and_eq_true, decide_eq_true_eq] at hc
    exact Char.le_def.1 hc.1
  have hne : '0'.toNat ≠ c.toNat := fun h => h0 (Char.toNat_inj.1 h.symm)
  unfold Numeral.digitValue
  omega

/-- A numeral whose first digit is not zero denotes at least one. -/
theorem one_le_of_read? {c : Char} {digits : List Char} {n : Nat} (hc : c.isDigit = true)
    (h0 : c ≠ '0') (h : Numeral.read? (c :: digits) = some n) : 1 ≤ n := by
  unfold Numeral.read? at h
  rw [Numeral.read_eq_readDigits hc] at h
  cases hr : Numeral.readDigits 0 (c :: digits) with
  | error fault =>
    rw [hr] at h
    cases h
  | ok m =>
    rw [hr] at h
    cases h
    rw [Numeral.readDigits, if_pos hc] at hr
    dsimp only at hr
    split at hr
    · have h₁ := le_of_readDigits hr
      have h₂ := one_le_digitValue hc h0
      omega
    · cases hr

/-! ## Classes -/

namespace ClassText

variable {dialect : Dialect} {here text rest : List Char}

theorem wellFormed_itemOf (e : Escape) : (itemOf dialect e).WellFormed dialect := by
  cases e with
  | char c => exact .char c
  | shorthand s => exact .shorthand s

theorem wellFormed_readItem {c : Char} {item : ClassItem}
    (h : readItem dialect here c text = .ok (item, rest)) : item.WellFormed dialect := by
  unfold readItem at h
  split at h
  · split at h
    · cases h
    · cases h
      exact .char _
    · obtain ⟨e, left, -, h⟩ := Reading.andThen_eq_ok_iff.1 h
      cases h
      exact wellFormed_itemOf e
  · cases h
    exact .char c

/-- A range is read only if its ends are in order. -/
theorem wellFormed_joinRange {lo : Char} {hi : ClassItem} {items : List ClassItem}
    (hhi : hi.WellFormed dialect) (h : joinRange here lo hi = .ok items) :
    items ≠ [] ∧ ∀ item ∈ items, item.WellFormed dialect := by
  unfold joinRange at h
  split at h
  · split at h
    · cases h
    · next hlt =>
      cases h
      refine ⟨List.cons_ne_nil _ _, fun item hitem => ?_⟩
      rw [List.mem_singleton.1 hitem]
      exact .range (Char.not_lt.1 hlt)
  · cases h
    refine ⟨List.cons_ne_nil _ _, fun item hitem => ?_⟩
    simp only [List.mem_cons, List.not_mem_nil, or_false] at hitem
    obtain rfl | rfl | rfl := hitem
    · exact .char lo
    · exact .char '-'
    · exact hhi

theorem wellFormed_readRange {lo c : Char} {items : List ClassItem}
    (h : readRange dialect here lo c text = .ok (items, rest)) :
    items ≠ [] ∧ ∀ item ∈ items, item.WellFormed dialect := by
  obtain ⟨hi, left, hr, h⟩ := Reading.andThen_eq_ok_iff.1 h
  cases hj : joinRange here lo hi with
  | error fault =>
    rw [hj] at h
    cases h
  | ok joined =>
    rw [hj] at h
    cases h
    exact wellFormed_joinRange (wellFormed_readItem hr) hj

theorem wellFormed_readMember {c : Char} {items : List ClassItem}
    (h : readMember dialect c text = .ok (items, rest)) :
    items ≠ [] ∧ ∀ item ∈ items, item.WellFormed dialect := by
  obtain ⟨item, left, hi, h⟩ := Reading.andThen_eq_ok_iff.1 h
  split at h
  · exact wellFormed_readRange h
  · cases h
    refine ⟨List.cons_ne_nil _ _, fun item' hitem => ?_⟩
    rw [List.mem_singleton.1 hitem]
    exact wellFormed_readItem hi

/-- Members are read as long as the text does not begin with the closing bracket. -/
theorem wellFormed_readMembers {opening : List Char} {items : List ClassItem}
    (h : readMembers dialect opening text = .ok (items, rest)) :
    (text.head? ≠ some ']' → items ≠ []) ∧ ∀ item ∈ items, item.WellFormed dialect := by
  fun_induction readMembers dialect opening text generalizing items rest with
  | case1 => cases h
  | case2 => cases h
  | case3 =>
    cases h
    refine ⟨fun hne => absurd rfl hne, fun item hitem => ?_⟩
    cases hitem
  | case4 => cases h
  | case5 c text _ _ items' rest' hm ih =>
    obtain ⟨more, left, hr, h⟩ := Reading.andThen_eq_ok_iff.1 h
    cases h
    obtain ⟨hne, hall⟩ := wellFormed_readMember hm
    refine ⟨fun _ hnil => hne (List.append_eq_nil_iff.1 hnil).1, fun item hitem => ?_⟩
    rcases List.mem_append.1 hitem with hitem | hitem
    · exact hall item hitem
    · exact (ih hr).2 item hitem

theorem wellFormed_takeFirst {first : List ClassItem}
    (h : takeFirst dialect text = (first, rest)) :
    (∀ item ∈ first, item.WellFormed dialect) ∧
      (dialect = .strict → first ≠ [] ∨ rest.head? ≠ some ']') := by
  unfold takeFirst at h
  split at h
  · cases h
    refine ⟨fun item hitem => ?_, fun _ => .inl (List.cons_ne_nil _ _)⟩
    rw [List.mem_singleton.1 hitem]
    exact .char ']'
  · next hstrict =>
    cases h
    refine ⟨fun item hitem => ?_, fun hd => .inr fun hhead => ?_⟩
    · cases hitem
    · obtain ⟨left, rfl⟩ := List.head?_eq_some_iff.1 hhead
      exact hstrict left hd rfl

theorem wellFormed_read {opening : List Char} {cls : CharClass}
    (h : read dialect opening text = .ok (cls, rest)) : cls.WellFormed dialect := by
  unfold read at h
  generalize takeNegation text = negated at h
  obtain ⟨negate, text'⟩ := negated
  cases ht : takeFirst dialect text' with
  | mk first text'' =>
    simp only [ht] at h
    obtain ⟨items, left, hm, h⟩ := Reading.andThen_eq_ok_iff.1 h
    cases h
    obtain ⟨hfirst, hstrict⟩ := wellFormed_takeFirst ht
    obtain ⟨hne, hitems⟩ := wellFormed_readMembers hm
    refine ⟨fun item hitem => ?_, fun hd hnil => ?_⟩
    · rcases List.mem_append.1 hitem with hitem | hitem
      · exact hfirst item hitem
      · exact hitems item hitem
    · obtain ⟨h₁, h₂⟩ := List.append_eq_nil_iff.1 hnil
      rcases hstrict hd with h | h
      · exact h h₁
      · exact hne h h₂

end ClassText

namespace Lexeme

variable {dialect : Dialect} {here text rest : List Char}

/-! ## Escapes -/

theorem wellFormed_atomOf (e : Escape) : (atomOf dialect e).WellFormed dialect := by
  cases e with
  | char c => trivial
  | shorthand s => exact s.wellFormed_toClass dialect

theorem wellFormed_readBoundary {a : Atom} (h : readBoundary here text = .ok (a, rest)) :
    a.WellFormed dialect := by
  unfold readBoundary at h
  split at h
  · split at h
    · cases h
    · cases h
      trivial
  · cases h
    trivial

theorem reference_of_readReference {c : Char} {a : Atom} (hc : c.isDigit = true) (h0 : c ≠ '0')
    (h : readReference here c text = .ok (a, rest)) :
    ∃ n, a = .reference n ∧ 1 ≤ n ∧ n ≤ Numeral.largest := by
  unfold readReference at h
  split at h
  · next n hn =>
    cases h
    exact ⟨n, rfl, one_le_of_read? hc h0 hn, le_largest_of_read? hn⟩
  · cases h

theorem wellFormed_readOutside? {c : Char} {a : Atom}
    (h : readOutside? dialect here c text = some (.ok (a, rest))) : a.WellFormed dialect := by
  unfold readOutside? at h
  split at h
  · cases h
    trivial
  · split at h
    · split at h
      · cases h
        trivial
      · split at h
        · next hdigit =>
          obtain ⟨n, rfl, hn⟩ :=
            reference_of_readReference hdigit.1 hdigit.2 (Option.some.inj h)
          exact ⟨rfl, hn⟩
        · cases h
    · split at h
      · exact wellFormed_readBoundary (Option.some.inj h)
      · obtain ⟨anchor, -, h⟩ := Option.map_eq_some_iff.1 h
        cases h
        trivial

theorem wellFormed_readEscape {a : Atom} (h : readEscape dialect here text = .ok (a, rest)) :
    a.WellFormed dialect := by
  unfold readEscape at h
  split at h
  · cases h
  · split at h
    · next hr => exact wellFormed_readOutside? (h ▸ hr)
    · obtain ⟨e, left, -, h⟩ := Reading.andThen_eq_ok_iff.1 h
      cases h
      exact wellFormed_atomOf e

/-! ## Quantifiers -/

/-- The numbers in braces are numerals; they may still be out of order. -/
theorem le_largest_of_readBounds? {min : Nat} {max : Option Nat}
    (h : readBounds? text = some ((min, max), rest)) :
    min ≤ Numeral.largest ∧ max.getD Numeral.largest ≤ Numeral.largest := by
  unfold readBounds? at h
  split at h
  · next hn _ =>
    cases h
    exact ⟨le_largest_of_read? hn, le_largest_of_read? hn⟩
  · next hn _ =>
    cases h
    exact ⟨le_largest_of_read? hn, Nat.le_refl _⟩
  · next hn _ =>
    split at h
    · next hm _ =>
      cases h
      exact ⟨le_largest_of_read? hn, le_largest_of_read? hm⟩
    · cases h
  · cases h

/-- The lexeme can be a part of a well-formed pattern. -/
def WellFormed (dialect : Dialect) : Lexeme → Prop
  | .atom a => a.WellFormed dialect
  | .quantifier min max => BoundsInOrder min max
  | _ => True

theorem wellFormed_readBraces {l : Lexeme} (h : readBraces here text = .ok (l, rest)) :
    l.WellFormed dialect := by
  unfold readBraces at h
  split at h
  · cases h
    trivial
  · next hb =>
    split at h
    · cases h
    · next hle =>
      cases h
      exact ⟨Nat.le_of_not_lt hle, (le_largest_of_readBounds? hb).2⟩
  · next hb =>
    cases h
    obtain ⟨hmin, hmax⟩ := le_largest_of_readBounds? hb
    exact ⟨hmin, hmax⟩

/-! ## All lexemes -/

theorem wellFormed_read {c : Char} {l : Lexeme} (h : read dialect c text = .ok (l, rest)) :
    l.WellFormed dialect := by
  unfold read at h
  dsimp only at h
  split at h
  case h_5 =>
    cases h
    exact CharClass.wellFormed_notLineEnd dialect
  case h_6 | h_7 | h_8 =>
    cases h
    exact ⟨by decide, by decide⟩
  case h_9 => exact wellFormed_readBraces h
  case h_10 =>
    obtain ⟨a, left, ha, h⟩ := Reading.andThen_eq_ok_iff.1 h
    cases h
    exact wellFormed_readEscape ha
  case h_11 =>
    obtain ⟨cls, left, hc, h⟩ := Reading.andThen_eq_ok_iff.1 h
    cases h
    exact ClassText.wellFormed_read hc
  case h_12 =>
    obtain ⟨o, left, -, h⟩ := Reading.andThen_eq_ok_iff.1 h
    cases h
    trivial
  all_goals
    cases h
    trivial

/-- Every lexeme before the first fault of a text is well formed. -/
theorem wellFormed_readAll (dialect : Dialect) (text : List Char) :
    ∀ l ∈ (readAll dialect text).1, l.lexeme.WellFormed dialect := by
  fun_induction readAll dialect text with
  | case1 => simp
  | case2 => simp
  | case3 c text lexeme rest hr more fault hm ih =>
    rw [hm] at ih
    intro l hl
    rcases List.mem_cons.1 hl with rfl | hl
    · exact wellFormed_read hr
    · exact ih l hl

end Lexeme

end PatternGen.Pattern
