import PatternGen.Text.Numeral

/-!
# Writing numerals

A number below the limit has a decimal numeral, and further ones with zeros in front; reading any
of them gives the number. A number also has hexadecimal digits of every width that is large enough.

Results:
* `Numeral.Denotes.read`, `Numeral.read_eq_ok_iff`: a numeral is read as the number that it denotes,
  and nothing else is read.
* `Numeral.denotes_toDigits`: every number below the limit has a numeral.
* `Numeral.hexValue_hexDigits`: the value of the hexadecimal digits of a number.
-/

namespace PatternGen.Numeral

/-! ## Decimal numerals -/

/-- The text is one decimal digit or more, and their value is the number `n`. -/
structure Denotes (digits : List Char) (n : Nat) : Prop where
  ne_nil : digits ≠ []
  isDigit : ∀ c ∈ digits, c.isDigit = true
  value : Nat.ofDigitChars 10 digits 0 = n
  le_largest : n ≤ largest

theorem le_ofDigitChars (digits : List Char) (n : Nat) : n ≤ Nat.ofDigitChars 10 digits n := by
  induction digits generalizing n with
  | nil => exact Nat.le_refl n
  | cons c digits ih =>
    rw [Nat.ofDigitChars_cons]
    have h := ih (10 * n + (c.toNat - '0'.toNat))
    omega

theorem readDigits_eq {digits : List Char} {n : Nat} (hd : ∀ c ∈ digits, c.isDigit = true)
    (hlt : Nat.ofDigitChars 10 digits n < limit) :
    readDigits n digits = .ok (Nat.ofDigitChars 10 digits n) := by
  induction digits generalizing n with
  | nil => rfl
  | cons c digits ih =>
    rw [List.forall_mem_cons] at hd
    rw [Nat.ofDigitChars_cons, Nat.mul_comm] at hlt ⊢
    -- the value of the first digits is no larger than that of all
    have hnext : n * 10 + digitValue c < limit :=
      Nat.lt_of_le_of_lt (le_ofDigitChars digits _) hlt
    rw [readDigits, if_pos hd.1]
    dsimp only
    rw [if_pos hnext]
    exact ih hd.2 hlt

/-- A numeral is read as the number that it denotes. -/
theorem Denotes.read {digits : List Char} {n : Nat} (h : Denotes digits n) :
    Numeral.read digits = .ok n := by
  obtain ⟨hne, hd, hvalue, hle⟩ := h
  cases digits with
  | nil => exact absurd rfl hne
  | cons c digits =>
    have hlt : Nat.ofDigitChars 10 (c :: digits) 0 < limit := by
      rw [hvalue]
      exact Nat.lt_of_le_sub_one (by decide) hle
    rw [read_eq_readDigits (hd c List.mem_cons_self), readDigits_eq hd hlt, hvalue]

theorem Denotes.read? {digits : List Char} {n : Nat} (h : Denotes digits n) :
    Numeral.read? digits = some n := by
  rw [Numeral.read?, h.read]
  rfl

theorem eq_of_readDigits {text : List Char} {n m : Nat} (h : readDigits n text = .ok m) :
    (∀ c ∈ text, c.isDigit = true) ∧ Nat.ofDigitChars 10 text n = m := by
  induction text generalizing n with
  | nil =>
    cases h
    simp
  | cons c text ih =>
    rw [readDigits] at h
    split at h
    · next hc =>
      dsimp only at h
      split at h
      · obtain ⟨hd, hvalue⟩ := ih h
        refine ⟨List.forall_mem_cons.2 ⟨hc, hd⟩, ?_⟩
        rw [Nat.ofDigitChars_cons, Nat.mul_comm]
        exact hvalue
      · cases h
    · cases h

/-- A text is read as a number exactly if it is a numeral of it, behind a plus sign or alone. -/
theorem read_eq_ok_iff {text : List Char} {n : Nat} :
    read text = .ok n ↔ ∃ digits, (text = digits ∨ text = '+' :: digits) ∧ Denotes digits n := by
  constructor
  · intro h
    have hle : n ≤ largest := Nat.le_sub_one_of_lt (read_lt h)
    unfold read at h
    split at h
    · cases h
    · cases h
    · next c rest =>
      obtain ⟨hd, hvalue⟩ := eq_of_readDigits h
      exact ⟨c :: rest, .inr rfl, List.cons_ne_nil _ _, hd, hvalue, hle⟩
    · next hne _ _ =>
      obtain ⟨hd, hvalue⟩ := eq_of_readDigits h
      exact ⟨text, .inl rfl, hne, hd, hvalue, hle⟩
  · rintro ⟨digits, htext, hdigits⟩
    have hread := hdigits.read
    rcases htext with rfl | rfl
    · exact hread
    · obtain ⟨hne, hd, -, -⟩ := hdigits
      cases digits with
      | nil => exact absurd rfl hne
      | cons c digits =>
        rw [read_eq_readDigits (hd c List.mem_cons_self)] at hread
        exact hread

/-- Every number up to the largest has a numeral. -/
theorem denotes_toDigits {n : Nat} (h : n ≤ largest) : Denotes (Nat.toDigits 10 n) n where
  ne_nil := Nat.toDigits_ne_nil
  isDigit _ hc := Nat.isDigit_of_mem_toDigits (by decide) (by decide) hc
  value := Nat.ofDigitChars_toDigits (by decide) (by decide)
  le_largest := h

/-- The numeral of a number that is not zero does not begin with a zero. -/
theorem head?_toDigits_ne_zero {n : Nat} (h : n ≠ 0) : (Nat.toDigits 10 n).head? ≠ some '0' := by
  have hdigit : ∀ d < 10, d ≠ 0 → Nat.digitChar d ≠ '0' := by decide
  induction n using Nat.strongRecOn with
  | ind n ih =>
    rcases Nat.lt_or_ge n 10 with hlt | hge
    · rw [Nat.toDigits_of_lt_base hlt, List.head?_cons]
      exact fun heq => hdigit n hlt h (Option.some.inj heq)
    · -- the first digit is that of the number without its last one
      have hfirst := ih (n / 10) (by omega) (by omega)
      rw [Nat.toDigits_of_base_le (by decide) hge]
      cases hn : Nat.toDigits 10 (n / 10) with
      | nil => exact absurd hn Nat.toDigits_ne_nil
      | cons c digits =>
        rw [hn] at hfirst
        exact hfirst

/-! ## Hexadecimal digits -/

/-- The text is hexadecimal digits, small or capital, and their value is the number `n`. -/
structure HexDenotes (digits : List Char) (n : Nat) : Prop where
  hex : ∀ d ∈ digits, isHexDigit d = true
  value : hexValue digits = n

/-- The last `width` hexadecimal digits of a number. -/
def hexDigits : (width n : Nat) → List Char
  | 0, _ => []
  | width + 1, n => hexDigits width (n / 16) ++ [Nat.digitChar (n % 16)]

/-- How many numbers have hexadecimal digits of a width. -/
def hexLimit : (width : Nat) → Nat
  | 0 => 1
  | width + 1 => 16 * hexLimit width

theorem hexDigitValue_digitChar : ∀ d < 16, hexDigitValue (Nat.digitChar d) = d := by decide

theorem isHexDigit_digitChar : ∀ d < 16, isHexDigit (Nat.digitChar d) = true := by decide

theorem length_hexDigits (width n : Nat) : (hexDigits width n).length = width := by
  induction width generalizing n with
  | zero => rfl
  | succ width ih => rw [hexDigits, List.length_append, ih, List.length_singleton]

theorem isHexDigit_of_mem_hexDigits {width n : Nat} {c : Char} (h : c ∈ hexDigits width n) :
    isHexDigit c = true := by
  induction width generalizing n with
  | zero => cases h
  | succ width ih =>
    rcases List.mem_append.1 h with h | h
    · exact ih h
    · rw [List.mem_singleton.1 h]
      exact isHexDigit_digitChar _ (Nat.mod_lt _ (by decide))

theorem hexValue_append (digits : List Char) (c : Char) :
    hexValue (digits ++ [c]) = hexValue digits * 16 + hexDigitValue c := by
  rw [hexValue, List.foldl_append]
  rfl

/-- The digits of a width that is large enough have the value of the number. -/
theorem hexValue_hexDigits {width n : Nat} (h : n < hexLimit width) :
    hexValue (hexDigits width n) = n := by
  induction width generalizing n with
  | zero =>
    rw [hexLimit, Nat.lt_one_iff] at h
    rw [h]
    rfl
  | succ width ih =>
    rw [hexLimit] at h
    rw [hexDigits, hexValue_append, ih (Nat.div_lt_of_lt_mul h),
      hexDigitValue_digitChar _ (Nat.mod_lt _ (by decide)), Nat.div_add_mod']

theorem hexDenotes_hexDigits {width n : Nat} (h : n < hexLimit width) :
    HexDenotes (hexDigits width n) n :=
  ⟨fun _ => isHexDigit_of_mem_hexDigits, hexValue_hexDigits h⟩

end PatternGen.Numeral
