import PatternGen.DecisionLog.Text
import PatternGen.Proofs.Numeral

/-!
# The text of a log

A log is written as numerals with commas between them. None of its characters is a blank or a
bracket, so that reading takes nothing away at the ends and finds the numerals between the commas.

Results:
* `Text.splitOn_eq`: the parts between separators are those of the library.
* `DecisionLog.parse_text`: a log of numbers up to the largest one is read back from its text.
-/

namespace PatternGen

namespace Text

variable {p : Char → Bool} {text : List Char}

theorem dropLeading_eq_self (h : ∀ c ∈ text, p c = false) : dropLeading p text = text := by
  cases text with
  | nil => rfl
  | cons c text =>
    rw [List.forall_mem_cons] at h
    rw [dropLeading, List.dropWhile_cons_of_neg (by rw [h.1]; exact Bool.false_ne_true)]

theorem dropTrailing_eq_self (h : ∀ c ∈ text, p c = false) : dropTrailing p text = text := by
  have hreverse : dropLeading p text.reverse = text.reverse :=
    dropLeading_eq_self fun c hc => h c (List.mem_reverse.1 hc)
  rw [dropLeading] at hreverse
  rw [dropTrailing, hreverse, List.reverse_reverse]

theorem trim_eq_self (h : ∀ c ∈ text, isBlank c = false) : trim text = text := by
  rw [trim, dropLeading_eq_self h, dropTrailing_eq_self h]

/-! ## Parts between separators -/

variable {separator : Char} {parts : List (List Char)}

theorem splitOn_eq (separator : Char) (text : List Char) :
    splitOn separator text = text.splitOn separator := by
  induction text with
  | nil => rfl
  | cons c text ih =>
    rw [splitOn, ih, List.splitOn_cons_eq_if_modifyHead]
    by_cases hc : c = separator
    · simp [hc]
    · have hne := List.splitOn_ne_nil separator text
      cases hparts : text.splitOn separator with
      | nil => exact absurd hparts hne
      | cons part parts => simp [hc]

/-- What holds of the separator and of the characters of all parts. -/
theorem forall_mem_intercalate {P : Char → Prop} (hs : P separator)
    (h : ∀ part ∈ parts, ∀ c ∈ part, P c) : ∀ c ∈ [separator].intercalate parts, P c := by
  induction parts with
  | nil => exact fun c hc => nomatch hc
  | cons part parts ih =>
    rw [List.forall_mem_cons] at h
    cases parts with
    | nil =>
      rw [List.intercalate_singleton]
      exact h.1
    | cons next parts =>
      rw [List.intercalate_cons_cons, List.append_assoc]
      refine List.forall_mem_append.2 ⟨h.1, ?_⟩
      exact List.forall_mem_cons.2 ⟨hs, ih h.2⟩

end Text

/-! ## Logs -/

namespace DecisionLog

theorem toList_text (log : DecisionLog) :
    log.text.toList = [','].intercalate (log.toList.map (Nat.toDigits 10)) := by
  rw [text, String.toList_intercalate, List.map_map]
  congr 1
  exact List.map_congr_left fun n _ => Nat.toList_repr

/-- The characters of the text of a log. -/
def IsTextChar (c : Char) : Prop := c.isDigit = true ∨ c = ','

theorem isTextChar_of_mem_text (log : DecisionLog) : ∀ c ∈ log.text.toList, IsTextChar c := by
  rw [toList_text]
  refine Text.forall_mem_intercalate (.inr rfl) fun part hpart c hc => ?_
  obtain ⟨n, -, rfl⟩ := List.mem_map.1 hpart
  exact .inl (Nat.isDigit_of_mem_toDigits (by decide) (by decide) hc)

theorem IsTextChar.isBlank_eq_false {c : Char} (h : IsTextChar c) : Text.isBlank c = false := by
  rcases h with h | rfl
  · have hc := Char.isDigit_iff_toNat.1 h
    have hlo : 48 ≤ c.toNat := hc.1
    have hhi : c.toNat ≤ 57 := hc.2
    simp only [Text.isBlank, Bool.or_eq_false_iff, Bool.and_eq_false_iff, decide_eq_false_iff_not]
    omega
  · decide

theorem IsTextChar.ne_bracket {c : Char} (h : IsTextChar c) : c ≠ '[' ∧ c ≠ ']' := by
  rcases h with h | rfl
  · exact ⟨Numeral.ne_of_isDigit h (by decide), Numeral.ne_of_isDigit h (by decide)⟩
  · decide

theorem parsePart_toDigits {n : Nat} (h : n ≤ Numeral.largest) :
    parsePart (Nat.toDigits 10 n) = .ok n := by
  have hdenotes := Numeral.denotes_toDigits h
  have hblank : ∀ c ∈ Nat.toDigits 10 n, Text.isBlank c = false := fun c hc =>
    IsTextChar.isBlank_eq_false (.inl (hdenotes.isDigit c hc))
  rw [parsePart, Text.trim_eq_self hblank, hdenotes.read]
  rfl

theorem parseParts_toDigits {values : List Nat} (h : ∀ n ∈ values, n ≤ Numeral.largest) :
    parseParts (values.map (Nat.toDigits 10)) = .ok values := by
  induction values with
  | nil => rfl
  | cons n values ih =>
    rw [List.forall_mem_cons] at h
    rw [List.map_cons, parseParts, parsePart_toDigits h.1, ih h.2]
    rfl

theorem body_text (log : DecisionLog) : body log.text.toList = log.text.toList := by
  have hchars := isTextChar_of_mem_text log
  rw [body, Text.trim_eq_self fun c hc => (hchars c hc).isBlank_eq_false,
    Text.dropLeading_eq_self fun c hc => decide_eq_false (hchars c hc).ne_bracket.1,
    Text.dropTrailing_eq_self fun c hc => decide_eq_false (hchars c hc).ne_bracket.2]

theorem splitOn_text {log : DecisionLog} (h : log.toList ≠ []) :
    Text.splitOn ',' log.text.toList = log.toList.map (Nat.toDigits 10) := by
  rw [toList_text, Text.splitOn_eq]
  refine List.splitOn_intercalate ',' (fun part hpart hmem => ?_) (mt List.map_eq_nil_iff.1 h)
  obtain ⟨n, -, rfl⟩ := List.mem_map.1 hpart
  have hdigit := Nat.isDigit_of_mem_toDigits (by decide) (by decide) hmem
  exact absurd hdigit (by decide)

theorem text_ne_nil {log : DecisionLog} (h : log.toList ≠ []) : log.text.toList ≠ [] := by
  intro hnil
  have hparts := splitOn_text h
  rw [hnil] at hparts
  cases hvalues : log.toList with
  | nil => exact h hvalues
  | cons n values =>
    rw [hvalues, List.map_cons] at hparts
    exact Nat.toDigits_ne_nil (List.cons.inj hparts).1.symm

/-- A log is read back from its text. -/
theorem parse_text {log : DecisionLog} (h : ∀ n ∈ log.toList, n ≤ Numeral.largest) :
    parse log.text.toList = .ok log := by
  have htrim : Text.trim log.text.toList = log.text.toList :=
    Text.trim_eq_self fun c hc => (isTextChar_of_mem_text log c hc).isBlank_eq_false
  rw [parse, body_text, htrim]
  by_cases hnil : log.toList = []
  · have hlog : log = {} := toList_inj.1 hnil
    rw [hlog]
    rfl
  · have hne : ¬ log.text.toList.isEmpty = true := mt List.isEmpty_iff.1 (text_ne_nil hnil)
    rw [if_neg hne, splitOn_text hnil, parseParts_toDigits h]
    rfl

end DecisionLog

end PatternGen
