import PatternGen.Proofs.Lexemes.Basic
import PatternGen.Proofs.Numeral

/-!
# Quantifiers in writing

A quantifier is one of three signs, or has its bounds in braces, where the numerals may have zeros
in front. It is read as its bounds, whatever follows.

Results:
* `Lexeme.readBounds?_of_comma`: the upper bound is read by itself.
* `Lexeme.begins_quantifier`: a written quantifier is read as its bounds, lazy or not.
-/

namespace PatternGen.Pattern

/-- A text that writes a quantifier, with the bounds that it stands for. -/
inductive QuantifierText : List Char → (min : Nat) → (max : Option Nat) → Prop
  | star : QuantifierText ['*'] 0 none
  | plus : QuantifierText ['+'] 1 none
  | optional : QuantifierText ['?'] 0 (some 1)
  | exactly {digits : List Char} {n : Nat} : Numeral.Denotes digits n →
      QuantifierText ('{' :: (digits ++ ['}'])) n (some n)
  | atLeast {digits : List Char} {n : Nat} : Numeral.Denotes digits n →
      QuantifierText ('{' :: (digits ++ [',', '}'])) n none
  | between {digits digits' : List Char} {n m : Nat} : Numeral.Denotes digits n →
      Numeral.Denotes digits' m → n ≤ m →
      QuantifierText ('{' :: (digits ++ ',' :: (digits' ++ ['}']))) n (some m)

namespace Lexeme

variable {dialect : Dialect}

/-! ## Numerals at the beginning of a text -/

theorem takeWhile_digits {digits rest : List Char} {n : Nat} (h : Numeral.Denotes digits n)
    (hr : ∀ c ∈ rest.head?, c.isDigit = false) :
    (digits ++ rest).takeWhile Char.isDigit = digits := by
  have hrest : rest.takeWhile Char.isDigit = [] := takeWhile_append_of_head? hr []
  rw [List.takeWhile_append_of_pos h.isDigit, hrest, List.append_nil]

theorem dropWhile_digits {digits rest : List Char} {n : Nat} (h : Numeral.Denotes digits n)
    (hr : ∀ c ∈ rest.head?, c.isDigit = false) :
    (digits ++ rest).dropWhile Char.isDigit = rest := by
  rw [List.dropWhile_append_of_pos h.isDigit]
  exact dropWhile_append_of_head? hr []

/-! ## Bounds in braces -/

/-- The upper bound that follows the comma of a quantifier in braces. -/
def upperBound? (text : List Char) : Option (Nat × List Char) :=
  match Numeral.read? (text.takeWhile Char.isDigit), text.dropWhile Char.isDigit with
  | some max, '}' :: rest => some (max, rest)
  | _, _ => none

theorem upperBound?_eq_some_iff {text left : List Char} {max : Nat} :
    upperBound? text = some (max, left) ↔
      Numeral.read? (text.takeWhile Char.isDigit) = some max ∧
        text.dropWhile Char.isDigit = '}' :: left := by
  unfold upperBound?
  constructor
  · intro h
    split at h
    · next hmax hclose =>
      cases h
      exact ⟨hmax, hclose⟩
    · cases h
  · rintro ⟨hmax, hclose⟩
    rw [hmax, hclose]
    rfl

theorem readBounds?_of_comma {text behind : List Char} {min : Nat}
    (hmin : Numeral.read? (text.takeWhile Char.isDigit) = some min)
    (hd : text.dropWhile Char.isDigit = ',' :: behind) (hb : behind.head? ≠ some '}') :
    readBounds? text = (upperBound? behind).map fun (max, left) => ((min, some max), left) := by
  unfold readBounds?
  rw [hmin, hd]
  split
  · next heq => cases heq
  · next heq =>
    cases heq
    exact absurd rfl hb
  · next heq heq' =>
    cases heq
    cases heq'
    cases hupper : upperBound? behind with
    | some found =>
      obtain ⟨max, left⟩ := found
      obtain ⟨hmax, hclose⟩ := upperBound?_eq_some_iff.1 hupper
      rw [hmax, hclose]
      rfl
    | none =>
      split
      · next hmax hclose =>
        rw [upperBound?_eq_some_iff.2 ⟨hmax, hclose⟩] at hupper
        cases hupper
      · rfl
  · next hne => exact absurd rfl (hne min behind rfl)

section

variable {digits digits' : List Char} {n m : Nat} (rest : List Char)

theorem readBounds?_exactly (h : Numeral.Denotes digits n) :
    readBounds? (digits ++ '}' :: rest) = some ((n, some n), rest) := by
  have hr : ∀ c ∈ ('}' :: rest).head?, c.isDigit = false := by simp
  rw [readBounds?, takeWhile_digits h hr, dropWhile_digits h hr, h.read?]
  rfl

theorem readBounds?_atLeast (h : Numeral.Denotes digits n) :
    readBounds? (digits ++ ',' :: '}' :: rest) = some ((n, none), rest) := by
  have hr : ∀ c ∈ (',' :: '}' :: rest).head?, c.isDigit = false := by simp
  rw [readBounds?, takeWhile_digits h hr, dropWhile_digits h hr, h.read?]
  rfl

theorem readBounds?_between (h : Numeral.Denotes digits n) (h' : Numeral.Denotes digits' m) :
    readBounds? (digits ++ ',' :: (digits' ++ '}' :: rest)) = some ((n, some m), rest) := by
  have hr : ∀ c ∈ (',' :: (digits' ++ '}' :: rest)).head?, c.isDigit = false := by simp
  have hr' : ∀ c ∈ ('}' :: rest).head?, c.isDigit = false := by simp
  have hfirst : (digits' ++ '}' :: rest).head? ≠ some '}' := by
    cases digits' with
    | nil => exact absurd rfl h'.ne_nil
    | cons c digits' =>
      rintro ⟨⟩
      exact absurd (h'.isDigit '}' List.mem_cons_self) (by decide)
  have hmin := h.read?
  rw [← takeWhile_digits h hr] at hmin
  rw [readBounds?_of_comma hmin (dropWhile_digits h hr) hfirst, upperBound?,
    takeWhile_digits h' hr', dropWhile_digits h' hr', h'.read?]
  rfl

end

/-! ## Quantifiers -/

/-- A written quantifier is read as its bounds. -/
theorem begins_quantifier {text : List Char} {min : Nat} {max : Option Nat}
    (h : QuantifierText text min max) (rest : List Char) :
    Begins dialect (text ++ rest) (.quantifier min max) (dropLazy rest) := by
  cases h with
  | star => exact ⟨'*', rest, rfl, rfl⟩
  | plus => exact ⟨'+', rest, rfl, rfl⟩
  | optional => exact ⟨'?', rest, rfl, rfl⟩
  | @exactly digits n hn =>
    refine ⟨'{', digits ++ '}' :: rest, by simp, ?_⟩
    show readBraces _ _ = _
    rw [readBraces, readBounds?_exactly rest hn]
    dsimp only
    rw [if_neg (Nat.lt_irrefl _)]
  | @atLeast digits n hn =>
    refine ⟨'{', digits ++ ',' :: '}' :: rest, by simp, ?_⟩
    show readBraces _ _ = _
    rw [readBraces, readBounds?_atLeast rest hn]
  | @between digits digits' n m hn hm hle =>
    refine ⟨'{', digits ++ ',' :: (digits' ++ '}' :: rest), by simp, ?_⟩
    show readBraces _ _ = _
    rw [readBraces, readBounds?_between rest hn hm]
    dsimp only
    rw [if_neg (Nat.not_lt.2 hle)]

end Lexeme

end PatternGen.Pattern
