import Mathlib.Data.List.Forall2
import PatternGen.Proofs.Lexemes.Basic
import PatternGen.Proofs.Numeral

/-!
# Spellings of a character

A character can be spelled in several ways: as it is, behind a backslash, or by its code point in
hexadecimal. Each of them is read as that character whatever follows. An escape without braces takes
no more digits than its letter says, and one with braces ends with them; so a digit behind either is
a character of its own.

Results:
* `Escape.read_fixed`, `Escape.read_braced`, `Escape.read_itself`: what an escape of each kind is.
* `Lexeme.begins_spelling`: a spelling is read as its character.
* `Lexeme.spells_spellings`: spellings in a row are read as their characters.
-/

namespace PatternGen.Pattern

/-! ## Spellings -/

/-- A letter of which the escape has exactly so many hexadecimal digits. -/
inductive FixedHex : Dialect → Char → Nat → Prop
  | two (dialect : Dialect) : FixedHex dialect 'x' 2
  | four (dialect : Dialect) : FixedHex dialect 'u' 4
  | eight : FixedHex .strict 'U' 8

/-- The ways to write one character: as it is, if that is no sign of a pattern; behind a backslash,
if that makes neither a class nor a control character nor a place; or as an escape of its code
point, with a fixed number of hexadecimal digits or, in the strict dialect, any number in braces. -/
inductive Spelling : Dialect → Char → List Char → Prop
  | raw {dialect : Dialect} {c : Char} (hc : c ∉ Lexeme.signs) : Spelling dialect c [c]
  | escaped {dialect : Dialect} {c : Char} (hc : c.isAlphanum = false)
      (hplace : dialect = .strict → c ≠ '<' ∧ c ≠ '>') : Spelling dialect c ['\\', c]
  | fixed {dialect : Dialect} {c letter : Char} {width : Nat} {digits : List Char}
      (hletter : FixedHex dialect letter width) (hlen : digits.length = width)
      (hdigits : Numeral.HexDenotes digits c.toNat) : Spelling dialect c ('\\' :: letter :: digits)
  | braced {c letter : Char} {digits : List Char} (hletter : letter ∈ ['x', 'u', 'U'])
      (hne : digits ≠ []) (hdigits : Numeral.HexDenotes digits c.toNat) :
      Spelling .strict c ('\\' :: letter :: '{' :: (digits ++ ['}']))

variable {dialect : Dialect} {c letter : Char} {digits text rest : List Char}

/-- A spelling begins with a backslash or with a character that stands for itself, and with no
bracket of a group. -/
theorem Spelling.head?_ne (h : Spelling dialect c text) (rest : List Char) :
    (text ++ rest).head? ≠ some '(' := by
  cases h with
  | raw hc =>
    intro heq
    rw [Option.some.inj heq] at hc
    exact hc (by decide)
  | escaped | fixed | braced =>
    intro heq
    cases heq

theorem FixedHex.mem {width : Nat} (h : FixedHex dialect letter width) :
    letter ∈ ['x', 'u', 'U'] := by
  cases h <;> decide

theorem ne_of_not_isAlphanum {d : Char} (hc : c.isAlphanum = false) (hd : d.isAlphanum = true) :
    c ≠ d := by
  rintro rfl
  rw [hd] at hc
  cases hc

theorem isAlpha_of_isDigit (hc : c.isDigit = true) : c.isAlpha = false := by
  have hle : c.toNat ≤ '9'.toNat := of_decide_eq_true (Bool.and_eq_true_iff.1 hc).2
  rw [Bool.eq_false_iff]
  intro ha
  rcases Bool.or_eq_true_iff.1 ha with hupper | hlower
  · have hge : 'A'.toNat ≤ c.toNat := (of_decide_eq_true hupper).1
    exact absurd (Nat.le_trans hge hle) (by decide)
  · have hge : 'a'.toNat ≤ c.toNat := of_decide_eq_true (Bool.and_eq_true_iff.1 hlower).1
    exact absurd (Nat.le_trans hge hle) (by decide)

/-! ## Escapes -/

namespace Escape

theorem fixedHex?_eq (hd : Numeral.HexDenotes digits c.toNat) (rest : List Char) :
    fixedHex? digits.length (digits ++ rest) = some (c, rest) := by
  have hhex : digits.all Numeral.isHexDigit = true := List.all_eq_true.2 hd.hex
  rw [fixedHex?, List.take_left, if_pos ⟨rfl, hhex⟩, hd.value, Numeral.char?_toNat, List.drop_left]
  rfl

theorem bracedHex?_eq (hne : digits ≠ []) (hd : Numeral.HexDenotes digits c.toNat)
    (rest : List Char) : bracedHex? ('{' :: (digits ++ '}' :: rest)) = some (c, rest) := by
  have htake : (digits ++ '}' :: rest).takeWhile Numeral.isHexDigit = digits := by
    rw [List.takeWhile_append_of_pos hd.hex, List.takeWhile_cons_of_neg (by decide),
      List.append_nil]
  have hdrop : (digits ++ '}' :: rest).dropWhile Numeral.isHexDigit = '}' :: rest := by
    rw [List.dropWhile_append_of_pos hd.hex, List.dropWhile_cons_of_neg (by decide)]
  obtain ⟨d, digits, rfl⟩ := List.exists_cons_of_ne_nil hne
  simp only [bracedHex?, htake, hdrop, hd.value, Numeral.char?_toNat]
  rfl

/-- A strict escape of a code point has the digits in braces, or else as many as its letter says. -/
theorem read_strict_hex (hletter : letter ∈ ['x', 'u', 'U'])
    (h : (bracedHex? text).or (fixedHex? (hexWidth letter) text) = some (c, rest))
    (here : List Char) : read .strict here letter text = .ok (.char c, rest) := by
  simp only [List.mem_cons, List.not_mem_nil, or_false] at hletter
  obtain rfl | rfl | rfl := hletter
  all_goals
    show readStrict _ _ _ = _
    rw [readStrict, if_neg (by decide), if_pos (by decide), h]

theorem read_braced (hletter : letter ∈ ['x', 'u', 'U']) (hne : digits ≠ [])
    (hd : Numeral.HexDenotes digits c.toNat) (here rest : List Char) :
    read .strict here letter ('{' :: (digits ++ '}' :: rest)) = .ok (.char c, rest) :=
  read_strict_hex hletter (by rw [bracedHex?_eq hne hd, Option.some_or]) here

theorem read_fixed {width : Nat} (hletter : FixedHex dialect letter width)
    (hlen : digits.length = width) (hd : Numeral.HexDenotes digits c.toNat)
    (here rest : List Char) : read dialect here letter (digits ++ rest) = .ok (.char c, rest) := by
  have hfixed := fixedHex?_eq hd rest
  rw [hlen] at hfixed
  have hwidth : hexWidth letter = width := by cases hletter <;> rfl
  -- a digit comes first, and no brace
  have hbrace : (digits ++ rest).head? ≠ some '{' := by
    obtain ⟨d, digits, rfl⟩ := List.exists_cons_of_length_pos (l := digits)
      (by cases hletter <;> omega)
    have hhex := hd.hex d List.mem_cons_self
    intro heq
    rw [Option.some.inj heq] at hhex
    exact absurd hhex (by decide)
  have hstrict : read .strict here letter (digits ++ rest) = .ok (.char c, rest) :=
    read_strict_hex hletter.mem
      (by rw [bracedHex?_of_head? hbrace, Option.none_or, hwidth, hfixed]) here
  cases dialect with
  | strict => exact hstrict
  | lenient =>
    cases hletter <;>
    · show Except.ok (orLetter _ _ (fixedHex? (hexWidth _) _)) = _
      rw [hwidth, hfixed]
      rfl

/-- A character that is no letter stands for no class and for no control character. -/
theorem read_of_not_isAlpha (hc : c.isAlpha = false) (here text : List Char) :
    read dialect here c text =
      match dialect with
      | .lenient => readLenient here c text
      | .strict => readStrict here c text := by
  have hshort : Shorthand.ofLetter? c = none := by
    unfold Shorthand.ofLetter?
    split
    case h_7 => rfl
    all_goals cases hc
  have hline : lineControl? c = none := by
    unfold lineControl?
    split
    case h_6 => rfl
    all_goals cases hc
  unfold read
  rw [hshort, hline]
  cases dialect <;> rfl

theorem readLenient_of_not_isAlphanum {here : List Char} (h : c.isAlphanum = false) :
    readLenient here c text = .ok (.char c, text) := by
  unfold readLenient
  split
  case h_8 => rfl
  all_goals cases h

/-- A character that is neither a letter nor a digit stands for itself. -/
theorem read_itself (hc : c.isAlphanum = false) (here text : List Char) :
    read dialect here c text = .ok (.char c, text) := by
  have hne := fun d => ne_of_not_isAlphanum (d := d) hc
  have hx : ¬ (c = 'x' ∨ c = 'u' ∨ c = 'U') := by
    rintro (h | h | h) <;> exact hne _ (by decide) h
  rw [read_of_not_isAlpha (Bool.or_eq_false_iff.1 hc).1]
  cases dialect with
  | lenient => exact readLenient_of_not_isAlphanum hc
  | strict =>
    dsimp only
    rw [readStrict, if_neg (hne _ (by decide)), if_neg hx, if_neg (by rw [hc]; decide)]

end Escape

/-! ## Lexemes -/

namespace Lexeme

theorem begins_escape (hout : readOutside? dialect ('\\' :: letter :: text) letter text = none)
    (hread : Escape.read dialect ('\\' :: letter :: text) letter text = .ok (.char c, rest)) :
    Begins dialect ('\\' :: letter :: text) (.atom (.literal c)) rest := by
  refine ⟨'\\', _, rfl, ?_⟩
  show (readEscape dialect _ _).andThen _ = _
  rw [readEscape, hout]
  dsimp only
  rw [hread]
  rfl

theorem readOutside?_hexLetter (hletter : letter ∈ ['x', 'u', 'U']) (here text : List Char) :
    readOutside? dialect here letter text = none := by
  simp only [List.mem_cons, List.not_mem_nil, or_false] at hletter
  obtain rfl | rfl | rfl := hletter <;> cases dialect <;> rfl

theorem readOutside?_itself (hc : c.isAlphanum = false)
    (hplace : dialect = .strict → c ≠ '<' ∧ c ≠ '>') (here text : List Char) :
    readOutside? dialect here c text = none := by
  have hne := fun d => ne_of_not_isAlphanum (d := d) hc
  cases dialect with
  | lenient =>
    have hdigit : ¬ (c.isDigit = true ∧ c ≠ '0') := by
      rintro ⟨hd, -⟩
      rw [Char.isAlphanum, hd, Bool.or_true] at hc
      cases hc
    rw [readOutside?, if_neg (hne _ (by decide)), if_neg (hne _ (by decide)), if_neg hdigit]
  | strict =>
    have hanchor : strictAnchor? c = none := by
      obtain ⟨hlt, hgt⟩ := hplace rfl
      unfold strictAnchor?
      split
      case h_1 | h_2 => cases hc
      case h_3 => exact absurd rfl hlt
      case h_4 => exact absurd rfl hgt
      case h_5 => rfl
    rw [readOutside?, if_neg (hne _ (by decide)), if_neg (hne _ (by decide)), hanchor]
    rfl

/-- A spelling is read as its character, whatever follows. -/
theorem begins_spelling (h : Spelling dialect c text) (rest : List Char) :
    Begins dialect (text ++ rest) (.atom (.literal c)) rest := by
  cases h with
  | raw hc => exact ⟨c, rest, rfl, read_of_not_mem_signs hc rest⟩
  | escaped hc hplace =>
    exact begins_escape (readOutside?_itself hc hplace _ _) (Escape.read_itself hc _ _)
  | fixed hletter hlen hdigits =>
    exact begins_escape (readOutside?_hexLetter hletter.mem _ _)
      (Escape.read_fixed hletter hlen hdigits _ rest)
  | braced hletter hne hdigits =>
    have hread := Escape.read_braced hletter hne hdigits
    simp only [List.cons_append, List.append_assoc, List.nil_append]
    exact begins_escape (readOutside?_hexLetter hletter _ _) (hread _ rest)

/-- Characters in any spellings are read one after the other. -/
theorem spells_spellings {word : List Char} {parts : List (List Char)}
    (h : List.Forall₂ (Spelling dialect) word parts) :
    Spells dialect parts.flatten (word.map fun c => .atom (.literal c)) := by
  induction h with
  | nil => exact .nil
  | cons hc _ ih =>
    rw [List.flatten_cons]
    exact (begins_spelling hc _).spells ih

end Lexeme

end PatternGen.Pattern
