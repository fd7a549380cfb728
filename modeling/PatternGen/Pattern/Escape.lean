import PatternGen.Pattern.Dialect
import PatternGen.Pattern.Fault
import PatternGen.Text.Numeral

/-!
# Escapes

What a backslash and the characters after it stand for, inside and outside of classes: one
character, or a shorthand class.

Results:
* `Escape.read_suffix`: what is left after an escape is the end of the text that was read.
-/

namespace PatternGen.Pattern

/-- What an escape stands for (`Escaped`). -/
inductive Escape where
  | char (c : Char)
  | shorthand (s : Shorthand)
deriving DecidableEq, Repr

namespace Escape

/-! ## Code points in hexadecimal -/

/-- The character of exactly `width` hexadecimal digits (`take_hex`). -/
def fixedHex? (width : Nat) (text : List Char) : Option (Char × List Char) :=
  let digits := text.take width
  if digits.length = width ∧ digits.all Numeral.isHexDigit then
    (Numeral.char? (Numeral.hexValue digits)).map (·, text.drop width)
  else none

/-- The character of one or more hexadecimal digits in braces (`take_braced_hex`). -/
def bracedHex? : List Char → Option (Char × List Char)
  | '{' :: text =>
    match text.takeWhile Numeral.isHexDigit, text.dropWhile Numeral.isHexDigit with
    | d :: digits, '}' :: rest => (Numeral.char? (Numeral.hexValue (d :: digits))).map (·, rest)
    | _, _ => none
  | _ => none

theorem bracedHex?_of_head? {text : List Char} (h : text.head? ≠ some '{') :
    bracedHex? text = none := by
  unfold bracedHex?
  split
  · exact absurd rfl h
  · rfl

/-- The control character of a letter (`take_control`). -/
def control? : List Char → Option (Char × List Char)
  | c :: text => if c.isAlpha then some (Char.ofNat (c.toNat % 32), text) else none
  | [] => none

/-- How many hexadecimal digits follow the letters `x`, `u` and `U` where there are no braces. -/
def hexWidth : Char → Nat
  | 'x' => 2
  | 'u' => 4
  | _ => 8

/-! ## The two readers -/

/-- The control characters whose escape is a letter in both dialects. -/
def lineControl? : Char → Option Char
  | 'n' => some '\n'
  | 'r' => some '\r'
  | 't' => some '\t'
  | 'f' => some '\x0c'
  | 'v' => some '\x0b'
  | _ => none

/-- The character of an escape, or its letter if what should follow the letter is missing. -/
def orLetter (c : Char) (text : List Char) (found : Option (Char × List Char)) :
    Escape × List Char :=
  match found with
  | some (c', rest) => (.char c', rest)
  | none => (.char c, text)

/-- Reads a lenient escape whose letter is `c`: the part of `parse_escaped` that is for this dialect
alone. -/
def readLenient (here : List Char) (c : Char) (text : List Char) : Reading Escape :=
  match c with
  | '0' => .ok (.char '\x00', text)
  | 'x' => .ok (orLetter c text (fixedHex? (hexWidth c) text))
  | 'u' => .ok (orLetter c text (fixedHex? (hexWidth c) text))
  | 'c' => .ok (orLetter c text (control? text))
  | 'p' => unsupported (.escape c) here
  | 'P' => unsupported (.escape c) here
  | 'k' => unsupported (.escape c) here
  | c => .ok (.char c, text)

/-- Reads a strict escape whose letter is `c`: what `parse_escaped` hands on in this dialect.
Letters and digits without a meaning are refused. -/
def readStrict (here : List Char) (c : Char) (text : List Char) : Reading Escape :=
  if c = 'a' then .ok (.char '\x07', text)
  else if c = 'x' ∨ c = 'u' ∨ c = 'U' then
    match (bracedHex? text).or (fixedHex? (hexWidth c) text) with
    | some (c', rest) => .ok (.char c', rest)
    | none => invalid .invalidHexEscape here
  else if c.isAlphanum then unsupported (.escape c) here
  else .ok (.char c, text)

/-- Reads an escape whose letter is `c`; `here` is the text from its backslash on. This is
`parse_escaped`. -/
def read (dialect : Dialect) (here : List Char) (c : Char) (text : List Char) : Reading Escape :=
  match Shorthand.ofLetter? c, lineControl? c, dialect with
  | some s, _, _ => .ok (.shorthand s, text)
  | none, some c', _ => .ok (.char c', text)
  | none, none, .lenient => readLenient here c text
  | none, none, .strict => readStrict here c text

/-! ## What is left -/

theorem fixedHex?_suffix {width : Nat} {text rest : List Char} {c : Char}
    (h : fixedHex? width text = some (c, rest)) : rest <:+ text := by
  unfold fixedHex? at h
  dsimp only at h
  split at h
  · obtain ⟨c', -, h⟩ := Option.map_eq_some_iff.1 h
    cases h
    exact List.drop_suffix ..
  · cases h

theorem bracedHex?_suffix {text rest : List Char} {c : Char}
    (h : bracedHex? text = some (c, rest)) : rest <:+ text := by
  unfold bracedHex? at h
  split at h
  · next text =>
    split at h
    · next digits rest' _ hdrop =>
      obtain ⟨c', -, h⟩ := Option.map_eq_some_iff.1 h
      cases h
      have := List.dropWhile_suffix (l := text) Numeral.isHexDigit
      rw [hdrop] at this
      exact ((List.suffix_cons _ _).trans this).trans (List.suffix_cons _ _)
    · cases h
  · cases h

theorem control?_suffix {text rest : List Char} {c : Char}
    (h : control? text = some (c, rest)) : rest <:+ text := by
  unfold control? at h
  split at h
  · split at h
    · cases h
      exact List.suffix_cons _ _
    · cases h
  · cases h

theorem orLetter_suffix {c : Char} {text rest : List Char} {e : Escape}
    {found : Option (Char × List Char)} (h : orLetter c text found = (e, rest))
    (hf : ∀ c' rest, found = some (c', rest) → rest <:+ text) : rest <:+ text := by
  unfold orLetter at h
  split at h
  · next c' rest' =>
    cases h
    exact hf c' _ rfl
  · cases h
    exact List.suffix_refl _

theorem readLenient_suffix {here text rest : List Char} {c : Char} {e : Escape}
    (h : readLenient here c text = .ok (e, rest)) : rest <:+ text := by
  unfold readLenient at h
  split at h
  case h_1 => cases h; exact List.suffix_refl _
  case h_2 | h_3 => exact orLetter_suffix (Except.ok.inj h) fun _ _ => fixedHex?_suffix
  case h_4 => exact orLetter_suffix (Except.ok.inj h) fun _ _ => control?_suffix
  case h_8 => cases h; exact List.suffix_refl _
  all_goals cases h

theorem readStrict_suffix {here text rest : List Char} {c : Char} {e : Escape}
    (h : readStrict here c text = .ok (e, rest)) : rest <:+ text := by
  unfold readStrict at h
  split at h
  · cases h; exact List.suffix_refl _
  · split at h
    · split at h
      · next c' rest' hor =>
        cases h
        rcases Option.or_eq_some_iff.1 hor with h | ⟨-, h⟩
        · exact bracedHex?_suffix h
        · exact fixedHex?_suffix h
      · cases h
    · split at h
      · cases h
      · cases h; exact List.suffix_refl _

theorem read_suffix {dialect : Dialect} {here text rest : List Char} {c : Char} {e : Escape}
    (h : read dialect here c text = .ok (e, rest)) : rest <:+ text := by
  unfold read at h
  split at h
  · cases h; exact List.suffix_refl _
  · cases h; exact List.suffix_refl _
  · exact readLenient_suffix h
  · exact readStrict_suffix h

end Escape

end PatternGen.Pattern
