/-!
# Numerals

Decimal numerals that denote a number below `2 ^ 64`, read with the reason why a text is none, and
hexadecimal digits.

Results:
* `Numeral.read_lt`: a numeral that is read denotes a number below the limit.
* `Numeral.read_eq_readDigits`: a text that begins with a digit is read digit by digit.
-/

namespace PatternGen.Numeral

/-- Numbers stay below this limit. -/
def limit : Nat := UInt64.size

/-- The largest number. -/
def largest : Nat := limit - 1

/-- Why a text is no numeral. -/
inductive Fault where
  | empty
  | invalidDigit
  | tooLarge
deriving DecidableEq, Repr

def Fault.text : Fault → String
  | empty => "cannot parse integer from empty string"
  | invalidDigit => "invalid digit found in string"
  | tooLarge => "number too large to fit in target type"

/-! ## Decimal numerals -/

/-- The value of a decimal digit. -/
def digitValue (c : Char) : Nat := c.toNat - '0'.toNat

/-- Reads digits on from the value `n` of those before. The first character that is no digit, or
that takes the value to the limit, decides the fault. -/
def readDigits (n : Nat) : List Char → Except Fault Nat
  | [] => .ok n
  | c :: rest =>
    if c.isDigit then
      let next := n * 10 + digitValue c
      if next < limit then readDigits next rest else .error .tooLarge
    else .error .invalidDigit

/-- Reads an optional plus sign and one digit or more. -/
def read : List Char → Except Fault Nat
  | [] => .error .empty
  | ['+'] => .error .invalidDigit
  | '+' :: c :: rest => readDigits 0 (c :: rest)
  | text => readDigits 0 text

/-- The number that a text denotes. -/
def read? (text : List Char) : Option Nat := (read text).toOption

theorem readDigits_lt {n m : Nat} {text : List Char} (hn : n < limit)
    (h : readDigits n text = .ok m) : m < limit := by
  fun_induction readDigits n text with
  | case1 => cases h; exact hn
  | case2 n c rest hc next hlt ih => exact ih hlt h
  | case3 => cases h
  | case4 => cases h

theorem read_lt {n : Nat} {text : List Char} (h : read text = .ok n) : n < limit := by
  have h0 : 0 < limit := by decide
  unfold read at h
  split at h
  · cases h
  · cases h
  · exact readDigits_lt h0 h
  · exact readDigits_lt h0 h

theorem ne_of_isDigit {c d : Char} (hc : c.isDigit = true) (hd : d.isDigit = false) : c ≠ d := by
  rintro rfl
  rw [hc] at hd
  cases hd

/-- A sign is no digit. -/
theorem read_eq_readDigits {c : Char} {digits : List Char} (hc : c.isDigit = true) :
    read (c :: digits) = readDigits 0 (c :: digits) := by
  have hplus : c ≠ '+' := ne_of_isDigit hc (by decide)
  unfold read
  split
  · next heq => cases heq
  · next heq =>
    cases heq
    exact absurd rfl hplus
  · next heq =>
    cases heq
    exact absurd rfl hplus
  · rfl

/-! ## Hexadecimal digits -/

def isHexDigit (c : Char) : Bool :=
  c.isDigit || ('a' ≤ c && c ≤ 'f') || ('A' ≤ c && c ≤ 'F')

/-- The value of a hexadecimal digit. -/
def hexDigitValue (c : Char) : Nat :=
  if c.isDigit then digitValue c
  else if 'a' ≤ c then c.toNat - 'a'.toNat + 10
  else c.toNat - 'A'.toNat + 10

/-- The value of a string of hexadecimal digits. -/
def hexValue (digits : List Char) : Nat := digits.foldl (fun n c => n * 16 + hexDigitValue c) 0

/-- The character of a code point, if the code point is a scalar value. -/
def char? (n : Nat) : Option Char :=
  if h : n.isValidChar then some (Char.ofNatAux n h) else none

theorem char?_toNat (c : Char) : char? c.toNat = some c := by
  have hvalid : c.toNat.isValidChar := c.valid
  rw [char?, dif_pos hvalid]
  rfl

end PatternGen.Numeral
