import PatternGen.Text.Unprintable

/-!
# Quoted text

A text in double quotes, as messages show it. A backslash, a double quote and the common controls
have escapes of two characters; an unprintable character is shown by its code point.
-/

namespace PatternGen.Text

/-- How a character is shown inside quotes. -/
def quotedChar (c : Char) : String :=
  match c with
  | '"' => "\\\""
  | '\\' => "\\\\"
  | '\n' => "\\n"
  | '\r' => "\\r"
  | '\t' => "\\t"
  | '\x00' => "\\0"
  | c =>
    if unprintable c then "\\u\x7b" ++ String.ofList (Nat.toDigits 16 c.toNat) ++ "\x7d"
    else c.toString

/-- The text in double quotes. -/
def quoted (text : List Char) : String := "\"" ++ String.join (text.map quotedChar) ++ "\""

/-- The character stands for itself inside quotes. -/
structure Plain (c : Char) : Prop where
  ne_quote : c ≠ '"'
  ne_backslash : c ≠ '\\'
  printable : unprintable c = false

theorem Plain.ne_of_lt {c d : Char} (h : Plain c) (hd : d.toNat < 0x20) : c ≠ d := by
  rintro rfl
  exact Bool.eq_false_iff.1 h.printable (unprintable_of_lt hd)

theorem quotedChar_of_plain {c : Char} (h : Plain c) : quotedChar c = String.singleton c := by
  unfold quotedChar
  split
  · exact absurd rfl h.ne_quote
  · exact absurd rfl h.ne_backslash
  · exact absurd rfl (h.ne_of_lt (by decide))
  · exact absurd rfl (h.ne_of_lt (by decide))
  · exact absurd rfl (h.ne_of_lt (by decide))
  · exact absurd rfl (h.ne_of_lt (by decide))
  · rw [if_neg (Bool.eq_false_iff.1 h.printable), Char.toString_eq_singleton]

/-- A text of plain characters stands between the quotes as it is. -/
theorem quoted_of_plain {text : List Char} (h : ∀ c ∈ text, Plain c) :
    quoted text = "\"" ++ String.ofList text ++ "\"" := by
  have hmap : text.map quotedChar = text.map String.singleton :=
    List.map_congr_left fun c hc => quotedChar_of_plain (h c hc)
  have hjoin : String.join (text.map String.singleton) = String.ofList text := by
    rw [← String.toList_inj, String.toList_join, List.flatMap_map, String.toList_ofList]
    simp only [String.toList_singleton, List.flatMap_singleton']
  rw [quoted, hmap, hjoin]

end PatternGen.Text
