import Mathlib.Data.List.DropRight
import Mathlib.Data.List.Forall2
import PatternGen.Proofs.LogText

/-!
# Which texts are logs

A text is a log if it is numerals between commas. There may be blanks around the whole text and
around each numeral, any number of brackets, and a plus sign before the digits. What is taken off
the ends of a text and where it is cut are described here without the functions that do it, and so
is which part an error quotes.

Results:
* `Text.strips_iff`, `Text.splits_iff`: what is left between the ends, and the parts, are determined
  by their descriptions.
* `DecisionLog.parseParts_eq_ok_iff`, `DecisionLog.exists_of_parseParts`: parts that are all
  numerals, and the first one that is none.
* `DecisionLog.parse_exact`: which log every text is read as, and how reading fails.
-/

namespace PatternGen

namespace Text

variable {p q : Char → Bool} {text core : List Char}

/-! ## Stripping the ends -/

/-- The text is `core` behind characters that satisfy `p` and before characters that satisfy `q`.
There are no more of them at the ends of `core`. -/
structure Strips (p q : Char → Bool) (text core : List Char) : Prop where
  around : ∃ before after, text = before ++ (core ++ after) ∧
    (∀ c ∈ before, p c = true) ∧ ∀ c ∈ after, q c = true
  head : ∀ c ∈ core.head?, p c = false
  last : ∀ c ∈ core.getLast?, q c = false

theorem strips_dropTrailing (p q : Char → Bool) (text : List Char) :
    Strips p q text (dropTrailing q (dropLeading p text)) := by
  show Strips p q text ((text.dropWhile p).rdropWhile q)
  refine ⟨⟨text.takeWhile p, (text.dropWhile p).rtakeWhile q, ?_, ?_, ?_⟩, ?_, ?_⟩
  · rw [List.rdropWhile_append_rtakeWhile, List.takeWhile_append_dropWhile]
  · exact fun c hc => List.mem_takeWhile_imp hc
  · exact fun c hc => List.mem_rtakeWhile_imp hc
  · intro c hc
    -- the first character that is left is the first one that does not satisfy `p`
    have hfirst := List.head?_dropWhile_not p text
    obtain ⟨after, hafter⟩ := List.rdropWhile_prefix q (text.dropWhile p)
    rw [← hafter, List.head?_append, hc] at hfirst
    exact hfirst
  · intro c hc
    obtain ⟨hne, rfl⟩ := List.mem_getLast?_eq_getLast hc
    simpa using List.rdropWhile_last_not q (text.dropWhile p) hne

/-- What is left when the ends are stripped. -/
theorem strips_iff : Strips p q text core ↔ core = dropTrailing q (dropLeading p text) := by
  constructor
  · rintro ⟨⟨before, after, rfl, hbefore, hafter⟩, hhead, hlast⟩
    show core = ((before ++ (core ++ after)).dropWhile p).rdropWhile q
    rw [List.dropWhile_append_of_pos hbefore]
    cases core with
    | nil =>
      symm
      rw [List.rdropWhile_eq_nil_iff]
      exact fun c hc => hafter c ((List.dropWhile_suffix p).mem hc)
    | cons c core =>
      have hc : ¬ p c = true := by simp [hhead c rfl]
      have hself : (c :: core).rdropWhile q = c :: core := by
        rw [List.rdropWhile_eq_self_iff]
        intro hne
        simp [hlast _ (List.getLast?_eq_some_getLast hne)]
      have hreverse : ∀ d ∈ after.reverse, q d = true :=
        fun d hd => hafter d (List.mem_reverse.1 hd)
      rw [List.cons_append, List.dropWhile_cons_of_neg hc, ← List.cons_append, List.rdropWhile,
        List.reverse_append, List.dropWhile_append_of_pos hreverse]
      exact hself.symm
  · rintro rfl
    exact strips_dropTrailing p q text

theorem trim_eq_nil_iff : trim text = [] ↔ ∀ c ∈ text, isBlank c = true := by
  constructor
  · intro h
    obtain ⟨⟨before, after, htext, hbefore, hafter⟩, -, -⟩ := strips_iff.2 h.symm
    rw [htext, List.nil_append]
    exact List.forall_mem_append.2 ⟨hbefore, hafter⟩
  · intro h
    have hstrips : Strips isBlank isBlank text [] :=
      ⟨⟨text, [], by simp, h, by simp⟩, by simp, by simp⟩
    exact (strips_iff.1 hstrips).symm

/-! ## Splitting -/

variable {separator : Char} {parts : List (List Char)}

/-- The text is the parts with the separator between them, and it is nowhere else. -/
structure Splits (separator : Char) (text : List Char) (parts : List (List Char)) : Prop where
  ne_nil : parts ≠ []
  joined : [separator].intercalate parts = text
  not_mem : ∀ part ∈ parts, separator ∉ part

theorem not_mem_of_mem_splitOn {part : List Char} (h : part ∈ splitOn separator text) :
    separator ∉ part := by
  induction text generalizing part with
  | nil =>
    rw [List.mem_singleton.1 h]
    simp
  | cons c text ih =>
    rw [splitOn] at h
    cases hparts : splitOn separator text with
    | nil =>
      rw [splitOn_eq] at hparts
      exact absurd hparts (List.splitOn_ne_nil separator text)
    | cons first others =>
      rw [hparts] at h ih
      have hall : ∀ part ∈ first :: others, separator ∉ part := fun part => ih
      obtain ⟨hfirst, hothers⟩ := List.forall_mem_cons.1 hall
      split at h
      · rcases List.mem_cons.1 h with rfl | h
        · simp
        · exact hall part h
      · next hc =>
        rcases List.mem_cons.1 h with rfl | h
        · simp [Ne.symm hc, hfirst]
        · exact hothers part h

/-- The parts of a text. -/
theorem splits_iff : Splits separator text parts ↔ parts = splitOn separator text := by
  constructor
  · rintro ⟨hne, rfl, hnot⟩
    rw [splitOn_eq, List.splitOn_intercalate separator hnot hne]
  · rintro rfl
    refine ⟨?_, ?_, fun part => not_mem_of_mem_splitOn⟩
    · rw [splitOn_eq]
      exact List.splitOn_ne_nil separator text
    · rw [splitOn_eq]
      exact List.intercalate_splitOn separator

end Text

namespace DecisionLog

/-! ## Parts -/

/-- With the blanks around it stripped, the part is a numeral of `n`, behind a plus sign or
alone. -/
def Denotes (part : List Char) (n : Nat) : Prop :=
  ∃ core digits, Text.Strips Text.isBlank Text.isBlank part core ∧
    (core = digits ∨ core = '+' :: digits) ∧ Numeral.Denotes digits n

variable {part : List Char} {parts : List (List Char)} {values : List Nat} {n : Nat} {e : Error}

theorem denotes_iff : Denotes part n ↔ Numeral.read (Text.trim part) = .ok n := by
  rw [Numeral.read_eq_ok_iff]
  constructor
  · rintro ⟨core, digits, hcore, hdigits⟩
    rw [Text.strips_iff] at hcore
    subst hcore
    exact ⟨digits, hdigits⟩
  · rintro ⟨digits, hdigits⟩
    exact ⟨_, digits, Text.strips_iff.2 rfl, hdigits⟩

theorem parsePart_of_denotes (h : Denotes part n) : parsePart part = .ok n := by
  rw [parsePart, denotes_iff.1 h]
  rfl

theorem denotes_of_parsePart (h : parsePart part = .ok n) : Denotes part n := by
  rw [denotes_iff]
  unfold parsePart at h
  cases hr : Numeral.read (Text.trim part) with
  | error fault => rw [hr] at h; cases h
  | ok m => rw [hr] at h; cases h; rfl

theorem not_denotes_of_parsePart (h : parsePart part = .error e) :
    (∀ n, ¬ Denotes part n) ∧ ∃ fault, e = .invalidLog part fault := by
  constructor
  · intro n hn
    rw [parsePart_of_denotes hn] at h
    cases h
  · unfold parsePart at h
    cases hr : Numeral.read (Text.trim part) with
    | error fault => rw [hr] at h; cases h; exact ⟨fault, rfl⟩
    | ok m => rw [hr] at h; cases h

/-- All parts are numerals. -/
theorem parseParts_eq_ok_iff :
    parseParts parts = .ok values ↔ List.Forall₂ Denotes parts values := by
  induction parts generalizing values with
  | nil =>
    rw [List.forall₂_nil_left_iff]
    constructor
    · rintro ⟨⟩
      rfl
    · rintro rfl
      rfl
  | cons part parts ih =>
    constructor
    · intro h
      rw [parseParts] at h
      cases hpart : parsePart part with
      | error e => rw [hpart] at h; cases h
      | ok n =>
        cases hparts : parseParts parts with
        | error e => rw [hpart, hparts] at h; cases h
        | ok rest =>
          rw [hpart, hparts] at h
          cases h
          exact .cons (denotes_of_parsePart hpart) (ih.1 hparts)
    · intro h
      cases h with
      | cons hpart hparts =>
        rw [parseParts, parsePart_of_denotes hpart, ih.2 hparts]
        rfl

/-- The part is the leftmost one that is no numeral. -/
def LeftmostBad (parts : List (List Char)) (part : List Char) : Prop :=
  ∃ before after, parts = before ++ part :: after ∧ (∀ good ∈ before, ∃ n, Denotes good n) ∧
    ∀ n, ¬ Denotes part n

/-- The error is about the leftmost part that is no numeral. -/
theorem exists_of_parseParts (h : parseParts parts = .error e) :
    ∃ part fault, LeftmostBad parts part ∧ e = .invalidLog part fault := by
  induction parts with
  | nil => cases h
  | cons first parts ih =>
    rw [parseParts] at h
    cases hfirst : parsePart first with
    | error e' =>
      rw [hfirst] at h
      cases h
      obtain ⟨hnot, fault, he⟩ := not_denotes_of_parsePart hfirst
      exact ⟨first, fault, ⟨[], parts, rfl, by simp, hnot⟩, he⟩
    | ok n =>
      cases hparts : parseParts parts with
      | ok rest => rw [hfirst, hparts] at h; cases h
      | error e' =>
        rw [hfirst, hparts] at h
        cases h
        obtain ⟨part, fault, ⟨before, after, rfl, hbefore, hnot⟩, he⟩ := ih hparts
        refine ⟨part, fault, ⟨first :: before, after, rfl, ?_, hnot⟩, he⟩
        exact List.forall_mem_cons.2 ⟨⟨n, denotes_of_parsePart hfirst⟩, hbefore⟩

/-! ## Texts -/

/-- What the text between the brackets stands for: nothing if it is blank, otherwise the numbers
that its parts denote. -/
def Lists (body : List Char) (parts : List (List Char)) (values : List Nat) : Prop :=
  (∀ c ∈ body, Text.isBlank c = true) ∧ values = [] ∨
    ¬ (∀ c ∈ body, Text.isBlank c = true) ∧ List.Forall₂ Denotes parts values

theorem parse_eq_ok_iff (text : List Char) : parse text = .ok (ofList values) ↔
    Lists (body text) (Text.splitOn ',' (body text)) values := by
  unfold Lists
  by_cases hblank : ∀ c ∈ body text, Text.isBlank c = true
  · have htrim := List.isEmpty_iff.2 (Text.trim_eq_nil_iff.2 hblank)
    rw [parse, if_pos htrim, or_iff_left (fun h => h.1 hblank), and_iff_right hblank]
    constructor
    · intro h
      have hlog : ({} : DecisionLog) = ofList values := Except.ok.inj h
      exact (congrArg toList hlog).symm
    · rintro rfl
      rfl
  · have htrim := mt (fun h => Text.trim_eq_nil_iff.1 (List.isEmpty_iff.1 h)) hblank
    rw [parse, if_neg htrim, or_iff_right (fun h => hblank h.1), and_iff_right hblank,
      ← parseParts_eq_ok_iff]
    cases hparts : parseParts (Text.splitOn ',' (body text)) with
    | error e =>
      constructor
      · intro h
        cases h
      · intro h
        cases h
    | ok rest =>
      constructor
      · intro h
        have hlog : ofList rest = ofList values := Except.ok.inj h
        exact congrArg Except.ok (congrArg toList hlog)
      · rintro ⟨⟩
        rfl

theorem exists_of_parse {text : List Char} (h : parse text = .error e) : ∃ part fault,
    LeftmostBad (Text.splitOn ',' (body text)) part ∧ e = .invalidLog part fault := by
  rw [parse] at h
  split at h
  · cases h
  · cases hparts : parseParts (Text.splitOn ',' (body text)) with
    | error e' => rw [hparts] at h; cases h; exact exists_of_parseParts hparts
    | ok rest => rw [hparts] at h; cases h

/-- A log of numbers below the limit is read back from its text. As for any other text, blanks are
stripped from its ends, then brackets. What is left is the empty log if it is blank; otherwise every
part between commas has to be a numeral, with blanks around it or none and a plus sign or none, and
the leftmost one that is no numeral is quoted as it stands: its characters are between the quotes,
those that are not plain as escapes. -/
theorem parse_exact :
    (∀ values : List Nat, (∀ n ∈ values, n < Numeral.limit) →
      parse (ofList values).text.toList = .ok (ofList values)) ∧
    ∀ text : List Char, ∃ trimmed body parts,
      Text.Strips Text.isBlank Text.isBlank text trimmed ∧
      Text.Strips (· = '[') (· = ']') trimmed body ∧
      Text.Splits ',' body parts ∧
      (∀ values, parse text = .ok (ofList values) ↔ Lists body parts values) ∧
      ((∀ values, ¬ Lists body parts values) → ∃ part fault, LeftmostBad parts part ∧
        parse text = .error (.invalidLog part fault) ∧
        (Error.invalidLog part fault).message =
          "invalid decision log: " ++ Text.quoted part ++ ": " ++ fault.text ∧
        ((∀ c ∈ part, Text.Plain c) →
          Text.quoted part = "\"" ++ String.ofList part ++ "\"")) := by
  constructor
  · intro values h
    exact parse_text fun n hn => Nat.le_sub_one_of_lt (h n hn)
  · intro text
    refine ⟨Text.trim text, body text, Text.splitOn ',' (body text), Text.strips_iff.2 rfl,
      Text.strips_iff.2 rfl, Text.splits_iff.2 rfl, fun values => parse_eq_ok_iff text, ?_⟩
    intro hnone
    cases hparse : parse text with
    | ok log => exact absurd ((parse_eq_ok_iff text).1 hparse) (hnone log.toList)
    | error e =>
      obtain ⟨part, fault, hbad, rfl⟩ := exists_of_parse hparse
      exact ⟨part, fault, hbad, rfl, rfl, Text.quoted_of_plain⟩

/-- The largest number is read back, and the number after it is the leftmost bad part of a text. -/
theorem parse_exact_largest :
    (∀ n ∈ [1, 0, 18446744073709551615], n < Numeral.limit) ∧
      parse (ofList [1, 0, 18446744073709551615]).text.toList =
        .ok (ofList [1, 0, 18446744073709551615]) ∧
      ∃ parts, LeftmostBad parts " 18446744073709551616".toList ∧
        parse " [[+01, 18446744073709551616,x]".toList =
          .error (.invalidLog " 18446744073709551616".toList .tooLarge) := by
  obtain ⟨hback, hread⟩ := parse_exact
  refine ⟨by decide, hback _ (by decide), ?_⟩
  have hfails : parse " [[+01, 18446744073709551616,x]".toList =
      .error (.invalidLog " 18446744073709551616".toList .tooLarge) := rfl
  obtain ⟨_, body, parts, -, -, -, hok, herror⟩ := hread " [[+01, 18446744073709551616,x]".toList
  have hnone : ∀ values, ¬ Lists body parts values := by
    intro values h
    rw [← hok values, hfails] at h
    cases h
  obtain ⟨part, fault, hbad, he, -⟩ := herror hnone
  rw [hfails] at he
  cases he
  exact ⟨parts, hbad, hfails⟩

end DecisionLog

end PatternGen
