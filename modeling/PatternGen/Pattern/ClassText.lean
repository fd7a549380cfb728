import PatternGen.Pattern.Escape

/-!
# The text of a class

Reads what stands between the brackets of a class, one member at a time. A member is a character, a
shorthand class or a range; the two ends of a range are joined by a dash that something other than
the closing bracket follows.

Results:
* `ClassText.readMember_length`: every member takes some text, so that a class ends.
* `ClassText.read_suffix`: what is left after a class is the end of the text that was read.
-/

namespace PatternGen.Pattern.ClassText

/-- What an escape stands for as a member of a class: the end of `parse_class_escape`. -/
def itemOf (dialect : Dialect) : Escape → ClassItem
  | .char c => .char c
  | .shorthand s => (s.toClass dialect).asItem

/-- Reads a member written by itself: an escape (`parse_class_escape`), or the character `c`. -/
def readItem (dialect : Dialect) (here : List Char) (c : Char) (text : List Char) :
    Reading ClassItem :=
  if c = '\\' then
    match text with
    | [] => invalid .trailingBackslash here
    | 'b' :: rest => .ok (.char '\x08', rest)
    | letter :: rest =>
      (Escape.read dialect here letter rest).andThen fun e left => .ok (itemOf dialect e, left)
  else .ok (.char c, text)

/-- The construct that a strict class may not hold, if one begins with `c` before `text`;
`parse_class` checks every character that it takes. -/
def refused? (c : Char) (text : List Char) : Option Construct :=
  if c = '[' then some (if text.head? = some ':' then .posixClass else .nestedClass)
  else if (c = '&' ∨ c = '-' ∨ c = '~') ∧ text.head? = some c then some (.classOperator c)
  else none

/-- The text from the upper end of a range on, if `text` goes on with one: the test `is_range` of
`parse_class`. -/
def rangeEnd? (dialect : Dialect) : List Char → Option (Char × List Char)
  | '-' :: c :: text => if c = ']' ∨ (dialect = .strict ∧ c = '-') then none else some (c, text)
  | _ => none

/-- The items of a range from `lo` to what was read as its upper end. A class is no upper end: the
dash before it is then an item of its own. -/
def joinRange (here : List Char) (lo : Char) : ClassItem → Except Fault (List ClassItem)
  | .char hi => if hi < lo then invalid .rangeOutOfOrder here else .ok [.range lo hi]
  | item => .ok [.char lo, .char '-', item]

/-- Reads the upper end of a range and joins it to the lower one. -/
def readRange (dialect : Dialect) (here : List Char) (lo c : Char) (text : List Char) :
    Reading (List ClassItem) :=
  (readItem dialect (c :: text) c text).andThen fun hi left =>
    (joinRange here lo hi).map (·, left)

/-- Reads a member that begins with the character `c`: one turn of the loop of `parse_class`. -/
def readMember (dialect : Dialect) (c : Char) (text : List Char) : Reading (List ClassItem) :=
  (readItem dialect (c :: text) c text).andThen fun item rest =>
    match item, rangeEnd? dialect rest with
    | .char lo, some (c', rest') => readRange dialect (c :: text) lo c' rest'
    | item, _ => .ok ([item], rest)

theorem readItem_of_ne (dialect : Dialect) (here : List Char) {c : Char} (h : c ≠ '\\')
    (text : List Char) : readItem dialect here c text = .ok (.char c, text) := by
  unfold readItem
  rw [if_neg h]

theorem readItem_escape (dialect : Dialect) (here : List Char) {letter : Char} (h : letter ≠ 'b')
    (text : List Char) :
    readItem dialect here '\\' (letter :: text) =
      (Escape.read dialect here letter text).andThen
        fun e left => .ok (itemOf dialect e, left) := by
  unfold readItem
  rw [if_pos rfl]
  split
  · next heq => cases heq
  · next heq => exact absurd (List.cons.inj heq).1 h
  · next heq =>
    cases heq
    rfl

theorem rangeEnd?_of_head? {dialect : Dialect} {text : List Char} (h : text.head? ≠ some '-') :
    rangeEnd? dialect text = none := by
  unfold rangeEnd?
  split
  · exact absurd rfl h
  · rfl

/-! ## What is left -/

theorem readItem_suffix {dialect : Dialect} {here text rest : List Char} {c : Char}
    {item : ClassItem} (h : readItem dialect here c text = .ok (item, rest)) : rest <:+ text := by
  unfold readItem at h
  split at h
  · split at h
    · cases h
    · cases h
      exact List.suffix_cons _ _
    · next letter text' _ =>
      obtain ⟨e, left, he, h⟩ := Reading.andThen_eq_ok_iff.1 h
      cases h
      exact (Escape.read_suffix he).trans (List.suffix_cons letter text')
  · cases h
    exact List.suffix_refl _

theorem eq_of_rangeEnd? {dialect : Dialect} {text rest : List Char} {c : Char}
    (h : rangeEnd? dialect text = some (c, rest)) : text = '-' :: c :: rest := by
  unfold rangeEnd? at h
  split at h
  · split at h
    · cases h
    · cases h
      rfl
  · cases h

theorem rangeEnd?_suffix {dialect : Dialect} {text rest : List Char} {c : Char}
    (h : rangeEnd? dialect text = some (c, rest)) : rest <:+ text := by
  rw [eq_of_rangeEnd? h]
  exact (List.suffix_cons _ _).trans (List.suffix_cons _ _)

theorem readRange_suffix {dialect : Dialect} {here text rest : List Char} {lo c : Char}
    {items : List ClassItem} (h : readRange dialect here lo c text = .ok (items, rest)) :
    rest <:+ text := by
  obtain ⟨hi, left, hr, h⟩ := Reading.andThen_eq_ok_iff.1 h
  cases hj : joinRange here lo hi with
  | error fault => rw [hj] at h; cases h
  | ok joined =>
    rw [hj] at h
    cases h
    exact readItem_suffix hr

theorem readMember_suffix {dialect : Dialect} {c : Char} {text rest : List Char}
    {items : List ClassItem} (h : readMember dialect c text = .ok (items, rest)) :
    rest <:+ text := by
  obtain ⟨item, left, hi, h⟩ := Reading.andThen_eq_ok_iff.1 h
  have hs := readItem_suffix hi
  split at h
  · next hr => exact ((readRange_suffix h).trans (rangeEnd?_suffix hr)).trans hs
  · cases h
    exact hs

theorem readMember_length {dialect : Dialect} {c : Char} {text rest : List Char}
    {items : List ClassItem} (h : readMember dialect c text = .ok (items, rest)) :
    rest.length ≤ text.length := (readMember_suffix h).length_le

/-! ## All members -/

/-- Reads members up to the closing bracket; `opening` is the text from the opening one on. This is
the loop of `parse_class`. -/
def readMembers (dialect : Dialect) (opening : List Char) : List Char → Reading (List ClassItem)
  | [] => invalid .unterminatedClass opening
  | c :: text =>
    match if dialect = .strict then refused? c text else none with
    | some construct => unsupported construct (c :: text)
    | none =>
      if c = ']' then .ok ([], text)
      else
        match _h : readMember dialect c text with
        | .error fault => .error fault
        | .ok (items, rest) =>
          (readMembers dialect opening rest).andThen fun more left => .ok (items ++ more, left)
termination_by text => text.length
decreasing_by
  have := readMember_length _h
  simp only [List.length_cons]
  omega

/-- The members that a text begins with are none at the closing bracket, and otherwise the first
one and those behind it. -/
theorem readMembers_cons_eq_ok_iff {dialect : Dialect} {opening text left : List Char} {c : Char}
    {items : List ClassItem} :
    readMembers dialect opening (c :: text) = .ok (items, left) ↔
      (dialect = .strict → refused? c text = none) ∧
        (c = ']' ∧ items = [] ∧ left = text ∨
          c ≠ ']' ∧ ∃ first rest more, readMember dialect c text = .ok (first, rest) ∧
            readMembers dialect opening rest = .ok (more, left) ∧ items = first ++ more) := by
  have hrefused : (if dialect = .strict then refused? c text else none) = none ↔
      (dialect = .strict → refused? c text = none) := by
    split <;> simp [*]
  constructor
  · intro h
    rw [readMembers] at h
    split at h
    · cases h
    · next hc =>
      refine ⟨hrefused.1 hc, ?_⟩
      split at h
      · next hclose =>
        cases h
        exact .inl ⟨hclose, rfl, rfl⟩
      · next hclose =>
        split at h
        · cases h
        · next first rest hm =>
          obtain ⟨more, left', hr, h⟩ := Reading.andThen_eq_ok_iff.1 h
          cases h
          exact .inr ⟨hclose, first, rest, more, hm, hr, rfl⟩
  · rintro ⟨hc, h⟩
    rw [readMembers]
    split
    · next heq =>
      rw [hrefused.2 hc] at heq
      cases heq
    · rcases h with ⟨rfl, rfl, rfl⟩ | ⟨hne, first, rest, more, hm, hr, rfl⟩
      · rw [if_pos rfl]
      · rw [if_neg hne]
        split
        · next heq =>
          rw [hm] at heq
          cases heq
        · next heq =>
          rw [hm] at heq
          cases heq
          rw [hr, Reading.ok_andThen]

/-- What holds at the closing bracket, and with one member more in front, holds of all members. -/
theorem readMembers_induction {dialect : Dialect} {opening left : List Char}
    {P : List Char → List ClassItem → Prop}
    (close : (dialect = .strict → refused? ']' left = none) → P (']' :: left) [])
    (member : ∀ {c : Char} {text rest : List Char} {first more : List ClassItem},
      (dialect = .strict → refused? c text = none) → c ≠ ']' →
      readMember dialect c text = .ok (first, rest) →
      readMembers dialect opening rest = .ok (more, left) → P rest more →
      P (c :: text) (first ++ more))
    {text : List Char} {items : List ClassItem}
    (h : readMembers dialect opening text = .ok (items, left)) : P text items := by
  induction hlen : text.length using Nat.strongRecOn generalizing text items with
  | _ n ih =>
    cases text with
    | nil =>
      rw [readMembers] at h
      cases h
    | cons c text =>
      obtain ⟨hrefused, hmembers⟩ := readMembers_cons_eq_ok_iff.1 h
      rcases hmembers with ⟨rfl, rfl, rfl⟩ | ⟨hne, first, rest, more, hm, hmore, rfl⟩
      · exact close hrefused
      · have hlt : rest.length < n := by
          have := readMember_length hm
          rw [← hlen, List.length_cons]
          omega
        exact member hrefused hne hm hmore (ih _ hlt hmore rfl)

/-- Takes the mark of a negated class. -/
def takeNegation : List Char → Bool × List Char
  | '^' :: text => (true, text)
  | text => (false, text)

/-- Takes the closing bracket that is the first member of a strict class. -/
def takeFirst (dialect : Dialect) (text : List Char) : List ClassItem × List Char :=
  match dialect, text with
  | .strict, ']' :: rest => ([.char ']'], rest)
  | _, _ => ([], text)

theorem takeNegation_of_head? {text : List Char} (h : text.head? ≠ some '^') :
    takeNegation text = (false, text) := by
  unfold takeNegation
  split
  · exact absurd rfl h
  · rfl

theorem takeFirst_of_head? {dialect : Dialect} {text : List Char}
    (h : dialect = .strict → text.head? ≠ some ']') : takeFirst dialect text = ([], text) := by
  unfold takeFirst
  split
  · exact absurd rfl (h rfl)
  · rfl

/-- Reads a class from behind its opening bracket on (`parse_class`). -/
def read (dialect : Dialect) (opening : List Char) (text : List Char) : Reading CharClass :=
  let (negate, text) := takeNegation text
  let (first, text) := takeFirst dialect text
  (readMembers dialect opening text).andThen fun items left => .ok (⟨negate, first ++ items⟩, left)

theorem readMembers_suffix {dialect : Dialect} {opening text rest : List Char}
    {items : List ClassItem} (h : readMembers dialect opening text = .ok (items, rest)) :
    rest <:+ text := by
  fun_induction readMembers dialect opening text generalizing items rest with
  | case1 => cases h
  | case2 => cases h
  | case3 => cases h; exact List.suffix_cons _ _
  | case4 => cases h
  | case5 c text _ _ items' rest' hm ih =>
    obtain ⟨more, left, hr, h⟩ := Reading.andThen_eq_ok_iff.1 h
    cases h
    exact ((ih hr).trans (readMember_suffix hm)).trans (List.suffix_cons c text)

theorem takeNegation_suffix (text : List Char) : (takeNegation text).2 <:+ text := by
  unfold takeNegation
  split
  · exact List.suffix_cons _ _
  · exact List.suffix_refl _

theorem takeFirst_suffix (dialect : Dialect) (text : List Char) :
    (takeFirst dialect text).2 <:+ text := by
  unfold takeFirst
  split
  · exact List.suffix_cons _ _
  · exact List.suffix_refl _

theorem read_suffix {dialect : Dialect} {opening text rest : List Char} {cls : CharClass}
    (h : read dialect opening text = .ok (cls, rest)) : rest <:+ text := by
  obtain ⟨items, left, hm, h⟩ := Reading.andThen_eq_ok_iff.1 h
  cases h
  exact ((readMembers_suffix hm).trans (takeFirst_suffix _ _)).trans (takeNegation_suffix _)

end PatternGen.Pattern.ClassText
