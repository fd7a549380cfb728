import PatternGen.Proofs.Lexemes.Spelling
import PatternGen.Proofs.WellFormed.Parse

/-!
# Where the dialects agree

A text that the strict dialect accepts means the same in the lenient one, as long as it holds none
of a few marks that the two read in different ways. Only at a named group, which the lenient dialect
does not support, does the lenient reading stop.

Both readings are followed lexeme by lexeme. Where the strict dialect refuses what the lenient one
would read, such as the operators of a class, the text is not accepted in the first place.

Results:
* `Lexeme.read_lenient`: a lexeme of the strict dialect is the same one in the lenient dialect, or
  the beginning of a named group.
* `parse_lenient_of_strict`: so is a whole pattern.
-/

namespace PatternGen.Pattern

/-! ## Marks of a dialect -/

/-- What the two dialects read in different ways although both may accept it: places, bells, white
space, code points in braces, and classes that begin with their closing bracket. -/
def divergent : List (List Char) :=
  [['\\', 'A'], ['\\', 'z'], ['\\', 'a'], ['\\', 's'], ['\\', 'S'], ['\\', 'U'], ['\\', '<'],
    ['\\', '>'], ['\\', 'b', '{'], ['\\', 'x', '{'], ['\\', 'u', '{'], ['[', ']'], ['[', '^', ']']]

/-- The text holds no mark that the two dialects read in different ways. -/
def Shared (text : List Char) : Prop := ∀ mark ∈ divergent, ¬ mark <:+: text

instance (text : List Char) : Decidable (Shared text) :=
  inferInstanceAs (Decidable (∀ mark ∈ divergent, ¬ mark <:+: text))

/-- A group with a name begins here, which the lenient dialect refuses as this construct. -/
inductive NamedGroup : List Char → Construct → Prop
  | angle (text : List Char) : NamedGroup ('(' :: '?' :: '<' :: text) .namedGroup
  | letter (text : List Char) : NamedGroup ('(' :: '?' :: 'P' :: text) (.groupForm 'P')

theorem Shared.suffix {text rest : List Char} (h : Shared text) (hr : rest <:+ text) :
    Shared rest :=
  fun mark hm hin => h mark hm (hin.trans hr.isInfix)

theorem Shared.tail {c : Char} {text : List Char} (h : Shared (c :: text)) : Shared text :=
  h.suffix (List.suffix_cons c text)

theorem Shared.not_append (mark : List Char) {rest : List Char} (h : Shared (mark ++ rest)) :
    mark ∉ divergent :=
  fun hm => h mark hm (List.prefix_append mark rest).isInfix

/-- A letter that makes a mark with a brace behind it has no brace behind it. -/
theorem Shared.head?_ne {letter : Char} {text : List Char} (h : Shared ('\\' :: letter :: text))
    (hm : ['\\', letter, '{'] ∈ divergent) : text.head? ≠ some '{' := by
  intro hbrace
  obtain ⟨rest, rfl⟩ := List.head?_eq_some_iff.1 hbrace
  exact h.not_append ['\\', letter, '{'] hm

/-! ## Escapes -/

namespace Escape

variable {here text left : List Char} {c : Char} {e : Escape}

/-- What an escape stands for means the same in both dialects. -/
def SharedMeaning (e : Escape) : Prop := ∀ s, e = .shorthand s → s.kind ≠ .blank

/-- Strict texts have no references, and no escape that looks like one. -/
theorem isDigit_of_read_strict (h : read .strict here c text = .ok (e, left)) :
    c.isDigit = false := by
  cases hd : c.isDigit with
  | false => rfl
  | true =>
    have hne := fun d => Numeral.ne_of_isDigit (d := d) hd
    have halnum : c.isAlphanum = true := by rw [Char.isAlphanum, hd, Bool.or_true]
    have hx : ¬ (c = 'x' ∨ c = 'u' ∨ c = 'U') := by
      rintro (h | h | h) <;> exact hne _ (by decide) h
    rw [read_of_not_isAlpha (isAlpha_of_isDigit hd)] at h
    dsimp only at h
    rw [readStrict, if_neg (hne _ (by decide)), if_neg hx, if_pos halnum] at h
    cases h

theorem readLenient_of_strict (h : readStrict here c text = .ok (e, left))
    (hs : Shared ('\\' :: c :: text)) :
    readLenient here c text = .ok (e, left) ∧ e.SharedMeaning := by
  unfold readStrict at h
  split at h
  · next ha =>
    subst ha
    exact absurd (by decide) (hs.not_append ['\\', 'a'])
  · split at h
    · next hx =>
      split at h
      · next c' rest hread =>
        cases h
        refine ⟨?_, nofun⟩
        rcases hx with rfl | rfl | rfl
        · rw [bracedHex?_of_head? (hs.head?_ne (by decide)), Option.none_or] at hread
          exact congrArg Except.ok (congrArg (orLetter _ _) hread)
        · rw [bracedHex?_of_head? (hs.head?_ne (by decide)), Option.none_or] at hread
          exact congrArg Except.ok (congrArg (orLetter _ _) hread)
        · exact absurd (by decide) (hs.not_append ['\\', 'U'])
      · cases h
    · split at h
      · cases h
      · next halnum =>
        cases h
        exact ⟨readLenient_of_not_isAlphanum (Bool.eq_false_iff.2 halnum), nofun⟩

theorem ofLetter?_blank {s : Shorthand} (h : Shorthand.ofLetter? c = some s)
    (hb : s.kind = .blank) : c = 's' ∨ c = 'S' := by
  unfold Shorthand.ofLetter? at h
  split at h
  case h_5 => exact .inl rfl
  case h_6 => exact .inr rfl
  all_goals cases h <;> cases hb

/-- Without the marks, what the strict dialect reads as an escape is one in the lenient dialect. -/
theorem read_lenient (h : read .strict here c text = .ok (e, left))
    (hs : Shared ('\\' :: c :: text)) :
    read .lenient here c text = .ok (e, left) ∧ e.SharedMeaning := by
  unfold read at h ⊢
  cases hletter : Shorthand.ofLetter? c with
  | some s =>
    rw [hletter] at h
    cases h
    refine ⟨rfl, ?_⟩
    rintro _ ⟨⟩ hblank
    rcases ofLetter?_blank hletter hblank with rfl | rfl
    · exact absurd (by decide) (hs.not_append ['\\', 's'])
    · exact absurd (by decide) (hs.not_append ['\\', 'S'])
  | none =>
    rw [hletter] at h
    cases hline : lineControl? c with
    | some c' =>
      rw [hline] at h
      cases h
      exact ⟨rfl, nofun⟩
    | none =>
      rw [hline] at h
      exact readLenient_of_strict h hs

end Escape

/-! ## Classes -/

namespace ClassText

variable {here text left : List Char} {c : Char}

theorem toClass_lenient {s : Shorthand} (h : s.kind ≠ .blank) :
    s.toClass .lenient = s.toClass .strict := by
  obtain ⟨kind, negate⟩ := s
  cases kind with
  | digit | word => rfl
  | blank => exact absurd rfl h

theorem itemOf_lenient {e : Escape} (h : e.SharedMeaning) :
    itemOf .lenient e = itemOf .strict e := by
  cases e with
  | char c => rfl
  | shorthand s => rw [itemOf, itemOf, toClass_lenient (h s rfl)]

theorem readItem_lenient {item : ClassItem} (h : readItem .strict here c text = .ok (item, left))
    (hs : Shared (c :: text)) : readItem .lenient here c text = .ok (item, left) := by
  by_cases hc : c = '\\'
  · subst hc
    cases text with
    | nil => cases h
    | cons letter text =>
      by_cases hb : letter = 'b'
      · subst hb
        exact h
      · rw [readItem_escape _ _ hb] at h ⊢
        obtain ⟨e, left', he, h⟩ := Reading.andThen_eq_ok_iff.1 h
        cases h
        obtain ⟨he, hmeaning⟩ := Escape.read_lenient he hs
        rw [he, Reading.ok_andThen, itemOf_lenient hmeaning]
  · rw [readItem_of_ne _ _ hc] at h ⊢
    exact h

theorem readRange_lenient {lo : Char} {items : List ClassItem}
    (h : readRange .strict here lo c text = .ok (items, left)) (hs : Shared (c :: text)) :
    readRange .lenient here lo c text = .ok (items, left) := by
  obtain ⟨hi, left', hi', h⟩ := Reading.andThen_eq_ok_iff.1 h
  unfold readRange
  rw [readItem_lenient hi' hs]
  exact h

/-- Only where two dashes follow may the dialects differ on whether a range goes on. -/
theorem rangeEnd?_lenient (h : ¬ ['-', '-'] <+: text) :
    rangeEnd? .lenient text = rangeEnd? .strict text := by
  unfold rangeEnd?
  split
  · next c text =>
    have hc : c ≠ '-' := by
      rintro rfl
      exact h (List.prefix_append ['-', '-'] text)
    simp [hc]
  · rfl

theorem rangeEnd?_strict (h : ['-', '-'] <+: text) : rangeEnd? .strict text = none := by
  obtain ⟨rest, rfl⟩ := h
  rfl

theorem readMember_lenient {items : List ClassItem}
    (h : readMember .strict c text = .ok (items, left)) (hs : Shared (c :: text))
    (hleft : ¬ ['-', '-'] <+: left) : readMember .lenient c text = .ok (items, left) := by
  obtain ⟨item, rest, hi, h⟩ := Reading.andThen_eq_ok_iff.1 h
  unfold readMember
  rw [readItem_lenient hi hs, Reading.ok_andThen]
  have hdash : ¬ ['-', '-'] <+: rest := by
    intro hdash
    rw [rangeEnd?_strict hdash] at h
    cases item <;> (cases h; exact hleft hdash)
  rw [rangeEnd?_lenient hdash]
  cases item with
  | char lo =>
    cases hend : rangeEnd? .strict rest with
    | none =>
      rw [hend] at h
      exact h
    | some found =>
      rw [hend] at h
      have hs' := hs.tail.suffix (readItem_suffix hi)
      rw [eq_of_rangeEnd? hend] at hs'
      exact readRange_lenient h hs'.tail
  | range | nested => exact h

/-- A strict class refuses two dashes in a row. -/
theorem not_dashes_of_readMembers {opening : List Char} {items : List ClassItem}
    (h : readMembers .strict opening text = .ok (items, left)) : ¬ ['-', '-'] <+: text := by
  rintro ⟨rest, rfl⟩
  have hrefused := (readMembers_cons_eq_ok_iff.1 h).1 rfl
  cases hrefused

theorem readMembers_lenient {opening : List Char} {items : List ClassItem}
    (h : readMembers .strict opening text = .ok (items, left)) (hs : Shared text) :
    readMembers .lenient opening text = .ok (items, left) := by
  refine readMembers_induction (P := fun text items => Shared text →
    readMembers .lenient opening text = .ok (items, left)) ?_ ?_ h hs
  · intro _ _
    exact readMembers_cons_eq_ok_iff.2 ⟨nofun, .inl ⟨rfl, rfl, rfl⟩⟩
  · intro c text rest first more _ hne hm hmore ih hs
    have hrest : Shared rest := hs.tail.suffix (readMember_suffix hm)
    exact readMembers_cons_eq_ok_iff.2 ⟨nofun, .inr ⟨hne, first, rest, more,
      readMember_lenient hm hs (not_dashes_of_readMembers hmore), ih hrest, rfl⟩⟩

theorem head?_takeNegation (hs : Shared ('[' :: text)) :
    (takeNegation text).2.head? ≠ some ']' := by
  intro hclose
  obtain ⟨rest, hrest⟩ := List.head?_eq_some_iff.1 hclose
  unfold takeNegation at hrest
  split at hrest
  · cases hrest
    exact absurd (by decide) (hs.not_append ['[', '^', ']'])
  · cases hrest
    exact absurd (by decide) (hs.not_append ['[', ']'])

theorem read_lenient {opening : List Char} {cls : CharClass}
    (h : read .strict opening text = .ok (cls, left)) (hs : Shared ('[' :: text)) :
    read .lenient opening text = .ok (cls, left) := by
  obtain ⟨items, left', hm, h⟩ := Reading.andThen_eq_ok_iff.1 h
  have hfirst := takeFirst_of_head? fun _ : Dialect.strict = .strict => head?_takeNegation hs
  have hm : readMembers .strict opening (takeFirst .strict (takeNegation text).2).2 =
    .ok (items, left') := hm
  rw [hfirst] at hm
  have hm' := readMembers_lenient hm (hs.tail.suffix (takeNegation_suffix text))
  have hcls : (⟨(takeNegation text).1, (takeFirst .strict (takeNegation text).2).1 ++ items⟩,
    left') = (cls, left) := Except.ok.inj h
  rw [hfirst] at hcls
  show (readMembers .lenient opening (takeNegation text).2).andThen _ = _
  rw [hm', Reading.ok_andThen]
  exact congrArg Except.ok hcls

end ClassText

/-! ## Lexemes -/

namespace Lexeme

variable {here text left : List Char} {c : Char}

theorem atomOf_lenient {e : Escape} (h : e.SharedMeaning) :
    atomOf .lenient e = atomOf .strict e := by
  cases e with
  | char c => rfl
  | shorthand s => rw [atomOf, atomOf, ClassText.toClass_lenient (h s rfl)]

theorem strictAnchor?_mem {anchor : Anchor} (h : strictAnchor? c = some anchor) :
    ['\\', c] ∈ divergent := by
  unfold strictAnchor? at h
  split at h
  case h_5 => cases h
  all_goals decide

theorem readEscape_lenient {a : Atom} (h : readEscape .strict here text = .ok (a, left))
    (hs : Shared ('\\' :: text)) : readEscape .lenient here text = .ok (a, left) := by
  cases text with
  | nil => cases h
  | cons c text =>
    rw [readEscape] at h ⊢
    by_cases hB : c = 'B'
    · subst hB
      exact h
    · by_cases hb : c = 'b'
      · subst hb
        have hread : readBoundary here text = .ok (a, left) := h
        rw [readBoundary_of_head? (hs.head?_ne (by decide))] at hread
        exact hread
      · have hanchor : strictAnchor? c = none := by
          cases hanchor : strictAnchor? c with
          | none => rfl
          | some anchor => exact absurd (strictAnchor?_mem hanchor) (hs.not_append ['\\', c])
        have hstrict : readOutside? .strict here c text = none := by
          rw [readOutside?, if_neg hB, if_neg hb, hanchor]
          rfl
        rw [hstrict] at h
        obtain ⟨e, left', he, h⟩ := Reading.andThen_eq_ok_iff.1 h
        cases h
        have hdigit := Escape.isDigit_of_read_strict he
        have hlenient : readOutside? .lenient here c text = none := by
          rw [readOutside?, if_neg hB, if_neg hb, if_neg (by rw [hdigit]; simp)]
        obtain ⟨he, hmeaning⟩ := Escape.read_lenient he hs
        rw [hlenient]
        dsimp only
        rw [he, Reading.ok_andThen, atomOf_lenient hmeaning]

theorem readAngle_lenient {o : Opening}
    (h : readAngle .strict here text = .ok (o, left)) :
    readAngle .lenient here text = .ok (o, left) ∨
      readAngle .lenient here text = unsupported .namedGroup here := by
  unfold readAngle at h ⊢
  split at h
  · exact .inl h
  · exact .inl h
  · exact .inr rfl

/-- What begins a strict group begins the same one in the lenient dialect, unless it has a name. -/
theorem readOpening_lenient {o : Opening}
    (h : readOpening .strict ('(' :: text) text = .ok (o, left)) :
    readOpening .lenient ('(' :: text) text = .ok (o, left) ∨
      ∃ construct, NamedGroup ('(' :: text) construct ∧
        readOpening .lenient ('(' :: text) text = unsupported construct ('(' :: text) := by
  unfold readOpening at h ⊢
  split at h
  · next text =>
    unfold readForm at h ⊢
    split at h
    · cases h
    · exact .inl h
    · exact .inl h
    · exact .inl h
    · next text =>
      rcases readAngle_lenient h with h | h
      · exact .inl h
      · exact .inr ⟨_, .angle text, h⟩
    · split at h
      · exact .inr ⟨_, .letter _, rfl⟩
      · cases h
  · exact .inl h

/-- Without the marks, a lexeme of the strict dialect is one of the lenient dialect, or the bracket
of a named group. -/
theorem read_lenient {l : Lexeme} (h : read .strict c text = .ok (l, left))
    (hs : Shared (c :: text)) :
    read .lenient c text = .ok (l, left) ∨
      ∃ construct, NamedGroup (c :: text) construct ∧
        read .lenient c text = unsupported construct (c :: text) := by
  unfold read at h ⊢
  dsimp only at h ⊢
  split at h
  case h_10 =>
    obtain ⟨a, left', ha, h⟩ := Reading.andThen_eq_ok_iff.1 h
    rw [readEscape_lenient ha hs]
    exact .inl h
  case h_11 =>
    obtain ⟨cls, left', hc, h⟩ := Reading.andThen_eq_ok_iff.1 h
    rw [ClassText.read_lenient hc hs]
    exact .inl h
  case h_12 =>
    obtain ⟨o, left', ho, h⟩ := Reading.andThen_eq_ok_iff.1 h
    rcases readOpening_lenient ho with ho | ⟨construct, hgroup, ho⟩
    · rw [ho]
      exact .inl h
    · rw [ho]
      exact .inr ⟨construct, hgroup, rfl⟩
  all_goals exact .inl h

/-- Both readings of a text go in step, up to a named group. -/
theorem readAll_lenient {placed : List Placed} (h : readAll .strict text = (placed, none))
    (hs : Shared text) :
    readAll .lenient text = (placed, none) ∨
      ∃ before construct here, before <+: placed ∧ here <:+ text ∧ NamedGroup here construct ∧
        readAll .lenient text = (before, some ⟨.unsupported construct, here⟩) := by
  fun_induction readAll .strict text generalizing placed with
  | case1 =>
    cases h
    exact .inl (by rw [readAll])
  | case2 => cases h
  | case3 c text l rest hread more fault hmore ih =>
    cases h
    have hrest := (read_suffix hread).trans (List.suffix_cons c text)
    rcases read_lenient hread hs with hl | ⟨construct, hgroup, hl⟩
    · rcases ih hmore (hs.suffix hrest) with hall | ⟨before, construct, here, hb, hh, hgroup, hall⟩
      · exact .inl (by rw [readAll_cons hl, hall])
      · refine .inr ⟨⟨l, c :: text⟩ :: before, construct, here, ?_, hh.trans hrest, hgroup, ?_⟩
        · exact (List.prefix_cons_inj _).2 hb
        · rw [readAll_cons hl, hall]
    · refine .inr ⟨[], construct, c :: text, List.nil_prefix, List.suffix_refl _, hgroup, ?_⟩
      exact readAll_cons_error hl

end Lexeme

/-! ## Whole patterns -/

namespace Assembly

/-- Lexemes that can be taken can be taken up to any place. -/
theorem exists_takeAll_of_prefix {a a' : Assembly} {xs ys : List Lexeme.Placed}
    (h : a.takeAll ys = .ok a') (hp : xs <+: ys) : ∃ b, a.takeAll xs = .ok b := by
  induction xs generalizing a ys with
  | nil => exact ⟨a, rfl⟩
  | cons l xs ih =>
    obtain ⟨more, rfl⟩ := hp
    rw [List.cons_append, takeAll] at h
    rw [takeAll]
    split at h
    · cases h
    · exact ih h ⟨more, rfl⟩

end Assembly

variable {text : List Char} {body : Body} {n : Nat}

theorem readBody_lenient (h : readBody .strict text = .ok (body, n)) (hs : Shared text) :
    readBody .lenient text = .ok (body, n) ∨
      ∃ construct here, here <:+ text ∧ NamedGroup here construct ∧
        readBody .lenient text = unsupported construct here := by
  obtain ⟨placed, a, hr, ht, hopen⟩ := readBody_eq_ok_iff_takeAll.1 h
  rcases Lexeme.readAll_lenient hr hs with hall | ⟨before, construct, here, hb, hh, hgroup, hall⟩
  · exact .inl (readBody_eq_ok_iff_takeAll.2 ⟨placed, a, hall, ht, hopen⟩)
  · obtain ⟨b, hbefore⟩ := Assembly.exists_takeAll_of_prefix ht hb
    refine .inr ⟨construct, here, hh, hgroup, ?_⟩
    rw [readBody, hall]
    dsimp only
    rw [hbefore]
    rfl

/-- A text without the marks that the dialects read in different ways denotes in the lenient dialect
the pattern that it denotes in the strict one, unless the lenient dialect refuses a named group in
it. -/
theorem parse_lenient_of_strict {pattern : Pattern} (hs : Shared text)
    (h : parse .strict text = .ok pattern) :
    parse .lenient text = .ok pattern ∨
      ∃ before here construct, text = before ++ here ∧ NamedGroup here construct ∧
        parse .lenient text = .error (.unsupportedSyntax (byteSize before) construct) := by
  have hread := readPattern_of_parse h
  unfold readPattern at hread
  unfold parse readPattern
  cases hflags : readInlineFlags text with
  | error fault =>
    rw [hflags] at hread
    cases hread
  | ok found =>
    obtain ⟨flags, rest⟩ := found
    have hrest := readInlineFlags_suffix hflags
    rw [hflags] at hread
    dsimp only at hread ⊢
    cases hbody : readBody .strict rest with
    | error fault =>
      rw [hbody] at hread
      cases hread
    | ok found =>
      rw [hbody] at hread
      cases hread
      rcases readBody_lenient hbody (hs.suffix hrest) with hl | ⟨construct, here, hh, hgroup, hl⟩
      · rw [hl]
        exact .inl rfl
      · rw [hl]
        obtain ⟨before, rfl⟩ := hh.trans hrest
        refine .inr ⟨before, here, construct, rfl, hgroup, ?_⟩
        exact congrArg Except.error (Fault.error_append _ before here)

theorem shared_labelled : Shared "(?i)(?=(b))(?P<n>\\D|){2,3}?".toList := by
  show Shared ['(', '?', 'i', ')', '(', '?', '=', '(', 'b', ')', ')', '(', '?', 'P', '<', 'n', '>',
    '\\', 'D', '|', ')', '{', '2', ',', '3', '}', '?']
  decide

theorem parse_lenient_of_strict_labelled :
    Shared "(?i)(?=(b))(?P<n>\\D|){2,3}?".toList ∧
      parse .strict "(?i)(?=(b))(?P<n>\\D|){2,3}?".toList = .ok labelled ∧
      (parse .lenient "(?i)(?=(b))(?P<n>\\D|){2,3}?".toList = .ok labelled ∨
        ∃ before here construct, "(?i)(?=(b))(?P<n>\\D|){2,3}?".toList = before ++ here ∧
          NamedGroup here construct ∧
          parse .lenient "(?i)(?=(b))(?P<n>\\D|){2,3}?".toList =
            .error (.unsupportedSyntax (byteSize before) construct)) :=
  ⟨shared_labelled, parse_labelled, parse_lenient_of_strict shared_labelled parse_labelled⟩

end PatternGen.Pattern
