import PatternGen.Pattern.Parse
import PatternGen.Proofs.Lexemes.Quantifier
import PatternGen.Proofs.Lexemes.Spelling
import PatternGen.Proofs.Lexemes.Tree

/-!
# Writing patterns

Every well-formed pattern can be written in its dialect, so that reading gives it back. Characters
are written by their code points where four hexadecimal digits suffice, so that none of them means
anything else, and every quantifier in braces. The flags always come first.

Results:
* `Lexeme.begins_write`: a written lexeme is read as itself, if neither a digit nor the mark of a
  lazy quantifier follows.
* `Pattern.parse_write`: a well-formed pattern that is written is read as itself.
-/

namespace PatternGen

/-! ## Writing -/

/-- The letter of a shorthand class. -/
def Shorthand.letter : Shorthand → Char
  | ⟨.digit, false⟩ => 'd'
  | ⟨.digit, true⟩ => 'D'
  | ⟨.word, false⟩ => 'w'
  | ⟨.word, true⟩ => 'W'
  | ⟨.blank, false⟩ => 's'
  | ⟨.blank, true⟩ => 'S'

/-- What the shorthand class with these items is about. -/
def Shorthand.kindOf : List ClassItem → Kind
  | .range _ _ :: _ => .digit
  | .char '_' :: _ => .word
  | _ => .blank

namespace Pattern

/-- A character in writing. -/
def writeChar (c : Char) : List Char :=
  if c.toNat < Numeral.hexLimit 4 then '\\' :: 'u' :: Numeral.hexDigits 4 c.toNat else [c]

/-- An item of a class in writing. -/
def writeItem : ClassItem → List Char
  | .char c => writeChar c
  | .range lo hi => writeChar lo ++ '-' :: writeChar hi
  | .nested negate items => ['\\', Shorthand.letter ⟨Shorthand.kindOf items, negate⟩]

/-- A class in writing. -/
def writeClass (cls : CharClass) : List Char :=
  '[' :: ((if cls.negate then ['^'] else []) ++ (cls.items.flatMap writeItem ++ [']']))

/-- A place in writing. What follows a strict `\b` could be read with it. -/
def writeAnchor : Dialect → Anchor → List Char
  | _, .start => ['^']
  | _, .stop => ['$']
  | .lenient, .wordBoundary => ['\\', 'b']
  | .strict, .wordBoundary => ['\\', '<']
  | _, .nonWordBoundary => ['\\', 'B']

/-- A leaf in writing. -/
def writeAtom (dialect : Dialect) : Atom → List Char
  | .literal c => writeChar c
  | .position anchor => writeAnchor dialect anchor
  | .charClass cls => writeClass cls
  | .reference n => '\\' :: Nat.toDigits 10 n

/-- The bounds of a repetition in writing. -/
def writeBounds (min : Nat) : Option Nat → List Char
  | some max => '{' :: (Nat.toDigits 10 min ++ ',' :: (Nat.toDigits 10 max ++ ['}']))
  | none => '{' :: (Nat.toDigits 10 min ++ [',', '}'])

/-- The beginning of a group in writing. -/
def writeOpening : Opening → List Char
  | .capturing => ['(']
  | .plain => ['(', '?', ':']
  | .looking .followedBy => ['(', '?', '=']
  | .looking .notFollowedBy => ['(', '?', '!']
  | .looking .precededBy => ['(', '?', '<', '=']
  | .looking .notPrecededBy => ['(', '?', '<', '!']

/-- A lexeme in writing. -/
def Lexeme.write (dialect : Dialect) : Lexeme → List Char
  | .atom a => writeAtom dialect a
  | .quantifier min max => writeBounds min max
  | .opening o => writeOpening o
  | .closing => [')']
  | .bar => ['|']

/-- Flags in writing, behind a letter without an effect so that there is one in any case. -/
def writeFlags (flags : Flags) : List Char :=
  '(' :: '?' :: 's' :: ((if flags.caseInsensitive then ['i'] else []) ++
    ((if flags.multiline then ['m'] else []) ++ [')']))

end Pattern

/-- The body of a group; any other token is a sequence of its own. -/
def Token.body : Token → Body
  | .group _ body => body
  | token => .sequence [token]

/-- A text that denotes the pattern. -/
def Pattern.write (dialect : Dialect) (pattern : Pattern) : List Char :=
  writeFlags pattern.inlineFlags ++
    pattern.root.body.lexemes.flatMap (Lexeme.write dialect)

namespace Pattern

variable {dialect : Dialect}

/-! ## Characters -/

/-- The character begins one that is written. -/
def BeginsWritten (c : Char) : Prop := c = '\\' ∨ Numeral.hexLimit 4 ≤ c.toNat

theorem BeginsWritten.ne {c d : Char} (h : BeginsWritten c) (hd : d ≠ '\\')
    (hlt : d.toNat < Numeral.hexLimit 4) : c ≠ d := by
  rintro rfl
  rcases h with h | h
  · exact hd h
  · exact Nat.not_lt.2 h hlt

theorem BeginsWritten.head?_ne {c d : Char} (h : BeginsWritten c) (hd : d ≠ '\\')
    (hlt : d.toNat < Numeral.hexLimit 4) (text : List Char) : (c :: text).head? ≠ some d :=
  fun heq => h.ne hd hlt (Option.some.inj heq)

theorem writeChar_eq (c : Char) (rest : List Char) :
    (c.toNat < Numeral.hexLimit 4 ∧
        writeChar c ++ rest = '\\' :: 'u' :: (Numeral.hexDigits 4 c.toNat ++ rest)) ∨
      (Numeral.hexLimit 4 ≤ c.toNat ∧ writeChar c ++ rest = c :: rest) := by
  unfold writeChar
  split
  · next h => exact .inl ⟨h, rfl⟩
  · next h => exact .inr ⟨Nat.not_lt.1 h, rfl⟩

/-- What is written is one of the spellings. -/
theorem spelling_writeChar (dialect : Dialect) (c : Char) : Spelling dialect c (writeChar c) := by
  unfold writeChar
  split
  · next h =>
    exact .fixed (.four dialect) (Numeral.length_hexDigits 4 _) (Numeral.hexDenotes_hexDigits h)
  · next h =>
    refine .raw fun hmem => h ?_
    have hsigns : ∀ d ∈ Lexeme.signs, d.toNat < Numeral.hexLimit 4 := by
      simp [Lexeme.signs, Numeral.hexLimit]
    exact hsigns c hmem

/-! ## Classes -/

namespace ClassText

theorem readItem_writeChar (dialect : Dialect) (c : Char) (rest : List Char) :
    ∃ first tail, writeChar c ++ rest = first :: tail ∧ BeginsWritten first ∧
      ∀ here, readItem dialect here first tail = .ok (.char c, rest) := by
  rcases writeChar_eq c rest with ⟨hlt, hw⟩ | ⟨hge, hw⟩
  · refine ⟨'\\', _, hw, .inl rfl, fun here => ?_⟩
    rw [readItem_escape _ _ (by decide), Escape.read_fixed (.four dialect)
      (Numeral.length_hexDigits 4 _) (Numeral.hexDenotes_hexDigits hlt)]
    rfl
  · have hne : c ≠ '\\' := by
      rintro rfl
      exact absurd hge (by decide)
    exact ⟨c, rest, hw, .inr hge, fun here => readItem_of_ne dialect here hne rest⟩

theorem readItem_shorthand (s : Shorthand) (rest here : List Char) :
    readItem dialect here '\\' (s.letter :: rest) = .ok ((s.toClass dialect).asItem, rest) := by
  obtain ⟨kind, negate⟩ := s
  cases kind <;> cases negate <;> rfl

theorem kindOf_items (kind : Shorthand.Kind) :
    Shorthand.kindOf (Shorthand.items dialect kind) = kind := by
  cases kind <;> rfl

theorem readMember_writeItem {item : ClassItem} (h : item.WellFormed dialect) {rest : List Char}
    (hr : rest.head? ≠ some '-') :
    ∃ first tail, writeItem item ++ rest = first :: tail ∧ BeginsWritten first ∧
      readMember dialect first tail = .ok ([item], rest) := by
  cases h with
  | char c =>
    obtain ⟨first, tail, hw, hb, hread⟩ := readItem_writeChar dialect c rest
    refine ⟨first, tail, hw, hb, ?_⟩
    rw [readMember, hread, Reading.ok_andThen, rangeEnd?_of_head? hr]
  | @range lo hi hle =>
    obtain ⟨first', tail', hw', hb', hread'⟩ := readItem_writeChar dialect hi rest
    obtain ⟨first, tail, hw, hb, hread⟩ :=
      readItem_writeChar dialect lo ('-' :: first' :: tail')
    refine ⟨first, tail, ?_, hb, ?_⟩
    · rw [writeItem, List.append_assoc, List.cons_append, hw', hw]
    · have hend : rangeEnd? dialect ('-' :: first' :: tail') = some (first', tail') := by
        rw [rangeEnd?, if_neg]
        rintro (h | h)
        · exact hb'.ne (by decide) (by decide) h
        · exact hb'.ne (by decide) (by decide) h.2
      rw [readMember, hread, Reading.ok_andThen, hend]
      show readRange dialect _ lo first' tail' = _
      rw [readRange, hread', Reading.ok_andThen, joinRange, if_neg (Char.not_lt.2 hle)]
      rfl
  | shorthand s =>
    refine ⟨'\\', s.letter :: rest, ?_, .inl rfl, ?_⟩
    · show '\\' :: Shorthand.letter ⟨Shorthand.kindOf (Shorthand.items dialect s.kind), s.negate⟩ ::
        rest = _
      rw [kindOf_items]
    · rw [readMember, readItem_shorthand]
      rfl

theorem refused?_of_beginsWritten {c : Char} (h : BeginsWritten c) (text : List Char) :
    refused? c text = none := by
  unfold refused?
  rw [if_neg (h.ne (by decide) (by decide)), if_neg]
  rintro ⟨rfl | rfl | rfl, -⟩
  all_goals exact h.ne (by decide) (by decide) rfl

/-- Written items are read up to the closing bracket. What they begin with is never one of the
signs that have a meaning there. -/
theorem readMembers_write {items : List ClassItem} (h : ∀ item ∈ items, item.WellFormed dialect)
    (opening rest : List Char) :
    ∃ first tail, items.flatMap writeItem ++ ']' :: rest = first :: tail ∧
      (BeginsWritten first ∨ items = [] ∧ first = ']') ∧
      readMembers dialect opening (first :: tail) = .ok (items, rest) := by
  induction items with
  | nil =>
    exact ⟨']', rest, rfl, .inr ⟨rfl, rfl⟩,
      readMembers_cons_eq_ok_iff.2 ⟨fun _ => rfl, .inl ⟨rfl, rfl, rfl⟩⟩⟩
  | cons item items ih =>
    rw [List.forall_mem_cons] at h
    obtain ⟨next, text, hw, hb, hread⟩ := ih h.2
    have hhead : (next :: text).head? ≠ some '-' := by
      rintro heq
      cases heq
      rcases hb with hb | ⟨-, hb⟩
      · exact hb.ne (by decide) (by decide) rfl
      · cases hb
    obtain ⟨first, tail, hw', hb', hm⟩ := readMember_writeItem h.1 hhead
    refine ⟨first, tail, ?_, .inl hb', ?_⟩
    · rw [List.flatMap_cons, List.append_assoc, hw, hw']
    · exact readMembers_cons_eq_ok_iff.2 ⟨fun _ => refused?_of_beginsWritten hb' tail,
        .inr ⟨hb'.ne (by decide) (by decide), _, _, _, hm, hread, rfl⟩⟩

theorem read_write {cls : CharClass} (h : cls.WellFormed dialect) (opening rest : List Char) :
    ∃ text, writeClass cls ++ rest = '[' :: text ∧ read dialect opening text = .ok (cls, rest) := by
  obtain ⟨negate, items⟩ := cls
  obtain ⟨first, tail, hw, hb, hread⟩ := readMembers_write h.items opening rest
  have hfirst : takeFirst dialect (first :: tail) = ([], first :: tail) := by
    refine takeFirst_of_head? fun hd => ?_
    rcases hb with hb | ⟨hnil, -⟩
    · exact hb.head?_ne (by decide) (by decide) tail
    · exact absurd hnil (h.ne_nil hd)
  have hne : (first :: tail).head? ≠ some '^' := by
    rcases hb with hb | ⟨-, rfl⟩
    · exact hb.head?_ne (by decide) (by decide) tail
    · nofun
  refine ⟨(if negate then ['^'] else []) ++ first :: tail, ?_, ?_⟩
  · rw [← hw]
    simp [writeClass]
  · have hneg : takeNegation ((if negate then ['^'] else []) ++ first :: tail) =
        (negate, first :: tail) := by
      cases negate with
      | true => rfl
      | false => exact takeNegation_of_head? hne
    rw [read, hneg]
    dsimp only
    rw [hfirst]
    dsimp only
    rw [hread]
    rfl

end ClassText

/-! ## Lexemes -/

namespace Lexeme

/-- Neither a digit nor the mark of a lazy quantifier comes next. -/
def Clear (text : List Char) : Prop := ∀ c ∈ text.head?, c.isDigit = false ∧ c ≠ '?'

theorem clear_of_beginsWritten {c : Char} (h : BeginsWritten c) (text : List Char) :
    Clear (c :: text) := by
  rintro _ ⟨⟩
  refine ⟨?_, h.ne (by decide) (by decide)⟩
  rcases h with rfl | h
  · decide
  · cases hd : c.isDigit with
    | false => rfl
    | true =>
      simp only [Char.isDigit, Bool.and_eq_true, decide_eq_true_eq] at hd
      have hle : c.toNat ≤ '9'.toNat := hd.2
      exact absurd (Nat.le_trans h hle) (by decide)

theorem readOutside?_digit {c : Char} (hc : c.isDigit = true) (h0 : c ≠ '0')
    (here text : List Char) :
    readOutside? .lenient here c text = some (readReference here c text) := by
  rw [readOutside?, if_neg (Numeral.ne_of_isDigit hc (by decide)),
    if_neg (Numeral.ne_of_isDigit hc (by decide)), if_pos ⟨hc, h0⟩]

theorem begins_reference {n : Nat} (h1 : 1 ≤ n) (hn : n ≤ Numeral.largest) {rest : List Char}
    (hr : Clear rest) :
    Begins .lenient ('\\' :: (Nat.toDigits 10 n ++ rest)) (.atom (.reference n)) rest := by
  have hnum := Numeral.denotes_toDigits hn
  have hzero := Numeral.head?_toDigits_ne_zero (Nat.one_le_iff_ne_zero.1 h1)
  cases hd : Nat.toDigits 10 n with
  | nil => exact absurd hd Nat.toDigits_ne_nil
  | cons c digits =>
    rw [hd] at hnum hzero
    have hc := hnum.isDigit c List.mem_cons_self
    have h0 : c ≠ '0' := fun heq => hzero (congrArg some heq)
    have hclear : ∀ c ∈ rest.head?, c.isDigit = false := fun c hc => (hr c hc).1
    have hread := takeWhile_digits hnum hclear
    have hdrop := dropWhile_digits hnum hclear
    rw [List.cons_append, List.takeWhile_cons_of_pos hc] at hread
    rw [List.cons_append, List.dropWhile_cons_of_pos hc] at hdrop
    refine ⟨'\\', c :: (digits ++ rest), rfl, ?_⟩
    show (readEscape .lenient _ _).andThen _ = _
    rw [readEscape, readOutside?_digit hc h0]
    dsimp only
    rw [readReference, hread, hdrop, hnum.read?]
    rfl

theorem begins_anchor (anchor : Anchor) (rest : List Char) :
    Begins dialect (writeAnchor dialect anchor ++ rest) (.atom (.position anchor)) rest := by
  cases anchor <;> cases dialect <;> exact ⟨_, _, rfl, rfl⟩

theorem begins_opening (o : Opening) {rest : List Char} (hr : Clear rest) :
    Begins dialect (writeOpening o ++ rest) (.opening o) rest := by
  cases o with
  | capturing =>
    refine ⟨'(', rest, rfl, ?_⟩
    show (readOpening dialect _ rest).andThen _ = _
    rw [readOpening_of_head? fun heq => (hr '?' heq).2 rfl]
    rfl
  | plain => exact ⟨_, _, rfl, rfl⟩
  | looking look => cases look <;> exact ⟨_, _, rfl, rfl⟩

theorem quantifierText_writeBounds {min : Nat} {max : Option Nat} (h : BoundsInOrder min max) :
    QuantifierText (writeBounds min max) min max := by
  obtain ⟨hle, hmax⟩ := h
  have hmin := Numeral.denotes_toDigits (Nat.le_trans hle hmax)
  cases max with
  | some max => exact .between hmin (Numeral.denotes_toDigits hmax) hle
  | none => exact .atLeast hmin

/-- A written lexeme is read as itself. -/
theorem begins_write {l : Lexeme} (hl : l.WellFormed dialect) {rest : List Char} (hr : Clear rest) :
    Begins dialect (l.write dialect ++ rest) l rest := by
  cases l with
  | atom a =>
    cases a with
    | literal c => exact begins_spelling (spelling_writeChar dialect c) rest
    | position anchor => exact begins_anchor anchor rest
    | charClass cls =>
      obtain ⟨text, hw, hread⟩ := ClassText.read_write hl (writeClass cls ++ rest) rest
      refine ⟨'[', text, hw, ?_⟩
      show (ClassText.read dialect _ text).andThen _ = _
      rw [← hw, hread]
      rfl
    | reference n =>
      obtain ⟨rfl, h1, hn⟩ := hl
      exact begins_reference h1 hn hr
  | quantifier min max =>
    have hlazy : rest.head? ≠ some '?' := fun heq => (hr '?' heq).2 rfl
    have h : Begins dialect _ _ _ := begins_quantifier (quantifierText_writeBounds hl) rest
    rwa [dropLazy_of_head? hlazy] at h
  | opening o => exact begins_opening o hr
  | closing => exact ⟨_, _, rfl, rfl⟩
  | bar => exact ⟨_, _, rfl, rfl⟩

/-- What a written lexeme begins with. -/
theorem exists_write (dialect : Dialect) (l : Lexeme) :
    ∃ c text, l.write dialect = c :: text ∧ (BeginsWritten c ∨ c ∈ signs ∧ c ≠ '?') := by
  cases l with
  | atom a =>
    cases a with
    | literal c =>
      rcases writeChar_eq c [] with ⟨-, hw⟩ | ⟨hge, hw⟩
      · rw [List.append_nil] at hw
        exact ⟨_, _, hw, .inl (.inl rfl)⟩
      · rw [List.append_nil] at hw
        exact ⟨_, _, hw, .inl (.inr hge)⟩
    | position anchor => cases anchor <;> cases dialect <;> exact ⟨_, _, rfl, .inr (by decide)⟩
    | charClass cls => exact ⟨_, _, rfl, .inr (by decide)⟩
    | reference n => exact ⟨_, _, rfl, .inr (by decide)⟩
  | quantifier min max => cases max <;> exact ⟨_, _, rfl, .inr (by decide)⟩
  | opening o =>
    cases o with
    | looking look => cases look <;> exact ⟨_, _, rfl, .inr (by decide)⟩
    | capturing | plain => exact ⟨_, _, rfl, .inr (by decide)⟩
  | closing | bar => exact ⟨_, _, rfl, .inr (by decide)⟩

theorem clear_write (l : Lexeme) (rest : List Char) : Clear (l.write dialect ++ rest) := by
  obtain ⟨c, text, hw, h⟩ := exists_write dialect l
  have hsigns : ∀ c ∈ signs, c.isDigit = false := by simp [signs]
  rw [hw, List.cons_append]
  rcases h with h | ⟨hmem, hne⟩
  · exact clear_of_beginsWritten h _
  · rintro _ ⟨⟩
    exact ⟨hsigns c hmem, hne⟩

/-- Written lexemes spell these lexemes. -/
theorem spells_write {lexemes : List Lexeme} (h : ∀ l ∈ lexemes, l.WellFormed dialect) :
    Spells dialect (lexemes.flatMap (write dialect)) lexemes := by
  induction lexemes with
  | nil => exact .nil
  | cons l lexemes ih =>
    rw [List.forall_mem_cons] at h
    rw [List.flatMap_cons]
    refine (begins_write h.1 ?_).spells (ih h.2)
    cases lexemes with
    | nil => nofun
    | cons next lexemes => exact clear_write next _

end Lexeme

/-! ## Token trees -/

theorem wellFormed_branchLexemes {branches : List (List Token)}
    (h : ∀ tokens ∈ branches, ∀ token ∈ tokens, ∀ l ∈ token.lexemes, l.WellFormed dialect) :
    ∀ l ∈ Token.branchLexemes branches, l.WellFormed dialect := by
  have hall : ∀ {tokens : List Token}, (∀ token ∈ tokens, ∀ l ∈ token.lexemes,
      l.WellFormed dialect) → ∀ l ∈ Token.lexemesAll tokens, l.WellFormed dialect := by
    intro tokens ht l hl
    rw [Token.lexemesAll_eq] at hl
    obtain ⟨token, hmem, hl⟩ := List.mem_flatMap.1 hl
    exact ht token hmem l hl
  induction branches with
  | nil => nofun
  | cons tokens branches ih =>
    rw [List.forall_mem_cons] at h
    cases branches with
    | nil => exact hall h.1
    | cons next branches =>
      rw [Token.branchLexemes, List.forall_mem_append, List.forall_mem_cons]
      exact ⟨hall h.1, trivial, ih h.2⟩

theorem wellFormed_lexemes_body {body : Body} (h : ∀ tokens ∈ body.branches, ∀ token ∈ tokens,
    ∀ l ∈ token.lexemes, l.WellFormed dialect) : ∀ l ∈ body.lexemes, l.WellFormed dialect := by
  rw [Body.lexemes_eq]
  exact wellFormed_branchLexemes h

/-- All lexemes of a well-formed token are well formed. -/
theorem wellFormed_lexemes {token : Token} (h : token.WellFormed dialect) :
    ∀ l ∈ token.lexemes, l.WellFormed dialect := by
  induction h with
  | atom ha => exact List.forall_mem_singleton.2 ha
  | repetition _ hb _ ih =>
    rw [Token.lexemes, List.forall_mem_append]
    exact ⟨ih, List.forall_mem_singleton.2 hb⟩
  | group _ _ _ ih =>
    rw [Token.lexemes, List.forall_mem_cons, List.forall_mem_append]
    exact ⟨trivial, wellFormed_lexemes_body ih, List.forall_mem_singleton.2 trivial⟩

/-! ## Flags -/

theorem readInlineFlags_write (flags : Flags) (text : List Char) :
    readInlineFlags (writeFlags flags ++ text) = .ok (flags, text) := by
  obtain ⟨i, m⟩ := flags
  cases i <;> cases m <;> rfl

/-! ## Whole patterns -/

/-- Every well-formed pattern can be written: reading what is written gives the pattern back. -/
theorem parse_write {pattern : Pattern} (h : pattern.WellFormed dialect) :
    parse dialect (pattern.write dialect) = .ok pattern := by
  obtain ⟨root, groupCount, inlineFlags⟩ := pattern
  obtain ⟨⟨body, rfl, hbody⟩, hcaptures⟩ := h
  have hspells : Lexeme.Spells dialect (body.lexemes.flatMap (Lexeme.write dialect)) body.lexemes :=
    Lexeme.spells_write (wellFormed_lexemes_body fun tokens hts token ht =>
      wellFormed_lexemes (hbody.tokens tokens hts token ht))
  have hread := readBody_eq_ok_iff.2 ⟨hspells, hbody, hcaptures⟩
  rw [parse, readPattern, write, readInlineFlags_write]
  dsimp only [Token.body]
  rw [hread]
  rfl

/-- A captured sign of some, the same one again, and a digit that is no part of its number. -/
def mirrored : Pattern :=
  let sign : CharClass := ⟨false, [.char '^', .char '-', .range '&' ']']⟩
  let body : Body :=
    .sequence [.group { capture := some 1 } (.sequence [.atom (.charClass sign)]),
      .atom (.reference 1), .atom (.literal '1')]
  ⟨.group { role := .root } body, 1, { multiline := true }⟩

theorem wellFormed_mirrored : mirrored.WellFormed .lenient := by
  have hsign : CharClass.WellFormed .lenient ⟨false, [.char '^', .char '-', .range '&' ']']⟩ := by
    refine ⟨fun item hitem => ?_, nofun⟩
    simp only [List.mem_cons, List.not_mem_nil, or_false] at hitem
    obtain rfl | rfl | rfl := hitem
    · exact .char '^'
    · exact .char '-'
    · exact .range (by decide)
  refine ⟨⟨_, rfl, nofun, fun tokens ht token hmem => ?_⟩, rfl⟩
  rw [List.mem_singleton.1 ht] at hmem
  simp only [List.mem_cons, List.not_mem_nil, or_false] at hmem
  obtain rfl | rfl | rfl := hmem
  · refine .group ⟨rfl, .inr rfl⟩ nofun fun tokens ht token hmem => ?_
    rw [List.mem_singleton.1 ht] at hmem
    rw [List.mem_singleton.1 hmem]
    exact .atom hsign
  · exact .atom ⟨rfl, by decide, by decide⟩
  · exact .atom trivial

theorem parse_write_mirrored :
    mirrored.WellFormed .lenient ∧
      parse .lenient (mirrored.write .lenient) = .ok mirrored :=
  ⟨wellFormed_mirrored, parse_write wellFormed_mirrored⟩

end Pattern

end PatternGen
