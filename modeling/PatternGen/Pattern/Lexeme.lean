import PatternGen.Pattern.ClassText

/-!
# Lexemes

The pieces of a pattern text that mean something by themselves: atoms, quantifiers, the two
brackets of a group, and the bar between branches. Where a lexeme ends depends on the text that
follows and never on the text before, so a whole text is read one lexeme after the other. These are
the parts of `parse_atom`, `parse_escape` and `parse_group` that take characters; what these methods
do with the tokens before is left to the assembly of the lexemes.

Results:
* `Lexeme.read_suffix`: what is left after a lexeme is the end of the text that was read.
-/

namespace PatternGen.Pattern

/-- How a group begins. -/
inductive Opening where
  | capturing
  | plain
  | looking (look : Lookaround)
deriving DecidableEq, Repr

/-- A piece of a pattern text. -/
inductive Lexeme where
  | atom (a : Atom)
  | quantifier (min : Nat) (max : Option Nat)
  | opening (o : Opening)
  | closing
  | bar

namespace Lexeme

/-! ## Escapes outside of classes -/

/-- What an escape stands for as a token of its own: the end of `parse_escape`. -/
def atomOf (dialect : Dialect) : Escape → Atom
  | .char c => .literal c
  | .shorthand s => .charClass (s.toClass dialect)

/-- Reads what may follow the letter of a strict word boundary, in `parse_escape`: the kind of
boundary, in braces. -/
def readBoundary (here : List Char) : List Char → Reading Atom
  | '{' :: text =>
    match text.dropWhile (· ≠ '}') with
    | [] => invalid .unterminatedBoundary here
    | _ :: rest => .ok (.position .wordBoundary, rest)
  | text => .ok (.position .wordBoundary, text)

theorem readBoundary_of_head? {here text : List Char} (h : text.head? ≠ some '{') :
    readBoundary here text = .ok (.position .wordBoundary, text) := by
  unfold readBoundary
  split
  · exact absurd rfl h
  · rfl

/-- Reads a reference to a group whose number begins with the digit `c`, in `parse_escape`. -/
def readReference (here : List Char) (c : Char) (text : List Char) : Reading Atom :=
  match Numeral.read? (c :: text.takeWhile Char.isDigit) with
  | some n => .ok (.reference n, text.dropWhile Char.isDigit)
  | none => invalid .backreferenceOutOfRange here

/-- The place that an escape of the strict dialect stands for. -/
def strictAnchor? : Char → Option Anchor
  | 'A' => some .start
  | 'z' => some .stop
  | '<' => some .wordBoundary
  | '>' => some .wordBoundary
  | _ => none

/-- Reads an escape with a meaning that it has outside of classes only. -/
def readOutside? (dialect : Dialect) (here : List Char) (c : Char) (text : List Char) :
    Option (Reading Atom) :=
  if c = 'B' then some (.ok (.position .nonWordBoundary, text))
  else
    match dialect with
    | .lenient =>
      if c = 'b' then some (.ok (.position .wordBoundary, text))
      else if c.isDigit ∧ c ≠ '0' then some (readReference here c text)
      else none
    | .strict =>
      if c = 'b' then some (readBoundary here text)
      else (strictAnchor? c).map fun anchor => .ok (.position anchor, text)

/-- Reads an escape from behind its backslash on (`parse_escape`). -/
def readEscape (dialect : Dialect) (here : List Char) : List Char → Reading Atom
  | [] => invalid .trailingBackslash here
  | c :: text =>
    match readOutside? dialect here c text with
    | some reading => reading
    | none => (Escape.read dialect here c text).andThen fun e rest => .ok (atomOf dialect e, rest)

/-! ## Quantifiers -/

/-- Drops the mark of a lazy quantifier, which changes how a text is matched and not which texts
are, as `push_repetition` does. -/
def dropLazy : List Char → List Char
  | '?' :: text => text
  | text => text

theorem dropLazy_of_head? {text : List Char} (h : text.head? ≠ some '?') :
    dropLazy text = text := by
  unfold dropLazy
  split
  · exact absurd rfl h
  · rfl

/-- The bounds that stand in braces, from behind the opening brace on (`parse_braces`, with
`take_number` for the numbers). -/
def readBounds? (text : List Char) : Option ((Nat × Option Nat) × List Char) :=
  match Numeral.read? (text.takeWhile Char.isDigit), text.dropWhile Char.isDigit with
  | some min, '}' :: rest => some ((min, some min), rest)
  | some min, ',' :: '}' :: rest => some ((min, none), rest)
  | some min, ',' :: text =>
    match Numeral.read? (text.takeWhile Char.isDigit), text.dropWhile Char.isDigit with
    | some max, '}' :: rest => some ((min, some max), rest)
    | _, _ => none
  | _, _ => none

/-- Reads a quantifier in braces from behind the opening brace on, as `parse_atom` does. A brace
that begins no quantifier is a character. -/
def readBraces (here : List Char) (text : List Char) : Reading Lexeme :=
  match readBounds? text with
  | none => .ok (.atom (.literal '{'), text)
  | some ((min, some max), rest) =>
    if max < min then invalid .boundsOutOfOrder here
    else .ok (.quantifier min (some max), dropLazy rest)
  | some ((min, none), rest) => .ok (.quantifier min none, dropLazy rest)

/-! ## Groups -/

/-- Drops the name of a group and the bracket that ends it (`parse_group_name`). -/
def readName (here : List Char) (text : List Char) : Reading Opening :=
  match text.takeWhile (· ≠ '>'), text.dropWhile (· ≠ '>') with
  | _ :: _, _ :: rest => .ok (.capturing, rest)
  | _, _ => invalid .invalidGroupName here

/-- Reads what follows `(?<`. -/
def readAngle (dialect : Dialect) (here : List Char) : List Char → Reading Opening
  | '=' :: rest => .ok (.looking .precededBy, rest)
  | '!' :: rest => .ok (.looking .notPrecededBy, rest)
  | text =>
    match dialect with
    | .lenient => unsupported .namedGroup here
    | .strict => readName here text

/-- Reads what follows `(?`. -/
def readForm (dialect : Dialect) (here : List Char) : List Char → Reading Opening
  | [] => invalid .unterminatedGroup here
  | ':' :: rest => .ok (.plain, rest)
  | '=' :: rest => .ok (.looking .followedBy, rest)
  | '!' :: rest => .ok (.looking .notFollowedBy, rest)
  | '<' :: text => readAngle dialect here text
  | c :: text =>
    match dialect, c, text with
    | .strict, 'P', '<' :: text => readName here text
    | _, _, _ => unsupported (.groupForm c) here

/-- Reads the beginning of a group from behind its bracket on: `parse_group` up to the body. -/
def readOpening (dialect : Dialect) (here : List Char) : List Char → Reading Opening
  | '?' :: text => readForm dialect here text
  | text => .ok (.capturing, text)

theorem readOpening_of_head? {dialect : Dialect} {here text : List Char}
    (h : text.head? ≠ some '?') : readOpening dialect here text = .ok (.capturing, text) := by
  unfold readOpening
  split
  · exact absurd rfl h
  · rfl

/-! ## Any lexeme -/

/-- Reads the lexeme that begins with the character `c` (`parse_atom`; the bar and the closing
bracket are taken in `parse_body`). -/
def read (dialect : Dialect) (c : Char) (text : List Char) : Reading Lexeme :=
  let here := c :: text
  match c with
  | ')' => .ok (.closing, text)
  | '|' => .ok (.bar, text)
  | '^' => .ok (.atom (.position .start), text)
  | '$' => .ok (.atom (.position .stop), text)
  | '.' => .ok (.atom (.charClass .notLineEnd), text)
  | '*' => .ok (.quantifier 0 none, dropLazy text)
  | '+' => .ok (.quantifier 1 none, dropLazy text)
  | '?' => .ok (.quantifier 0 (some 1), dropLazy text)
  | '{' => readBraces here text
  | '\\' => (readEscape dialect here text).andThen fun a rest => .ok (.atom a, rest)
  | '[' => (ClassText.read dialect here text).andThen fun cls rest =>
      .ok (.atom (.charClass cls), rest)
  | '(' => (readOpening dialect here text).andThen fun o rest => .ok (.opening o, rest)
  | c => .ok (.atom (.literal c), text)

/-- The characters that do not stand for themselves. -/
def signs : List Char := [')', '|', '^', '$', '.', '*', '+', '?', '{', '\\', '[', '(']

theorem read_of_not_mem_signs {dialect : Dialect} {c : Char} (h : c ∉ signs) (text : List Char) :
    read dialect c text = .ok (.atom (.literal c), text) := by
  unfold read
  dsimp only
  split
  case h_13 => rfl
  all_goals exact absurd (by decide) h

/-! ## What is left -/

theorem readBoundary_suffix {here text rest : List Char} {a : Atom}
    (h : readBoundary here text = .ok (a, rest)) : rest <:+ text := by
  unfold readBoundary at h
  split at h
  · next text =>
    split at h
    · cases h
    · next c rest' hd =>
      cases h
      have := List.dropWhile_suffix (l := text) (· ≠ '}')
      rw [hd] at this
      exact ((List.suffix_cons c _).trans this).trans (List.suffix_cons _ _)
  · cases h
    exact List.suffix_refl _

theorem readReference_suffix {here text rest : List Char} {c : Char} {a : Atom}
    (h : readReference here c text = .ok (a, rest)) : rest <:+ text := by
  unfold readReference at h
  split at h
  · cases h
    exact List.dropWhile_suffix _
  · cases h

theorem readOutside?_suffix {dialect : Dialect} {here text rest : List Char} {c : Char} {a : Atom}
    (h : readOutside? dialect here c text = some (.ok (a, rest))) : rest <:+ text := by
  unfold readOutside? at h
  split at h
  · cases h; exact List.suffix_refl _
  · split at h
    · split at h
      · cases h; exact List.suffix_refl _
      · split at h
        · exact readReference_suffix (Option.some.inj h)
        · cases h
    · split at h
      · exact readBoundary_suffix (Option.some.inj h)
      · obtain ⟨anchor, -, h⟩ := Option.map_eq_some_iff.1 h
        cases h
        exact List.suffix_refl _

theorem readEscape_suffix {dialect : Dialect} {here text rest : List Char} {a : Atom}
    (h : readEscape dialect here text = .ok (a, rest)) : rest <:+ text := by
  unfold readEscape at h
  split at h
  · cases h
  · next c text =>
    refine List.IsSuffix.trans ?_ (List.suffix_cons c text)
    split at h
    · next hr => exact readOutside?_suffix (h ▸ hr)
    · obtain ⟨e, left, he, h⟩ := Reading.andThen_eq_ok_iff.1 h
      cases h
      exact Escape.read_suffix he

theorem dropLazy_suffix (text : List Char) : dropLazy text <:+ text := by
  unfold dropLazy
  split
  · exact List.suffix_cons _ _
  · exact List.suffix_refl _

theorem readBounds?_suffix {text rest : List Char} {bounds : Nat × Option Nat}
    (h : readBounds? text = some (bounds, rest)) : rest <:+ text := by
  have hs := List.dropWhile_suffix (l := text) Char.isDigit
  unfold readBounds? at h
  split at h
  · next hd =>
    cases h
    exact (List.suffix_cons _ _).trans (hd ▸ hs)
  · next hd =>
    cases h
    exact ((List.suffix_cons _ _).trans (List.suffix_cons _ _)).trans (hd ▸ hs)
  · next text' _ _ hd =>
    have hs' := List.dropWhile_suffix (l := text') Char.isDigit
    split at h
    · next hd' =>
      cases h
      exact (((List.suffix_cons _ _).trans (hd' ▸ hs')).trans (List.suffix_cons _ _)).trans
        (hd ▸ hs)
    · cases h
  · cases h

theorem readBraces_suffix {here text rest : List Char} {l : Lexeme}
    (h : readBraces here text = .ok (l, rest)) : rest <:+ text := by
  unfold readBraces at h
  split at h
  · cases h; exact List.suffix_refl _
  · next hb =>
    split at h
    · cases h
    · cases h; exact (dropLazy_suffix _).trans (readBounds?_suffix hb)
  · next hb => cases h; exact (dropLazy_suffix _).trans (readBounds?_suffix hb)

theorem readName_suffix {here text rest : List Char} {o : Opening}
    (h : readName here text = .ok (o, rest)) : rest <:+ text := by
  have hs := List.dropWhile_suffix (l := text) (· ≠ '>')
  unfold readName at h
  split at h
  · next hd =>
    cases h
    exact (List.suffix_cons _ _).trans (hd ▸ hs)
  · cases h

theorem readAngle_suffix {dialect : Dialect} {here text rest : List Char} {o : Opening}
    (h : readAngle dialect here text = .ok (o, rest)) : rest <:+ text := by
  unfold readAngle at h
  split at h
  · cases h; exact List.suffix_cons _ _
  · cases h; exact List.suffix_cons _ _
  · split at h
    · cases h
    · exact readName_suffix h

theorem readForm_suffix {dialect : Dialect} {here text rest : List Char} {o : Opening}
    (h : readForm dialect here text = .ok (o, rest)) : rest <:+ text := by
  unfold readForm at h
  split at h
  · cases h
  · cases h; exact List.suffix_cons _ _
  · cases h; exact List.suffix_cons _ _
  · cases h; exact List.suffix_cons _ _
  · exact (readAngle_suffix h).trans (List.suffix_cons _ _)
  · split at h
    · exact ((readName_suffix h).trans (List.suffix_cons _ _)).trans (List.suffix_cons _ _)
    · cases h

theorem readOpening_suffix {dialect : Dialect} {here text rest : List Char} {o : Opening}
    (h : readOpening dialect here text = .ok (o, rest)) : rest <:+ text := by
  unfold readOpening at h
  split at h
  · exact (readForm_suffix h).trans (List.suffix_cons _ _)
  · cases h; exact List.suffix_refl _

theorem read_suffix {dialect : Dialect} {c : Char} {text rest : List Char} {l : Lexeme}
    (h : read dialect c text = .ok (l, rest)) : rest <:+ text := by
  unfold read at h
  dsimp only at h
  split at h
  case h_6 | h_7 | h_8 => cases h; exact dropLazy_suffix _
  case h_9 => exact readBraces_suffix h
  case h_10 =>
    obtain ⟨a, left, ha, h⟩ := Reading.andThen_eq_ok_iff.1 h
    cases h
    exact readEscape_suffix ha
  case h_11 =>
    obtain ⟨cls, left, hc, h⟩ := Reading.andThen_eq_ok_iff.1 h
    cases h
    exact ClassText.read_suffix hc
  case h_12 =>
    obtain ⟨o, left, ho, h⟩ := Reading.andThen_eq_ok_iff.1 h
    cases h
    exact readOpening_suffix ho
  all_goals cases h; exact List.suffix_refl _

/-! ## A whole text -/

/-- A lexeme, with the text from its first character on. -/
structure Placed where
  lexeme : Lexeme
  here : List Char

/-- The lexemes of a text up to the first fault, and that fault if there is one. -/
def readAll (dialect : Dialect) : List Char → List Placed × Option Fault
  | [] => ([], none)
  | c :: text =>
    match _h : read dialect c text with
    | .error fault => ([], some fault)
    | .ok (lexeme, rest) =>
      let (more, fault) := readAll dialect rest
      (⟨lexeme, c :: text⟩ :: more, fault)
termination_by text => text.length
decreasing_by
  have := (read_suffix _h).length_le
  simp only [List.length_cons]
  omega

end Lexeme

end PatternGen.Pattern
