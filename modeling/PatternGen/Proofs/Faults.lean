import PatternGen.Pattern.Parse

/-!
# Where faults lie

A text that is no pattern is refused at one of its characters. Which character that can be is
decided by the reason alone: the bracket that is not closed, the backslash of an escape, the
quantifier with nothing before it. A construct that is known and not generated from begins there.

A reader has the text from a construct on from its caller, and reports it as the place of a fault.
That this text is a part of the whole one, and what it begins with, is shown for one reader after
the other, and then kept by the assembly for the groups that are open.

Results:
* `Lexeme.liesIn_readAll`: the fault of a text, and where each lexeme before it lies.
* `Assembly.liesIn_takeAll`: the faults of an assembly.
* `liesIn_readPattern`: the fault of a whole pattern.
* `parse_error_at`: the offset of an error is that of a character, which fits the error.
-/

namespace PatternGen.Pattern

/-! ## Places -/

/-- The text may be refused for this reason at this character. Only a range out of order can begin
with any character. -/
def Reason.LiesAt : Reason → Char → Prop
  | .unmatchedClose, c => c = ')'
  | .unterminatedGroup, c => c = '('
  | .invalidGroupName, c => c = '('
  | .unterminatedClass, c => c = '['
  | .rangeOutOfOrder, _ => True
  | .boundsOutOfOrder, c => c = '{'
  | .nothingToRepeat, c => c ∈ ['*', '+', '?', '{']
  | .trailingBackslash, c => c = '\\'
  | .backreferenceOutOfRange, c => c = '\\'
  | .invalidHexEscape, c => c = '\\'
  | .unterminatedBoundary, c => c = '\\'

/-- What a text has where the construct is. Constructs with a name that is not known to the error
begin with what stands before the name; the others are reported as they are written. -/
def Construct.beginning : Construct → List Char
  | .verboseMode => ['(', '?']
  | .namedGroup => ['(', '?', '<']
  | .posixClass => ['[', ':']
  | .nestedClass => ['[']
  | construct => construct.text.toList

theorem Construct.beginning_escape (c : Char) : (Construct.escape c).beginning = ['\\', c] := by
  simp [beginning, text]

theorem Construct.beginning_groupForm (c : Char) :
    (Construct.groupForm c).beginning = ['(', '?', c] := by
  simp [beginning, text]

theorem Construct.beginning_classOperator (c : Char) :
    (Construct.classOperator c).beginning = [c, c] := by
  simp [beginning, text]

theorem Construct.beginning_ne_nil (construct : Construct) : construct.beginning ≠ [] := by
  cases construct with
  | escape c => simp [beginning_escape]
  | groupForm c => simp [beginning_groupForm]
  | classOperator c => simp [beginning_classOperator]
  | verboseMode | namedGroup | posixClass | nestedClass => exact List.cons_ne_nil _ _

/-- The cause fits a text from the offending construct on. -/
def Cause.LiesAt : Cause → List Char → Prop
  | .invalid reason, here => ∃ c ∈ here.head?, reason.LiesAt c
  | .unsupported construct, here => construct.beginning <+: here

/-- A cause lies at a character. -/
theorem Cause.LiesAt.exists_cons {cause : Cause} {here : List Char} (h : cause.LiesAt here) :
    ∃ c rest, here = c :: rest := by
  cases here with
  | cons c rest => exact ⟨c, rest, rfl⟩
  | nil =>
    cases cause with
    | invalid reason =>
      obtain ⟨_, hc, _⟩ := h
      cases hc
    | unsupported construct =>
      exact absurd (List.prefix_nil.1 h) construct.beginning_ne_nil

/-- The fault lies in a text, at a place that fits its cause. -/
structure Fault.LiesIn (fault : Fault) (text : List Char) : Prop where
  here : fault.here <:+ text
  cause : fault.cause.LiesAt fault.here

theorem Fault.LiesIn.mono {fault : Fault} {text whole : List Char} (h : fault.LiesIn text)
    (hs : text <:+ whole) : fault.LiesIn whole :=
  ⟨h.here.trans hs, h.cause⟩

section

variable {α : Type} {fault : Fault} {here text : List Char}

theorem liesIn_invalid {reason : Reason} {c : Char}
    (h : (invalid reason (c :: text) : Except Fault α) = .error fault) (hc : reason.LiesAt c) :
    fault.LiesIn (c :: text) := by
  cases h
  exact ⟨List.suffix_refl _, c, rfl, hc⟩

theorem liesIn_unsupported {construct : Construct}
    (h : (unsupported construct here : Except Fault α) = .error fault)
    (hc : construct.beginning <+: here) : fault.LiesIn here := by
  cases h
  exact ⟨List.suffix_refl _, hc⟩

end

variable {dialect : Dialect} {fault : Fault} {text : List Char} {c : Char}

/-! ## Escapes -/

namespace Escape

theorem beginning_escape_cons (c : Char) (text : List Char) :
    (Construct.escape c).beginning <+: '\\' :: c :: text := by
  rw [Construct.beginning_escape]
  exact List.prefix_append ['\\', c] text

theorem liesIn_readLenient (h : readLenient ('\\' :: c :: text) c text = .error fault) :
    fault.LiesIn ('\\' :: c :: text) := by
  unfold readLenient at h
  split at h
  case h_5 | h_6 | h_7 => exact liesIn_unsupported h (beginning_escape_cons _ _)
  all_goals cases h

theorem liesIn_readStrict (h : readStrict ('\\' :: c :: text) c text = .error fault) :
    fault.LiesIn ('\\' :: c :: text) := by
  unfold readStrict at h
  split at h
  · cases h
  · split at h
    · split at h
      · cases h
      · exact liesIn_invalid h rfl
    · split at h
      · exact liesIn_unsupported h (beginning_escape_cons _ _)
      · cases h

theorem liesIn_read (h : read dialect ('\\' :: c :: text) c text = .error fault) :
    fault.LiesIn ('\\' :: c :: text) := by
  unfold read at h
  split at h
  · cases h
  · cases h
  · exact liesIn_readLenient h
  · exact liesIn_readStrict h

end Escape

/-! ## Classes -/

namespace ClassText

theorem liesIn_readItem (h : readItem dialect (c :: text) c text = .error fault) :
    fault.LiesIn (c :: text) := by
  unfold readItem at h
  split at h
  · next hc =>
    subst hc
    split at h
    · exact liesIn_invalid h rfl
    · cases h
    · exact Escape.liesIn_read (Reading.eq_error_of_andThen h)
  · cases h

theorem liesIn_joinRange {lo : Char} {hi : ClassItem}
    (h : joinRange (c :: text) lo hi = .error fault) : fault.LiesIn (c :: text) := by
  unfold joinRange at h
  split at h
  · split at h
    · exact liesIn_invalid h trivial
    · cases h
  · cases h

/-- A range may be refused where its upper end is read, and where it begins. -/
theorem liesIn_readRange {lo c' : Char} {rest : List Char}
    (h : readRange dialect (c :: text) lo c' rest = .error fault) (hs : c' :: rest <:+ text) :
    fault.LiesIn (c :: text) := by
  rcases Reading.andThen_eq_error_iff.1 h with h | ⟨hi, left, -, h⟩
  · exact (liesIn_readItem h).mono (hs.trans (List.suffix_cons c text))
  · cases hj : joinRange (c :: text) lo hi with
    | error fault' =>
      rw [hj] at h
      cases h
      exact liesIn_joinRange hj
    | ok items =>
      rw [hj] at h
      cases h

theorem liesIn_readMember (h : readMember dialect c text = .error fault) :
    fault.LiesIn (c :: text) := by
  rcases Reading.andThen_eq_error_iff.1 h with h | ⟨item, rest, hi, h⟩
  · exact liesIn_readItem h
  · split at h
    · next hend =>
      refine liesIn_readRange h (.trans ?_ (readItem_suffix hi))
      rw [eq_of_rangeEnd? hend]
      exact List.suffix_cons _ _
    · cases h

theorem beginning_of_refused? {construct : Construct} (h : refused? c text = some construct) :
    construct.beginning <+: c :: text := by
  unfold refused? at h
  split at h
  · next hc =>
    subst hc
    split at h
    · next hcolon =>
      cases h
      obtain ⟨rest, rfl⟩ := List.head?_eq_some_iff.1 hcolon
      exact List.prefix_append ['[', ':'] rest
    · cases h
      exact List.prefix_append ['['] text
  · split at h
    · next hop =>
      cases h
      obtain ⟨rest, rfl⟩ := List.head?_eq_some_iff.1 hop.2
      rw [Construct.beginning_classOperator]
      exact List.prefix_append [c, c] rest
    · cases h

/-- Only the missing bracket is reported at the opening one. -/
theorem liesIn_readMembers {whole : List Char} (hs : text <:+ whole)
    (h : readMembers dialect ('[' :: whole) text = .error fault) : fault.LiesIn ('[' :: whole) := by
  have hwhole := List.suffix_cons '[' whole
  fun_induction readMembers dialect ('[' :: whole) text with
  | case1 => exact liesIn_invalid h rfl
  | case2 c text construct hc =>
    split at hc
    · exact (liesIn_unsupported h (beginning_of_refused? hc)).mono (hs.trans hwhole)
    · cases hc
  | case3 => cases h
  | case4 c text _ _ fault' hm =>
    cases h
    exact (liesIn_readMember hm).mono (hs.trans hwhole)
  | case5 c text _ _ items rest hm ih =>
    exact ih (((readMember_suffix hm).trans (List.suffix_cons c text)).trans hs)
      (Reading.eq_error_of_andThen h)

theorem liesIn_read (h : read dialect ('[' :: text) text = .error fault) :
    fault.LiesIn ('[' :: text) :=
  liesIn_readMembers ((takeFirst_suffix _ _).trans (takeNegation_suffix text))
    (Reading.eq_error_of_andThen h)

end ClassText

/-! ## Lexemes -/

namespace Lexeme

theorem liesIn_readBoundary {here : List Char}
    (h : readBoundary ('\\' :: here) text = .error fault) : fault.LiesIn ('\\' :: here) := by
  unfold readBoundary at h
  split at h
  · split at h
    · exact liesIn_invalid h rfl
    · cases h
  · cases h

theorem liesIn_readReference {here : List Char}
    (h : readReference ('\\' :: here) c text = .error fault) : fault.LiesIn ('\\' :: here) := by
  unfold readReference at h
  split at h
  · cases h
  · exact liesIn_invalid h rfl

theorem liesIn_readOutside? {here : List Char}
    (h : readOutside? dialect ('\\' :: here) c text = some (.error fault)) :
    fault.LiesIn ('\\' :: here) := by
  unfold readOutside? at h
  split at h
  · cases h
  · split at h
    · split at h
      · cases h
      · split at h
        · exact liesIn_readReference (Option.some.inj h)
        · cases h
    · split at h
      · exact liesIn_readBoundary (Option.some.inj h)
      · obtain ⟨_, -, h⟩ := Option.map_eq_some_iff.1 h
        cases h

theorem liesIn_readEscape (h : readEscape dialect ('\\' :: text) text = .error fault) :
    fault.LiesIn ('\\' :: text) := by
  unfold readEscape at h
  split at h
  · exact liesIn_invalid h rfl
  · split at h
    · next hr => exact liesIn_readOutside? (h ▸ hr)
    · exact Escape.liesIn_read (Reading.eq_error_of_andThen h)

theorem liesIn_readBraces (h : readBraces ('{' :: text) text = .error fault) :
    fault.LiesIn ('{' :: text) := by
  unfold readBraces at h
  split at h
  · cases h
  · split at h
    · exact liesIn_invalid h rfl
    · cases h
  · cases h

theorem liesIn_readName {here : List Char} (h : readName ('(' :: here) text = .error fault) :
    fault.LiesIn ('(' :: here) := by
  unfold readName at h
  split at h
  · cases h
  · exact liesIn_invalid h rfl

theorem liesIn_readAngle (h : readAngle dialect ('(' :: '?' :: '<' :: text) text = .error fault) :
    fault.LiesIn ('(' :: '?' :: '<' :: text) := by
  unfold readAngle at h
  split at h
  · cases h
  · cases h
  · split at h
    · exact liesIn_unsupported h (List.prefix_append ['(', '?', '<'] text)
    · exact liesIn_readName h

theorem liesIn_readForm (h : readForm dialect ('(' :: '?' :: text) text = .error fault) :
    fault.LiesIn ('(' :: '?' :: text) := by
  unfold readForm at h
  split at h
  · exact liesIn_invalid h rfl
  · cases h
  · cases h
  · cases h
  · exact liesIn_readAngle h
  · next c text _ _ _ _ =>
    split at h
    · exact liesIn_readName h
    · refine liesIn_unsupported h ?_
      rw [Construct.beginning_groupForm]
      exact List.prefix_append ['(', '?', c] text

theorem liesIn_readOpening (h : readOpening dialect ('(' :: text) text = .error fault) :
    fault.LiesIn ('(' :: text) := by
  unfold readOpening at h
  split at h
  · exact liesIn_readForm h
  · cases h

theorem liesIn_read (h : read dialect c text = .error fault) : fault.LiesIn (c :: text) := by
  unfold read at h
  dsimp only at h
  split at h
  case h_9 => exact liesIn_readBraces h
  case h_10 => exact liesIn_readEscape (Reading.eq_error_of_andThen h)
  case h_11 => exact ClassText.liesIn_read (Reading.eq_error_of_andThen h)
  case h_12 => exact liesIn_readOpening (Reading.eq_error_of_andThen h)
  all_goals cases h

/-! ### The first character of a lexeme -/

/-- The lexeme may begin with this character, as far as faults of the assembly are concerned: those
lie at brackets and quantifiers. -/
def StartsAt : Lexeme → Char → Prop
  | .closing, c => c = ')'
  | .opening _, c => c = '('
  | .quantifier _ _, c => c ∈ ['*', '+', '?', '{']
  | _, _ => True

/-- Braces hold a quantifier or are a character; they are no bracket of a group. -/
theorem startsAt_readBraces {here rest : List Char} {l : Lexeme}
    (h : readBraces here text = .ok (l, rest)) : l.StartsAt '{' := by
  unfold readBraces at h
  split at h
  · cases h
    trivial
  · split at h
    · cases h
    · cases h
      show '{' ∈ _
      decide
  · cases h
    show '{' ∈ _
    decide

theorem startsAt_read {rest : List Char} {l : Lexeme} (h : read dialect c text = .ok (l, rest)) :
    l.StartsAt c := by
  unfold read at h
  dsimp only at h
  split at h
  case h_1 =>
    cases h
    rfl
  case h_6 | h_7 | h_8 =>
    cases h
    show _ ∈ _
    decide
  case h_9 => exact startsAt_readBraces h
  case h_10 | h_11 =>
    obtain ⟨_, _, _, h⟩ := Reading.andThen_eq_ok_iff.1 h
    cases h
    trivial
  case h_12 =>
    obtain ⟨_, _, _, h⟩ := Reading.andThen_eq_ok_iff.1 h
    cases h
    rfl
  all_goals
    cases h
    trivial

/-- The lexeme stands in a text, and begins there as it may. -/
structure Placed.LiesIn (l : Placed) (text : List Char) : Prop where
  here : l.here <:+ text
  start : ∃ c ∈ l.here.head?, l.lexeme.StartsAt c

theorem Placed.LiesIn.mono {l : Placed} {whole : List Char} (h : l.LiesIn text)
    (hs : text <:+ whole) : l.LiesIn whole :=
  ⟨h.here.trans hs, h.start⟩

theorem liesIn_readAll (dialect : Dialect) (text : List Char) :
    (∀ l ∈ (readAll dialect text).1, l.LiesIn text) ∧
      ∀ fault ∈ (readAll dialect text).2, fault.LiesIn text := by
  fun_induction readAll dialect text with
  | case1 => exact ⟨nofun, nofun⟩
  | case2 c text fault hr =>
    refine ⟨nofun, ?_⟩
    rintro _ ⟨⟩
    exact liesIn_read hr
  | case3 c text lexeme rest hr more fault hm ih =>
    rw [hm] at ih
    have hs : rest <:+ c :: text := (read_suffix hr).trans (List.suffix_cons c text)
    refine ⟨fun l hl => ?_, fun fault hf => (ih.2 fault hf).mono hs⟩
    rcases List.mem_cons.1 hl with rfl | hl
    · exact ⟨List.suffix_refl _, c, rfl, startsAt_read hr⟩
    · exact (ih.1 l hl).mono hs

end Lexeme

/-! ## Assembly -/

namespace Assembly

variable {a b : Assembly} {l : Lexeme.Placed}

/-- Every open group begins with its bracket in the text. -/
def OpenIn (a : Assembly) (text : List Char) : Prop :=
  ∀ g ∈ a.openGroups, g.here <:+ text ∧ '(' ∈ g.here.head?

theorem openIn_empty (text : List Char) : ({} : Assembly).OpenIn text := by
  intro g hg
  cases hg

theorem openIn_enter {here : List Char} {o : Opening} (ha : a.OpenIn text) (hs : here <:+ text)
    (hh : '(' ∈ here.head?) : (a.enter here o).OpenIn text := by
  intro g hg
  cases o <;>
  · rcases List.mem_cons.1 hg with rfl | hg
    · exact ⟨hs, hh⟩
    · exact ha g hg

theorem openIn_repeatLast {here : List Char} {min : Nat} {max : Option Nat} (ha : a.OpenIn text)
    (h : a.repeatLast here min max = .ok b) : b.OpenIn text := by
  unfold repeatLast at h
  split at h
  · cases h
  · split at h
    · cases h
      exact ha
    · cases h

theorem openIn_leave {here : List Char} (ha : a.OpenIn text) (h : a.leave here = .ok b) :
    b.OpenIn text := by
  unfold leave at h
  split at h
  · cases h
  · next g outer hopen =>
    cases h
    intro g' hg'
    exact ha g' (by rw [hopen]; exact List.mem_cons_of_mem g hg')

theorem openIn_take (hl : l.LiesIn text) (ha : a.OpenIn text) (h : a.take l = .ok b) :
    b.OpenIn text := by
  obtain ⟨hs, c, hc, hstart⟩ := hl
  unfold take at h
  split at h
  · cases h
    exact ha
  · cases h
    exact ha
  · next o hlexeme =>
    cases h
    rw [hlexeme] at hstart
    cases hstart
    exact openIn_enter ha hs hc
  · exact openIn_leave ha h
  · exact openIn_repeatLast ha h

/-- A lexeme that cannot stand where it does is at fault itself. -/
theorem liesIn_take (hl : l.LiesIn text) (h : a.take l = .error fault) : fault.LiesIn text := by
  obtain ⟨hs, c, hc, hstart⟩ := hl
  obtain ⟨rest, hrest⟩ := List.head?_eq_some_iff.1 hc
  unfold take at h
  rw [hrest] at h hs
  split at h
  · cases h
  · cases h
  · cases h
  · next hlexeme =>
    rw [hlexeme] at hstart
    unfold leave at h
    split at h
    · exact (liesIn_invalid h hstart).mono hs
    · cases h
  · next hlexeme =>
    rw [hlexeme] at hstart
    unfold repeatLast at h
    split at h
    · exact (liesIn_invalid h hstart).mono hs
    · split at h
      · cases h
      · exact (liesIn_invalid h hstart).mono hs

theorem openIn_takeAll {lexemes : List Lexeme.Placed} (hl : ∀ l ∈ lexemes, l.LiesIn text)
    (ha : a.OpenIn text) (h : a.takeAll lexemes = .ok b) : b.OpenIn text := by
  induction lexemes generalizing a with
  | nil =>
    cases h
    exact ha
  | cons l lexemes ih =>
    obtain ⟨hl, hmore⟩ := List.forall_mem_cons.1 hl
    rw [takeAll] at h
    split at h
    · cases h
    · next ht => exact ih hmore (openIn_take hl ha ht) h

theorem liesIn_takeAll {lexemes : List Lexeme.Placed} (hl : ∀ l ∈ lexemes, l.LiesIn text)
    (h : a.takeAll lexemes = .error fault) : fault.LiesIn text := by
  induction lexemes generalizing a with
  | nil => cases h
  | cons l lexemes ih =>
    obtain ⟨hl, hmore⟩ := List.forall_mem_cons.1 hl
    rw [takeAll] at h
    split at h
    · next ht =>
      cases h
      exact liesIn_take hl ht
    · exact ih hmore h

/-- A group that is never closed is reported at its bracket. -/
theorem liesIn_finish {found : Option Fault} (ha : a.OpenIn text)
    (hf : ∀ fault ∈ found, fault.LiesIn text) (h : a.finish found = .error fault) :
    fault.LiesIn text := by
  unfold finish at h
  split at h
  · cases h
    exact hf _ rfl
  · next g outer hopen =>
    obtain ⟨hs, hh⟩ := ha g (by rw [hopen]; exact List.mem_cons_self)
    obtain ⟨rest, hrest⟩ := List.head?_eq_some_iff.1 hh
    rw [hrest] at h hs
    exact (liesIn_invalid h rfl).mono hs
  · cases h

end Assembly

/-! ## Whole texts -/

theorem liesIn_readBody (h : readBody dialect text = .error fault) : fault.LiesIn text := by
  obtain ⟨hlexemes, hfault⟩ := Lexeme.liesIn_readAll dialect text
  unfold readBody at h
  dsimp only at h
  split at h
  · next ht =>
    cases h
    exact Assembly.liesIn_takeAll hlexemes ht
  · next a ht =>
    split at h
    · next hf =>
      cases h
      exact Assembly.liesIn_finish (Assembly.openIn_takeAll hlexemes
        (Assembly.openIn_empty text) ht) hfault hf
    · cases h

theorem liesIn_readInlineFlags (h : readInlineFlags text = .error fault) : fault.LiesIn text := by
  unfold readInlineFlags at h
  split at h
  · cases h
  · next letters rest hgroup =>
    split at h
    · obtain ⟨-, -, rfl⟩ := eq_of_inlineGroup? hgroup
      exact liesIn_unsupported h (List.prefix_append ['(', '?'] _)
    · cases h

theorem liesIn_readPattern (h : readPattern dialect text = .error fault) : fault.LiesIn text := by
  unfold readPattern at h
  split at h
  · next hflags =>
    cases h
    exact liesIn_readInlineFlags hflags
  · next hflags =>
    split at h
    · next hbody =>
      cases h
      exact (liesIn_readBody hbody).mono (readInlineFlags_suffix hflags)
    · cases h

theorem exists_fault_of_parse {e : Error} (h : parse dialect text = .error e) :
    ∃ fault, readPattern dialect text = .error fault ∧ fault.error text = e := by
  unfold parse at h
  cases hr : readPattern dialect text with
  | error fault =>
    rw [hr] at h
    cases h
    exact ⟨fault, rfl, rfl⟩
  | ok pattern =>
    rw [hr] at h
    cases h

/-- An error is that of a cause, at the offset of a part of the text that fits the cause. -/
theorem exists_cause_of_parse {e : Error} (h : parse dialect text = .error e) :
    ∃ before here, ∃ cause : Cause, text = before ++ here ∧ cause.LiesAt here ∧
      e = cause.errorAt (byteSize before) := by
  obtain ⟨fault, hr, rfl⟩ := exists_fault_of_parse h
  obtain ⟨⟨before, rfl⟩, hcause⟩ := liesIn_readPattern hr
  exact ⟨before, fault.here, fault.cause, rfl, hcause, Fault.error_append _ before _⟩

/-- An error lies at a character of the text: its offset is the number of bytes before the
character. The character fits the reason, and a construct that is not supported begins with it. -/
theorem parse_error_at {e : Error} (h : parse dialect text = .error e) :
    ∃ before c rest, text = before ++ c :: rest ∧ byteSize before < byteSize text ∧
      ((∃ reason, e = .invalidPattern (byteSize before) reason ∧ reason.LiesAt c) ∨
        ∃ construct, e = .unsupportedSyntax (byteSize before) construct ∧
          construct.beginning <+: c :: rest) := by
  obtain ⟨before, here, cause, rfl, hcause, rfl⟩ := exists_cause_of_parse h
  obtain ⟨c, rest, rfl⟩ := hcause.exists_cons
  refine ⟨before, c, rest, rfl, ?_, ?_⟩
  · have := c.utf8Size_pos
    rw [byteSize_append, byteSize]
    omega
  · cases cause with
    | invalid reason =>
      obtain ⟨_, ⟨⟩, hreason⟩ := hcause
      exact .inl ⟨reason, rfl, hreason⟩
    | unsupported construct => exact .inr ⟨construct, rfl, hcause⟩

theorem parse_error_at_escape :
    parse .strict "(é|\\x\x7b110000\x7d)".toList =
        .error (.invalidPattern 4 .invalidHexEscape) ∧
      ∃ before c rest, "(é|\\x\x7b110000\x7d)".toList = before ++ c :: rest ∧
        byteSize before < byteSize "(é|\\x\x7b110000\x7d)".toList ∧
        ((∃ reason, Error.invalidPattern 4 .invalidHexEscape =
            .invalidPattern (byteSize before) reason ∧ reason.LiesAt c) ∨
          ∃ construct, Error.invalidPattern 4 .invalidHexEscape =
            .unsupportedSyntax (byteSize before) construct ∧
            construct.beginning <+: c :: rest) := by
  have hread : readPattern .strict "(é|\\x\x7b110000\x7d)".toList =
      invalid .invalidHexEscape "\\x\x7b110000\x7d)".toList := by cbv
  have h : parse .strict "(é|\\x\x7b110000\x7d)".toList =
      .error (.invalidPattern 4 .invalidHexEscape) := by
    rw [parse, hread]
    rfl
  exact ⟨h, parse_error_at h⟩

end PatternGen.Pattern
