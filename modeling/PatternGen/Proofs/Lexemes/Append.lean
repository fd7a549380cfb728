import PatternGen.Proofs.Lexemes.Quantifier

/-!
# Lexemes before the end of a group

No lexeme of an accepted text reaches beyond the text when the end of a group or of a branch
follows. Wherever the reader looks ahead, it sees there what it sees at the end of all text: neither
a digit nor a letter, and no sign that would go on.

Results:
* `Lexeme.read_append`: a lexeme is read in the same way when more text follows the end of a part.
* `Lexeme.Spells.append`: so are all lexemes of a text.
-/

namespace PatternGen.Pattern

/-- The text goes on with the end of a group or of a branch. -/
def EndsPart (rest : List Char) : Prop := ∃ c text, rest = c :: text ∧ (c = ')' ∨ c = '|')

theorem endsPart_closing (text : List Char) : EndsPart (')' :: text) := ⟨')', text, rfl, .inl rfl⟩

theorem endsPart_bar (text : List Char) : EndsPart ('|' :: text) := ⟨'|', text, rfl, .inr rfl⟩

section

variable {rest : List Char} (hr : EndsPart rest)
include hr

theorem EndsPart.head? {p : Char → Bool} (hclose : p ')' = false) (hbar : p '|' = false) :
    ∀ c ∈ rest.head?, p c = false := by
  obtain ⟨c, text, rfl, rfl | rfl⟩ := hr
  · rintro _ ⟨⟩
    exact hclose
  · rintro _ ⟨⟩
    exact hbar

/-- Another sign is looked for in vain, as at the end of all text. -/
theorem EndsPart.head?_append_ne {sign : Char} {text : List Char} (hclose : ')' ≠ sign)
    (hbar : '|' ≠ sign) (h : text.head? ≠ some sign) : (text ++ rest).head? ≠ some sign := by
  cases text with
  | nil =>
    obtain ⟨c, tail, rfl, rfl | rfl⟩ := hr
    · exact fun heq => hclose (Option.some.inj heq)
    · exact fun heq => hbar (Option.some.inj heq)
  | cons c text => exact h

end

/-! ## Escapes -/

/-- What was read, with more text behind what is left. -/
def extend {α : Type} (rest : List Char) (found : α × List Char) : α × List Char :=
  (found.1, found.2 ++ rest)

namespace Escape

variable {dialect : Dialect} {text left rest : List Char} {c : Char} {e : Escape}

theorem fixedHex?_append (hr : EndsPart rest) (width : Nat) (text : List Char) :
    fixedHex? width (text ++ rest) = (fixedHex? width text).map (extend rest) := by
  unfold fixedHex?
  dsimp only
  rcases Nat.lt_or_ge text.length width with hlt | hge
  · rw [if_neg, if_neg]
    · rfl
    · rintro ⟨hlen, -⟩
      rw [List.length_take] at hlen
      omega
    · -- too few digits before the end of the part
      rintro ⟨-, hall⟩
      have hhex := hr.head? (p := Numeral.isHexDigit) (by decide) (by decide)
      obtain ⟨c, tail, rfl, -⟩ := hr
      obtain ⟨n, hn⟩ : ∃ n, width - text.length = n + 1 := ⟨width - text.length - 1, by omega⟩
      have hmem : c ∈ (text ++ c :: tail).take width := by
        rw [List.take_append, hn, List.take_succ_cons]
        exact List.mem_append_right _ List.mem_cons_self
      have h := List.all_eq_true.1 hall c hmem
      rw [hhex c rfl] at h
      cases h
  · rw [List.take_append_of_le_length hge, List.drop_append_of_le_length hge]
    split
    · rw [Option.map_map]
      rfl
    · rfl

theorem bracedHex?_append (hr : EndsPart rest) (text : List Char) :
    bracedHex? (text ++ rest) = (bracedHex? text).map (extend rest) := by
  have hhex := hr.head? (p := Numeral.isHexDigit) (by decide) (by decide)
  by_cases hopen : text.head? = some '{'
  · obtain ⟨text, rfl⟩ := List.head?_eq_some_iff.1 hopen
    rw [List.cons_append, bracedHex?, bracedHex?, Lexeme.takeWhile_append_of_head? hhex,
      Lexeme.dropWhile_append_of_head? hhex]
    cases text.takeWhile Numeral.isHexDigit with
    | nil => rfl
    | cons d digits =>
      -- the closing brace has to come before the end of the part
      cases text.dropWhile Numeral.isHexDigit with
      | nil => obtain ⟨c, tail, rfl, rfl | rfl⟩ := hr <;> rfl
      | cons c text =>
        rw [List.cons_append]
        by_cases hc : c = '}'
        · subst hc
          exact (Option.map_map (extend rest) (·, text)
            (Numeral.char? (Numeral.hexValue (d :: digits)))).symm
        · split
          · next heq => exact absurd (List.cons.inj heq).1 hc
          · split
            · next heq => exact absurd (List.cons.inj heq).1 hc
            · rfl
  · rw [bracedHex?_of_head? hopen,
      bracedHex?_of_head? (hr.head?_append_ne (by decide) (by decide) hopen)]
    rfl

theorem control?_append (hr : EndsPart rest) (text : List Char) :
    control? (text ++ rest) = (control? text).map (extend rest) := by
  cases text with
  | nil => obtain ⟨c, tail, rfl, rfl | rfl⟩ := hr <;> rfl
  | cons c text =>
    rw [List.cons_append, control?, control?]
    split <;> rfl

theorem orLetter_append (c : Char) (text : List Char) (found : Option (Char × List Char)) :
    orLetter c (text ++ rest) (found.map (extend rest)) = extend rest (orLetter c text found) := by
  cases found <;> rfl

theorem readLenient_append (hr : EndsPart rest) {here : List Char}
    (h : readLenient here c text = .ok (e, left)) (here' : List Char) :
    readLenient here' c (text ++ rest) = .ok (e, left ++ rest) := by
  unfold readLenient at h ⊢
  split at h
  case h_1 | h_8 =>
    cases h
    rfl
  case h_2 | h_3 =>
    rw [fixedHex?_append hr, orLetter_append, Except.ok.inj h]
    rfl
  case h_4 =>
    rw [control?_append hr, orLetter_append, Except.ok.inj h]
    rfl
  all_goals cases h

theorem readStrict_append (hr : EndsPart rest) {here : List Char}
    (h : readStrict here c text = .ok (e, left)) (here' : List Char) :
    readStrict here' c (text ++ rest) = .ok (e, left ++ rest) := by
  unfold readStrict at h ⊢
  split at h
  · next hc =>
    cases h
    rw [if_pos hc]
  · next ha =>
    rw [if_neg ha]
    split at h
    · next hx =>
      rw [if_pos hx, bracedHex?_append hr, fixedHex?_append hr, ← Option.map_or]
      split at h
      · next hor =>
        cases h
        rw [hor]
        rfl
      · cases h
    · next hx =>
      rw [if_neg hx]
      split at h
      · cases h
      · next halnum =>
        cases h
        rw [if_neg halnum]

theorem read_append (hr : EndsPart rest) {here : List Char}
    (h : read dialect here c text = .ok (e, left)) (here' : List Char) :
    read dialect here' c (text ++ rest) = .ok (e, left ++ rest) := by
  unfold read at h ⊢
  split at h
  · cases h
    rfl
  · cases h
    rfl
  · exact readLenient_append hr h here'
  · exact readStrict_append hr h here'

end Escape

/-! ## Classes -/

namespace ClassText

variable {dialect : Dialect} {text left rest : List Char} {c : Char}

theorem readItem_append (hr : EndsPart rest) {here : List Char} {item : ClassItem}
    (h : readItem dialect here c text = .ok (item, left)) (here' : List Char) :
    readItem dialect here' c (text ++ rest) = .ok (item, left ++ rest) := by
  by_cases hc : c = '\\'
  · subst hc
    cases text with
    | nil => cases h
    | cons letter text =>
      by_cases hb : letter = 'b'
      · subst hb
        cases h
        rfl
      · rw [readItem_escape _ _ hb] at h
        obtain ⟨e, left', he, h⟩ := Reading.andThen_eq_ok_iff.1 h
        cases h
        rw [List.cons_append, readItem_escape _ _ hb, Escape.read_append hr he, Reading.ok_andThen]
  · rw [readItem_of_ne _ _ hc] at h ⊢
    cases h
    rfl

/-- A dash that is all that is left could go on to be a range. -/
theorem rangeEnd?_append (hr : EndsPart rest) (h : text ≠ ['-']) :
    rangeEnd? dialect (text ++ rest) = (rangeEnd? dialect text).map (extend rest) := by
  by_cases hdash : text.head? = some '-'
  · obtain ⟨text, rfl⟩ := List.head?_eq_some_iff.1 hdash
    cases text with
    | nil => exact absurd rfl h
    | cons c text =>
      rw [List.cons_append, List.cons_append, rangeEnd?, rangeEnd?]
      split <;> rfl
  · rw [rangeEnd?_of_head? hdash,
      rangeEnd?_of_head? (hr.head?_append_ne (by decide) (by decide) hdash)]
    rfl

theorem readRange_append (hr : EndsPart rest) {here : List Char} {lo : Char}
    {items : List ClassItem} (h : readRange dialect here lo c text = .ok (items, left))
    (here' : List Char) :
    readRange dialect here' lo c (text ++ rest) = .ok (items, left ++ rest) := by
  obtain ⟨hi, left', hi', h⟩ := Reading.andThen_eq_ok_iff.1 h
  unfold readRange
  rw [readItem_append hr hi', Reading.ok_andThen]
  cases hi with
  | char hi =>
    unfold joinRange at h ⊢
    dsimp only at h ⊢
    split at h
    · cases h
    · next hlt =>
      cases h
      rw [if_neg hlt]
      rfl
  | range | nested =>
    cases h
    rfl

theorem readMember_append (hr : EndsPart rest) {items : List ClassItem}
    (h : readMember dialect c text = .ok (items, left)) (hleft : left ≠ ['-']) :
    readMember dialect c (text ++ rest) = .ok (items, left ++ rest) := by
  obtain ⟨item, rest', hi, h⟩ := Reading.andThen_eq_ok_iff.1 h
  unfold readMember
  rw [readItem_append hr hi, Reading.ok_andThen]
  by_cases hdash : rest' = ['-']
  · -- the dash stays, since no range ends here
    subst hdash
    cases item <;> (cases h; exact absurd rfl hleft)
  · rw [rangeEnd?_append hr hdash]
    cases item with
    | char lo =>
      cases hend : rangeEnd? dialect rest' with
      | none =>
        rw [hend] at h
        cases h
        rfl
      | some found =>
        rw [hend] at h
        exact readRange_append hr h _
    | range | nested =>
      cases h
      rfl

theorem refused?_append (hr : EndsPart rest) (h : refused? c text = none) :
    refused? c (text ++ rest) = none := by
  unfold refused? at h ⊢
  split at h
  · cases h
  · next hc =>
    rw [if_neg hc]
    split at h
    · cases h
    · next hop =>
      rw [if_neg]
      rintro ⟨hsign, hhead⟩
      cases text with
      | cons c' text => exact hop ⟨hsign, hhead⟩
      | nil =>
        obtain ⟨c', tail, rfl, hc'⟩ := hr
        cases hhead
        rcases hsign with rfl | rfl | rfl <;> exact absurd hc' (by decide)

/-- Members end with a bracket, which a dash alone is not. -/
theorem ne_dash_of_readMembers {opening : List Char} {items : List ClassItem}
    (h : readMembers dialect opening text = .ok (items, left)) : text ≠ ['-'] := by
  rintro rfl
  rcases readMembers_cons_eq_ok_iff.1 h with ⟨-, ⟨hclose, -⟩ | ⟨-, first, rest, more, hm, hr, -⟩⟩
  · exact absurd hclose (by decide)
  · cases hm
    rw [readMembers] at hr
    cases hr

theorem readMembers_append (hr : EndsPart rest) {opening : List Char} {items : List ClassItem}
    (h : readMembers dialect opening text = .ok (items, left)) (opening' : List Char) :
    readMembers dialect opening' (text ++ rest) = .ok (items, left ++ rest) := by
  refine readMembers_induction (P := fun text items =>
    readMembers dialect opening' (text ++ rest) = .ok (items, left ++ rest)) ?_ ?_ h
  · intro hrefused
    exact readMembers_cons_eq_ok_iff.2
      ⟨fun hd => refused?_append hr (hrefused hd), .inl ⟨rfl, rfl, rfl⟩⟩
  · intro c text behind first more hrefused hne hm hmore ih
    exact readMembers_cons_eq_ok_iff.2 ⟨fun hd => refused?_append hr (hrefused hd),
      .inr ⟨hne, first, behind ++ rest, more,
        readMember_append hr hm (ne_dash_of_readMembers hmore), ih, rfl⟩⟩

theorem takeNegation_append (hr : EndsPart rest) (text : List Char) :
    takeNegation (text ++ rest) = extend rest (takeNegation text) := by
  by_cases hmark : text.head? = some '^'
  · obtain ⟨text, rfl⟩ := List.head?_eq_some_iff.1 hmark
    rfl
  · rw [takeNegation_of_head? hmark,
      takeNegation_of_head? (hr.head?_append_ne (by decide) (by decide) hmark)]
    rfl

theorem takeFirst_append (hr : EndsPart rest) (text : List Char) :
    takeFirst dialect (text ++ rest) = extend rest (takeFirst dialect text) := by
  by_cases hclose : dialect = .strict ∧ text.head? = some ']'
  · obtain ⟨rfl, hclose⟩ := hclose
    obtain ⟨text, rfl⟩ := List.head?_eq_some_iff.1 hclose
    rfl
  · have hne : dialect = .strict → text.head? ≠ some ']' := fun hd heq => hclose ⟨hd, heq⟩
    rw [takeFirst_of_head? hne,
      takeFirst_of_head? fun hd => hr.head?_append_ne (by decide) (by decide) (hne hd)]
    rfl

theorem read_append (hr : EndsPart rest) {opening : List Char} {cls : CharClass}
    (h : read dialect opening text = .ok (cls, left)) (opening' : List Char) :
    read dialect opening' (text ++ rest) = .ok (cls, left ++ rest) := by
  obtain ⟨items, left', hm, h⟩ := Reading.andThen_eq_ok_iff.1 h
  have hm : readMembers dialect opening (takeFirst dialect (takeNegation text).2).2 =
    .ok (items, left') := hm
  cases h
  unfold read
  rw [takeNegation_append hr]
  dsimp only [extend]
  rw [takeFirst_append hr]
  dsimp only [extend]
  rw [readMembers_append hr hm, Reading.ok_andThen]
  rfl

end ClassText

/-! ## Lexemes -/

namespace Lexeme

variable {dialect : Dialect} {text left rest : List Char} {c : Char}

theorem readBoundary_append (hr : EndsPart rest) {here : List Char} {a : Atom}
    (h : readBoundary here text = .ok (a, left)) (here' : List Char) :
    readBoundary here' (text ++ rest) = .ok (a, left ++ rest) := by
  by_cases hopen : text.head? = some '{'
  · obtain ⟨text, rfl⟩ := List.head?_eq_some_iff.1 hopen
    rw [readBoundary] at h
    split at h
    · cases h
    · next c tail hd =>
      cases h
      rw [List.cons_append, readBoundary, dropWhile_append_of_cons hd]
  · rw [readBoundary_of_head? hopen] at h
    cases h
    rw [readBoundary_of_head? (hr.head?_append_ne (by decide) (by decide) hopen)]

theorem readReference_append (hr : EndsPart rest) {here : List Char} {a : Atom}
    (h : readReference here c text = .ok (a, left)) (here' : List Char) :
    readReference here' c (text ++ rest) = .ok (a, left ++ rest) := by
  have hdigit := hr.head? (p := Char.isDigit) (by decide) (by decide)
  unfold readReference at h ⊢
  rw [takeWhile_append_of_head? hdigit, dropWhile_append_of_head? hdigit]
  split at h
  · cases h
    rfl
  · cases h

theorem readOutside?_append (hr : EndsPart rest) {here : List Char} {a : Atom}
    (h : readOutside? dialect here c text = some (.ok (a, left))) (here' : List Char) :
    readOutside? dialect here' c (text ++ rest) = some (.ok (a, left ++ rest)) := by
  unfold readOutside? at h ⊢
  split at h
  · next hB =>
    cases h
    rw [if_pos hB]
  · next hB =>
    rw [if_neg hB]
    split at h
    · split at h
      · next hb =>
        cases h
        rw [if_pos hb]
      · next hb =>
        rw [if_neg hb]
        split at h
        · next hdigit =>
          rw [if_pos hdigit, readReference_append hr (Option.some.inj h)]
        · cases h
    · split at h
      · next hb =>
        rw [if_pos hb, readBoundary_append hr (Option.some.inj h)]
      · next hb =>
        obtain ⟨anchor, hanchor, h⟩ := Option.map_eq_some_iff.1 h
        cases h
        rw [if_neg hb, hanchor]
        rfl

/-- Whether an escape means something outside of classes only, its letter decides. -/
theorem readOutside?_eq_none {here : List Char} (h : readOutside? dialect here c text = none)
    (here' text' : List Char) : readOutside? dialect here' c text' = none := by
  unfold readOutside? at h ⊢
  split at h
  · cases h
  · next hB =>
    rw [if_neg hB]
    split at h
    · split at h
      · cases h
      · next hb =>
        split at h
        · cases h
        · next hdigit => rw [if_neg hb, if_neg hdigit]
    · split at h
      · cases h
      · next hb => rw [if_neg hb, Option.map_eq_none_iff.1 h, Option.map_none]

theorem readEscape_append (hr : EndsPart rest) {here : List Char} {a : Atom}
    (h : readEscape dialect here text = .ok (a, left)) (here' : List Char) :
    readEscape dialect here' (text ++ rest) = .ok (a, left ++ rest) := by
  cases text with
  | nil => cases h
  | cons c text =>
    rw [List.cons_append, readEscape]
    rw [readEscape] at h
    split at h
    · next hout =>
      subst h
      rw [readOutside?_append hr hout]
    · next hout =>
      obtain ⟨e, left', he, h⟩ := Reading.andThen_eq_ok_iff.1 h
      cases h
      rw [readOutside?_eq_none hout]
      dsimp only
      rw [Escape.read_append hr he, Reading.ok_andThen]

theorem dropLazy_append (hr : EndsPart rest) (text : List Char) :
    dropLazy (text ++ rest) = dropLazy text ++ rest := by
  by_cases hmark : text.head? = some '?'
  · obtain ⟨text, rfl⟩ := List.head?_eq_some_iff.1 hmark
    rfl
  · rw [dropLazy_of_head? hmark,
      dropLazy_of_head? (hr.head?_append_ne (by decide) (by decide) hmark)]

theorem upperBound?_append (hr : EndsPart rest) (text : List Char) :
    upperBound? (text ++ rest) = (upperBound? text).map (extend rest) := by
  have hdigit := hr.head? (p := Char.isDigit) (by decide) (by decide)
  unfold upperBound?
  rw [takeWhile_append_of_head? hdigit, dropWhile_append_of_head? hdigit]
  cases Numeral.read? (text.takeWhile Char.isDigit) with
  | none => rfl
  | some max =>
    cases text.dropWhile Char.isDigit with
    | nil => obtain ⟨c, tail, rfl, rfl | rfl⟩ := hr <;> rfl
    | cons c behind =>
      rw [List.cons_append]
      by_cases hclose : c = '}'
      · subst hclose
        rfl
      · split
        · next heq => exact absurd (List.cons.inj heq).1 hclose
        · split
          · next heq => exact absurd (List.cons.inj heq).1 hclose
          · rfl

/-- Bounds go on after their first numeral with a brace or with a comma. -/
theorem readBounds?_eq_none {behind : List Char} (hd : text.dropWhile Char.isDigit = c :: behind)
    (hclose : c ≠ '}') (hcomma : c ≠ ',') : readBounds? text = none := by
  unfold readBounds?
  rw [hd]
  split
  · next heq => exact absurd (List.cons.inj heq).1 hclose
  · next heq => exact absurd (List.cons.inj heq).1 hcomma
  · next heq => exact absurd (List.cons.inj heq).1 hcomma
  · rfl

theorem readBounds?_append (hr : EndsPart rest) (text : List Char) :
    readBounds? (text ++ rest) = (readBounds? text).map (extend rest) := by
  have hdigit := hr.head? (p := Char.isDigit) (by decide) (by decide)
  have htake := takeWhile_append_of_head? hdigit text
  have hdrop := dropWhile_append_of_head? hdigit text
  cases hmin : Numeral.read? (text.takeWhile Char.isDigit) with
  | none =>
    unfold readBounds?
    rw [htake, hmin]
    rfl
  | some min =>
    cases hd : text.dropWhile Char.isDigit with
    | nil =>
      unfold readBounds?
      rw [htake, hdrop, hmin, hd]
      obtain ⟨c, tail, rfl, rfl | rfl⟩ := hr <;> rfl
    | cons c behind =>
      rw [hd, List.cons_append] at hdrop
      by_cases hclose : c = '}'
      · subst hclose
        unfold readBounds?
        rw [htake, hdrop, hmin, hd]
        rfl
      · by_cases hcomma : c = ','
        · subst hcomma
          by_cases hb : behind.head? = some '}'
          · obtain ⟨behind, rfl⟩ := List.head?_eq_some_iff.1 hb
            unfold readBounds?
            rw [htake, hdrop, hmin, hd]
            rfl
          · have hb' := hr.head?_append_ne (by decide) (by decide) hb
            rw [readBounds?_of_comma hmin hd hb, readBounds?_of_comma (htake ▸ hmin) hdrop hb',
              upperBound?_append hr, Option.map_map, Option.map_map]
            rfl
        · rw [readBounds?_eq_none hd hclose hcomma, readBounds?_eq_none hdrop hclose hcomma]
          rfl

theorem readBraces_append (hr : EndsPart rest) {here : List Char} {l : Lexeme}
    (h : readBraces here text = .ok (l, left)) (here' : List Char) :
    readBraces here' (text ++ rest) = .ok (l, left ++ rest) := by
  unfold readBraces at h ⊢
  rw [readBounds?_append hr]
  split at h
  · next hnone =>
    cases h
    rw [hnone]
    rfl
  · next hbounds =>
    rw [hbounds]
    split at h
    · cases h
    · next hlt =>
      cases h
      dsimp only [Option.map_some, extend]
      rw [if_neg hlt, dropLazy_append hr]
  · next hbounds =>
    cases h
    rw [hbounds]
    dsimp only [Option.map_some, extend]
    rw [dropLazy_append hr]

theorem readName_append {here : List Char} {o : Opening}
    (h : readName here text = .ok (o, left)) (here' : List Char) :
    readName here' (text ++ rest) = .ok (o, left ++ rest) := by
  unfold readName at h ⊢
  split at h
  · next hname hd =>
    cases h
    rw [takeWhile_append_of_cons hd, dropWhile_append_of_cons hd, hname]
  · cases h

theorem readAngle_append {here : List Char} {o : Opening}
    (h : readAngle dialect here text = .ok (o, left)) (here' : List Char) :
    readAngle dialect here' (text ++ rest) = .ok (o, left ++ rest) := by
  cases text with
  | nil => cases dialect <;> cases h
  | cons c text =>
    unfold readAngle at h ⊢
    split at h
    · next heq =>
      cases heq
      cases h
      rfl
    · next heq =>
      cases heq
      cases h
      rfl
    · next hequal hbang =>
      split at h
      · cases h
      · split
        · next heq => exact absurd (by rw [(List.cons.inj heq).1]) (hequal text)
        · next heq => exact absurd (by rw [(List.cons.inj heq).1]) (hbang text)
        · exact readName_append h here'

theorem readForm_append {here : List Char} {o : Opening}
    (h : readForm dialect here text = .ok (o, left)) (here' : List Char) :
    readForm dialect here' (text ++ rest) = .ok (o, left ++ rest) := by
  unfold readForm at h ⊢
  split at h
  · cases h
  · cases h
    rfl
  · cases h
    rfl
  · cases h
    rfl
  · exact readAngle_append h here'
  · split at h
    · exact readName_append h here'
    · cases h

theorem readOpening_append (hr : EndsPart rest) {here : List Char} {o : Opening}
    (h : readOpening dialect here text = .ok (o, left)) (here' : List Char) :
    readOpening dialect here' (text ++ rest) = .ok (o, left ++ rest) := by
  by_cases hmark : text.head? = some '?'
  · obtain ⟨text, rfl⟩ := List.head?_eq_some_iff.1 hmark
    exact readForm_append h here'
  · rw [readOpening_of_head? hmark] at h
    cases h
    rw [readOpening_of_head? (hr.head?_append_ne (by decide) (by decide) hmark)]

theorem read_append (hr : EndsPart rest) {l : Lexeme}
    (h : read dialect c text = .ok (l, left)) :
    read dialect c (text ++ rest) = .ok (l, left ++ rest) := by
  unfold read at h ⊢
  dsimp only at h ⊢
  split at h
  case h_6 | h_7 | h_8 =>
    cases h
    rw [dropLazy_append hr]
  case h_9 => exact readBraces_append hr h _
  case h_10 =>
    obtain ⟨a, left', ha, h⟩ := Reading.andThen_eq_ok_iff.1 h
    cases h
    rw [readEscape_append hr ha, Reading.ok_andThen]
  case h_11 =>
    obtain ⟨cls, left', hc, h⟩ := Reading.andThen_eq_ok_iff.1 h
    cases h
    rw [ClassText.read_append hr hc, Reading.ok_andThen]
  case h_12 =>
    obtain ⟨o, left', ho, h⟩ := Reading.andThen_eq_ok_iff.1 h
    cases h
    rw [readOpening_append hr ho, Reading.ok_andThen]
  all_goals
    cases h
    rfl

/-- The lexemes of a text, and of what follows the end of the part. -/
theorem Spells.append {xs ys : List Lexeme} (hx : Spells dialect text xs) (hr : EndsPart rest)
    (hy : Spells dialect rest ys) : Spells dialect (text ++ rest) (xs ++ ys) := by
  induction hx with
  | nil => exact hy
  | cons hl _ ih => exact .cons (read_append hr hl) ih

end Lexeme

end PatternGen.Pattern
