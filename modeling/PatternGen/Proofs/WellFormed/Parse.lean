import PatternGen.Pattern.Parse
import PatternGen.Proofs.WellFormed.Lexeme

/-!
# Reading gives well-formed patterns

While lexemes are put together, everything read so far is well formed: the tokens of the body being
read, what waits before each open group, and the numbers of all groups that have begun, which are
one, two and so on in the order of the text.

Results:
* `Assembly.wellFormed_take`, `Assembly.wellFormed_takeAll`: one lexeme and all lexemes keep it so.
* `Pattern.wellFormed_of_parse`: whatever is read from a text is well formed, in both dialects.
-/

namespace PatternGen.Pattern

variable {dialect : Dialect}

/-! ## Drafts -/

/-- All tokens of the draft are well formed. -/
structure Draft.WellFormed (dialect : Dialect) (draft : Draft) : Prop where
  tokens : ∀ token ∈ draft.tokens, token.WellFormed dialect
  branches : ∀ tokens ∈ draft.branches, ∀ token ∈ tokens, token.WellFormed dialect

namespace Draft

theorem wellFormed_empty : ({} : Draft).WellFormed dialect := ⟨by simp, by simp⟩

theorem wellFormed_push {draft : Draft} {token : Token} (hd : draft.WellFormed dialect)
    (ht : token.WellFormed dialect) : (draft.push token).WellFormed dialect := by
  refine ⟨fun t h => ?_, hd.branches⟩
  rcases List.mem_cons.1 h with rfl | h
  · exact ht
  · exact hd.tokens t h

theorem wellFormed_split {draft : Draft} (hd : draft.WellFormed dialect) :
    draft.split.WellFormed dialect := by
  refine ⟨by simp [split], fun tokens h => ?_⟩
  rcases List.mem_cons.1 h with rfl | h
  · intro token ht
    exact hd.tokens token (List.mem_reverse.1 ht)
  · exact hd.branches tokens h

/-- A draft with a bar in it becomes an alternation of at least two branches. -/
theorem wellFormed_body {draft : Draft} (hd : draft.WellFormed dialect) :
    draft.body.WellFormed dialect := by
  unfold body
  split
  · refine ⟨fun branches h => ?_, fun tokens h token ht => ?_⟩
    · cases h
    · rw [List.mem_singleton.1 h] at ht
      exact hd.tokens token (List.mem_reverse.1 ht)
  · next hne =>
    refine ⟨fun branches h => ?_, fun tokens h => ?_⟩
    · cases h
      rw [List.isEmpty_iff] at hne
      have hpos := List.length_pos_iff.2 hne
      rw [List.length_reverse, split, List.length_cons]
      omega
    · exact (wellFormed_split hd).branches tokens (List.mem_reverse.1 h)

/-- The numbers of the groups in the draft, in the order of the text. -/
def captures (draft : Draft) : List Nat :=
  draft.branches.reverse.flatMap Token.capturesAll ++ Token.capturesAll draft.tokens.reverse

theorem captures_push (draft : Draft) (token : Token) :
    (draft.push token).captures = draft.captures ++ token.captures := by
  simp only [captures, push, List.reverse_cons, Token.capturesAll_eq, List.flatMap_append,
    List.flatMap_singleton, List.append_assoc]

theorem captures_split (draft : Draft) : draft.split.captures = draft.captures := by
  simp only [captures, split, List.reverse_cons, List.flatMap_append, List.flatMap_singleton,
    List.reverse_nil, Token.capturesAll, List.append_nil]

theorem captures_body (draft : Draft) : draft.body.captures = draft.captures := by
  rw [Body.captures_eq]
  unfold body
  split
  · next hnil =>
    rw [List.isEmpty_iff] at hnil
    rw [Body.branches, List.flatMap_singleton, captures, hnil]
    rfl
  · rw [← captures_split, captures, Body.branches]
    exact (List.append_nil _).symm

end Draft

/-! ## Assembly -/

namespace Assembly

/-- The numbers of the groups that wait, outermost first, each with the groups before it. -/
def outerCaptures (openGroups : List OpenGroup) : List Nat :=
  openGroups.reverse.flatMap fun g => g.before.captures ++ g.frame.capture.toList

theorem outerCaptures_cons (g : OpenGroup) (outer : List OpenGroup) :
    outerCaptures (g :: outer) =
      outerCaptures outer ++ (g.before.captures ++ g.frame.capture.toList) := by
  rw [outerCaptures, List.reverse_cons, List.flatMap_append, List.flatMap_singleton]
  rfl

/-- Everything assembled so far is well formed, and its groups are numbered in order. -/
structure WellFormed (dialect : Dialect) (a : Assembly) : Prop where
  draft : a.draft.WellFormed dialect
  before : ∀ g ∈ a.openGroups, g.before.WellFormed dialect
  frames : ∀ g ∈ a.openGroups, g.frame.Inner
  captures : outerCaptures a.openGroups ++ a.draft.captures = List.range' 1 a.groupCount

theorem wellFormed_empty : ({} : Assembly).WellFormed dialect where
  draft := Draft.wellFormed_empty
  before := by simp
  frames := by simp
  captures := rfl

/-- Setting the draft aside for a group that is not numbered. -/
theorem wellFormed_enter_of_none {a : Assembly} (ha : a.WellFormed dialect) (here : List Char)
    {frame : Frame} (hf : frame.Inner) (hc : frame.capture = none) :
    ({ a with openGroups := ⟨here, frame, a.draft⟩ :: a.openGroups, draft := {} } :
      Assembly).WellFormed dialect where
  draft := Draft.wellFormed_empty
  before := List.forall_mem_cons.2 ⟨ha.draft, ha.before⟩
  frames := List.forall_mem_cons.2 ⟨hf, ha.frames⟩
  captures := by
    rw [outerCaptures_cons, hc, ← ha.captures]
    simp only [Option.toList_none, List.append_nil]
    exact List.append_nil _

theorem wellFormed_enter {a : Assembly} (ha : a.WellFormed dialect) (here : List Char)
    (o : Opening) : (a.enter here o).WellFormed dialect := by
  cases o with
  | capturing =>
    refine ⟨Draft.wellFormed_empty, List.forall_mem_cons.2 ⟨ha.draft, ha.before⟩,
      List.forall_mem_cons.2 ⟨⟨rfl, .inr rfl⟩, ha.frames⟩, ?_⟩
    -- the next number is the one that the group takes
    rw [enter, outerCaptures_cons, List.range'_1_concat, ← ha.captures, Nat.add_comm 1]
    simp only [Option.toList_some, List.append_assoc]
    rfl
  | plain => exact wellFormed_enter_of_none ha here ⟨rfl, .inl rfl⟩ rfl
  | looking look => exact wellFormed_enter_of_none ha here ⟨rfl, .inl rfl⟩ rfl

theorem wellFormed_leave {a a' : Assembly} (ha : a.WellFormed dialect) {here : List Char}
    (h : a.leave here = .ok a') : a'.WellFormed dialect := by
  unfold leave at h
  split at h
  · cases h
  · next g outer hg =>
    cases h
    obtain ⟨hdraft, hbefore, hframes, hcaptures⟩ := ha
    rw [hg, List.forall_mem_cons] at hbefore hframes
    have hbody := Draft.wellFormed_body hdraft
    refine ⟨Draft.wellFormed_push hbefore.1 (.group hframes.1 hbody.choice hbody.tokens),
      hbefore.2, hframes.2, ?_⟩
    rw [hg, outerCaptures_cons] at hcaptures
    rw [Draft.captures_push, Token.captures, Draft.captures_body, ← hcaptures]
    simp only [List.append_assoc]

theorem wellFormed_repeatLast {a a' : Assembly} (ha : a.WellFormed dialect) {here : List Char}
    {min : Nat} {max : Option Nat} (hm : BoundsInOrder min max)
    (h : a.repeatLast here min max = .ok a') : a'.WellFormed dialect := by
  unfold repeatLast at h
  split at h
  · cases h
  · next token before ht =>
    split at h
    · next hrep =>
      cases h
      obtain ⟨⟨htokens, hbranches⟩, hbefore, hframes, hcaptures⟩ := ha
      rw [ht, List.forall_mem_cons] at htokens
      refine ⟨⟨?_, hbranches⟩, hbefore, hframes, ?_⟩
      · exact List.forall_mem_cons.2 ⟨.repetition hrep hm htokens.1, htokens.2⟩
      · rw [← hcaptures, Draft.captures, Draft.captures, ht]
        simp only [List.reverse_cons, Token.capturesAll_eq, List.flatMap_append,
          List.flatMap_singleton, Token.captures]
    · cases h

theorem wellFormed_take {a a' : Assembly} (ha : a.WellFormed dialect) {l : Lexeme.Placed}
    (hl : l.lexeme.WellFormed dialect) (h : a.take l = .ok a') : a'.WellFormed dialect := by
  unfold take at h
  split at h
  · next atom hlex =>
    cases h
    rw [hlex] at hl
    refine ⟨Draft.wellFormed_push ha.draft (.atom hl), ha.before, ha.frames, ?_⟩
    rw [Draft.captures_push, Token.captures, List.append_nil]
    exact ha.captures
  · cases h
    refine ⟨Draft.wellFormed_split ha.draft, ha.before, ha.frames, ?_⟩
    rw [Draft.captures_split]
    exact ha.captures
  · cases h
    exact wellFormed_enter ha _ _
  · exact wellFormed_leave ha h
  · next hlex =>
    rw [hlex] at hl
    exact wellFormed_repeatLast ha hl h

theorem wellFormed_takeAll {a a' : Assembly} (ha : a.WellFormed dialect)
    {lexemes : List Lexeme.Placed} (hl : ∀ l ∈ lexemes, l.lexeme.WellFormed dialect)
    (h : a.takeAll lexemes = .ok a') : a'.WellFormed dialect := by
  induction lexemes generalizing a with
  | nil =>
    cases h
    exact ha
  | cons l lexemes ih =>
    rw [List.forall_mem_cons] at hl
    rw [takeAll] at h
    split at h
    · cases h
    · next ht => exact ih (wellFormed_take ha hl.1 ht) hl.2 h

end Assembly

/-! ## Whole patterns -/

theorem wellFormed_of_readBody {text : List Char} {body : Body} {n : Nat}
    (h : readBody dialect text = .ok (body, n)) :
    body.WellFormed dialect ∧ body.captures = List.range' 1 n := by
  obtain ⟨lexemes, a, hr, ha, hopen, rfl, rfl⟩ := readBody_eq_ok_iff_takeAll.1 h
  have hl := Lexeme.wellFormed_readAll dialect text
  rw [hr] at hl
  have hwf := Assembly.wellFormed_takeAll Assembly.wellFormed_empty hl ha
  refine ⟨Draft.wellFormed_body hwf.draft, ?_⟩
  rw [Draft.captures_body, ← hwf.captures, hopen]
  rfl

theorem wellFormed_of_readPattern {text : List Char} {pattern : Pattern}
    (h : readPattern dialect text = .ok pattern) : pattern.WellFormed dialect := by
  unfold readPattern at h
  split at h
  · cases h
  · split at h
    · cases h
    · next body groupCount hb =>
      cases h
      obtain ⟨hbody, hcaptures⟩ := wellFormed_of_readBody hb
      exact ⟨⟨body, rfl, hbody⟩, hcaptures⟩

theorem readPattern_of_parse {text : List Char} {pattern : Pattern}
    (h : parse dialect text = .ok pattern) : readPattern dialect text = .ok pattern := by
  unfold parse at h
  cases hr : readPattern dialect text with
  | error fault =>
    rw [hr] at h
    cases h
  | ok p =>
    rw [hr] at h
    cases h
    rfl

/-- Whatever is read from a text is well formed. -/
theorem wellFormed_of_parse {text : List Char} {pattern : Pattern}
    (h : parse dialect text = .ok pattern) : pattern.WellFormed dialect :=
  wellFormed_of_readPattern (readPattern_of_parse h)

/-- A captured letter that is only looked for, then two or three times a named group that holds a
character other than a digit, or nothing. -/
def labelled : Pattern :=
  let ahead : Body := .sequence [.group { capture := some 1 } (.sequence [.atom (.literal 'b')])]
  let other : CharClass := ⟨true, [.range '0' '9']⟩
  let body : Body := .sequence
    [.group { look := some .followedBy } ahead,
      .repetition (.group { capture := some 2 } (.alternation [[.atom (.charClass other)], []]))
        2 (some 3)]
  ⟨.group { role := .root } body, 2, { caseInsensitive := true }⟩

theorem parse_labelled :
    parse .strict "(?i)(?=(b))(?P<n>\\D|){2,3}?".toList = .ok labelled := by
  have h : readPattern .strict "(?i)(?=(b))(?P<n>\\D|){2,3}?".toList = .ok labelled := by cbv
  rw [parse, h]
  rfl

theorem wellFormed_of_parse_labelled :
    parse .strict "(?i)(?=(b))(?P<n>\\D|){2,3}?".toList = .ok labelled ∧
      labelled.WellFormed .strict :=
  ⟨parse_labelled, wellFormed_of_parse parse_labelled⟩

end PatternGen.Pattern
