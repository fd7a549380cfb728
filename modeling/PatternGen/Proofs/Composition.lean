import PatternGen.Proofs.Lexemes.Append
import PatternGen.Proofs.Lexemes.Quantifier
import PatternGen.Proofs.Lexemes.Tree

/-!
# Patterns built from patterns

An accepted text stays what it is when it becomes a part of another one: between the brackets of a
group, or as the branches before and after a bar. Its tree is then a part of the other tree, where
only the numbers of its groups are raised by the number of groups that begin before it.

Results:
* `Body.lexemes_raise`, `Body.captures_raise`, `Body.wellFormed_raise`: what numbering groups anew
  changes, and what it does not.
* `Pattern.readBody_capturing`, `Pattern.readBody_plain`, `Pattern.readBody_repetition`,
  `Pattern.readBody_bar`: what is read when an accepted text is a group, a repeated group or some of
  the branches.
* `Pattern.parse_parts`: the same for whole patterns.
-/

namespace PatternGen

/-! ## Numbering groups anew -/

/-- The frame of a group whose number is raised. -/
def Frame.raise (k : Nat) (frame : Frame) : Frame :=
  { frame with capture := frame.capture.map (· + k) }

mutual

/-- The token with the numbers of its groups raised. References keep theirs. -/
def Token.raise (k : Nat) : Token → Token
  | .atom a => .atom a
  | .repetition token min max => .repetition (token.raise k) min max
  | .group frame body => .group (frame.raise k) (body.raise k)

/-- The body with the numbers of its groups raised. -/
def Body.raise (k : Nat) : Body → Body
  | .sequence tokens => .sequence (Token.raiseAll k tokens)
  | .alternation branches => .alternation (Token.raiseBranches k branches)

/-- The tokens of a sequence with the numbers of their groups raised. -/
def Token.raiseAll (k : Nat) : List Token → List Token
  | [] => []
  | token :: tokens => token.raise k :: Token.raiseAll k tokens

/-- The branches of an alternation with the numbers of their groups raised. -/
def Token.raiseBranches (k : Nat) : List (List Token) → List (List Token)
  | [] => []
  | tokens :: branches => Token.raiseAll k tokens :: Token.raiseBranches k branches

end

variable (k : Nat)

theorem Token.raiseAll_eq (tokens : List Token) :
    Token.raiseAll k tokens = tokens.map (Token.raise k) := by
  induction tokens with
  | nil => rfl
  | cons token tokens ih => rw [raiseAll, List.map_cons, ih]

theorem Token.raiseBranches_eq (branches : List (List Token)) :
    Token.raiseBranches k branches = branches.map (Token.raiseAll k) := by
  induction branches with
  | nil => rfl
  | cons tokens branches ih => rw [raiseBranches, List.map_cons, ih]

theorem Body.branches_raise (body : Body) :
    (body.raise k).branches = body.branches.map (Token.raiseAll k) := by
  cases body with
  | sequence tokens => rfl
  | alternation branches => exact Token.raiseBranches_eq k branches

theorem Token.repeatable_raise (token : Token) : (token.raise k).repeatable = token.repeatable := by
  cases token with
  | atom a => cases a <;> rfl
  | repetition | group => rfl

theorem Frame.opening_raise (frame : Frame) : (frame.raise k).opening = frame.opening := by
  obtain ⟨role, capture, look⟩ := frame
  cases look <;> cases capture <;> rfl

/-! ### Lexemes -/

mutual

theorem Token.lexemes_raise : ∀ token : Token, (token.raise k).lexemes = token.lexemes
  | .atom _ => rfl
  | .repetition token min max => by
    rw [Token.raise, Token.lexemes, Token.lexemes, Token.lexemes_raise token]
  | .group frame body => by
    rw [Token.raise, Token.lexemes, Token.lexemes, Frame.opening_raise, Body.lexemes_raise body]

theorem Body.lexemes_raise : ∀ body : Body, (body.raise k).lexemes = body.lexemes
  | .sequence tokens => Token.lexemesAll_raise tokens
  | .alternation branches => Token.branchLexemes_raise branches

theorem Token.lexemesAll_raise :
    ∀ tokens : List Token, Token.lexemesAll (Token.raiseAll k tokens) = Token.lexemesAll tokens
  | [] => rfl
  | token :: tokens => by
    rw [Token.raiseAll, Token.lexemesAll, Token.lexemesAll, Token.lexemes_raise token,
      Token.lexemesAll_raise tokens]

theorem Token.branchLexemes_raise :
    ∀ branches : List (List Token),
      Token.branchLexemes (Token.raiseBranches k branches) = Token.branchLexemes branches
  | [] => rfl
  | [tokens] => Token.lexemesAll_raise tokens
  | tokens :: next :: branches => by
    rw [Token.raiseBranches, Token.raiseBranches, Token.branchLexemes, Token.branchLexemes,
      ← Token.raiseBranches, Token.lexemesAll_raise tokens,
      Token.branchLexemes_raise (next :: branches)]

end

/-! ### Numbers of groups -/

mutual

theorem Token.captures_raise :
    ∀ token : Token, (token.raise k).captures = token.captures.map (· + k)
  | .atom _ => rfl
  | .repetition token _ _ => Token.captures_raise token
  | .group frame body => by
    rw [Token.raise, Token.captures, Token.captures, List.map_append, Body.captures_raise body,
      Frame.raise, Option.toList_map]

theorem Body.captures_raise : ∀ body : Body, (body.raise k).captures = body.captures.map (· + k)
  | .sequence tokens => Token.capturesAll_raise tokens
  | .alternation branches => Token.branchCaptures_raise branches

theorem Token.capturesAll_raise :
    ∀ tokens : List Token,
      Token.capturesAll (Token.raiseAll k tokens) = (Token.capturesAll tokens).map (· + k)
  | [] => rfl
  | token :: tokens => by
    rw [Token.raiseAll, Token.capturesAll, Token.capturesAll, List.map_append,
      Token.captures_raise token, Token.capturesAll_raise tokens]

theorem Token.branchCaptures_raise :
    ∀ branches : List (List Token),
      Token.branchCaptures (Token.raiseBranches k branches) =
        (Token.branchCaptures branches).map (· + k)
  | [] => rfl
  | tokens :: branches => by
    rw [Token.raiseBranches, Token.branchCaptures, Token.branchCaptures, List.map_append,
      Token.capturesAll_raise tokens, Token.branchCaptures_raise branches]

end

/-- Numbers from one on, raised, go on behind `k`. -/
theorem Body.captures_raise_range' {body : Body} {n : Nat} (h : body.captures = List.range' 1 n) :
    (body.raise k).captures = List.range' (k + 1) n := by
  rw [captures_raise, h, ← List.map_add_range']
  exact List.map_congr_left fun i _ => Nat.add_comm i k

/-! ### Well-formedness -/

variable {dialect : Dialect}

theorem Frame.inner_raise {frame : Frame} (h : frame.Inner) : (frame.raise k).Inner :=
  ⟨h.role, h.capture_or_look.imp_left fun hc => by rw [raise, hc]; rfl⟩

theorem Body.offersChoice_raise {body : Body} (h : body.OffersChoice) :
    (body.raise k).OffersChoice := by
  cases body with
  | sequence tokens => nofun
  | alternation branches =>
    rintro _ ⟨⟩
    rw [Token.raiseBranches_eq, List.length_map]
    exact h branches rfl

theorem Body.forall_raise {body : Body} {P : Token → Prop}
    (h : ∀ tokens ∈ body.branches, ∀ token ∈ tokens, P (token.raise k)) :
    ∀ tokens ∈ (body.raise k).branches, ∀ token ∈ tokens, P token := by
  rw [branches_raise]
  intro tokens htokens token htoken
  obtain ⟨tokens, hmem, rfl⟩ := List.mem_map.1 htokens
  rw [Token.raiseAll_eq] at htoken
  obtain ⟨token, hmem', rfl⟩ := List.mem_map.1 htoken
  exact h tokens hmem token hmem'

theorem Token.wellFormed_raise {token : Token} (h : token.WellFormed dialect) :
    (token.raise k).WellFormed dialect := by
  induction h with
  | atom ha => exact .atom ha
  | repetition hr hb _ ih => exact .repetition ((repeatable_raise k _).trans hr) hb ih
  | group hf hc _ ih =>
    exact .group (Frame.inner_raise k hf) (Body.offersChoice_raise k hc) (Body.forall_raise k ih)

theorem Body.wellFormed_raise {body : Body} (h : body.WellFormed dialect) :
    (body.raise k).WellFormed dialect :=
  ⟨offersChoice_raise k h.choice, forall_raise k fun tokens hts token ht =>
    Token.wellFormed_raise k (h.tokens tokens hts token ht)⟩

namespace Pattern

variable {p q text rest : List Char} {body : Body} {n : Nat}

/-! ## Texts without flags -/

/-- The text begins with a group of flags. -/
def BeginsWithFlags (text : List Char) : Prop :=
  ∃ letters rest, letters ≠ [] ∧ (∀ c ∈ letters, isInlineLetter c = true) ∧
    text = '(' :: '?' :: (letters ++ ')' :: rest)

theorem readInlineFlags_eq (h : ¬ BeginsWithFlags text) :
    readInlineFlags text = .ok ({}, text) := by
  unfold readInlineFlags
  split
  · rfl
  · next letters rest hgroup => exact absurd ⟨letters, rest, eq_of_inlineGroup? hgroup⟩ h

/-- The pattern with this body that sets no flags itself. -/
def unflagged (body : Body) (groupCount : Nat) : Pattern :=
  ⟨.group { role := .root } body, groupCount, {}⟩

/-- A text without flags is accepted exactly if it denotes a body. -/
theorem parse_eq_ok_iff {pattern : Pattern} (h : ¬ BeginsWithFlags text) :
    parse dialect text = .ok pattern ↔
      ∃ body, pattern = unflagged body pattern.groupCount ∧
        readBody dialect text = .ok (body, pattern.groupCount) := by
  rw [parse, readPattern, readInlineFlags_eq h]
  dsimp only
  cases readBody dialect text with
  | error fault =>
    constructor
    · intro h
      cases h
    · rintro ⟨_, _, h⟩
      cases h
  | ok found =>
    obtain ⟨body, n⟩ := found
    constructor
    · rintro ⟨⟩
      exact ⟨body, rfl, rfl⟩
    · rintro ⟨body', hpattern, ⟨⟩⟩
      rw [hpattern]
      rfl

theorem parse_unflagged (h : ¬ BeginsWithFlags text)
    (hb : readBody dialect text = .ok (body, n)) :
    parse dialect text = .ok (unflagged body n) :=
  (parse_eq_ok_iff h).2 ⟨body, rfl, hb⟩

theorem not_beginsWithFlags_of_head? (h : text.head? ≠ some '(') : ¬ BeginsWithFlags text := by
  rintro ⟨letters, rest, -, -, rfl⟩
  exact h rfl

theorem not_beginsWithFlags_capturing (h : text.head? ≠ some '?') :
    ¬ BeginsWithFlags ('(' :: text) := by
  rintro ⟨letters, rest, -, -, heq⟩
  rw [(List.cons.inj heq).2] at h
  exact h rfl

theorem not_beginsWithFlags_plain (text : List Char) :
    ¬ BeginsWithFlags ('(' :: '?' :: ':' :: text) := by
  rintro ⟨letters, rest, hne, hall, heq⟩
  cases letters with
  | nil => exact hne rfl
  | cons c letters =>
    cases heq
    exact absurd (hall ':' List.mem_cons_self) (by decide)

/-- A bar is in no group of flags. -/
theorem not_beginsWithFlags_bar (h : ¬ BeginsWithFlags p) (q : List Char) :
    ¬ BeginsWithFlags (p ++ '|' :: q) := by
  rintro ⟨letters, rest, hne, hall, heq⟩
  have heq : p ++ '|' :: q = ('(' :: '?' :: (letters ++ [')'])) ++ rest := by
    rw [heq]
    simp
  rcases List.append_eq_append_iff.1 heq with ⟨more, hflags, hbar⟩ | ⟨more, hp, -⟩
  · cases more with
    | nil => exact h ⟨letters, [], hne, hall, by rw [← List.append_nil p, ← hflags]⟩
    | cons c more =>
      obtain rfl : '|' = c := (List.cons.inj hbar).1
      have hmem : '|' ∈ '(' :: '?' :: (letters ++ [')']) := by
        rw [hflags]
        exact List.mem_append_right _ List.mem_cons_self
      simp only [List.mem_cons, List.mem_append, List.not_mem_nil, or_false] at hmem
      rcases hmem with h | h | h | h
      · exact absurd h (by decide)
      · exact absurd h (by decide)
      · exact absurd (hall _ h) (by decide)
      · exact absurd h (by decide)
  · exact h ⟨letters, more, hne, hall, by rw [hp]; simp⟩

/-! ## An accepted text in a group -/

/-- The sign of an option has nothing before it to repeat. -/
theorem head?_ne_of_readBody (h : readBody dialect text = .ok (body, n)) :
    text.head? ≠ some '?' := by
  intro hmark
  obtain ⟨tail, rfl⟩ := List.head?_eq_some_iff.1 hmark
  obtain ⟨placed, a, hr, ht, -⟩ := readBody_eq_ok_iff_takeAll.1 h
  have hl : Lexeme.read dialect '?' tail = .ok (.quantifier 0 (some 1), Lexeme.dropLazy tail) := rfl
  rw [Lexeme.readAll_cons hl] at hr
  obtain rfl := (Prod.mk.inj hr).1
  cases ht

theorem head?_closing (h : readBody dialect text = .ok (body, n)) :
    (text ++ [')']).head? ≠ some '?' :=
  (endsPart_closing []).head?_append_ne (by decide) (by decide) (head?_ne_of_readBody h)

/-- A text that spells one token is a sequence of it. -/
theorem readBody_token {token : Token} (hs : Lexeme.Spells dialect text token.lexemes)
    (hw : token.WellFormed dialect) (hc : token.captures = List.range' 1 n) :
    readBody dialect text = .ok (.sequence [token], n) := by
  refine readBody_eq_ok_iff.2 ⟨?_, ⟨nofun, fun tokens hts => ?_⟩, ?_⟩
  · rwa [Body.lexemes, Token.lexemesAll_eq, List.flatMap_singleton]
  · rw [List.mem_singleton.1 hts]
    exact List.forall_mem_singleton.2 hw
  · rwa [Body.captures, Token.capturesAll_eq, List.flatMap_singleton]

/-- What an accepted text spells between the brackets of a group. -/
theorem spells_group {xs ys : List Lexeme} {o : Opening} {opening : List Char}
    (ho : Lexeme.Begins dialect opening (.opening o) (p ++ ')' :: rest))
    (hx : Lexeme.Spells dialect p xs) (hy : Lexeme.Spells dialect rest ys) :
    Lexeme.Spells dialect opening (.opening o :: (xs ++ .closing :: ys)) :=
  ho.spells (hx.append (endsPart_closing rest) (.cons rfl hy))

theorem begins_capturing (h : text.head? ≠ some '?') :
    Lexeme.Begins dialect ('(' :: text) (.opening .capturing) text := by
  refine ⟨'(', text, rfl, ?_⟩
  show (Lexeme.readOpening dialect _ text).andThen _ = _
  rw [Lexeme.readOpening_of_head? h]
  rfl

theorem readBody_capturing (h : readBody dialect p = .ok (body, n)) :
    readBody dialect ('(' :: (p ++ [')'])) =
      .ok (.sequence [.group { capture := some 1 } (body.raise 1)], n + 1) := by
  obtain ⟨hs, hw, hc⟩ := readBody_eq_ok_iff.1 h
  have hw' := Body.wellFormed_raise 1 hw
  refine readBody_token ?_ (.group ⟨rfl, .inr rfl⟩ hw'.choice hw'.tokens) ?_
  · rw [Token.lexemes, Body.lexemes_raise]
    exact spells_group (begins_capturing (head?_closing h)) hs .nil
  · rw [Token.captures, Body.captures_raise_range' 1 hc, List.range'_succ]
    rfl

/-- A token that is a group without a number, in the brackets `(?:` and `)`. -/
theorem spells_plain {ys : List Lexeme} (hs : Lexeme.Spells dialect p body.lexemes)
    (hy : Lexeme.Spells dialect rest ys) :
    Lexeme.Spells dialect ('(' :: '?' :: ':' :: (p ++ ')' :: rest))
      ((Token.group {} body).lexemes ++ ys) := by
  rw [Token.lexemes, List.cons_append, List.append_assoc]
  exact spells_group ⟨_, _, rfl, rfl⟩ hs hy

theorem readBody_plain (h : readBody dialect p = .ok (body, n)) :
    readBody dialect ('(' :: '?' :: ':' :: (p ++ [')'])) =
      .ok (.sequence [.group {} body], n) := by
  obtain ⟨hs, hw, hc⟩ := readBody_eq_ok_iff.1 h
  refine readBody_token ?_ (.group ⟨rfl, .inr rfl⟩ hw.choice hw.tokens) hc
  rw [← List.append_nil (Token.lexemes _)]
  exact spells_plain hs .nil

theorem QuantifierText.boundsInOrder {min : Nat} {max : Option Nat}
    (h : QuantifierText text min max) : BoundsInOrder min max := by
  cases h with
  | star | plus | optional => exact ⟨by decide, by decide⟩
  | exactly hn => exact ⟨Nat.le_refl _, hn.le_largest⟩
  | atLeast hn => exact ⟨hn.le_largest, Nat.le_refl _⟩
  | between hn hm hle => exact ⟨hle, hm.le_largest⟩

theorem readBody_repetition {mark : List Char} {min : Nat} {max : Option Nat}
    (h : readBody dialect p = .ok (body, n)) (hq : QuantifierText text min max)
    (hm : mark = [] ∨ mark = ['?']) :
    readBody dialect ('(' :: '?' :: ':' :: (p ++ ')' :: (text ++ mark))) =
      .ok (.sequence [.repetition (.group {} body) min max], n) := by
  obtain ⟨hs, hw, hc⟩ := readBody_eq_ok_iff.1 h
  have hquantifier : Lexeme.Spells dialect (text ++ mark) [.quantifier min max] := by
    have hb : Lexeme.Begins dialect _ _ _ := Lexeme.begins_quantifier hq mark
    rcases hm with rfl | rfl <;> exact Lexeme.Begins.spells hb .nil
  refine readBody_token ?_
    (.repetition rfl hq.boundsInOrder (.group ⟨rfl, .inr rfl⟩ hw.choice hw.tokens)) hc
  rw [Token.lexemes]
  exact spells_plain hs hquantifier

/-! ## Two accepted texts as branches -/

theorem readBody_bar {body' : Body} {m : Nat} (hp : readBody dialect p = .ok (body, n))
    (hq : readBody dialect q = .ok (body', m)) :
    readBody dialect (p ++ '|' :: q) =
      .ok (.alternation (body.branches ++ (body'.raise n).branches), n + m) := by
  obtain ⟨hs, hw, hc⟩ := readBody_eq_ok_iff.1 hp
  obtain ⟨hs', hw', hc'⟩ := readBody_eq_ok_iff.1 hq
  have hraise := Body.wellFormed_raise n hw'
  have hne := hw.choice.branches_ne_nil
  have hne' := hraise.choice.branches_ne_nil
  refine readBody_eq_ok_iff.2 ⟨?_, ⟨?_, ?_⟩, ?_⟩
  · rw [Body.lexemes, Token.branchLexemes_bar hne hne', ← Body.lexemes_eq, ← Body.lexemes_eq,
      Body.lexemes_raise]
    exact hs.append (endsPart_bar q) (.cons rfl hs')
  · rintro _ ⟨⟩
    have hpos := List.length_pos_iff.2 hne
    have hpos' := List.length_pos_iff.2 hne'
    rw [List.length_append]
    omega
  · exact fun tokens hts => (List.mem_append.1 hts).elim (hw.tokens tokens) (hraise.tokens tokens)
  · rw [Body.captures, Token.branchCaptures_eq, List.flatMap_append, ← Body.captures_eq,
      ← Body.captures_eq, hc, Body.captures_raise_range' n hc', Nat.add_comm n 1,
      List.range'_append_1]

/-! ## Accepted texts as parts -/

/-- Of two accepted texts without flags, the first one in brackets is a group, capturing or not, and
may be repeated by any quantifier, lazy or not; with a bar between them, they are the branches of
one pattern. The numbers of groups are raised by the number of those that begin before; references
stay as they are. -/
theorem parse_parts {P Q : Pattern} (hp : parse dialect p = .ok P) (hq : parse dialect q = .ok Q)
    (hfp : ¬ BeginsWithFlags p) (hfq : ¬ BeginsWithFlags q) :
    ∃ body body',
      P = unflagged body P.groupCount ∧
      Q = unflagged body' Q.groupCount ∧
      parse dialect ('(' :: (p ++ [')'])) =
        .ok (unflagged (.sequence [.group { capture := some 1 } (body.raise 1)])
          (P.groupCount + 1)) ∧
      parse dialect ('(' :: '?' :: ':' :: (p ++ [')'])) =
        .ok (unflagged (.sequence [.group {} body]) P.groupCount) ∧
      parse dialect (p ++ '|' :: q) =
        .ok (unflagged (.alternation (body.branches ++ (body'.raise P.groupCount).branches))
          (P.groupCount + Q.groupCount)) ∧
      ∀ quantifier min max, QuantifierText quantifier min max →
        ∀ mark : List Char, mark = [] ∨ mark = ['?'] →
          parse dialect ('(' :: '?' :: ':' :: (p ++ ')' :: (quantifier ++ mark))) =
            .ok (unflagged (.sequence [.repetition (.group {} body) min max]) P.groupCount) := by
  obtain ⟨body, hP, hbody⟩ := (parse_eq_ok_iff hfp).1 hp
  obtain ⟨body', hQ, hbody'⟩ := (parse_eq_ok_iff hfq).1 hq
  refine ⟨body, body', hP, hQ, ?_, ?_, ?_, ?_⟩
  · exact parse_unflagged (not_beginsWithFlags_capturing (head?_closing hbody))
      (readBody_capturing hbody)
  · exact parse_unflagged (not_beginsWithFlags_plain _) (readBody_plain hbody)
  · exact parse_unflagged (not_beginsWithFlags_bar hfp q) (readBody_bar hbody hbody')
  · intro quantifier min max htext mark hm
    exact parse_unflagged (not_beginsWithFlags_plain _) (readBody_repetition hbody htext hm)

/-- A captured letter, and the same letter again. -/
def doubled (c : Char) : Pattern :=
  unflagged (.sequence [.group { capture := some 1 } (.sequence [.atom (.literal c)]),
    .atom (.reference 1)]) 1

theorem parse_doubled :
    parse .lenient "(a)\\1".toList = .ok (doubled 'a') ∧
      parse .lenient "(b)\\1".toList = .ok (doubled 'b') := by
  have ha : readPattern .lenient "(a)\\1".toList = .ok (doubled 'a') := by cbv
  have hb : readPattern .lenient "(b)\\1".toList = .ok (doubled 'b') := by cbv
  rw [parse, parse, ha, hb]
  exact ⟨rfl, rfl⟩

theorem parse_parts_doubled :
    parse .lenient "(a)\\1".toList = .ok (doubled 'a') ∧
      parse .lenient "(b)\\1".toList = .ok (doubled 'b') ∧
      ¬ BeginsWithFlags "(a)\\1".toList ∧ ¬ BeginsWithFlags "(b)\\1".toList ∧
      ∃ body body',
        doubled 'a' = unflagged body 1 ∧ doubled 'b' = unflagged body' 1 ∧
        parse .lenient "(a)\\1|(b)\\1".toList =
          .ok (unflagged (.alternation (body.branches ++ (body'.raise 1).branches)) 2) ∧
        parse .lenient "(?:(a)\\1)+?".toList =
          .ok (unflagged (.sequence [.repetition (.group {} body) 1 none]) 1) := by
  have ha : ¬ BeginsWithFlags "(a)\\1".toList := not_beginsWithFlags_capturing (by decide)
  have hb : ¬ BeginsWithFlags "(b)\\1".toList := not_beginsWithFlags_capturing (by decide)
  obtain ⟨body, body', hP, hQ, -, -, hbar, hrepeat⟩ :=
    parse_parts parse_doubled.1 parse_doubled.2 ha hb
  have hplus := hrepeat ['+'] 1 none .plus ['?'] (.inr rfl)
  exact ⟨parse_doubled.1, parse_doubled.2, ha, hb, body, body', hP, hQ, hbar, hplus⟩

end Pattern

end PatternGen
