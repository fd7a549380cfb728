import PatternGen.Pattern.Assembly
import PatternGen.Proofs.Lexemes.Basic
import PatternGen.Proofs.WellFormed.Parse

/-!
# The lexemes of a token tree

A token tree has one list of lexemes: those of its leaves and quantifiers, with brackets around
every group and bars between branches. Assembling these lexemes gives the tree back, and lexemes
that are assembled at all are those of their tree. So a text denotes a tree exactly if it spells the
lexemes of the tree.

Results:
* `Assembly.lexemes_take`, `Assembly.lexemes_takeAll`: what is assembled has the lexemes that were
  taken.
* `Assembly.adds_of_wellFormed`: the lexemes of a token add that token.
* `Pattern.readBody_eq_ok_iff`: the bodies that a text denotes.
-/

namespace PatternGen

open Pattern (Lexeme Opening)

/-- How a group begins that has this frame. -/
def Frame.opening (frame : Frame) : Opening :=
  match frame.look, frame.capture with
  | some look, _ => .looking look
  | none, some _ => .capturing
  | none, none => .plain

mutual

/-- The lexemes of a token. -/
def Token.lexemes : Token → List Lexeme
  | .atom a => [.atom a]
  | .repetition token min max => token.lexemes ++ [.quantifier min max]
  | .group frame body => .opening frame.opening :: (body.lexemes ++ [.closing])

/-- The lexemes of the body of a group. -/
def Body.lexemes : Body → List Lexeme
  | .sequence tokens => Token.lexemesAll tokens
  | .alternation branches => Token.branchLexemes branches

/-- The lexemes of the tokens of a sequence. -/
def Token.lexemesAll : List Token → List Lexeme
  | [] => []
  | token :: tokens => token.lexemes ++ Token.lexemesAll tokens

/-- The lexemes of the branches of an alternation, with bars between them. -/
def Token.branchLexemes : List (List Token) → List Lexeme
  | [] => []
  | [tokens] => Token.lexemesAll tokens
  | tokens :: next :: branches =>
    Token.lexemesAll tokens ++ .bar :: Token.branchLexemes (next :: branches)

end

theorem Body.lexemes_eq (body : Body) : body.lexemes = Token.branchLexemes body.branches := by
  cases body with
  | sequence tokens => rw [lexemes, branches, Token.branchLexemes]
  | alternation branches => rw [lexemes, Body.branches]

theorem Token.lexemesAll_eq (tokens : List Token) :
    Token.lexemesAll tokens = tokens.flatMap Token.lexemes := by
  induction tokens with
  | nil => rfl
  | cons token tokens ih => rw [lexemesAll, List.flatMap_cons, ih]

/-- Every branch but the last has a bar behind it. -/
theorem Token.branchLexemes_append (branches : List (List Token)) (last : List Token) :
    Token.branchLexemes (branches ++ [last]) =
      branches.flatMap (fun tokens => Token.lexemesAll tokens ++ [.bar]) ++
        Token.lexemesAll last := by
  induction branches with
  | nil => rfl
  | cons tokens branches ih =>
    cases branches with
    | nil =>
      rw [List.singleton_append, branchLexemes, branchLexemes, List.flatMap_singleton,
        List.append_assoc]
      rfl
    | cons next branches =>
      rw [List.cons_append, List.cons_append, branchLexemes, ← List.cons_append, ih]
      simp only [List.flatMap_cons, List.append_assoc, List.cons_append, List.nil_append]

/-- Between the branches of two bodies stands a bar. -/
theorem Token.branchLexemes_bar {xs ys : List (List Token)} (hx : xs ≠ []) (hy : ys ≠ []) :
    Token.branchLexemes (xs ++ ys) =
      Token.branchLexemes xs ++ .bar :: Token.branchLexemes ys := by
  induction xs with
  | nil => exact absurd rfl hx
  | cons tokens xs ih =>
    cases xs with
    | nil =>
      cases ys with
      | nil => exact absurd rfl hy
      | cons next ys => rfl
    | cons next xs =>
      rw [List.cons_append, List.cons_append, branchLexemes, ← List.cons_append,
        ih (List.cons_ne_nil _ _), branchLexemes, List.append_assoc, List.cons_append]

namespace Pattern

/-! ## The lexemes of what is assembled -/

/-- The lexemes of a draft. -/
def Draft.lexemes (draft : Draft) : List Lexeme :=
  draft.branches.reverse.flatMap (fun tokens => Token.lexemesAll tokens ++ [.bar]) ++
    Token.lexemesAll draft.tokens.reverse

namespace Draft

theorem lexemes_push (draft : Draft) (token : Token) :
    (draft.push token).lexemes = draft.lexemes ++ token.lexemes := by
  simp only [lexemes, push, List.reverse_cons, Token.lexemesAll_eq, List.flatMap_append,
    List.flatMap_singleton, List.append_assoc]

theorem lexemes_split (draft : Draft) : draft.split.lexemes = draft.lexemes ++ [.bar] := by
  simp only [lexemes, split, List.reverse_cons, List.flatMap_append, List.flatMap_singleton,
    List.reverse_nil, Token.lexemesAll, List.append_nil, List.append_assoc]

theorem lexemes_body (draft : Draft) : draft.body.lexemes = draft.lexemes := by
  unfold body
  split
  · next hnil =>
    rw [List.isEmpty_iff] at hnil
    rw [Body.lexemes, lexemes, hnil]
    rfl
  · rw [Body.lexemes, split, List.reverse_cons, Token.branchLexemes_append]
    rfl

end Draft

namespace Assembly

/-- The lexemes before the body that is being read: of every open group what stands before it, and
its bracket. -/
def outerLexemes (openGroups : List OpenGroup) : List Lexeme :=
  openGroups.reverse.flatMap fun g => g.before.lexemes ++ [.opening g.frame.opening]

/-- The lexemes of everything that is assembled. -/
def lexemes (a : Assembly) : List Lexeme := outerLexemes a.openGroups ++ a.draft.lexemes

theorem outerLexemes_cons (g : OpenGroup) (outer : List OpenGroup) :
    outerLexemes (g :: outer) =
      outerLexemes outer ++ (g.before.lexemes ++ [.opening g.frame.opening]) := by
  rw [outerLexemes, List.reverse_cons, List.flatMap_append, List.flatMap_singleton]
  rfl

theorem lexemes_enter (a : Assembly) (here : List Char) (o : Opening) :
    (a.enter here o).lexemes = a.lexemes ++ [.opening o] := by
  cases o <;>
  · rw [enter, lexemes, outerLexemes_cons, lexemes, List.append_assoc, List.append_assoc,
      List.append_assoc]
    rfl

theorem lexemes_leave {a a' : Assembly} {here : List Char} (h : a.leave here = .ok a') :
    a'.lexemes = a.lexemes ++ [.closing] := by
  unfold leave at h
  split at h
  · cases h
  · next g outer hg =>
    cases h
    rw [lexemes, lexemes, hg, outerLexemes_cons, Draft.lexemes_push, Token.lexemes,
      Draft.lexemes_body]
    simp only [List.append_assoc, List.cons_append, List.nil_append]

theorem lexemes_repeatLast {a a' : Assembly} {here : List Char} {min : Nat} {max : Option Nat}
    (h : a.repeatLast here min max = .ok a') : a'.lexemes = a.lexemes ++ [.quantifier min max] := by
  unfold repeatLast at h
  split at h
  · cases h
  · next token before ht =>
    split at h
    · cases h
      simp only [lexemes, Draft.lexemes, ht, List.reverse_cons, Token.lexemesAll_eq,
        List.flatMap_append, List.flatMap_singleton, Token.lexemes, List.append_assoc]
    · cases h

/-- Taking a lexeme adds it to those of the assembly. -/
theorem lexemes_take {a a' : Assembly} {l : Lexeme.Placed} (h : a.take l = .ok a') :
    a'.lexemes = a.lexemes ++ [l.lexeme] := by
  unfold take at h
  split at h
  · next atom hl =>
    cases h
    rw [hl, lexemes, Draft.lexemes_push, ← List.append_assoc, Token.lexemes]
    rfl
  · next hl =>
    cases h
    rw [hl, lexemes, Draft.lexemes_split, ← List.append_assoc]
    rfl
  · next o hl =>
    cases h
    rw [hl, lexemes_enter]
  · next hl => rw [hl, lexemes_leave h]
  · next hl => rw [hl, lexemes_repeatLast h]

theorem lexemes_takeAll {a a' : Assembly} {placed : List Lexeme.Placed}
    (h : a.takeAll placed = .ok a') : a'.lexemes = a.lexemes ++ placed.map (·.lexeme) := by
  induction placed generalizing a with
  | nil =>
    cases h
    exact (List.append_nil _).symm
  | cons l placed ih =>
    rw [takeAll] at h
    split at h
    · cases h
    · next ht => rw [ih h, lexemes_take ht, List.append_assoc, List.map_cons, List.singleton_append]

/-! ## Assembling a token tree -/

theorem takeAll_append {a b : Assembly} {placed : List Lexeme.Placed}
    (h : a.takeAll placed = .ok b) (more : List Lexeme.Placed) :
    a.takeAll (placed ++ more) = b.takeAll more := by
  induction placed generalizing a with
  | nil =>
    cases h
    rfl
  | cons l placed ih =>
    rw [takeAll] at h
    rw [List.cons_append, takeAll]
    split at h
    · cases h
    · exact ih h

/-- The lexemes lead from one assembly to another, wherever they stand in a text. -/
def Assembles (lexemes : List Lexeme) (a b : Assembly) : Prop :=
  ∀ placed : List Lexeme.Placed, placed.map (·.lexeme) = lexemes → a.takeAll placed = .ok b

theorem assembles_nil (a : Assembly) : Assembles [] a a := by
  intro placed hp
  rw [List.map_eq_nil_iff.1 hp]
  rfl

theorem Assembles.append {xs ys : List Lexeme} {a b c : Assembly} (hx : Assembles xs a b)
    (hy : Assembles ys b c) : Assembles (xs ++ ys) a c := by
  intro placed hp
  obtain ⟨ps, qs, rfl, hps, hqs⟩ := List.map_eq_append_iff.1 hp
  rw [takeAll_append (hx ps hps)]
  exact hy qs hqs

theorem assembles_singleton {l : Lexeme} {a b : Assembly}
    (h : ∀ here, a.take ⟨l, here⟩ = .ok b) : Assembles [l] a b := by
  intro placed hp
  obtain ⟨⟨_, here⟩, rfl, rfl⟩ := List.map_eq_singleton_iff.1 hp
  rw [takeAll, h here]
  rfl

/-- The numbers are the next ones after `n`. -/
def FollowOn (n : Nat) (numbers : List Nat) : Prop := numbers = List.range' (n + 1) numbers.length

theorem followOn_append {n : Nat} {xs ys : List Nat} (h : FollowOn n (xs ++ ys)) :
    FollowOn n xs ∧ FollowOn (n + xs.length) ys := by
  unfold FollowOn at h ⊢
  rw [List.length_append, ← List.range'_append_1, Nat.add_right_comm] at h
  exact List.append_inj h (List.length_range').symm

/-- The assembly with another draft, and with groups that have these numbers. -/
def advance (a : Assembly) (numbers : List Nat) (draft : Draft) : Assembly :=
  { a with groupCount := a.groupCount + numbers.length, draft }

theorem advance_advance (a : Assembly) (xs ys : List Nat) (draft draft' : Draft) :
    (a.advance xs draft).advance ys draft' = a.advance (xs ++ ys) draft' := by
  rw [advance, advance, advance, List.length_append, Nat.add_assoc]

/-- The lexemes of the token add it to every draft, if its groups have the numbers that come
next. -/
def Adds (token : Token) : Prop :=
  ∀ a : Assembly, FollowOn a.groupCount token.captures →
    Assembles token.lexemes a (a.advance token.captures (a.draft.push token))

theorem assembles_tokens {tokens : List Token} (h : ∀ token ∈ tokens, Adds token) (a : Assembly)
    (hn : FollowOn a.groupCount (Token.capturesAll tokens)) :
    Assembles (Token.lexemesAll tokens) a
      (a.advance (Token.capturesAll tokens) (tokens.foldl Draft.push a.draft)) := by
  induction tokens generalizing a with
  | nil => exact assembles_nil a
  | cons token tokens ih =>
    rw [List.forall_mem_cons] at h
    obtain ⟨h₁, h₂⟩ := followOn_append hn
    rw [Token.lexemesAll, Token.capturesAll, List.foldl_cons, ← advance_advance]
    exact (h.1 a h₁).append (ih h.2 _ h₂)

end Assembly

/-- The draft with branches added to it: the first one to the branch that is being read, and the
last one becomes that. -/
def Draft.addBranches : Draft → List (List Token) → Draft
  | draft, [] => draft
  | draft, [tokens] => tokens.foldl push draft
  | draft, tokens :: next :: branches =>
    (tokens.foldl push draft).split.addBranches (next :: branches)

namespace Draft

theorem foldl_push (draft : Draft) (tokens : List Token) :
    tokens.foldl push draft = { draft with tokens := tokens.reverse ++ draft.tokens } := by
  induction tokens generalizing draft with
  | nil => rfl
  | cons token tokens ih =>
    rw [List.foldl_cons, ih, push, List.reverse_cons, List.append_assoc]
    rfl

theorem addBranches_cons_cons (done : List (List Token)) (tokens next : List Token)
    (branches : List (List Token)) :
    addBranches ⟨done, []⟩ (tokens :: next :: branches) =
      addBranches ⟨tokens :: done, []⟩ (next :: branches) := by
  rw [addBranches, foldl_push, split, List.append_nil, List.reverse_reverse]

/-- When nothing of its current branch is read, a draft gets just these branches. -/
theorem split_addBranches (done : List (List Token)) {branches : List (List Token)}
    (h : branches ≠ []) :
    (addBranches ⟨done, []⟩ branches).split.branches = branches.reverse ++ done := by
  induction branches generalizing done with
  | nil => exact absurd rfl h
  | cons tokens branches ih =>
    cases branches with
    | nil => simp [addBranches, foldl_push, split]
    | cons next branches =>
      rw [addBranches_cons_cons, ih _ (List.cons_ne_nil _ _), List.reverse_cons (a := tokens),
        List.append_assoc, List.singleton_append]

theorem addBranches_ne_nil (draft : Draft) (h : draft.branches ≠ [])
    (branches : List (List Token)) :
    (draft.addBranches branches).branches ≠ [] := by
  fun_induction addBranches draft branches with
  | case1 draft => exact h
  | case2 draft tokens =>
    rw [foldl_push]
    exact h
  | case3 draft tokens next branches ih => exact ih (List.cons_ne_nil _ _)

/-- A draft that gets the branches of a body is that body. -/
theorem body_addBranches {body : Body} (h : body.OffersChoice) :
    (({} : Draft).addBranches body.branches).body = body := by
  cases body with
  | sequence tokens =>
    rw [Body.branches, addBranches, foldl_push, Draft.body]
    simp
  | alternation branches =>
    have hlen := h branches rfl
    rw [Body.branches]
    rcases branches with _ | ⟨tokens, _ | ⟨next, branches⟩⟩
    · exact absurd hlen (Nat.not_succ_le_zero 1)
    · exact absurd hlen (Nat.not_succ_le_self 1)
    · have hne := addBranches_ne_nil ⟨[tokens], []⟩ (List.cons_ne_nil _ _) (next :: branches)
      rw [addBranches_cons_cons, Draft.body, if_neg (by rwa [List.isEmpty_iff]),
        split_addBranches _ (List.cons_ne_nil _ _)]
      simp

end Draft

namespace Assembly

theorem assembles_branches {branches : List (List Token)}
    (h : ∀ tokens ∈ branches, ∀ token ∈ tokens, Adds token) (a : Assembly)
    (hn : FollowOn a.groupCount (Token.branchCaptures branches)) :
    Assembles (Token.branchLexemes branches) a
      (a.advance (Token.branchCaptures branches) (a.draft.addBranches branches)) := by
  induction branches generalizing a with
  | nil => exact assembles_nil a
  | cons tokens branches ih =>
    rw [List.forall_mem_cons] at h
    obtain ⟨h₁, h₂⟩ := followOn_append hn
    have htokens := assembles_tokens h.1 a h₁
    rw [Token.branchCaptures, ← advance_advance]
    cases branches with
    | nil => exact htokens
    | cons next branches =>
      rw [Token.branchLexemes, Draft.addBranches]
      exact htokens.append ((assembles_singleton fun _ => rfl).append (ih h.2 _ h₂))

/-- Between the brackets of a group, the lexemes of a body give that body. -/
theorem assembles_body {body : Body} (hc : body.OffersChoice)
    (h : ∀ tokens ∈ body.branches, ∀ token ∈ tokens, Adds token) {a : Assembly}
    (ha : a.draft = {}) (hn : FollowOn a.groupCount body.captures) :
    ∃ draft : Draft, draft.body = body ∧
      Assembles body.lexemes a (a.advance body.captures draft) := by
  refine ⟨_, Draft.body_addBranches hc, ?_⟩
  rw [Body.lexemes_eq, Body.captures_eq, ← Token.branchCaptures_eq] at *
  rw [← ha]
  exact assembles_branches h a hn

theorem repeatLast_push (a : Assembly) (here : List Char) (draft : Draft) {token : Token}
    {min : Nat} {max : Option Nat} (hr : token.repeatable = true) :
    ({ a with draft := draft.push token } : Assembly).repeatLast here min max =
      .ok { a with draft := draft.push (.repetition token min max) } := by
  rw [repeatLast]
  dsimp only [Draft.push]
  rw [if_pos hr]

theorem adds_repetition {token : Token} {min : Nat} {max : Option Nat} (h : Adds token)
    (hr : token.repeatable = true) : Adds (.repetition token min max) := by
  intro a hn
  rw [Token.captures] at hn ⊢
  rw [Token.lexemes]
  exact (h a hn).append
    (assembles_singleton fun here => repeatLast_push (a.advance token.captures {}) here a.draft hr)

/-- The bracket of a group with this frame opens a group with this frame. -/
theorem enter_opening {a : Assembly} {frame : Frame} (hf : frame.Inner)
    (hn : FollowOn a.groupCount frame.capture.toList) (here : List Char) :
    a.enter here frame.opening =
      { groupCount := a.groupCount + frame.capture.toList.length
        openGroups := ⟨here, frame, a.draft⟩ :: a.openGroups } := by
  obtain ⟨role, capture, look⟩ := frame
  obtain ⟨rfl, hcl⟩ := hf
  cases look with
  | some look =>
    rcases hcl with rfl | h
    · rfl
    · cases h
  | none =>
    cases capture with
    | none => rfl
    | some n =>
      obtain rfl : n = a.groupCount + 1 := (List.cons.inj hn).1
      rfl

theorem adds_group {frame : Frame} {body : Body} (hf : frame.Inner) (hc : body.OffersChoice)
    (h : ∀ tokens ∈ body.branches, ∀ token ∈ tokens, Adds token) : Adds (.group frame body) := by
  intro a hn placed hp
  obtain ⟨hframe, hbody⟩ := followOn_append hn
  rw [Token.lexemes] at hp
  obtain ⟨⟨_, here⟩, rest, rfl, rfl, hrest⟩ := List.map_eq_cons_iff.1 hp
  obtain ⟨inner, last, rfl, hinner, hlast⟩ := List.map_eq_append_iff.1 hrest
  obtain ⟨⟨_, there⟩, rfl, rfl⟩ := List.map_eq_singleton_iff.1 hlast
  let opened : Assembly :=
    { groupCount := a.groupCount + frame.capture.toList.length
      openGroups := ⟨here, frame, a.draft⟩ :: a.openGroups }
  have hopen : a.take ⟨.opening frame.opening, here⟩ = .ok opened :=
    congrArg Except.ok (enter_opening hf hframe here)
  obtain ⟨draft, rfl, hassembles⟩ := assembles_body hc h (show opened.draft = {} from rfl) hbody
  rw [takeAll, hopen]
  dsimp only
  rw [takeAll_append (hassembles inner hinner), Token.captures, ← advance_advance a _ _ {}]
  rfl

/-- The lexemes of a well-formed token add it to what is assembled. -/
theorem adds_of_wellFormed {dialect : Dialect} {token : Token} (h : token.WellFormed dialect) :
    Adds token := by
  induction h with
  | atom _ =>
    intro a _
    exact assembles_singleton fun _ => rfl
  | repetition hr _ _ ih => exact adds_repetition ih hr
  | group hf hc _ ih => exact adds_group hf hc ih

end Assembly

/-! ## Bodies -/

variable {dialect : Dialect} {text : List Char} {body : Body} {n : Nat}

/-- A text denotes a body exactly if it spells the lexemes of the body, which is well formed and has
its groups numbered in order. -/
theorem readBody_eq_ok_iff :
    readBody dialect text = .ok (body, n) ↔
      Lexeme.Spells dialect text body.lexemes ∧ body.WellFormed dialect ∧
        body.captures = List.range' 1 n := by
  constructor
  · intro h
    refine ⟨?_, wellFormed_of_readBody h⟩
    obtain ⟨placed, a, hr, ht, ho, rfl, rfl⟩ := readBody_eq_ok_iff_takeAll.1 h
    have hl := Assembly.lexemes_takeAll ht
    rw [Assembly.lexemes, ho] at hl
    rw [Draft.lexemes_body]
    have : a.draft.lexemes = placed.map (·.lexeme) := hl
    rw [this]
    exact Lexeme.spells_of_readAll hr
  · rintro ⟨hs, hw, hc⟩
    obtain ⟨placed, hr, hp⟩ := Lexeme.readAll_of_spells hs
    have hn : Assembly.FollowOn ({} : Assembly).groupCount body.captures := by
      rw [Assembly.FollowOn, hc, List.length_range']
    obtain ⟨draft, hdraft, ha⟩ := Assembly.assembles_body hw.choice
      (fun tokens hts token ht => Assembly.adds_of_wellFormed (hw.tokens tokens hts token ht))
      rfl hn
    refine readBody_eq_ok_iff_takeAll.2 ⟨placed, _, hr, ha placed hp, rfl, hdraft, ?_⟩
    rw [Assembly.advance, hc, List.length_range']
    exact Nat.zero_add n

end Pattern

end PatternGen
