import PatternGen.Proofs.Generation
import PatternGen.Proofs.Lexemes.Tree

/-!
# The range of the decisions

Every question that is asked for a pattern text is one for a number that has a numeral. A set has no
more members than there are code points, the bounds of a repetition are numerals themselves or kept
below the largest one, and an alternation has no more branches than its text has room for.

Results:
* `Plan.UpTo.le_of_ends`: answers are no larger than the questions allow.
* `Lexeme.Spells.length_le`, `Token.length_le_branchLexemes`: the size of a text and of a token tree.
* `Pattern.plan_upTo`: the range of all questions of a pattern.
-/

namespace PatternGen

namespace Plan

variable {α β : Type} {n : Nat}

/-- Every question is one for a number up to `n`. -/
def UpTo (n : Nat) : Plan α → Prop
  | .done _ => True
  | .ask _ hi next => hi ≤ n ∧ ∀ v, (next v).UpTo n
  | .fetch _ next => ∀ text, (next text).UpTo n
  | .capture _ _ next => next.UpTo n

theorem UpTo.le_of_ends {x : Plan α} (hx : x.UpTo n) {c c' : Captures} {vs : List Nat} {a : α}
    (h : x.Ends c vs a c') : ∀ v ∈ vs, v ≤ n := by
  induction h with
  | done => exact fun v hv => nomatch hv
  | ask _ hhi _ ih => exact List.forall_mem_cons.2 ⟨Nat.le_trans hhi hx.1, ih (hx.2 _)⟩
  | fetch _ ih => exact ih (hx _)
  | capture _ ih => exact ih hx

theorem upTo_bind {x : Plan α} {f : α → Plan β} (hx : x.UpTo n) (hf : ∀ a, (f a).UpTo n) :
    (x >>= f).UpTo n := by
  induction x with
  | done a => exact hf a
  | ask lo hi next ih => exact ⟨hx.1, fun v => ih v (hx.2 v)⟩
  | fetch group next ih => exact fun text => ih text (hx text)
  | capture group text next ih => exact ih hx

/-! ## The plans of the parts -/

variable {x : Plan (List Char)} {xs : List (Plan (List Char))}

theorem upTo_literal (hn : 1 ≤ n) (ignoreCase : Bool) (c : Char) :
    (literal ignoreCase c).UpTo n := by
  unfold literal
  dsimp only
  generalize (if ignoreCase = true then otherCase c else c) = other
  split
  · exact trivial
  · exact ⟨hn, fun _ => trivial⟩

theorem upTo_member {set : CodeSet} (hn : set.size - 1 ≤ n) : (member set).UpTo n := by
  unfold member
  split
  · exact trivial
  · exact ⟨hn, fun _ => trivial⟩

theorem upTo_sequence (h : ∀ x ∈ xs, x.UpTo n) : (sequence xs).UpTo n := by
  induction xs with
  | nil => exact trivial
  | cons x xs ih =>
    rw [List.forall_mem_cons] at h
    exact upTo_bind h.1 fun _ => upTo_bind (ih h.2) fun _ => trivial

theorem upTo_capturing (h : x.UpTo n) (group : Option Nat) : (capturing group x).UpTo n := by
  refine upTo_bind h fun text => ?_
  cases group <;> exact trivial

theorem upTo_alternation (hn : xs.length - 1 ≤ n) (h : ∀ x ∈ xs, x.UpTo n) :
    (alternation xs).UpTo n := by
  refine ⟨hn, fun k => ?_⟩
  show (xs.getD k (pure [])).UpTo n
  rcases Nat.lt_or_ge k xs.length with hk | hk
  · rw [List.getD_eq_getElem _ _ hk]
    exact h _ (List.getElem_mem hk)
  · rw [List.getD_eq_default _ _ hk]
    exact trivial

theorem upTo_repetition (h : x.UpTo n) {min max : Nat} (hn : max ≤ n) :
    (repetition x min max).UpTo n :=
  ⟨hn, fun _ => ⟨hn, fun _ => upTo_sequence fun _ hx => List.eq_of_mem_replicate hx ▸ h⟩⟩

end Plan

theorem Atom.plan_upTo (settings : Settings) (a : Atom) :
    (a.plan settings).UpTo Numeral.largest := by
  cases a with
  | literal c => exact Plan.upTo_literal (by decide) _ c
  | position => exact trivial
  | charClass cls =>
    have hsize := (settings.expand cls).size_le
    have hlimit : UInt32.size ≤ Numeral.largest := by decide
    exact Plan.upTo_member (by omega)
  | reference n => exact fun _ => trivial

/-! ## The size of a token tree -/

namespace Token

theorem sublist_lexemesAll {tokens : List Token} {token : Token} (h : token ∈ tokens) :
    token.lexemes.Sublist (lexemesAll tokens) := by
  rw [lexemesAll_eq, List.flatMap]
  exact List.sublist_flatten_of_mem (List.mem_map_of_mem h)

theorem sublist_branchLexemes {branches : List (List Token)} {tokens : List Token}
    (h : tokens ∈ branches) : (lexemesAll tokens).Sublist (branchLexemes branches) := by
  induction branches with
  | nil => cases h
  | cons first branches ih =>
    cases branches with
    | nil => rw [List.mem_singleton.1 h, branchLexemes]
    | cons next branches =>
      rw [branchLexemes]
      rcases List.mem_cons.1 h with rfl | h
      · exact List.sublist_append_left _ _
      · exact ((ih h).cons _).trans (List.sublist_append_right _ _)

/-- Between the branches there are bars. -/
theorem length_le_branchLexemes (branches : List (List Token)) :
    branches.length ≤ (branchLexemes branches).length + 1 := by
  induction branches with
  | nil => exact Nat.zero_le _
  | cons first branches ih =>
    cases branches with
    | nil => exact Nat.succ_le_succ (Nat.zero_le _)
    | cons next branches =>
      have hlen : (branchLexemes (first :: next :: branches)).length =
          (lexemesAll first).length + ((branchLexemes (next :: branches)).length + 1) := by
        rw [branchLexemes, List.length_append, List.length_cons]
      rw [hlen, List.length_cons]
      omega

end Token

/-- Every lexeme is some of the text. -/
theorem Pattern.Lexeme.Spells.length_le {dialect : Dialect} {text : List Char}
    {lexemes : List Lexeme} (h : Spells dialect text lexemes) : lexemes.length ≤ text.length := by
  induction h with
  | nil => exact Nat.le_refl _
  | cons hread _ ih =>
    exact Nat.succ_le_succ (Nat.le_trans ih (read_suffix hread).length_le)

/-! ## Patterns -/

theorem Settings.upperBound_le (settings : Settings) (min : Nat) {max : Option Nat}
    (h : max.getD Numeral.largest ≤ Numeral.largest) :
    settings.upperBound min max ≤ Numeral.largest := by
  cases max with
  | none => exact Nat.min_le_right _ _
  | some max => exact h

theorem Body.plan_upTo (settings : Settings) {body : Body}
    (hlen : body.branches.length ≤ Numeral.limit)
    (h : ∀ tokens ∈ body.branches, ∀ token ∈ tokens, (token.plan settings).UpTo Numeral.largest) :
    (body.interpret (Plan.interpretation settings)).UpTo Numeral.largest := by
  have hall : ∀ tokens ∈ body.branches,
      ∀ x ∈ Token.interpretAll (Plan.interpretation settings) tokens, x.UpTo Numeral.largest := by
    intro tokens htokens x hx
    rw [Token.interpretAll_eq_map] at hx
    obtain ⟨token, htoken, rfl⟩ := List.mem_map.1 hx
    exact h tokens htokens token htoken
  cases body with
  | sequence tokens => exact Plan.upTo_sequence (hall tokens (List.mem_singleton.2 rfl))
  | alternation branches =>
    rw [Body.interpret, Token.interpretBranches_eq_map]
    refine Plan.upTo_alternation ?_ fun x hx => ?_
    · rw [List.length_map]
      exact Nat.sub_le_sub_right hlen 1
    · obtain ⟨tokens, htokens, rfl⟩ := List.mem_map.1 hx
      exact Plan.upTo_sequence (hall tokens htokens)

theorem Body.length_branches_le {body : Body} (h : body.lexemes.length ≤ Numeral.largest) :
    body.branches.length ≤ Numeral.limit := by
  have hle := Token.length_le_branchLexemes body.branches
  have hlimit : Numeral.largest + 1 = Numeral.limit := rfl
  rw [Body.lexemes_eq] at h
  omega

theorem Body.length_lexemes_le {body : Body} {tokens : List Token} {token : Token}
    (htokens : tokens ∈ body.branches) (htoken : token ∈ tokens) :
    token.lexemes.length ≤ body.lexemes.length := by
  rw [Body.lexemes_eq]
  exact ((Token.sublist_lexemesAll htoken).trans (Token.sublist_branchLexemes htokens)).length_le

theorem Token.plan_upTo (settings : Settings) {dialect : Dialect} {token : Token}
    (h : token.WellFormed dialect) (hlen : token.lexemes.length ≤ Numeral.largest) :
    (token.plan settings).UpTo Numeral.largest := by
  induction h with
  | @atom a _ => exact a.plan_upTo settings
  | repetition _ hbounds _ ih =>
    rw [Token.lexemes, List.length_append] at hlen
    exact Plan.upTo_repetition (ih (by omega)) (settings.upperBound_le _ hbounds.max_le)
  | @group frame body _ _ _ ih =>
    rw [Token.lexemes, List.length_cons, List.length_append] at hlen
    rw [Token.plan, Token.interpret]
    split
    · exact trivial
    · refine Plan.upTo_capturing (Body.plan_upTo settings (Body.length_branches_le (by omega)) ?_) _
      intro tokens htokens token htoken
      have hle := Body.length_lexemes_le htokens htoken
      exact ih tokens htokens token htoken (by omega)

/-- The answers to the questions of a pattern text are numerals. A text in memory is shorter than
the largest one. -/
theorem Pattern.plan_upTo (settings : Settings) {dialect : Dialect} {text : List Char}
    {pattern : Pattern} (h : parse dialect text = .ok pattern)
    (hlen : text.length ≤ Numeral.largest) :
    (pattern.root.plan settings).UpTo Numeral.largest := by
  have hread := readPattern_of_parse h
  unfold readPattern at hread
  split at hread
  · cases hread
  · next flags rest hflags =>
    split at hread
    · cases hread
    · next body groupCount hbody =>
      cases hread
      obtain ⟨hspells, hwf, -⟩ := readBody_eq_ok_iff.1 hbody
      have hle : body.lexemes.length ≤ Numeral.largest :=
        Nat.le_trans hspells.length_le
          (Nat.le_trans (readInlineFlags_suffix hflags).length_le hlen)
      refine Plan.upTo_capturing (Body.plan_upTo settings (Body.length_branches_le hle) ?_) none
      intro tokens htokens token htoken
      exact Token.plan_upTo settings (hwf.tokens tokens htokens token htoken)
        (Nat.le_trans (Body.length_lexemes_le htokens htoken) hle)

end PatternGen
