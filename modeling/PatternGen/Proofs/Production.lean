import PatternGen.Engine
import PatternGen.Proofs.CodeSet.Rank
import PatternGen.Proofs.Plan.Token

/-!
# The texts of a pattern

A token stands for texts. Which ones depends on the captures before it, since a reference repeats
what a group captured, and a text may leave other captures behind.

Results:
* `Token.exists_ends_iff`: the texts of a regular token are those to which some answers to its plan
  lead.
-/

namespace PatternGen

/-- What a token stands for: `y c w c'` if from the captures `c` it can be the text `w`, which
leaves the captures `c'`. -/
abbrev Production := Captures → List Char → Captures → Prop

namespace Production

def nothing : Production := fun c w c' => w = [] ∧ c' = c

/-- A character; without regard to case also its other case. -/
def literal (ignoreCase : Bool) (ch : Char) : Production := fun c w c' =>
  (w = [ch] ∨ ignoreCase = true ∧ w = [otherCase ch]) ∧ c' = c

theorem literal_iff {ignoreCase : Bool} {ch : Char} {c c' : Captures} {w : List Char} :
    literal ignoreCase ch c w c' ↔
      (w = [ch] ∨ w = [if ignoreCase = true then otherCase ch else ch]) ∧ c' = c := by
  cases ignoreCase <;> simp [literal]

/-- A member of a set; the empty text if there is none. -/
def member (set : CodeSet) : Production := fun c w c' =>
  ((∃ ch : Char, ch.val ∈ set ∧ w = [ch]) ∨ (∀ v, v ∉ set) ∧ w = []) ∧ c' = c

/-- The text that a group captured. -/
def reference (group : Nat) : Production := fun c w c' => w = c.get group ∧ c' = c

/-- One after the other. -/
def sequence : List Production → Production
  | [] => nothing
  | y :: ys => fun c w c' => ∃ first others c₁, w = first ++ others ∧ y c first c₁ ∧
      sequence ys c₁ others c'

/-- One of several. -/
def alternation (ys : List Production) : Production := fun c w c' => ∃ y ∈ ys, y c w c'

/-- A group, which captures its text if it has a number. -/
def capturing (group : Option Nat) (y : Production) : Production := fun c w c' =>
  ∃ c₁, y c w c₁ ∧ c' = group.elim c₁ fun n => c₁.set n w

/-- The same from `min` to `max` times, one after the other. -/
def repetition (y : Production) (min max : Nat) : Production := fun c w c' =>
  ∃ n, (min ≤ n ∧ n ≤ max) ∧ sequence (List.replicate n y) c w c'

end Production

section

variable (settings : Settings)

def Atom.Yields : Atom → Production
  | .literal ch => .literal settings.flags.caseInsensitive ch
  | .position _ => .nothing
  | .charClass cls => .member (settings.expand cls)
  | .reference n => .reference n

/-- The interpretation of token trees by the texts that they stand for. -/
def Production.interpretation : Interpretation Production where
  atom a := a.Yields settings
  looking := nothing
  sequence := sequence
  alternation := alternation
  capturing := capturing
  repetition y min max := repetition y min (settings.upperBound min max)

/-- From the captures `c` the token can be the text `w`, which leaves the captures `c'`. -/
def Token.Yields (token : Token) : Production :=
  token.interpret (Production.interpretation settings)

end

/-- The whole pattern can be the text `w`, which leaves the captures `c`. -/
def Engine.Yields (engine : Engine) (w : List Char) (c : Captures) : Prop :=
  engine.pattern.root.Yields engine.settings {} w c

/-! ## Plans and texts -/

/-- The texts to which some answers lead are those of the production. -/
def Plan.Produces (x : Plan (List Char)) (y : Production) : Prop :=
  ∀ {c w c'}, (∃ vs, x.Ends c vs w c') ↔ y c w c'

namespace Plan

theorem exists_ends_pure_iff {a b : List Char} {c c' : Captures} :
    (∃ vs, (pure a : Plan (List Char)).Ends c vs b c') ↔ b = a ∧ c' = c := by
  simp only [ends_pure_iff, exists_eq_left]

theorem exists_ends_question_iff {lo hi : Nat} {f : Nat → Plan (List Char)} {c c' : Captures}
    {w : List Char} : (∃ vs, (question lo hi >>= f).Ends c vs w c') ↔
      ∃ v, (lo ≤ v ∧ v ≤ hi) ∧ ∃ vs, (f v).Ends c vs w c' := by
  simp only [ends_question_bind_iff]
  constructor
  · rintro ⟨_, v, vs, -, hv, h⟩
    exact ⟨v, hv, vs, h⟩
  · rintro ⟨v, hv, vs, h⟩
    exact ⟨v :: vs, v, vs, rfl, hv, h⟩

theorem produces_nothing : Produces (pure []) .nothing :=
  exists_ends_pure_iff

theorem produces_literal (ignoreCase : Bool) (ch : Char) :
    Produces (literal ignoreCase ch) (.literal ignoreCase ch) := by
  intro c w c'
  rw [Production.literal_iff]
  unfold literal
  dsimp only
  generalize (if ignoreCase = true then otherCase ch else ch) = other
  by_cases ho : other = ch
  · rw [if_pos ho, exists_ends_pure_iff, ho, or_self]
  · rw [if_neg ho, exists_ends_question_iff]
    simp only [exists_ends_pure_iff]
    constructor
    · rintro ⟨k, -, hw, hc⟩
      split at hw
      · exact ⟨.inr hw, hc⟩
      · exact ⟨.inl hw, hc⟩
    · rintro ⟨hw | hw, hc⟩
      · exact ⟨0, by omega, hw, hc⟩
      · exact ⟨1, by omega, hw, hc⟩

theorem produces_member {set : CodeSet} (hs : ∀ v ∈ set, v.toNat.isValidChar) :
    Produces (member set) (.member set) := by
  intro c w c'
  unfold member Production.member
  by_cases he : set.isEmpty = true
  · have hnone := CodeSet.isEmpty_iff.1 he
    rw [if_pos he, exists_ends_pure_iff]
    constructor
    · rintro ⟨rfl, rfl⟩
      exact ⟨.inr ⟨hnone, rfl⟩, rfl⟩
    · rintro ⟨⟨ch, hch, -⟩ | ⟨-, hw⟩, hc⟩
      · exact absurd hch (hnone _)
      · exact ⟨hw, hc⟩
  · have hpos := CodeSet.size_pos he
    rw [if_neg he, exists_ends_question_iff]
    simp only [exists_ends_pure_iff]
    constructor
    · rintro ⟨k, hk, rfl, rfl⟩
      exact ⟨.inl ⟨_, Chooser.characterAt_mem hs (by omega), rfl⟩, rfl⟩
    · rintro ⟨⟨ch, hch, rfl⟩ | ⟨hnone, -⟩, rfl⟩
      · obtain ⟨k, hk⟩ := CodeSet.exists_rank hch
        obtain ⟨hlt, hch⟩ := Chooser.characterAt_of_rank hk
        exact ⟨k, by omega, by rw [hch], rfl⟩
      · exact absurd (CodeSet.isEmpty_iff.2 hnone) he

theorem produces_reference (n : Nat) : Produces (reference n) (.reference n) := by
  intro c w c'
  constructor
  · rintro ⟨vs, h⟩
    cases h with
    | fetch h => exact (ends_pure_iff.1 h).2
  · rintro ⟨rfl, rfl⟩
    exact ⟨[], .fetch .done⟩

theorem produces_sequence {xs : List (Plan (List Char))} {ys : List Production}
    (h : List.Forall₂ Produces xs ys) : Produces (sequence xs) (.sequence ys) := by
  induction h with
  | nil => exact produces_nothing
  | @cons x y xs ys hx _ ih =>
    intro c w c'
    simp only [ends_sequence_cons_iff, Production.sequence]
    constructor
    · rintro ⟨_, us, vs, first, others, c₁, -, hw, h₁, h₂⟩
      exact ⟨first, others, c₁, hw, hx.1 ⟨us, h₁⟩, ih.1 ⟨vs, h₂⟩⟩
    · rintro ⟨first, others, c₁, hw, h₁, h₂⟩
      obtain ⟨us, h₁⟩ := hx.2 h₁
      obtain ⟨vs, h₂⟩ := ih.2 h₂
      exact ⟨us ++ vs, us, vs, first, others, c₁, rfl, hw, h₁, h₂⟩

theorem produces_capturing {x : Plan (List Char)} {y : Production} (h : Produces x y)
    (group : Option Nat) : Produces (capturing group x) (.capturing group y) := by
  intro c w c'
  simp only [ends_capturing_iff, Production.capturing]
  constructor
  · rintro ⟨vs, c₁, h₁, rfl⟩
    exact ⟨c₁, h.1 ⟨vs, h₁⟩, rfl⟩
  · rintro ⟨c₁, h₁, rfl⟩
    obtain ⟨vs, h₁⟩ := h.2 h₁
    exact ⟨vs, c₁, h₁, rfl⟩

theorem produces_alternation {xs : List (Plan (List Char))} {ys : List Production} (hne : ys ≠ [])
    (h : List.Forall₂ Produces xs ys) : Produces (alternation xs) (.alternation ys) := by
  have hlen := h.length_eq
  have hpos := List.length_pos_iff.2 hne
  have hget := (List.forall₂_iff_get.1 h).2
  intro c w c'
  constructor
  · intro h
    obtain ⟨k, hk, vs, he⟩ := exists_ends_question_iff.1 h
    have hx : k < xs.length := by omega
    have hy : k < ys.length := by omega
    rw [List.getD_eq_getElem _ _ hx] at he
    exact ⟨ys.get ⟨k, hy⟩, List.get_mem ys _, (hget k hx hy).1 ⟨vs, he⟩⟩
  · rintro ⟨y, hy, he⟩
    obtain ⟨⟨k, hk⟩, rfl⟩ := List.mem_iff_get.1 hy
    have hx : k < xs.length := by omega
    obtain ⟨vs, he⟩ := (hget k hx hk).2 he
    exact ⟨k :: vs, ends_alternation hx he⟩

theorem count_le {min sampled realized max : Nat} (hs : min ≤ sampled ∧ sampled ≤ max)
    (hr : realized ≤ max) :
    min ≤ count min sampled realized ∧ count min sampled realized ≤ max := by
  unfold count
  split <;> omega

theorem count_self {min n : Nat} : count min n n = n := by
  unfold count
  split <;> rfl

/-- Whatever the two counts of a repetition are, together they stand for one within its bounds. -/
theorem produces_repetition {x : Plan (List Char)} {y : Production} (h : Produces x y)
    (min max : Nat) : Produces (repetition x min max) (.repetition y min max) := by
  have hseq : ∀ n, Produces (sequence (List.replicate n x)) (.sequence (List.replicate n y)) := by
    intro n
    apply produces_sequence
    rw [List.forall₂_iff_get]
    simp [h]
  intro c w c'
  rw [repetition, exists_ends_question_iff]
  simp only [exists_ends_question_iff, Production.repetition]
  constructor
  · rintro ⟨sampled, hs, realized, hr, he⟩
    exact ⟨count min sampled realized, count_le hs hr.2, (hseq _).1 he⟩
  · rintro ⟨n, hn, he⟩
    -- a count stands for itself when it is given twice
    refine ⟨n, hn, n, ⟨Nat.zero_le n, hn.2⟩, ?_⟩
    rw [count_self]
    exact (hseq n).2 he

end Plan

/-! ## Token trees -/

theorem Atom.produces (settings : Settings) (a : Atom) :
    (a.plan settings).Produces (a.Yields settings) := by
  cases a with
  | literal ch => exact Plan.produces_literal _ ch
  | position => exact Plan.produces_nothing
  | charClass cls => exact Plan.produces_member fun _ => Settings.isValidChar_of_mem_expand
  | reference n => exact Plan.produces_reference n

theorem Plan.produces_interpretation (settings : Settings) :
    Interpretation.Relates Plan.Produces (Plan.interpretation settings)
      (Production.interpretation settings) where
  atom := Atom.produces settings
  looking := produces_nothing
  sequence := produces_sequence
  alternation := produces_alternation
  capturing group h := produces_capturing h group
  repetition _ h := produces_repetition h _ _

/-- The texts of a token are those to which some answers to its plan lead. -/
theorem Token.exists_ends_iff (settings : Settings) {token : Token} (h : token.Regular)
    {c c' : Captures} {w : List Char} :
    (∃ vs, (token.plan settings).Ends c vs w c') ↔ token.Yields settings c w c' :=
  (Plan.produces_interpretation settings).interpret h

end PatternGen
