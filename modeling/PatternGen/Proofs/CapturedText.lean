import PatternGen.Proofs.Blindness
import PatternGen.Proofs.Generation

/-!
# What groups hold after a walk

A steered walk tries branches that it does not take, and an iteration that it undoes; all of them
write to the same captures. Of that nothing stays. After a walk each group holds what it held
before, or it is one of the groups that are generated and holds a part of the text that the walk
produced. This is a property of the texts of a token, and every walk produces one of them.

Results:
* `Captures.Within.trans`, `Captures.Within.set`: what two texts in a row, and a group, do to the
  captures.
* `Token.confined`: every text of a regular token, with the captures that it leaves.
* `Token.captures_accepted`: every walk over a regular token, with each of the three choosers.
-/

namespace PatternGen

/-! ## Captures before and after a text -/

namespace Captures

/-- Between the captures `c` and `c'` only groups whose numbers satisfy `P` have changed, and what
these hold in the end is a part of the text `w`. -/
def Within (P : Nat → Prop) (w : List Char) (c c' : Captures) : Prop :=
  ∀ n, c'.get n = c.get n ∨ P n ∧ c'.get n <:+: w

variable {P Q : Nat → Prop} {w w' : List Char} {c c₁ c₂ : Captures}

theorem within_refl (P : Nat → Prop) (w : List Char) (c : Captures) : Within P w c c :=
  fun _ => .inl rfl

theorem Within.mono (h : Within P w c c₁) (hP : ∀ n, P n → Q n) (hw : w <:+: w') :
    Within Q w' c c₁ := by
  intro n
  rcases h n with hkept | ⟨hn, hpart⟩
  · exact .inl hkept
  · exact .inr ⟨hP n hn, hpart.trans hw⟩

theorem Within.trans (h₁ : Within P w c c₁) (h₂ : Within P w' c₁ c₂) :
    Within P (w ++ w') c c₂ := by
  intro n
  rcases h₂ n with hkept | ⟨hn, hpart⟩
  · rw [hkept]
    exact h₁.mono (fun _ h => h) (List.prefix_append w w').isInfix n
  · exact .inr ⟨hn, hpart.trans (List.suffix_append w w').isInfix⟩

/-- A group that captures the whole text may overwrite what an earlier one of its number holds. -/
theorem Within.set (h : Within P w c c₁) {m : Nat} (hm : P m) : Within P w c (c₁.set m w) := by
  intro n
  rw [get_set]
  split
  · next hn => exact .inr ⟨hn.1 ▸ hm, List.infix_refl w⟩
  · exact h n

end Captures

/-! ## Texts of a production -/

/-- Every text leaves captures that only groups in `P` have changed, with parts of the text. -/
def Production.Confined (P : Nat → Prop) (y : Production) : Prop :=
  ∀ ⦃c w c'⦄, y c w c' → Captures.Within P w c c'

namespace Production

variable {P Q : Nat → Prop} {y : Production} {ys : List Production}

theorem Confined.mono (h : y.Confined P) (hP : ∀ n, P n → Q n) : y.Confined Q :=
  fun _ _ _ hy => (h hy).mono hP (List.infix_refl _)

theorem confined_of_same (h : ∀ {c w c'}, y c w c' → c' = c) : y.Confined P := by
  intro c w c' hy
  rw [h hy]
  exact Captures.within_refl P w c

theorem confined_sequence (h : ∀ y ∈ ys, y.Confined P) : (sequence ys).Confined P := by
  induction ys with
  | nil => exact confined_of_same fun hy => hy.2
  | cons y ys ih =>
    rw [List.forall_mem_cons] at h
    rintro c _ c' ⟨first, others, c₁, rfl, h₁, h₂⟩
    exact (h.1 h₁).trans (ih h.2 h₂)

theorem confined_alternation (h : ∀ y ∈ ys, y.Confined P) : (alternation ys).Confined P :=
  fun _ _ _ ⟨y, hmem, hy⟩ => h y hmem hy

theorem confined_capturing {group : Option Nat} (h : y.Confined P) (hg : ∀ n ∈ group, P n) :
    (capturing group y).Confined P := by
  rintro c w c' ⟨c₁, hy, rfl⟩
  cases group with
  | none => exact h hy
  | some n => exact (h hy).set (hg n rfl)

theorem confined_repetition (h : y.Confined P) (min max : Nat) :
    (repetition y min max).Confined P := by
  rintro c w c' ⟨n, -, hseq⟩
  have hall : ∀ x ∈ List.replicate n y, Confined P x := by
    intro x hx
    rw [List.eq_of_mem_replicate hx]
    exact h
  exact confined_sequence hall hseq

end Production

/-! ## Token trees -/

/-- A capturing group with the number `n` stands in the token, and neither it nor a group around it
only looks around. -/
inductive Token.HasGroup : Token → Nat → Prop
  | here {frame : Frame} {body : Body} {n : Nat} : frame.look = none → frame.capture = some n →
      HasGroup (.group frame body) n
  | inside {frame : Frame} {body : Body} {tokens : List Token} {token : Token} {n : Nat} :
      frame.look = none → tokens ∈ body.branches → token ∈ tokens → HasGroup token n →
      HasGroup (.group frame body) n
  | repeated {token : Token} {n min : Nat} {max : Option Nat} : HasGroup token n →
      HasGroup (.repetition token min max) n

theorem Atom.confined (settings : Settings) (P : Nat → Prop) (a : Atom) :
    (a.Yields settings).Confined P := by
  cases a with
  | literal ch => exact Production.confined_of_same fun hy => hy.2
  | position anchor => exact Production.confined_of_same fun hy => hy.2
  | charClass cls => exact Production.confined_of_same fun hy => hy.2
  | reference n => exact Production.confined_of_same fun hy => hy.2

/-- The texts of a sequence that stands in a token, if those of its tokens are confined to the
groups of these. -/
theorem Token.confined_tokens {settings : Settings} {tokens : List Token} {P : Nat → Prop}
    (h : ∀ token ∈ tokens, (token.Yields settings).Confined token.HasGroup)
    (hP : ∀ token ∈ tokens, ∀ n, token.HasGroup n → P n) :
    (Production.sequence (Token.interpretAll (Production.interpretation settings) tokens)).Confined
      P := by
  rw [Token.interpretAll_eq_map]
  refine Production.confined_sequence fun y hy => ?_
  obtain ⟨token, htoken, rfl⟩ := List.mem_map.1 hy
  exact (h token htoken).mono (hP token htoken)

/-- Every text of a regular token changes the captures of groups of the token only, and these then
hold parts of the text. -/
theorem Token.confined (settings : Settings) {token : Token} (h : token.Regular) :
    (token.Yields settings).Confined token.HasGroup := by
  induction h with
  | atom a => exact a.confined settings _
  | @repetition token min max _ _ ih =>
    have hrepeated : (token.Yields settings).Confined (Token.repetition token min max).HasGroup :=
      ih.mono fun n hn => .repeated hn
    exact Production.confined_repetition hrepeated _ _
  | @looking frame body hl =>
    rw [Token.Yields, Token.interpret, if_pos hl]
    exact Production.confined_of_same fun hy => hy.2
  | @sequence frame tokens hl _ ih =>
    rw [Token.Yields, Token.interpret, hl]
    refine Production.confined_capturing (Token.confined_tokens ih fun token ht n hn => ?_)
      fun n hn => .here hl hn
    exact .inside hl (List.mem_singleton.2 rfl) ht hn
  | @alternation frame branches hl _ _ ih =>
    rw [Token.Yields, Token.interpret, hl]
    refine Production.confined_capturing ?_ fun n hn => .here hl hn
    rw [Body.interpret, Token.interpretBranches_eq_map]
    refine Production.confined_alternation fun y hy => ?_
    obtain ⟨tokens, hts, rfl⟩ := List.mem_map.1 hy
    exact Token.confined_tokens (ih tokens hts) fun token ht n hn => .inside hl hts ht hn

/-! ## Walks -/

variable {σ : Type} {settings : Settings} {token : Token}

theorem Token.within_of_ends (h : token.Regular) {c c' : Captures} {vs : List Nat}
    {text : List Char} (he : (token.plan settings).Ends c vs text c') :
    Captures.Within token.HasGroup text c c' :=
  Token.confined settings h ((Token.exists_ends_iff settings h).1 ⟨vs, he⟩)

theorem Token.within_of_draws {chooser : Chooser σ} (hd : chooser.Draws fun _ => True)
    (settings : Settings) (h : token.Regular) (target : List Char) (s : Walk.State σ) :
    ∃ p s', token.step chooser settings target s = .ok p s' ∧
      Captures.Within token.HasGroup p.text s.captures s'.captures := by
  obtain ⟨p, s', vs, hrun, -, -, he⟩ := Token.follows hd settings h target s trivial
  exact ⟨p, s', hrun, Token.within_of_ends h he⟩

theorem Token.within_of_replay (h : token.Regular) {target : List Char}
    {s s' : Walk.State Chooser.Replay} {p : Produced}
    (hrun : token.step .replay settings target s = .ok p s') :
    Captures.Within token.HasGroup p.text s.captures s'.captures := by
  have hsame := Token.sameStop_plan settings h target s
  rw [hrun] at hsame
  generalize hwalk : (token.plan settings).walk .replay s = r at hsame
  cases hsame with
  | ok _ htext =>
    obtain ⟨vs, he⟩ := Plan.ends_of_walk hwalk
    rw [htext]
    exact Token.within_of_ends h he

/-- After a run that draws within bounds, free or steered, and after every replay that succeeds,
each capture is what it was before the run, or it belongs to a group of the token that is generated
and is a part of the text that the run produced. -/
theorem Token.captures_accepted (settings : Settings) (h : token.Regular) (target : List Char) :
    (∀ {σ : Type} {sampler : Sampler σ}, sampler.WithinBounds → ∀ s : Walk.State σ,
      (∃ p s', token.step (.free sampler) settings target s = .ok p s' ∧
        ∀ n, s'.captures.get n = s.captures.get n ∨
          token.HasGroup n ∧ s'.captures.get n <:+: p.text) ∧
      ∃ p s', token.step (.steer sampler) settings target s = .ok p s' ∧
        ∀ n, s'.captures.get n = s.captures.get n ∨
          token.HasGroup n ∧ s'.captures.get n <:+: p.text) ∧
    ∀ {s s' : Walk.State Chooser.Replay} {p : Produced},
      token.step .replay settings target s = .ok p s' →
        ∀ n, s'.captures.get n = s.captures.get n ∨
          token.HasGroup n ∧ s'.captures.get n <:+: p.text := by
  constructor
  · intro σ sampler hs s
    have hfree := hs.draws (I := fun _ => True) (fun _ _ => trivial) false
    have hsteer := hs.draws (I := fun _ => True) (fun _ _ => trivial) true
    exact ⟨Token.within_of_draws hfree settings h target s,
      Token.within_of_draws hsteer settings h target s⟩
  · intro s s' p hrun
    exact Token.within_of_replay h hrun

/-- The alternation `(ab)|(b)`. -/
def Token.rivalGroups : Token :=
  .group {} (.alternation [
    [.group { capture := some 1 } (.sequence [.atom (.literal 'a'), .atom (.literal 'b')])],
    [.group { capture := some 2 } (.sequence [.atom (.literal 'b')])]])

theorem Token.regular_rivalGroups : rivalGroups.Regular := by
  have hword : ∀ frame : Frame, frame.look = none → ∀ word : List Char,
      (Token.group frame (.sequence (word.map fun c => .atom (.literal c)))).Regular := by
    intro frame hl word
    refine .sequence hl fun token ht => ?_
    obtain ⟨c, -, rfl⟩ := List.mem_map.1 ht
    exact .atom _
  refine .alternation rfl (List.cons_ne_nil _ _) fun tokens hts token ht => ?_
  simp only [List.mem_cons, List.not_mem_nil, or_false] at hts
  rcases hts with rfl | rfl
  · rw [List.mem_singleton.1 ht]
    exact hword _ rfl ['a', 'b']
  · rw [List.mem_singleton.1 ht]
    exact hword _ rfl ['b']

/-- Both groups hold something before. Along `ab` the second branch is tried and not taken; the
replay takes it. -/
theorem Token.captures_accepted_rivals :
    let before : Captures := ⟨[(1, ['x']), (2, ['y'])]⟩
    rivalGroups.Regular ∧ Sampler.tape.WithinBounds ∧
    ((∃ p s', rivalGroups.step (.free .tape) {} ['a', 'b'] ⟨[0], {}, before⟩ = .ok p s' ∧
        ∀ n, s'.captures.get n = before.get n ∨
          rivalGroups.HasGroup n ∧ s'.captures.get n <:+: p.text) ∧
      ∃ p s', rivalGroups.step (.steer .tape) {} ['a', 'b'] ⟨[0], {}, before⟩ = .ok p s' ∧
        ∀ n, s'.captures.get n = before.get n ∨
          rivalGroups.HasGroup n ∧ s'.captures.get n <:+: p.text) ∧
    ∃ p s', rivalGroups.step .replay {} ['a', 'b'] ⟨⟨[1], 0⟩, {}, before⟩ = .ok p s' ∧
      ∀ n, s'.captures.get n = before.get n ∨
        rivalGroups.HasGroup n ∧ s'.captures.get n <:+: p.text := by
  intro before
  have hrun : rivalGroups.step .replay {} ['a', 'b'] ⟨⟨[1], 0⟩, {}, before⟩ =
      .ok ⟨['b'], 2⟩ ⟨⟨[], 1⟩, .ofList [1], before.set 2 ['b']⟩ := rfl
  obtain ⟨hdraw, hreplay⟩ := Token.captures_accepted {} regular_rivalGroups ['a', 'b']
  exact ⟨regular_rivalGroups, Sampler.tape_withinBounds,
    hdraw Sampler.tape_withinBounds ⟨[0], {}, before⟩, _, _, hrun, hreplay hrun⟩

end PatternGen
