import PatternGen.Proofs.Consumption

/-!
# The empty target

A target settles questions only as long as something of it is left. A walk that is steered toward
the empty text therefore is a free walk: it puts the same questions to its sampler, in the same
order, records the same numbers and captures the same texts. This needs nothing of the token tree
or of the sampler. The walk also comes to an end if every alternation has a branch and the sampler
answers within bounds, even where the bounds of a repetition are out of order.

Results:
* `Step.same_interpretation`: with no target ahead, steered steps are free ones part by part.
* `Step.ends_interpretation`: where every alternation has a branch, free steps come to an end.
* `Token.steer_nil`: walks and generations with the empty target.
-/

namespace PatternGen

variable {σ : Type} {α β : Type} {sampler : Sampler σ}

namespace Step

/-! ## Steered steps and free ones -/

/-- With no target ahead the two steps are the same. -/
def Same (x y : Step σ) : Prop := x [] = y []

variable {x y : Step σ} {xs ys : List (Step σ)}

theorem same_literal (ignoreCase : Bool) (c : Char) :
    Same (literal (.steer sampler) ignoreCase c) (literal (.free sampler) ignoreCase c) := rfl

theorem same_member (set : CodeSet) :
    Same (member (.steer sampler) set) (member (.free sampler) set) := rfl

theorem same_sequence (h : List.Forall₂ Same xs ys) : Same (sequence xs) (sequence ys) := by
  induction h with
  | nil => rfl
  | cons hx _ ih =>
    unfold Same at *
    simp only [sequence, List.drop_nil, hx, ih]

theorem same_capturing (h : Same x y) (group : Option Nat) :
    Same (capturing group x) (capturing group y) := by
  unfold Same at *
  rw [capturing, capturing, h]

/-- Whatever number is picked, the steps with that number are the same. -/
theorem pick_bind_eq (h : List.Forall₂ Same xs ys) (k : Nat) :
    (pick xs k >>= fun x => x []) = (pick ys k >>= fun y => y []) := by
  rcases pick_cases h k with ⟨x, y, hxy, hx, hy⟩ | ⟨hx, hy⟩
  · rw [hx, hy, pure_bind, pure_bind]
    exact hxy
  · rw [hx, hy]

theorem same_alternation (h : List.Forall₂ Same xs ys) :
    Same (alternation (.steer sampler) xs) (alternation (.free sampler) ys) := by
  show chosenBranch (.steer sampler) xs [] = chosenBranch (.free sampler) ys []
  simp only [chosenBranch, h.length_eq, pick_bind_eq h]
  rfl

theorem times_eq (h : Same x y) (n : Nat) : times x n = times y n := by
  have hsequence : sequence (List.replicate n x) [] = sequence (List.replicate n y) [] :=
    same_sequence (Interpretation.forall₂_replicate h n)
  rw [times_eq_sequence, times_eq_sequence, hsequence]

theorem same_repetition (h : Same x y) (min max : Nat) :
    Same (repetition (.steer sampler) x min max) (repetition (.free sampler) y min max) := by
  have hrest : ∀ sampled, repeatFree (.steer sampler) x min max sampled =
      repeatFree (.free sampler) y min max sampled := by
    intro sampled
    simp only [repeatFree, pad, times_eq h]
    rfl
  show ((Chooser.steer sampler).sampleCount min max >>= repeatFree (.steer sampler) x min max) =
    (Chooser.free sampler).sampleCount min max >>= repeatFree (.free sampler) y min max
  rw [funext hrest]
  rfl

end Step

theorem Atom.same (settings : Settings) (a : Atom) :
    Step.Same (a.step (.steer sampler) settings) (a.step (.free sampler) settings) := by
  cases a with
  | literal c => exact Step.same_literal _ c
  | position => rfl
  | charClass cls => exact Step.same_member _
  | reference n => rfl

theorem Step.same_interpretation (sampler : Sampler σ) (settings : Settings) :
    Interpretation.RelatesAll Same (interpretation (.steer sampler) settings)
      (interpretation (.free sampler) settings) where
  atom := Atom.same settings
  looking := rfl
  sequence := same_sequence
  alternation := same_alternation
  capturing group h := same_capturing h group
  repetition _ _ h := same_repetition h _ _

/-- With no target ahead, a steered walk is a free one. -/
theorem Token.same (sampler : Sampler σ) (settings : Settings) (token : Token) :
    Step.Same (token.step (.steer sampler) settings) (token.step (.free sampler) settings) := by
  rw [Token.step_eq_interpret, Token.step_eq_interpret]
  exact (Step.same_interpretation sampler settings).interpret token

/-! ## Free steps come to an end -/

/-- What each part of a token tree asks of its parts so that every alternation that is generated
from has a branch. -/
def Interpretation.branched : Interpretation Prop where
  atom _ := True
  looking := True
  sequence ps := ∀ p ∈ ps, p
  alternation ps := ps ≠ [] ∧ ∀ p ∈ ps, p
  capturing _ p := p
  repetition p _ _ := p

/-- Every alternation that is generated from has a branch. -/
def Token.Branched (token : Token) : Prop := token.interpret .branched

/-- From every state the walk ends with a value. -/
def Walk.Ends (x : Walk σ α) : Prop := ∀ s, ∃ a s', x s = .ok a s'

namespace Walk

theorem ends_pure (a : α) : Ends (pure a : Walk σ α) := fun s => ⟨a, s, rfl⟩

theorem Ends.bind {x : Walk σ α} {f : α → Walk σ β} (hx : Ends x) (hf : ∀ a, Ends (f a)) :
    Ends (x >>= f) := by
  intro s
  obtain ⟨a, s₁, h₁⟩ := hx s
  obtain ⟨b, s₂, h₂⟩ := hf a s₁
  exact ⟨b, s₂, (bind_ok h₁).trans h₂⟩

end Walk

/-- Whatever the bounds are, a sampler answers. -/
theorem Chooser.ends_ask (sampler : Sampler σ) (lo hi : Nat) :
    Walk.Ends ((Chooser.free sampler).ask lo hi) := fun _ => ⟨_, _, rfl⟩

namespace Step

/-- With no target ahead the step comes to an end. -/
def Ends (x : Step σ) : Prop := Walk.Ends (x [])

variable {x : Step σ} {xs : List (Step σ)}

theorem ends_literal (ignoreCase : Bool) (c : Char) :
    Ends (literal (.free sampler) ignoreCase c) := by
  unfold Ends literal
  dsimp only
  generalize (if ignoreCase = true then otherCase c else c) = other
  split
  · exact (Walk.ends_pure false).bind fun _ => Walk.ends_pure _
  · exact ((Chooser.ends_ask sampler 0 1).bind fun _ => Walk.ends_pure _).bind fun _ =>
      Walk.ends_pure _

theorem ends_member (set : CodeSet) : Ends (member (.free sampler) set) := by
  unfold Ends member
  split
  · exact Walk.ends_pure _
  · exact ((Chooser.ends_ask sampler 0 _).bind fun _ => Walk.ends_pure _).bind fun _ =>
      Walk.ends_pure _

theorem ends_sequence (h : ∀ x ∈ xs, Ends x) : Ends (sequence xs) := by
  induction xs with
  | nil => exact Walk.ends_pure _
  | cons x xs ih =>
    rw [List.forall_mem_cons] at h
    refine h.1.bind fun first => ?_
    rw [List.drop_nil]
    exact (ih h.2).bind fun _ => Walk.ends_pure _

theorem ends_capturing (h : Ends x) (group : Option Nat) : Ends (capturing group x) := by
  refine h.bind fun p => ?_
  cases group with
  | none => exact Walk.ends_pure p
  | some n => exact fun s => ⟨p, _, rfl⟩

/-- A number within bounds is the number of a branch. -/
theorem ends_alternation (hs : sampler.WithinBounds) (hne : xs ≠ []) (h : ∀ x ∈ xs, Ends x) :
    Ends (alternation (.free sampler) xs) := by
  intro s
  have hk := (hs 0 (xs.length - 1) s.source (Nat.zero_le _)).2
  have hpos := List.length_pos_iff.2 hne
  obtain ⟨p, s', hrun⟩ := h _ (List.get_mem xs ⟨_, Nat.lt_of_le_of_lt hk (by omega)⟩) _
  exact ⟨p, s', (Walk.bind_ok rfl).trans ((Walk.bind_ok (pick_of_lt (by omega) _)).trans hrun)⟩

theorem ends_times (h : Ends x) (n : Nat) : Walk.Ends (times x n) := by
  have hsequence : Ends (sequence (List.replicate n x)) :=
    ends_sequence fun y hy => List.eq_of_mem_replicate hy ▸ h
  rw [times_eq_sequence]
  exact hsequence.bind fun _ => Walk.ends_pure _

theorem ends_repetition (h : Ends x) (min max : Nat) :
    Ends (repetition (.free sampler) x min max) := by
  refine (Chooser.ends_ask sampler min max).bind fun sampled => ?_
  have hcount : Walk.Ends ((Chooser.free sampler).realizeCount sampled max) :=
    fun s => ⟨_, _, rfl⟩
  refine hcount.bind fun count => (ends_times h count).bind fun text => ?_
  unfold pad
  split
  · exact (ends_times h _).bind fun _ => Walk.ends_pure _
  · exact Walk.ends_pure _

end Step

theorem Atom.ends (settings : Settings) (a : Atom) :
    Step.Ends (a.step (.free sampler) settings) := by
  cases a with
  | literal c => exact Step.ends_literal _ c
  | position => exact Walk.ends_pure _
  | charClass cls => exact Step.ends_member _
  | reference n => exact fun s => ⟨_, s, rfl⟩

theorem forall_of_forall₂_imp {P : α → Prop} {ps : List Prop} {xs : List α}
    (h : List.Forall₂ (fun p x => p → P x) ps xs) (hps : ∀ p ∈ ps, p) : ∀ x ∈ xs, P x := by
  induction h with
  | nil => exact fun x hx => nomatch hx
  | cons hx _ ih =>
    rw [List.forall_mem_cons] at hps
    exact List.forall_mem_cons.2 ⟨hx hps.1, ih hps.2⟩

theorem Step.ends_interpretation (hs : sampler.WithinBounds) (settings : Settings) :
    Interpretation.RelatesAll (fun p x => p → Ends x) .branched
      (interpretation (.free sampler) settings) where
  atom a _ := Atom.ends settings a
  looking _ := Walk.ends_pure _
  sequence h hps := ends_sequence (forall_of_forall₂_imp h hps)
  alternation h hps := by
    refine ends_alternation hs ?_ (forall_of_forall₂_imp h hps.2)
    rw [← List.length_pos_iff, ← h.length_eq, List.length_pos_iff]
    exact hps.1
  capturing group h hp := ends_capturing (h hp) group
  repetition _ _ h hp := ends_repetition (h hp) _ _

/-- With no target ahead a free walk comes to an end. -/
theorem Token.ends (hs : sampler.WithinBounds) (settings : Settings) {token : Token}
    (h : token.Branched) : Step.Ends (token.step (.free sampler) settings) := by
  rw [Token.step_eq_interpret]
  exact (Step.ends_interpretation hs settings).interpret token h

/-! ## Walks and generations -/

/-- Toward the empty target a steered walk is a free one, from every state and for every sampler;
with the draws kept, these are the same too. It accounts for nothing, and it comes to an end if the
sampler answers within bounds. Generations with the empty target and with none are the same. -/
theorem Token.steer_nil (sampler : Sampler σ) (settings : Settings) (token : Token) :
    (∀ s, token.step (.steer sampler) settings [] s = token.step (.free sampler) settings [] s) ∧
    (∀ t : Walk.State (Traced σ), token.step (.steer sampler.traced) settings [] t =
      token.step (.free sampler.traced) settings [] t) ∧
    (∀ s p s', token.step (.steer sampler) settings [] s = .ok p s' → p.consumed = 0) ∧
    (token.Branched → sampler.WithinBounds → ∀ s, ∃ text s',
      token.step (.steer sampler) settings [] s = .ok ⟨text, 0⟩ s') ∧
    (∀ (engine : Engine) (source : σ),
      engine.generate sampler (some "") source = engine.generate sampler none source) ∧
    ∀ session : Session σ, session.generate sampler (some "") = session.generate sampler none := by
  have hsame : ∀ (token : Token) (settings : Settings),
      token.step (.steer sampler) settings [] = token.step (.free sampler) settings [] :=
    fun token settings => Token.same sampler settings token
  have hconsumed : ∀ s p s', token.step (.steer sampler) settings [] s = .ok p s' →
      p.consumed = 0 := by
    intro s p s' hrun
    obtain ⟨places, hp⟩ := Token.reproduces sampler settings token [] s p s' hrun
    exact Nat.le_zero.1 hp.consumed_le
  have hgenerate : ∀ (engine : Engine) (source : σ),
      engine.generate sampler (some "") source = engine.generate sampler none source := by
    intro engine source
    exact congrArg Engine.generationOf (congrFun (hsame _ engine.settings) _)
  refine ⟨congrFun (hsame token settings), congrFun (Token.same sampler.traced settings token),
    hconsumed, ?_, hgenerate, ?_⟩
  · intro hb hs s
    obtain ⟨⟨text, consumed⟩, s', hrun⟩ := Token.ends hs settings hb s
    rw [← hsame] at hrun
    obtain rfl : consumed = 0 := hconsumed s _ s' hrun
    exact ⟨text, s', hrun⟩
  · intro session
    rw [Session.generate, Session.generate, hgenerate]

/-- The bounds of this repetition, `(a|b){3,1}`, are out of order. -/
theorem Token.steer_nil_reversed :
    let choice : Body := .alternation [[.atom (.literal 'a')], [.atom (.literal 'b')]]
    let token : Token := .repetition (.group {} choice) 3 (some 1)
    let s : Walk.State (List Nat) := { source := [2, 0, 1] }
    token.Branched ∧ Sampler.tape.WithinBounds ∧
    token.step (.steer .tape) {} [] s = token.step (.free .tape) {} [] s ∧
    token.step (.steer (.traced .tape)) {} [] { source := ⟨[2, 0, 1], #[]⟩ } =
      token.step (.free (.traced .tape)) {} [] { source := ⟨[2, 0, 1], #[]⟩ } ∧
    (∀ p s', token.step (.steer .tape) {} [] s = .ok p s' → p.consumed = 0) ∧
    (∃ text s', token.step (.steer .tape) {} [] s = .ok ⟨text, 0⟩ s') ∧
    (Engine.mk .echo {}).generate .tape (some "") [2, 0, 5] =
      (Engine.mk .echo {}).generate .tape none [2, 0, 5] := by
  intro choice token s
  have hbranched : token.Branched := by
    simp [token, choice, Token.Branched, Token.interpret, Body.interpret, Token.interpretBranches,
      Token.interpretAll, Interpretation.branched]
  obtain ⟨hfree, htraced, hconsumed, hends, hgenerate, -⟩ := Token.steer_nil .tape {} token
  exact ⟨hbranched, Sampler.tape_withinBounds, hfree s, htraced _, hconsumed s,
    hends hbranched Sampler.tape_withinBounds s, hgenerate ⟨.echo, {}⟩ [2, 0, 5]⟩

end PatternGen
