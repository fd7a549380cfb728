import PatternGen.Proofs.Generation

/-!
# What a steered walk accounts for

A steered walk says of its target how many characters its text accounts for. The number is honest:
some characters of that part of the target, the last one among them, stand in the text as they are
and in their order. So a text that accounts for something is not empty, nothing beyond the end of
the target is accounted for, and a repetition along a target is tried at most once more than the
target has characters.

Results:
* `Produced.Reproduces.append`: what two texts in a row reproduce of a target.
* `Token.reproduces`: the text of a steered walk reproduces what it accounts for.
* `Step.whileConsuming_eq`: an upper bound beyond the length of the target makes no difference.
* `Token.steered_reproduces`: both for every steered walk over a regular token tree, with the
  counts that the log gets.
-/

namespace PatternGen

variable {σ : Type} {α β : Type}

/-! ## The value of a walk -/

namespace Walk

/-- The value that the walk ends with, if it ends with one, satisfies `Q`. -/
def Returns (x : Walk σ α) (Q : α → Prop) : Prop := ∀ s a s', x s = .ok a s' → Q a

variable {P : α → Prop} {Q : β → Prop}

theorem returns_pure {a : α} (h : P a) : Returns (pure a : Walk σ α) P := by
  intro s b s' hb
  cases hb
  exact h

/-- Of the first part, `P` is all that the second one needs to know. -/
theorem Returns.bind {x : Walk σ α} {f : α → Walk σ β} (hx : Returns x P)
    (hf : ∀ a, P a → Returns (f a) Q) : Returns (x >>= f) Q := by
  intro s b s' hb
  cases hr : x s with
  | ok a s₁ =>
    rw [bind_ok hr] at hb
    exact hf a (hx s a s₁ hr) s₁ b s' hb
  | error e s₁ =>
    rw [bind_error hr] at hb
    cases hb

/-- Whatever the value of the first part is. -/
theorem returns_bind {x : Walk σ α} {f : α → Walk σ β} (hf : ∀ a, Returns (f a) Q) :
    Returns (x >>= f) Q :=
  Returns.bind (P := fun _ => True) (fun _ _ _ _ => trivial) fun a _ => hf a

end Walk

/-! ## Reproducing a target -/

/-- At these places, in ascending order, the target has characters that the text repeats in their
order. The text accounts for the target up to the last of them. -/
structure Produced.Reproduces (p : Produced) (target : List Char) (places : List Nat) : Prop where
  ascending : places.Pairwise (· < ·)
  sublist : (places.map (target[·]?)).Sublist (p.text.map some)
  consumed_eq : p.consumed = (places.getLast?.map (· + 1)).getD 0

namespace Produced

variable {a b : Produced} {target : List Char} {places more : List Nat}

/-- A text that accounts for nothing need not have anything of the target. -/
theorem reproduces_unconsumed (text target : List Char) :
    (Produced.mk text 0).Reproduces target [] :=
  ⟨.nil, List.nil_sublist _, rfl⟩

theorem reproduces_singleton {c : Char} {i : Nat} (h : target[i]? = some c) :
    (Produced.mk [c] (i + 1)).Reproduces target [i] := by
  refine ⟨List.pairwise_singleton _ i, ?_, rfl⟩
  rw [List.map_singleton, h]
  exact List.Sublist.refl _

namespace Reproduces

theorem lt_consumed (h : a.Reproduces target places) {i : Nat} (hi : i ∈ places) :
    i < a.consumed := by
  obtain ⟨hasc, -, hc⟩ := h
  rcases List.eq_nil_or_concat' places with rfl | ⟨others, last, rfl⟩
  · cases hi
  · rw [List.getLast?_concat] at hc
    rw [hc]
    rcases List.mem_append.1 hi with hi | hi
    · exact Nat.lt_succ_of_lt
        ((List.pairwise_append.1 hasc).2.2 i hi last (List.mem_singleton.2 rfl))
    · rw [List.mem_singleton.1 hi]
      exact Nat.lt_succ_self last

theorem exists_getElem? (h : a.Reproduces target places) {i : Nat} (hi : i ∈ places) :
    ∃ c ∈ a.text, target[i]? = some c := by
  obtain ⟨c, hc, heq⟩ := List.mem_map.1 (h.sublist.subset (List.mem_map_of_mem hi))
  exact ⟨c, hc, heq.symm⟩

theorem eq_nil_iff (h : a.Reproduces target places) : places = [] ↔ a.consumed = 0 := by
  constructor
  · rintro rfl
    exact h.consumed_eq
  · intro hzero
    refine List.eq_nil_iff_forall_not_mem.2 fun i hi => ?_
    have := h.lt_consumed hi
    omega

theorem getLast?_add_one (h : a.Reproduces target places) {last : Nat}
    (hlast : last ∈ places.getLast?) : last + 1 = a.consumed := by
  rw [h.consumed_eq, hlast]
  rfl

/-- Nothing beyond the end of the target is accounted for. -/
theorem consumed_le (h : a.Reproduces target places) : a.consumed ≤ target.length := by
  cases hlast : places.getLast? with
  | none =>
    rw [h.consumed_eq, hlast]
    exact Nat.zero_le _
  | some last =>
    obtain ⟨c, -, hc⟩ := h.exists_getElem? (List.mem_of_getLast? hlast)
    rw [← h.getLast?_add_one hlast]
    exact (List.getElem?_eq_some_iff.1 hc).1

theorem text_ne_nil (h : a.Reproduces target places) (hpos : 0 < a.consumed) : a.text ≠ [] := by
  have hne : places ≠ [] := fun hnil => by
    have := h.eq_nil_iff.1 hnil
    omega
  obtain ⟨i, hi⟩ := List.exists_mem_of_ne_nil _ hne
  obtain ⟨c, hc, -⟩ := h.exists_getElem? hi
  exact List.ne_nil_of_mem hc

/-- More text that accounts for nothing. -/
theorem append_text (h : a.Reproduces target places) (text : List Char) :
    (Produced.mk (a.text ++ text) a.consumed).Reproduces target places := by
  refine ⟨h.ascending, ?_, h.consumed_eq⟩
  rw [List.map_append]
  exact h.sublist.trans (List.sublist_append_left _ _)

/-- The second text has what the first one left of the target. -/
theorem append (ha : a.Reproduces target places)
    (hb : b.Reproduces (target.drop a.consumed) more) :
    (a.append b).Reproduces target (places ++ more.map (a.consumed + ·)) := by
  refine ⟨List.pairwise_append.2 ⟨ha.ascending, ?_, ?_⟩, ?_, ?_⟩
  · exact List.pairwise_map.2 (hb.ascending.imp fun h => Nat.add_lt_add_left h _)
  · intro i hi j hj
    obtain ⟨k, -, rfl⟩ := List.mem_map.1 hj
    exact Nat.lt_add_right k (ha.lt_consumed hi)
  · have hdrop : (more.map (a.consumed + ·)).map (target[·]?) =
        more.map ((target.drop a.consumed)[·]?) := by
      rw [List.map_map]
      exact List.map_congr_left fun i _ => List.getElem?_drop.symm
    rw [Produced.append, List.map_append, List.map_append, hdrop]
    exact ha.sublist.append hb.sublist
  · rcases List.eq_nil_or_concat' more with rfl | ⟨others, last, rfl⟩
    · have hzero : b.consumed = 0 := hb.consumed_eq
      rw [List.map_nil, List.append_nil, ← ha.consumed_eq, Produced.append, hzero, Nat.add_zero]
    · have hlast : b.consumed = last + 1 := by rw [hb.consumed_eq, List.getLast?_concat]; rfl
      rw [List.map_append, ← List.append_assoc, List.map_singleton, List.getLast?_concat]
      show a.consumed + b.consumed = a.consumed + last + 1
      rw [hlast, Nat.add_assoc]

end Reproduces

end Produced

/-! ## Leaves -/

variable {sampler : Sampler σ}

namespace Step

/-- The text of the step reproduces what it accounts for, whatever the target is. -/
def Reproduces (step : Step σ) : Prop :=
  ∀ target, Walk.Returns (step target) fun p => ∃ places, p.Reproduces target places

theorem reproduces_nothing : Reproduces (nothing : Step σ) :=
  fun target => Walk.returns_pure ⟨[], Produced.reproduces_unconsumed [] target⟩

theorem seek_eq_some {p : Char → Bool} {text : List Char} {n : Nat} {c : Char}
    (h : seek p text = some (n, c)) : text[n]? = some c ∧ p c = true := by
  fun_induction seek p text generalizing n c with
  | case1 => cases h
  | case2 next text hp =>
    cases h
    exact ⟨rfl, hp⟩
  | case3 next text hp ih =>
    obtain ⟨⟨m, d⟩, hseek, heq⟩ := Option.map_eq_some_iff.1 h
    cases heq
    exact ih hseek

/-- What is found in the target is accounted for if it is also what is produced. -/
theorem reproduces_found {p : Char → Bool} {target : List Char} {c : Char}
    (h : ∀ n next, seek p target = some (n, next) → c = next) :
    ∃ places, (Produced.mk [c] (((seek p target).map fun (n, _) => n + 1).getD 0)).Reproduces
      target places := by
  cases hf : seek p target with
  | none => exact ⟨[], Produced.reproduces_unconsumed [c] target⟩
  | some found =>
    obtain ⟨n, next⟩ := found
    obtain ⟨hn, -⟩ := seek_eq_some hf
    rw [← h n next hf] at hn
    exact ⟨[n], Produced.reproduces_singleton hn⟩

/-- A forced case is kept. -/
theorem returns_letterCase (forced : Option Bool) :
    Walk.Returns ((Chooser.steer sampler).letterCase forced) fun swap => ∀ b ∈ forced, swap = b := by
  cases forced with
  | none =>
    refine Walk.returns_bind fun k => ?_
    exact Walk.returns_pure fun b hb => nomatch hb
  | some b =>
    refine Walk.returns_bind fun _ => ?_
    exact Walk.returns_pure fun b hb => Option.some.inj hb

theorem reproduces_literal (ignoreCase : Bool) (c : Char) :
    Reproduces (literal (.steer sampler) ignoreCase c) := by
  intro target
  unfold literal
  dsimp only
  generalize (if ignoreCase = true then otherCase c else c) = other
  have hnext : ∀ {n next}, seek (fun next => next = c || next = other) target = some (n, next) →
      next = c ∨ next = other := fun hf => by simpa using (seek_eq_some hf).2
  by_cases ho : other = c
  · rw [if_pos ho, pure_bind]
    exact Walk.returns_pure (reproduces_found fun n next hf => (by
      rcases hnext hf with h | h
      · exact h.symm
      · exact (h.trans ho).symm))
  · rw [if_neg ho]
    refine (returns_letterCase _).bind fun swap hswap => ?_
    refine Walk.returns_pure (reproduces_found fun n next hf => ?_)
    -- the case is changed exactly if the other case is what stands in the target
    have hforced : swap = decide (next ≠ c) := hswap _ (by rw [hf]; rfl)
    rw [hforced]
    by_cases hc : next = c
    · simp [hc]
    · simpa [hc] using ((hnext hf).resolve_left hc).symm

/-- A member that comes from the target is its next character. -/
theorem returns_member (set : CodeSet) (next : Option Char) :
    Walk.Returns ((Chooser.steer sampler).member set next) fun m =>
      m.fromTarget = true → next = some m.value := by
  unfold Chooser.member
  cases ht : (Chooser.steer sampler).targetRank? set next with
  | some ck =>
    obtain ⟨c, k⟩ := ck
    obtain ⟨d, hd, hk⟩ := Option.bind_eq_some_iff.1 ht
    obtain ⟨_, -, heq⟩ := Option.map_eq_some_iff.1 hk
    cases heq
    refine Walk.returns_bind fun _ => ?_
    exact Walk.returns_pure fun _ => hd
  | none =>
    refine Walk.returns_bind fun k => ?_
    exact Walk.returns_pure fun h => nomatch h

theorem reproduces_member (set : CodeSet) : Reproduces (member (.steer sampler) set) := by
  intro target
  unfold member
  split
  · exact Walk.returns_pure ⟨[], Produced.reproduces_unconsumed [] target⟩
  · refine (returns_member set target.head?).bind ?_
    rintro ⟨c, fromTarget⟩ hm
    apply Walk.returns_pure
    cases fromTarget with
    | false => exact ⟨[], Produced.reproduces_unconsumed [c] target⟩
    | true =>
      have hhead : target[0]? = some c := by rw [← List.head?_eq_getElem?, hm rfl]
      exact ⟨[0], Produced.reproduces_singleton hhead⟩

theorem reproduces_reference (n : Nat) : Reproduces (reference n : Step σ) := by
  intro target
  refine Walk.returns_bind fun text => ?_
  exact Walk.returns_pure ⟨[], Produced.reproduces_unconsumed text target⟩

/-! ## Sequences and captures -/

variable {step : Step σ} {steps : List (Step σ)}

theorem reproduces_sequence (h : ∀ step ∈ steps, Reproduces step) : Reproduces (sequence steps) := by
  induction steps with
  | nil => exact reproduces_nothing
  | cons step steps ih =>
    rw [List.forall_mem_cons] at h
    intro target
    refine (h.1 target).bind ?_
    rintro first ⟨places, hfirst⟩
    refine (ih h.2 (target.drop first.consumed)).bind ?_
    rintro others ⟨more, hothers⟩
    exact Walk.returns_pure ⟨_, hfirst.append hothers⟩

theorem reproduces_capturing (h : Reproduces step) (group : Option Nat) :
    Reproduces (capturing group step) := by
  intro target
  refine (h target).bind fun p hp => ?_
  cases group with
  | none => exact Walk.returns_pure hp
  | some n =>
    refine Walk.returns_bind fun _ => ?_
    exact Walk.returns_pure hp

/-! ## Alternations -/

/-- What holds of all that the steps produce holds of all trials. -/
theorem returns_attempts {P : Produced → Prop} {target : List Char}
    (h : ∀ step ∈ steps, Walk.Returns (step target) P) :
    Walk.Returns (attempts steps target) fun trials => ∀ trial ∈ trials, P trial.produced := by
  induction steps with
  | nil => exact Walk.returns_pure fun trial ht => nomatch ht
  | cons step steps ih =>
    rw [List.forall_mem_cons] at h
    have hattempt : Walk.Returns (attempt step target) fun trial => P trial.produced := by
      refine Walk.returns_bind fun point => ?_
      refine h.1.bind ?_
      intro p hp
      refine Walk.returns_bind fun kept => ?_
      exact Walk.returns_pure hp
    refine hattempt.bind ?_
    intro trial ht
    refine (ih h.2).bind ?_
    intro trials hts
    exact Walk.returns_pure (List.forall_mem_cons.2 ⟨ht, hts⟩)

theorem returns_pick (xs : List α) (k : Nat) : Walk.Returns (pick xs k : Walk σ α) (· ∈ xs) := by
  unfold pick
  split
  · next x hx => exact Walk.returns_pure (List.mem_of_getElem? hx)
  · intro s a s' h
    cases h

theorem reproduces_alternation (h : ∀ step ∈ steps, Reproduces step) :
    Reproduces (alternation (.steer sampler) steps) := by
  intro target
  unfold alternation
  split
  · refine (returns_attempts fun step hstep => h step hstep target).bind ?_
    intro trials htrials
    refine Walk.returns_bind fun k => ?_
    refine (returns_pick trials k).bind ?_
    intro trial ht
    refine Walk.returns_bind fun _ => ?_
    exact Walk.returns_pure (htrials trial ht)
  · refine Walk.returns_bind fun k => ?_
    refine (returns_pick steps k).bind ?_
    intro step hstep
    exact h step hstep target

/-! ## Repetitions -/

theorem returns_whileConsuming (h : Reproduces step) (max : Nat) (target : List Char) :
    Walk.Returns (whileConsuming step max target) fun counted =>
      ∃ places, counted.2.Reproduces target places := by
  induction max generalizing target with
  | zero => exact Walk.returns_pure ⟨[], Produced.reproduces_unconsumed [] target⟩
  | succ max ih =>
    refine Walk.returns_bind fun point => ?_
    refine (h target).bind ?_
    rintro first ⟨places, hfirst⟩
    split
    · refine Walk.returns_bind fun _ => ?_
      exact Walk.returns_pure ⟨[], Produced.reproduces_unconsumed [] target⟩
    · refine (ih (target.drop first.consumed)).bind ?_
      rintro ⟨count, others⟩ ⟨more, hothers⟩
      exact Walk.returns_pure ⟨_, hfirst.append hothers⟩

theorem returns_pad {p : Produced} {target : List Char} (h : ∃ places, p.Reproduces target places)
    (min sampled realized : Nat) :
    Walk.Returns (pad step min sampled realized p) fun p => ∃ places, p.Reproduces target places := by
  unfold pad
  split
  · refine Walk.returns_bind fun more => ?_
    exact Walk.returns_pure (h.imp fun _ hp => hp.append_text more)
  · exact Walk.returns_pure h

theorem reproduces_repetition (h : Reproduces step) (min max : Nat) :
    Reproduces (repetition (.steer sampler) step min max) := by
  intro target
  refine Walk.returns_bind fun sampled => ?_
  split
  · refine Walk.returns_bind fun slot => ?_
    refine (returns_whileConsuming h max target).bind ?_
    rintro ⟨count, p⟩ hp
    refine Walk.returns_bind fun _ => ?_
    exact returns_pad hp min sampled count
  · refine Walk.returns_bind fun count => ?_
    refine Walk.returns_bind fun text => ?_
    exact returns_pad ⟨[], Produced.reproduces_unconsumed text target⟩ min sampled count

/-- Every repetition that is kept leaves less of the target, and one more is tried when nothing is
left. A larger bound is never reached. -/
theorem whileConsuming_eq (h : Reproduces step) {n m : Nat} {target : List Char}
    (hn : target.length < n) (hm : target.length < m) :
    whileConsuming step n target = whileConsuming step m target := by
  induction n generalizing m target with
  | zero => exact absurd hn (Nat.not_lt_zero _)
  | succ n ih =>
    cases m with
    | zero => exact absurd hm (Nat.not_lt_zero _)
    | succ m =>
      funext s
      unfold whileConsuming
      rw [Walk.bind_ok (Walk.checkpoint_apply s), Walk.bind_ok (Walk.checkpoint_apply s)]
      cases hr : step target s with
      | error e s₁ => rw [Walk.bind_error hr, Walk.bind_error hr]
      | ok first s₁ =>
        rw [Walk.bind_ok hr, Walk.bind_ok hr]
        split
        · rfl
        · next hc =>
          obtain ⟨places, hp⟩ := h target s first s₁ hr
          have hle := hp.consumed_le
          have hdrop : (target.drop first.consumed).length = target.length - first.consumed :=
            List.length_drop
          have hrest : whileConsuming step n (target.drop first.consumed) =
              whileConsuming step m (target.drop first.consumed) := ih (by omega) (by omega)
          rw [hrest]

end Step

/-! ## Token trees -/

theorem Atom.reproduces (settings : Settings) (a : Atom) :
    Step.Reproduces (a.step (.steer sampler) settings) := by
  cases a with
  | literal c => exact Step.reproduces_literal _ c
  | position => exact Step.reproduces_nothing
  | charClass cls => exact Step.reproduces_member _
  | reference n => exact Step.reproduces_reference n

theorem Step.reproduces_interpretation (sampler : Sampler σ) (settings : Settings) :
    Interpretation.RelatesAll (fun x _ => Reproduces x) (interpretation (.steer sampler) settings)
      (interpretation (.steer sampler) settings) where
  atom := Atom.reproduces settings
  looking := reproduces_nothing
  sequence h := reproduces_sequence (Interpretation.forall_of_forall₂ h)
  alternation h := reproduces_alternation (Interpretation.forall_of_forall₂ h)
  capturing group h := reproduces_capturing h group
  repetition _ _ h := reproduces_repetition h _ _

/-- The text of a steered walk reproduces what it accounts for. -/
theorem Token.reproduces (sampler : Sampler σ) (settings : Settings) (token : Token) :
    Step.Reproduces (token.step (.steer sampler) settings) := by
  rw [Token.step_eq_interpret]
  exact (Step.reproduces_interpretation sampler settings).interpret token

/-- The log gets the counts of a repetition, and the realized one is no larger than the target. -/
theorem Token.repetition_counts {token : Token} {min : Nat} {max : Option Nat}
    (h : (Token.repetition token min max).Regular) (hs : sampler.WithinBounds)
    (settings : Settings) {target : List Char} (ht : target ≠ []) (s : Walk.State σ) :
    ∃ p s' sampled n vs,
      (Token.repetition token min max).step (.steer sampler) settings target s = .ok p s' ∧
        s'.log = s.log.append (sampled :: n :: vs) ∧
        n ≤ settings.upperBound min max ∧ n ≤ target.length := by
  have hd : (Chooser.steer sampler).Draws fun _ => True := hs.draws (fun _ _ => trivial) true
  cases h with
  | repetition hle hreg =>
    obtain ⟨p, s', sampled, n, vs, hrun, hlog, hn, hcount⟩ := Step.repetition_counts hd
      (Token.follows hd settings hreg) (settings.le_upperBound hle) (Step.follows_steer sampler ht)
      (s := s) trivial
    obtain ⟨places, hp⟩ :=
      Token.reproduces sampler settings (.repetition token min max) target s p s' hrun
    exact ⟨p, s', sampled, n, vs, hrun, hlog, hn, Nat.le_trans hcount hp.consumed_le⟩

/-- A steered walk comes to an end, and what it accounts for is honest. The counts that a repetition
records along a target are no larger than the target, and the attempts end without its bound: it
makes at most one more than the target has characters. -/
theorem Token.steered_reproduces {token : Token} (h : token.Regular) (hs : sampler.WithinBounds)
    (settings : Settings) (target : List Char) (s : Walk.State σ) :
    (∃ p s' places, token.step (.steer sampler) settings target s = .ok p s' ∧
      p.Reproduces target places ∧ p.consumed ≤ target.length ∧
      (places = [] ↔ p.consumed = 0) ∧ (∀ last ∈ places.getLast?, last + 1 = p.consumed) ∧
      (0 < p.consumed → p.text ≠ [])) ∧
    ∀ inner lower upper, token = .repetition inner lower upper → target ≠ [] →
      (∃ p s' sampled n vs, token.step (.steer sampler) settings target s = .ok p s' ∧
        s'.log = s.log.append (sampled :: n :: vs) ∧
        n ≤ min (settings.upperBound lower upper) target.length) ∧
      Step.whileConsuming (inner.step (.steer sampler) settings) (settings.upperBound lower upper)
          target =
        Step.whileConsuming (inner.step (.steer sampler) settings)
          (min (settings.upperBound lower upper) (target.length + 1)) target := by
  constructor
  · have hd : (Chooser.steer sampler).Draws fun _ => True := hs.draws (fun _ _ => trivial) true
    obtain ⟨p, s', -, hrun, -⟩ := Token.follows hd settings h target s trivial
    obtain ⟨places, hp⟩ := Token.reproduces sampler settings token target s p s' hrun
    exact ⟨p, s', places, hrun, hp, hp.consumed_le, hp.eq_nil_iff,
      fun last hlast => hp.getLast?_add_one hlast, hp.text_ne_nil⟩
  · rintro inner lower upper rfl ht
    obtain ⟨p, s', sampled, n, vs, hrun, hlog, hn, hlen⟩ :=
      Token.repetition_counts h hs settings ht s
    refine ⟨⟨p, s', sampled, n, vs, hrun, hlog, Nat.le_min.2 ⟨hn, hlen⟩⟩, ?_⟩
    rcases Nat.lt_or_ge (target.length + 1) (settings.upperBound lower upper) with hlt | hge
    · rw [Nat.min_eq_right (Nat.le_of_lt hlt)]
      exact Step.whileConsuming_eq (Token.reproduces sampler settings inner)
        (Nat.lt_of_succ_lt hlt) (Nat.lt_succ_self _)
    · rw [Nat.min_eq_left hge]

/-- The token `(a|b)+` along `xbya`, whose letters `b` and `a` it finds. -/
theorem Token.steered_reproduces_letters :
    let inner : Token := .group { capture := some 1 }
      (.alternation [[.atom (.literal 'a')], [.atom (.literal 'b')]])
    let token : Token := .repetition inner 1 none
    let s : Walk.State (List Nat) := { source := [1] }
    token.Regular ∧ Sampler.tape.WithinBounds ∧
    (∃ p s' places, token.step (.steer .tape) {} ['x', 'b', 'y', 'a'] s = .ok p s' ∧
      p.Reproduces ['x', 'b', 'y', 'a'] places ∧ p.consumed ≤ 4 ∧
      (places = [] ↔ p.consumed = 0) ∧ (∀ last ∈ places.getLast?, last + 1 = p.consumed) ∧
      (0 < p.consumed → p.text ≠ [])) ∧
    (∃ p s' sampled n vs, token.step (.steer .tape) {} ['x', 'b', 'y', 'a'] s = .ok p s' ∧
      s'.log = s.log.append (sampled :: n :: vs) ∧ n ≤ min 101 4) ∧
    Step.whileConsuming (inner.step (.steer .tape) {}) 101 ['x', 'b', 'y', 'a'] =
      Step.whileConsuming (inner.step (.steer .tape) {}) (min 101 5) ['x', 'b', 'y', 'a'] := by
  intro inner token s
  have hinner : inner.Regular := by
    refine .alternation rfl (List.cons_ne_nil _ _) fun tokens hts t ht => ?_
    simp only [List.mem_cons, List.not_mem_nil, or_false] at hts
    rcases hts with rfl | rfl <;>
    · rw [List.mem_singleton.1 ht]
      exact .atom _
  have htoken : token.Regular := .repetition (by decide) hinner
  have h := Token.steered_reproduces htoken Sampler.tape_withinBounds {} ['x', 'b', 'y', 'a'] s
  exact ⟨htoken, Sampler.tape_withinBounds, h.1, h.2 inner 1 none rfl (List.cons_ne_nil _ _)⟩

end PatternGen
