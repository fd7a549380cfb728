import PatternGen.Proofs.EmptyTarget
import PatternGen.Proofs.Steering

/-!
# Repetitions of one character

A repetition of a class or of a literal along a target, in closed form. A class takes a prefix of
the target, and stops at the first character that is no member. A literal takes every character that
it can be, and skips those in between. Both loops are one: they differ in how the next character is
searched for.

Results:
* `Step.whileConsuming_takes`: the loop takes what repeated searches find.
* `Step.gather_head`, `Step.gather_seek`: what these find, for a class and for a literal.
* `Token.steered_character_repetition`: the text, the log and what is accounted for, with the
  characters that padding draws.
-/

namespace PatternGen

variable {σ : Type} {α β : Type} {sampler : Sampler σ}

/-! ## Walks that only draw and record -/

namespace Walk

/-- From the source `s` the walk comes to `a` and leaves `s'`, whatever the log and the captures
are. It adds the values to the log and captures nothing. -/
def Records (x : Walk σ α) (s : σ) (a : α) (s' : σ) (values : List Nat) : Prop :=
  ∀ log captures, x ⟨s, log, captures⟩ = .ok a ⟨s', log.append values, captures⟩

theorem records_pure (a : α) (s : σ) : Records (pure a) s a s [] := by
  intro log captures
  rw [DecisionLog.append_nil]
  rfl

theorem records_record (value : Nat) (s : σ) : Records (record value) s () s [value] := by
  intro log captures
  rw [← DecisionLog.push_eq_append]
  rfl

theorem records_ask (sampler : Sampler σ) (lo hi : Nat) (s : σ) :
    Records ((Chooser.steer sampler).ask lo hi) s (sampler lo hi s).1 (sampler lo hi s).2
      [(sampler lo hi s).1] := by
  intro log captures
  rw [← DecisionLog.push_eq_append]
  rfl

theorem Records.bind {x : Walk σ α} {f : α → Walk σ β} {a : α} {b : β} {s s₁ s' : σ}
    {values more : List Nat} (hx : Records x s a s₁ values) (hf : Records (f a) s₁ b s' more) :
    Records (x >>= f) s b s' (values ++ more) := by
  intro log captures
  rw [bind_ok (hx log captures), hf, DecisionLog.append_append]

end Walk

namespace Step

/-! ## Searching a target -/

/-- A search in a target: the character that is found, and how many are skipped before it. -/
abbrev Search := (target : List Char) → Option (Nat × Char)

/-- What at most `max` searches find, each in what the one before left of the target, and how much
of the target they leave behind them. -/
def gather (next : Search) : (max : Nat) → (target : List Char) → List Char × Nat
  | 0, _ => ([], 0)
  | max + 1, target =>
    match next target with
    | none => ([], 0)
    | some (skipped, c) =>
      let (found, consumed) := gather next max (target.drop (skipped + 1))
      (c :: found, skipped + 1 + consumed)

variable {next : Search} {p : Char → Bool} {target : List Char} {max n : Nat} {c : Char}

theorem gather_of_eq_none (h : next target = none) : gather next max target = ([], 0) := by
  cases max with
  | zero => rfl
  | succ max => rw [gather, h]

theorem gather_succ_of_eq_some (h : next target = some (n, c)) :
    gather next (max + 1) target =
      (c :: (gather next max (target.drop (n + 1))).1,
        n + 1 + (gather next max (target.drop (n + 1))).2) := by
  rw [gather, h]

/-- The next character of the target, if it satisfies `p`. -/
def head (p : Char → Bool) : Search
  | [] => none
  | c :: _ => if p c then some (0, c) else none

theorem not_of_head_eq_none (h : head p target = none) : ∀ d ∈ target.head?, ¬ p d = true := by
  cases target with
  | nil => simp
  | cons c target => simpa [head] using h

theorem gather_head (p : Char → Bool) (max : Nat) (target : List Char) :
    gather (head p) max target =
      ((target.takeWhile p).take max, min max (target.takeWhile p).length) := by
  induction max generalizing target with
  | zero => simp [gather]
  | succ max ih =>
    cases target with
    | nil => rfl
    | cons c target =>
      by_cases hc : p c = true
      · rw [gather_succ_of_eq_some (if_pos hc), List.drop_one, List.tail_cons, ih,
          List.takeWhile_cons_of_pos hc, List.take_succ_cons, List.length_cons,
          Nat.add_min_add_right, Nat.zero_add, Nat.add_comm 1]
      · rw [gather_of_eq_none (if_neg hc), List.takeWhile_cons_of_neg hc]
        rfl

/-- The place after the `n`-th of some places. -/
def endOf (places : List Nat) (n : Nat) : Nat := if n = 0 then 0 else places.getD (n - 1) 0 + 1

theorem endOf_cons {places : List Nat} {k : Nat} (h : k ≤ places.length) :
    endOf (n :: places.map (· + (n + 1))) (k + 1) = n + 1 + endOf places k := by
  cases k with
  | zero => rfl
  | succ k =>
    simp only [endOf, Nat.add_one_ne_zero, if_false, Nat.add_sub_cancel, List.getD_cons_succ]
    rw [List.getD_eq_getElem _ _ (by rw [List.length_map]; exact h), List.getElem_map,
      List.getD_eq_getElem _ _ h]
    omega

theorem not_of_seek_eq_none (h : seek p target = none) : ∀ d ∈ target, ¬ p d = true := by
  fun_induction seek p target with
  | case1 => simp
  | case2 d target hd => cases h
  | case3 d target hd ih =>
    rw [Option.map_eq_none_iff] at h
    exact List.forall_mem_cons.2 ⟨hd, ih h⟩

/-- What is found splits the target. -/
theorem split_of_seek (h : seek p target = some (n, c)) :
    ∃ skipped rest, target = skipped ++ c :: rest ∧ skipped.length = n ∧
      (∀ d ∈ skipped, ¬ p d = true) ∧ p c = true := by
  fun_induction seek p target generalizing n with
  | case1 => cases h
  | case2 d target hd =>
    cases h
    exact ⟨[], target, rfl, rfl, by simp, hd⟩
  | case3 d target hd ih =>
    obtain ⟨⟨m, d'⟩, hseek, heq⟩ := Option.map_eq_some_iff.1 h
    cases heq
    obtain ⟨skipped, rest, rfl, rfl, hskipped, hc⟩ := ih hseek
    exact ⟨d :: skipped, rest, rfl, rfl, List.forall_mem_cons.2 ⟨hd, hskipped⟩, hc⟩

theorem gather_seek (p : Char → Bool) (max : Nat) (target : List Char) :
    gather (seek p) max target =
      ((target.filter p).take max,
        endOf (target.findIdxs p) (min max (target.filter p).length)) := by
  induction max generalizing target with
  | zero => simp [gather, endOf]
  | succ max ih =>
    cases hs : seek p target with
    | none =>
      have hnone : target.filter p = [] := List.filter_eq_nil_iff.2 (not_of_seek_eq_none hs)
      rw [gather_of_eq_none hs, hnone]
      rfl
    | some found =>
      obtain ⟨n, c⟩ := found
      obtain ⟨skipped, rest, rfl, rfl, hskipped, hc⟩ := split_of_seek hs
      have hfilter : (skipped ++ c :: rest).filter p = c :: rest.filter p := by
        rw [List.filter_append, List.filter_eq_nil_iff.2 hskipped, List.nil_append,
          List.filter_cons_of_pos hc]
      have hidxs : (skipped ++ c :: rest).findIdxs p =
          skipped.length :: (rest.findIdxs p).map (· + (skipped.length + 1)) := by
        have hnone : skipped.findIdxs p = [] :=
          List.findIdxs_eq_nil_iff.2 fun d hd => Bool.eq_false_iff.2 (hskipped d hd)
        rw [List.findIdxs_append, hnone, List.nil_append, List.findIdxs_cons, if_pos hc,
          Nat.zero_add, List.findIdxs_start]
      have hdrop : (skipped ++ c :: rest).drop (skipped.length + 1) = rest := by
        rw [← List.drop_drop, List.drop_left, List.drop_one, List.tail_cons]
      have hle : min max (rest.filter p).length ≤ (rest.findIdxs p).length := by
        rw [List.length_findIdxs, ← List.countP_eq_length_filter]
        exact Nat.min_le_right _ _
      rw [gather_succ_of_eq_some hs, hdrop, ih, hfilter, hidxs, List.take_succ_cons,
        List.length_cons, Nat.add_min_add_right, endOf_cons hle]

/-! ## Steps that take one character -/

/-- The step takes the character that `next` finds, and only writes that down. Where there is none
it draws a character, which satisfies `P`, as it does with no target. -/
structure Takes (next : Search) (P : Char → Prop) (step : Step σ) : Prop where
  nil : next [] = none
  found : ∀ {target n c}, next target = some (n, c) →
    ∃ values, ∀ s, Walk.Records (step target) s ⟨[c], n + 1⟩ s values
  missed : ∀ {target}, next target = none → step target = step []
  drawn : ∀ s, ∃ d s' values, P d ∧ Walk.Records (step []) s ⟨[d], 0⟩ s' values

theorem takes_member (hs : sampler.WithinBounds) {set : CodeSet}
    (hchars : ∀ v ∈ set, v.toNat.isValidChar) (hne : ∃ v, v ∈ set) :
    Takes (head fun d => set.contains d.val) (fun d => d.val ∈ set)
      (member (.steer sampler) set) := by
  have hempty : ¬ set.isEmpty = true := by
    obtain ⟨v, hv⟩ := hne
    exact fun he => CodeSet.isEmpty_iff.1 he v hv
  have hnil : member (.steer sampler) set [] = _ := member_of_not_mem hempty (by simp)
  refine ⟨rfl, ?_, ?_, ?_⟩
  · intro target n c h
    cases target with
    | nil => cases h
    | cons d target =>
      obtain ⟨hd, heq⟩ := Option.ite_none_right_eq_some.1 h
      cases heq
      obtain ⟨k, hmember⟩ := member_of_mem sampler (CodeSet.contains_iff.1 hd) target
      rw [hmember]
      exact ⟨[k] ++ [], fun s => (Walk.records_record k s).bind (Walk.records_pure _ s)⟩
  · intro target h
    rw [hnil]
    refine member_of_not_mem hempty fun d hd => ?_
    rw [← CodeSet.contains_iff]
    exact not_of_head_eq_none h d hd
  · intro s
    have hpos := CodeSet.size_pos hempty
    have hk := hs 0 (set.size - 1) s (Nat.zero_le _)
    rw [hnil]
    refine ⟨_, _, _, ?_, (Walk.records_ask sampler 0 (set.size - 1) s).bind (Walk.records_pure _ _)⟩
    exact Chooser.characterAt_mem hchars (by omega)

theorem takes_literal (sampler : Sampler σ) (ignoreCase : Bool) (ch : Char) :
    Takes (seek (fits ignoreCase ch)) (fun d => fits ignoreCase ch d = true)
      (literal (.steer sampler) ignoreCase ch) := by
  refine ⟨rfl, ?_, ?_, ?_⟩
  · intro target n c h
    rw [literal_of_seek h]
    unfold recordCase
    split
    · exact ⟨[] ++ [], fun s => (Walk.records_pure () s).bind (Walk.records_pure _ s)⟩
    · exact ⟨[_] ++ [], fun s => (Walk.records_record _ s).bind (Walk.records_pure _ s)⟩
  · intro target h
    rw [literal_of_seek_eq_none h, literal_of_seek_eq_none rfl]
  · intro s
    rw [literal_of_seek_eq_none rfl]
    have hask : ∃ d s' values, fits ignoreCase ch d = true ∧
        Walk.Records (askCase (.steer sampler) ignoreCase ch) s d s' values := by
      unfold askCase
      split
      · exact ⟨ch, s, [], fits_iff.2 (.inl rfl), Walk.records_pure ch s⟩
      · refine ⟨_, _, _, ?_, (Walk.records_ask sampler 0 1 s).bind (Walk.records_pure _ _)⟩
        split
        · exact fits_iff.2 (.inr rfl)
        · exact fits_iff.2 (.inl rfl)
    obtain ⟨d, s', values, hd, hrec⟩ := hask
    exact ⟨d, s', values ++ [], hd, hrec.bind (Walk.records_pure _ s')⟩

/-! ## Repetitions -/

variable {P : Char → Prop} {step : Step σ} {found : List Char} {consumed : Nat}

/-- The loop ends at its bound, or with an attempt that is undone. Of that attempt only the draws
are left, which are those of a step with no target. -/
theorem whileConsuming_takes (h : Takes next P step)
    (hg : gather next max target = (found, consumed)) (s : σ) : ∃ s' values,
      Walk.Records (whileConsuming step max target) s (found.length, ⟨found, consumed⟩) s' values ∧
        (found.length < max → ∃ d more, Walk.Records (step []) s ⟨[d], 0⟩ s' more) := by
  induction max generalizing target found consumed with
  | zero =>
    cases hg
    exact ⟨s, [], Walk.records_pure _ s, fun hlt => absurd hlt (Nat.lt_irrefl 0)⟩
  | succ max ih =>
    cases hn : next target with
    | none =>
      rw [gather_of_eq_none hn] at hg
      cases hg
      obtain ⟨d, s', more, -, hstep⟩ := h.drawn s
      refine ⟨s', [], fun log captures => ?_, fun _ => ⟨d, more, hstep⟩⟩
      have hattempt := hstep log captures
      rw [← h.missed hn] at hattempt
      rw [whileConsuming_of_eq_zero hattempt rfl rfl, DecisionLog.append_nil]
      rfl
    | some next =>
      obtain ⟨n, c⟩ := next
      rw [gather_succ_of_eq_some hn] at hg
      cases hg
      obtain ⟨values, hstep⟩ := h.found hn
      obtain ⟨s', more, hrest, hend⟩ := ih rfl
      refine ⟨s', values ++ more, fun log captures => ?_, fun hlt => ?_⟩
      · rw [whileConsuming_of_ne_zero (hstep s log captures) (Nat.succ_ne_zero n)
          (hrest (log.append values) captures), DecisionLog.append_append]
        rfl
      · exact hend (Nat.lt_of_succ_lt_succ hlt)

theorem times_takes (h : Takes next P step) (n : Nat) (s : σ) : ∃ drawn s' values,
    Walk.Records (times step n) s drawn s' values ∧ drawn.length = n ∧ ∀ d ∈ drawn, P d := by
  induction n generalizing s with
  | zero => exact ⟨[], s, [], Walk.records_pure [] s, rfl, by simp⟩
  | succ n ih =>
    obtain ⟨d, s₁, values, hd, hstep⟩ := h.drawn s
    obtain ⟨drawn, s', more, htimes, hlen, hall⟩ := ih s₁
    refine ⟨d :: drawn, s', values ++ (more ++ []), ?_, ?_, List.forall_mem_cons.2 ⟨hd, hall⟩⟩
    · exact hstep.bind (htimes.bind (Walk.records_pure _ s'))
    · rw [List.length_cons, hlen]

theorem pad_eq_of_times {min sampled realized : Nat} {p : Produced} {s s' : Walk.State σ}
    {drawn : List Char}
    (h : times step (if realized < min then sampled - realized else 0) s = .ok drawn s') :
    pad step min sampled realized p s = .ok ⟨p.text ++ drawn, p.consumed⟩ s' := by
  unfold pad
  split
  · next hlt =>
    rw [if_pos hlt] at h
    rw [Walk.bind_ok h]
    rfl
  · next hge =>
    rw [if_neg hge] at h
    cases h
    rw [List.append_nil]
    rfl

/-- The run of a repetition from `s` to `s'`: it samples a count, and takes the `r` characters
`found` from its target. Only if these are less than `min`, the characters `drawn` make up for the
sampled count. A free walk draws them too once the count is sampled, after one for the attempt that
is undone. -/
structure CharacterRun (sampler : Sampler σ) (free : Step σ) (P : Char → Prop) (min max r : Nat)
    (found drawn : List Char) (s s' : Walk.State σ) : Prop where
  length_found : found.length = r
  length_drawn : drawn.length = if r < min then (sampler min max s.source).1 - r else 0
  length_text : (found ++ drawn).length = if min ≤ r then r else (sampler min max s.source).1
  forall_drawn : ∀ d ∈ drawn, P d
  log : ∃ values, s'.log = s.log.append ((sampler min max s.source).1 :: r :: values)
  free : r < min → ∃ d s'',
    times free (drawn.length + 1) { s with source := (sampler min max s.source).2 } =
      .ok (d :: drawn) s'' ∧ s''.source = s'.source

theorem records_repeatAlong {min max sampled : Nat} {s s₁ s' : σ} {values more : List Nat}
    {drawn : List Char} (hloop : Walk.Records (whileConsuming step max target) s
      (found.length, ⟨found, consumed⟩) s₁ values)
    (htimes : Walk.Records
      (times step (if found.length < min then sampled - found.length else 0)) s₁ drawn s' more) :
    Walk.Records (repeatAlong step min max sampled target) s ⟨found ++ drawn, consumed⟩ s'
      (found.length :: (values ++ more)) := by
  intro log captures
  rw [repeatAlong_of_whileConsuming (hloop (log.push 0) captures) rfl, pad_eq_of_times (htimes _ _),
    DecisionLog.push_eq_append, DecisionLog.append_append, DecisionLog.append_append]
  rfl

theorem repetition_takes (hs : sampler.WithinBounds) (h : Takes next P step)
    (hg : gather next max target = (found, consumed)) {free : Step σ} (hfree : Same step free)
    {min : Nat} (hle : min ≤ max) (hne : target ≠ []) (s : Walk.State σ) : ∃ drawn s',
      repetition (.steer sampler) step min max target s = .ok ⟨found ++ drawn, consumed⟩ s' ∧
        CharacterRun sampler free P min max found.length found drawn s s' := by
  have hsampled := (hs min max s.source hle).1
  obtain ⟨source, values, hloop, hend⟩ := whileConsuming_takes h hg (sampler min max s.source).2
  obtain ⟨drawn, source', more, htimes, hlen, hall⟩ := times_takes h
    (if found.length < min then (sampler min max s.source).1 - found.length else 0) source
  have hrun : Walk.Records (repetition (.steer sampler) step min max target) s.source
      ⟨found ++ drawn, consumed⟩ source'
      ((sampler min max s.source).1 :: found.length :: (values ++ more)) := by
    refine (Walk.records_ask sampler min max s.source).bind ?_
    rw [if_pos (follows_steer sampler hne)]
    exact records_repeatAlong hloop htimes
  refine ⟨drawn, _, hrun s.log s.captures, rfl, hlen, ?_, hall, ⟨_, rfl⟩, fun hlt => ?_⟩
  · rw [List.length_append, hlen]
    split <;> split <;> omega
  · -- the loop ended with an attempt that was undone, since it took less than `min`
    obtain ⟨d, undone, hundone⟩ := hend (Nat.lt_of_lt_of_le hlt hle)
    rw [← hlen] at htimes
    have hfreely : Walk.Records (times step (drawn.length + 1)) (sampler min max s.source).2
        (d :: drawn) source' _ := hundone.bind (htimes.bind (Walk.records_pure _ source'))
    rw [← times_eq hfree]
    exact ⟨d, _, hfreely s.log s.captures, rfl⟩

end Step

/-- Steered toward a target that is not empty, the repetition of a class with members takes from
the target what comes before the first character that is no member, and at most as many as it may;
the repetition of a literal takes as many as it may of all characters that the literal can be, and
accounts for the target up to the last one of these. If that is less than the lower bound, what is
missing to the sampled count is drawn. -/
theorem Token.steered_character_repetition (hs : sampler.WithinBounds) (settings : Settings)
    {lower : Nat} {upper : Option Nat} (hle : lower ≤ settings.upperBound lower upper)
    {target : List Char} (hne : target ≠ []) (s : Walk.State σ) :
    (∀ cls : CharClass, (∃ v, v ∈ settings.expand cls) →
      let max := settings.upperBound lower upper
      let found := target.takeWhile fun d => (settings.expand cls).contains d.val
      let r := min max found.length
      ∃ drawn s', (Token.repetition (.atom (.charClass cls)) lower upper).step (.steer sampler)
          settings target s = .ok ⟨found.take r ++ drawn, r⟩ s' ∧
        Step.CharacterRun sampler ((Atom.charClass cls).step (.free sampler) settings)
          (fun d => d.val ∈ settings.expand cls) lower max r (found.take r) drawn s s') ∧
    ∀ c : Char,
      let max := settings.upperBound lower upper
      let fits := Step.fits settings.flags.caseInsensitive c
      let found := target.filter fits
      let r := min max found.length
      ∃ drawn s', (Token.repetition (.atom (.literal c)) lower upper).step (.steer sampler)
          settings target s =
            .ok ⟨found.take r ++ drawn, Step.endOf (target.findIdxs fits) r⟩ s' ∧
        Step.CharacterRun sampler ((Atom.literal c).step (.free sampler) settings)
          (fun d => fits d = true) lower max r (found.take r) drawn s s' := by
  have hcut : ∀ (max : Nat) (found : List Char),
      found.take (min max found.length) = found.take max ∧
        (found.take max).length = min max found.length := by
    intro max found
    exact ⟨List.take_eq_take_iff.2 (by omega), List.length_take⟩
  constructor
  · intro cls hmem max found r
    obtain ⟨hr, hlen⟩ := hcut max found
    have h := Step.repetition_takes hs
      (Step.takes_member hs (fun v => Settings.isValidChar_of_mem_expand) hmem)
      (Step.gather_head _ max target) (Step.same_member _) hle hne s
    rw [hr]
    rw [hlen] at h
    exact h
  · intro c max fits found r
    obtain ⟨hr, hlen⟩ := hcut max found
    have h := Step.repetition_takes hs (Step.takes_literal sampler settings.flags.caseInsensitive c)
      (Step.gather_seek _ max target) (Step.same_literal _ c) hle hne s
    rw [hr]
    rw [hlen] at h
    exact h

/-- The default settings, but without regard to case. -/
def Settings.anyCase : Settings := { flags := { caseInsensitive := true } }

def CharClass.digits : CharClass := ⟨false, [.range '0' '9']⟩

/-- There is one digit only, so that more are drawn. -/
theorem Token.steered_character_repetition_digits :
    (∃ drawn s', (Token.repetition (.atom (.charClass .digits)) 2 (some 4)).step (.steer .tape)
        .anyCase ['7', 'A', 'b', 'a'] { source := [3, 1, 5, 6] } = .ok ⟨['7'] ++ drawn, 1⟩ s' ∧
      Step.CharacterRun .tape ((Atom.charClass .digits).step (.free .tape) .anyCase)
        (fun d => d.val ∈ Settings.anyCase.expand .digits) 2 4 1 ['7'] drawn
        { source := [3, 1, 5, 6] } s') ∧
    ∃ drawn s', (Token.repetition (.atom (.literal 'a')) 2 (some 4)).step (.steer .tape) .anyCase
        ['7', 'A', 'b', 'a'] { source := [3, 1, 5, 6] } = .ok ⟨['A', 'a'] ++ drawn, 4⟩ s' ∧
      Step.CharacterRun .tape ((Atom.literal 'a').step (.free .tape) .anyCase)
        (fun d => Step.fits true 'a' d = true) 2 4 2 ['A', 'a'] drawn
        { source := [3, 1, 5, 6] } s' := by
  have hle : 2 ≤ Settings.anyCase.upperBound 2 (some 4) := by decide
  have hmem : ∃ v, v ∈ Settings.anyCase.expand .digits := ⟨48, ⟨48, 57⟩, .head _, by decide⟩
  have hdigits : ['7', 'A', 'b', 'a'].takeWhile
      (fun d => (Settings.anyCase.expand .digits).contains d.val) = ['7'] := by decide
  have h := Token.steered_character_repetition Sampler.tape_withinBounds Settings.anyCase hle
    (List.cons_ne_nil '7' ['A', 'b', 'a']) { source := [3, 1, 5, 6] }
  have h₁ := h.1 .digits hmem
  have h₂ := h.2 'a'
  dsimp only at h₁
  rw [hdigits] at h₁
  exact ⟨h₁, h₂⟩

end PatternGen
