import PatternGen.Proofs.Safety
import PatternGen.Proofs.Steering

/-!
# Straight-line patterns

A token tree without alternations and references in which every repetition has a single count
leaves nothing open but the characters themselves. Along a target that begins with one of its texts
a steered walk takes them all from there: it produces that text, and the only numbers it still asks
for are the counts, which have one answer each.

All texts of such a token have the same length. So a repetition accounts for some of the target in
each of its iterations, or it never does; then the first attempt is undone, and all iterations are
made up by padding, which adds nothing.

Results:
* `Token.StraightLine.regular`: such token trees are regular.
* `Token.StraightLine.copies`: their steps produce the text that the target begins with.
* `Engine.generate_straightLine`: so do the generations, with no draw that has a choice.
-/

namespace PatternGen

variable {σ : Type} {α β : Type} {sampler : Sampler σ} {I : σ → Prop}

/-- Leaves that are no references, groups that look around, sequences of such tokens, and
repetitions of them with a single count. -/
inductive Token.StraightLine (settings : Settings) : Token → Prop
  | literal (c : Char) : StraightLine settings (.atom (.literal c))
  | position (anchor : Anchor) : StraightLine settings (.atom (.position anchor))
  | charClass (cls : CharClass) : StraightLine settings (.atom (.charClass cls))
  | looking {frame : Frame} {body : Body} : frame.look.isSome = true →
      StraightLine settings (.group frame body)
  | sequence {frame : Frame} {tokens : List Token} : frame.look = none →
      (∀ token ∈ tokens, StraightLine settings token) →
      StraightLine settings (.group frame (.sequence tokens))
  | repetition {token : Token} {min : Nat} {max : Option Nat} : settings.upperBound min max = min →
      StraightLine settings token → StraightLine settings (.repetition token min max)

theorem Settings.le_of_upperBound_eq {settings : Settings} {min : Nat} {max : Option Nat}
    (h : settings.upperBound min max = min) : min ≤ max.getD Numeral.largest := by
  cases max with
  | some max => exact Nat.le_of_eq h.symm
  | none =>
    have hcap : Nat.min (min + settings.repeatCap) Numeral.largest = min := h
    exact Nat.le_trans (Nat.le_of_eq hcap.symm) (Nat.min_le_right _ _)

theorem Token.StraightLine.regular {settings : Settings} {token : Token}
    (h : token.StraightLine settings) : token.Regular := by
  induction h with
  | literal c => exact .atom _
  | position anchor => exact .atom _
  | charClass cls => exact .atom _
  | looking hl => exact .looking hl
  | sequence hl _ ih => exact .sequence hl ih
  | repetition hmax _ ih => exact .repetition (Settings.le_of_upperBound_eq hmax) ih

/-! ## Questions with one answer -/

/-- From states that satisfy `I` a question with a single answer is answered with it, and leads to
such a state again. -/
def Sampler.Settles (sampler : Sampler σ) (I : σ → Prop) : Prop :=
  ∀ v s, I s → (sampler v v s).1 = v ∧ I (sampler v v s).2

/-- No draw had a choice. -/
def Traced.Settled (t : Traced σ) : Prop := ∀ d ∈ t.draws, d.lo = d.hi

theorem Sampler.WithinBounds.settles_traced (hs : sampler.WithinBounds) :
    sampler.traced.Settles Traced.Settled := by
  intro v t ht
  have hv := hs v v t.state (Nat.le_refl v)
  refine ⟨Nat.le_antisymm hv.2 hv.1, fun d hd => ?_⟩
  rcases Array.mem_push.1 hd with hd | rfl
  · exact ht d hd
  · rfl

/-! ## Walks to a value -/

namespace Walk

/-- From every state whose source satisfies `I` the walk comes to the value `a`. It adds to the end
of the log and leaves a source that satisfies `I`. -/
def ComesTo (I : σ → Prop) (x : Walk σ α) (a : α) : Prop :=
  ∀ s, I s.source → ∃ s' vs, x s = .ok a s' ∧ I s'.source ∧ s'.log = s.log.append vs

theorem comesTo_pure (a : α) : ComesTo I (pure a) a :=
  fun s hs => ⟨s, [], rfl, hs, s.log.append_nil.symm⟩

theorem ComesTo.bind {x : Walk σ α} {f : α → Walk σ β} {a : α} {b : β} (hx : ComesTo I x a)
    (hf : ComesTo I (f a) b) : ComesTo I (x >>= f) b := by
  intro s hs
  obtain ⟨s₁, us, h₁, hi₁, hl₁⟩ := hx s hs
  obtain ⟨s₂, vs, h₂, hi₂, hl₂⟩ := hf s₁ hi₁
  refine ⟨s₂, us ++ vs, by rw [bind_ok h₁, h₂], hi₂, ?_⟩
  rw [hl₂, hl₁, DecisionLog.append_append]

theorem comesTo_record (v : Nat) : ComesTo I (record v) () :=
  fun s hs => ⟨{ s with log := s.log.push v }, [v], rfl, hs, s.log.push_eq_append v⟩

theorem comesTo_capture (group : Nat) (text : List Char) : ComesTo I (capture group text) () :=
  fun s hs => ⟨{ s with captures := s.captures.set group text }, [], rfl, hs,
    s.log.append_nil.symm⟩

end Walk

theorem Sampler.Settles.comesTo_ask (hs : sampler.Settles I) (v : Nat) :
    Walk.ComesTo I ((Chooser.steer sampler).ask v v) v := by
  intro s hi
  obtain ⟨hv, hi'⟩ := hs v s.source hi
  refine ⟨{ s with source := (sampler v v s.source).2, log := s.log.push v }, [v], ?_, hi',
    s.log.push_eq_append v⟩
  simp only [Chooser.ask, Chooser.steer, Chooser.sampled, hv]

/-! ## Steps along a text -/

/-- All texts of the production have the same length, and along each of them, whatever follows it,
the step produces that text. -/
structure Step.Copies (I : σ → Prop) (step : Step σ) (y : Production) : Prop where
  length : ∃ n, ∀ {c w c'}, y c w c' → w.length = n
  comesTo : ∀ {c w c'}, y c w c' → ∀ rest, Walk.ComesTo I (step (w ++ rest)) ⟨w, w.length⟩

namespace Step

theorem copies_nothing : Copies I (nothing : Step σ) .nothing where
  length := ⟨0, fun h => by rw [h.1]; rfl⟩
  comesTo h rest := by
    rw [h.1]
    exact Walk.comesTo_pure _

theorem copies_literal (ignoreCase : Bool) (ch : Char) :
    Copies I (literal (.steer sampler) ignoreCase ch) (.literal ignoreCase ch) where
  length := ⟨1, fun h => by
    rcases (Production.literal_iff.1 h).1 with rfl | rfl <;> rfl⟩
  comesTo := by
    intro c w c' h rest
    have hfits : ∃ d, fits ignoreCase ch d = true ∧ w = [d] := by
      rcases (Production.literal_iff.1 h).1 with hw | hw
      · exact ⟨_, fits_iff.2 (.inl rfl), hw⟩
      · exact ⟨_, fits_iff.2 (.inr rfl), hw⟩
    obtain ⟨d, hd, rfl⟩ := hfits
    have hseek : seek (fits ignoreCase ch) ([d] ++ rest) = some (0, d) := by
      rw [List.singleton_append, seek, if_pos hd]
    rw [literal_of_seek hseek]
    have hrecord : Walk.ComesTo I (recordCase ignoreCase ch d) () := by
      unfold recordCase
      split
      · exact Walk.comesTo_pure ()
      · exact Walk.comesTo_record _
    exact hrecord.bind (Walk.comesTo_pure _)

theorem copies_member (set : CodeSet) :
    Copies I (member (.steer sampler) set) (.member set) where
  length := by
    by_cases hne : ∀ v, v ∉ set
    · refine ⟨0, ?_⟩
      rintro _ _ _ ⟨⟨ch, hch, -⟩ | ⟨-, rfl⟩, -⟩
      · exact absurd hch (hne _)
      · rfl
    · refine ⟨1, ?_⟩
      rintro _ _ _ ⟨⟨ch, -, rfl⟩ | ⟨hnone, -⟩, -⟩
      · rfl
      · exact absurd hnone hne
  comesTo := by
    rintro _ _ _ ⟨⟨ch, hch, rfl⟩ | ⟨hnone, rfl⟩, -⟩ rest
    · obtain ⟨k, hmember⟩ := member_of_mem sampler hch rest
      rw [List.singleton_append, hmember]
      exact (Walk.comesTo_record k).bind (Walk.comesTo_pure _)
    · unfold member
      rw [if_pos (CodeSet.isEmpty_iff.2 hnone)]
      exact Walk.comesTo_pure _

/-! ## Sequences and captures -/

variable {step : Step σ} {steps : List (Step σ)} {y : Production} {ys : List Production}

theorem copies_sequence (h : List.Forall₂ (Copies I) steps ys) :
    Copies I (sequence steps) (.sequence ys) := by
  induction h with
  | nil => exact copies_nothing
  | @cons step y steps ys hstep _ ih =>
    obtain ⟨n, hn⟩ := hstep.length
    obtain ⟨m, hm⟩ := ih.length
    constructor
    · refine ⟨n + m, ?_⟩
      rintro _ _ _ ⟨first, others, c₁, rfl, h₁, h₂⟩
      rw [List.length_append, hn h₁, hm h₂]
    · rintro _ _ _ ⟨first, others, c₁, rfl, h₁, h₂⟩ rest
      rw [List.append_assoc]
      refine (hstep.comesTo h₁ (others ++ rest)).bind ?_
      have hleft : (first ++ (others ++ rest)).drop first.length = others ++ rest :=
        List.drop_left
      rw [hleft]
      refine (ih.comesTo h₂ rest).bind ?_
      rw [List.length_append]
      exact Walk.comesTo_pure _

theorem copies_capturing (h : Copies I step y) (group : Option Nat) :
    Copies I (capturing group step) (.capturing group y) where
  length := by
    obtain ⟨n, hn⟩ := h.length
    exact ⟨n, fun ⟨_, hw, _⟩ => hn hw⟩
  comesTo := by
    rintro c w c' ⟨c₁, hw, -⟩ rest
    refine (h.comesTo hw rest).bind ?_
    cases group with
    | none => exact Walk.comesTo_pure _
    | some n => exact (Walk.comesTo_capture n w).bind (Walk.comesTo_pure _)

/-! ## Repetitions -/

theorem whileConsuming_comesTo_zero {target text : List Char}
    (h : Walk.ComesTo I (step target) ⟨text, 0⟩) (max : Nat) :
    Walk.ComesTo I (whileConsuming step (max + 1) target) (0, {}) := by
  intro s hs
  obtain ⟨s', vs, h, hi, hl⟩ := h s hs
  exact ⟨_, [], whileConsuming_of_eq_zero h rfl hl, hi, s.log.append_nil.symm⟩

theorem whileConsuming_comesTo_succ {target : List Char} {p q : Produced} {max k : Nat}
    (h : Walk.ComesTo I (step target) p) (hp : p.consumed ≠ 0)
    (hq : Walk.ComesTo I (whileConsuming step max (target.drop p.consumed)) (k, q)) :
    Walk.ComesTo I (whileConsuming step (max + 1) target) (k + 1, p.append q) := by
  intro s hs
  obtain ⟨s₁, us, h₁, hi₁, hl₁⟩ := h s hs
  obtain ⟨s₂, vs, h₂, hi₂, hl₂⟩ := hq s₁ hi₁
  refine ⟨s₂, us ++ vs, whileConsuming_of_ne_zero h₁ hp h₂, hi₂, ?_⟩
  rw [hl₂, hl₁, DecisionLog.append_append]

variable {n : Nat} {c c' : Captures} {w : List Char}

theorem length_replicate {l : Nat} (hl : ∀ {c w c'}, y c w c' → w.length = l)
    (hw : Production.sequence (.replicate n y) c w c') : w.length = n * l := by
  induction n generalizing c w with
  | zero => rw [hw.1, Nat.zero_mul, List.length_nil]
  | succ n ih =>
    obtain ⟨first, others, c₁, rfl, h₁, h₂⟩ := hw
    rw [List.length_append, hl h₁, ih h₂, Nat.succ_mul, Nat.add_comm]

/-- Iterations with empty texts. -/
theorem times_comesTo_nil (h : Copies I step y)
    (hw : Production.sequence (.replicate n y) c [] c') : Walk.ComesTo I (times step n) [] := by
  rw [times_eq_sequence]
  have hsequence := copies_sequence (Interpretation.forall₂_replicate h n)
  exact (hsequence.comesTo hw []).bind (Walk.comesTo_pure [])

/-- If the first text is empty, the attempt is undone. -/
theorem whileConsuming_comesTo_nil (h : Copies I step y)
    (hw : Production.sequence (.replicate n y) c [] c') (rest : List Char) :
    Walk.ComesTo I (whileConsuming step n rest) (0, {}) := by
  cases n with
  | zero => exact Walk.comesTo_pure _
  | succ n =>
    obtain ⟨first, others, c₁, hnil, h₁, -⟩ := hw
    obtain ⟨rfl, -⟩ := List.append_eq_nil_iff.1 hnil.symm
    exact whileConsuming_comesTo_zero (h.comesTo h₁ rest) n

/-- Iterations whose texts are not empty account for them. -/
theorem whileConsuming_comesTo (h : Copies I step y) (hne : ∀ {c w c'}, y c w c' → w ≠ [])
    (hw : Production.sequence (.replicate n y) c w c') (rest : List Char) :
    Walk.ComesTo I (whileConsuming step n (w ++ rest)) (n, ⟨w, w.length⟩) := by
  induction n generalizing c w with
  | zero =>
    obtain ⟨rfl, -⟩ := hw
    exact Walk.comesTo_pure _
  | succ n ih =>
    obtain ⟨first, others, c₁, rfl, h₁, h₂⟩ := hw
    have hpos : first.length ≠ 0 := by
      rw [Ne, List.length_eq_zero_iff]
      exact hne h₁
    have hleft : (first ++ (others ++ rest)).drop first.length = others ++ rest := List.drop_left
    have hcount := whileConsuming_comesTo_succ (h.comesTo h₁ (others ++ rest)) hpos
      (by rw [hleft]; exact ih h₂)
    rw [List.append_assoc, List.length_append]
    exact hcount

theorem repeatAlong_comesTo {min max sampled k : Nat} {target : List Char} {p q : Produced}
    (hp : Walk.ComesTo I (whileConsuming step max target) (k, p))
    (hq : Walk.ComesTo I (pad step min sampled k p) q) :
    Walk.ComesTo I (repeatAlong step min max sampled target) q := by
  intro s hs
  obtain ⟨s₁, us, h₁, hi₁, hl₁⟩ := hp { s with log := s.log.push 0 } hs
  obtain ⟨s₂, vs, h₂, hi₂, hl₂⟩ := hq { s₁ with log := (s.log.push k).append us } hi₁
  refine ⟨s₂, k :: us ++ vs, ?_, hi₂, ?_⟩
  · rw [repeatAlong_of_whileConsuming h₁ hl₁, h₂]
  · rw [hl₂, DecisionLog.push_eq_append, DecisionLog.append_append, DecisionLog.append_append]
    rfl

theorem comesTo_repeatAlong (h : Copies I step y)
    (hw : Production.sequence (.replicate n y) c w c') (rest : List Char) :
    Walk.ComesTo I (repeatAlong step n n n (w ++ rest)) ⟨w, w.length⟩ := by
  obtain ⟨l, hl⟩ := h.length
  by_cases hzero : l = 0
  · have hnil : w = [] := by
      rw [← List.length_eq_zero_iff, length_replicate hl hw, hzero, Nat.mul_zero]
    rw [hnil] at hw ⊢
    refine repeatAlong_comesTo (whileConsuming_comesTo_nil h hw rest) ?_
    -- padding makes up for all iterations
    unfold pad
    split
    · exact (times_comesTo_nil h hw).bind (Walk.comesTo_pure _)
    · exact Walk.comesTo_pure _
  · have hne : ∀ {c w c'}, y c w c' → w ≠ [] := by
      rintro c w c' hy rfl
      exact hzero (hl hy).symm
    refine repeatAlong_comesTo (whileConsuming_comesTo h hne hw rest) ?_
    rw [pad, if_neg (Nat.lt_irrefl n)]
    exact Walk.comesTo_pure _

theorem comesTo_repeatFree (h : Copies I step y)
    (hw : Production.sequence (.replicate n y) c [] c') :
    Walk.ComesTo I (repeatFree (.steer sampler) step n n n) {} := by
  have hcount : Walk.ComesTo I ((Chooser.steer sampler).realizeCount n n) n :=
    (Walk.comesTo_record n).bind (Walk.comesTo_pure n)
  refine hcount.bind ((times_comesTo_nil h hw).bind ?_)
  rw [pad, if_neg (Nat.lt_irrefl n)]
  exact Walk.comesTo_pure _

/-- A repetition with one count. -/
theorem copies_repetition (hs : sampler.Settles I) (h : Copies I step y) (n : Nat) :
    Copies I (repetition (.steer sampler) step n n) (.repetition y n n) where
  length := by
    obtain ⟨l, hl⟩ := h.length
    refine ⟨n * l, ?_⟩
    rintro c w c' ⟨m, hm, hw⟩
    obtain rfl := Nat.le_antisymm hm.2 hm.1
    exact length_replicate hl hw
  comesTo := by
    rintro c w c' ⟨m, hm, hw⟩ rest
    obtain rfl := Nat.le_antisymm hm.2 hm.1
    refine (hs.comesTo_ask m).bind ?_
    by_cases hnil : w ++ rest = []
    · obtain ⟨rfl, rfl⟩ := List.append_eq_nil_iff.1 hnil
      exact comesTo_repeatFree h hw
    · rw [if_pos (follows_steer sampler hnil)]
      exact comesTo_repeatAlong h hw rest

end Step

/-! ## Token trees -/

/-- The step of a straight-line token produces the text that the target begins with. -/
theorem Token.StraightLine.copies (hs : sampler.Settles I) {settings : Settings} {token : Token}
    (h : token.StraightLine settings) :
    Step.Copies I (token.step (.steer sampler) settings) (token.Yields settings) := by
  rw [Token.step_eq_interpret]
  unfold Token.Yields
  induction h with
  | literal c => exact Step.copies_literal _ c
  | position anchor => exact Step.copies_nothing
  | charClass cls => exact Step.copies_member _
  | @looking frame body hl =>
    rw [Token.interpret, Token.interpret, if_pos hl, if_pos hl]
    exact Step.copies_nothing
  | @sequence frame tokens hl _ ih =>
    rw [Token.interpret, Token.interpret, hl]
    exact Step.copies_capturing
      (Step.copies_sequence (Interpretation.forall₂_interpretAll ih)) frame.capture
  | @repetition token min max hmax _ ih =>
    have hrep := Step.copies_repetition hs ih min
    show Step.Copies I (Step.repetition _ _ min (settings.upperBound min max))
      (Production.repetition _ min (settings.upperBound min max))
    rw [hmax]
    exact hrep

/-! ## Generations -/

namespace Engine

variable {engine : Engine}

/-- Steered toward a target that begins with a text of a straight-line pattern, a generation gives
this text and accounts for all of it. None of its draws has a choice. -/
theorem generate_straightLine (h : engine.pattern.root.StraightLine engine.settings)
    (hs : sampler.WithinBounds) {w : List Char} {c : Captures} (hw : engine.Yields w c)
    {target : String} (ht : w <+: target.toList) (source : σ) :
    ∃ log t, engine.generate sampler (some target) source =
        (.ok ⟨String.ofList w, log, w.length⟩, t.state) ∧
      engine.generate sampler.traced (some target) ⟨source, #[]⟩ =
        (.ok ⟨String.ofList w, log, w.length⟩, t) ∧
      ∀ d ∈ t.draws, d.lo = d.hi := by
  obtain ⟨rest, hrest⟩ := ht
  have hcopies := h.copies hs.settles_traced
  obtain ⟨s, vs, hwalk, hi, hl⟩ := hcopies.comesTo hw rest { source := ⟨source, #[]⟩ }
    (fun d hd => absurd hd (Array.not_mem_empty d))
  have htraced : engine.generate sampler.traced (some target) ⟨source, #[]⟩ =
      (.ok ⟨String.ofList w, s.log, w.length⟩, s.source) := by
    rw [hrest] at hwalk
    rw [generate, walk, hwalk]
    rfl
  exact ⟨s.log, s.source, generate_of_traced h.regular htraced, htraced, hi⟩

/-- Two digits and a letter, without regard to case. -/
def numbered : Engine where
  pattern :=
    let digits : Token := .atom (.charClass ⟨false, [.range '0' '9']⟩)
    let body : Body := .sequence [.repetition digits 2 (some 2), .atom (.literal 'b')]
    ⟨.group { role := .root } body, 0, {}⟩
  settings := { flags := { caseInsensitive := true } }

theorem straightLine_numbered : numbered.pattern.root.StraightLine numbered.settings := by
  refine .sequence rfl (List.forall_mem_cons.2 ⟨?_, List.forall_mem_singleton.2 (.literal 'b')⟩)
  exact .repetition rfl (.charClass _)

theorem yields_numbered : numbered.Yields ['7', '3', 'B'] {} := by
  have hdigit : ∀ ch : Char, (Span.mk 48 57).Holds ch.val →
      (Atom.charClass ⟨false, [.range '0' '9']⟩).Yields numbered.settings {} [ch] {} := by
    intro ch hch
    exact ⟨.inl ⟨ch, ⟨⟨48, 57⟩, .head _, hch⟩, rfl⟩, rfl⟩
  have hdigits : (Token.repetition (.atom (.charClass ⟨false, [.range '0' '9']⟩)) 2 (some 2)).Yields
      numbered.settings {} ['7', '3'] {} :=
    ⟨2, ⟨Nat.le_refl 2, Nat.le_refl 2⟩, ['7'], ['3'], {}, rfl, hdigit '7' (by decide),
      ['3'], [], {}, rfl, hdigit '3' (by decide), rfl, rfl⟩
  have hletter : (Atom.literal 'b').Yields numbered.settings {} ['B'] {} :=
    ⟨.inr ⟨rfl, rfl⟩, rfl⟩
  exact ⟨{}, ⟨['7', '3'], ['B'], {}, rfl, hdigits, ['B'], [], {}, rfl, hletter, rfl, rfl⟩, rfl⟩

/-- The count of the digits is the only draw. -/
theorem generate_straightLine_numbered : ∃ log t,
    numbered.generate .tape (some "73Bb") [5, 5] = (.ok ⟨"73B", log, 3⟩, t.state) ∧
      numbered.generate (.traced .tape) (some "73Bb") ⟨[5, 5], #[]⟩ = (.ok ⟨"73B", log, 3⟩, t) ∧
      ∀ d ∈ t.draws, d.lo = d.hi :=
  generate_straightLine straightLine_numbered Sampler.tape_withinBounds yields_numbered
    ⟨['b'], rfl⟩ [5, 5]

end Engine

end PatternGen
