import PatternGen.Proofs.Generation
import PatternGen.Proofs.Lockstep

/-!
# Safety of generation

A generation from a pattern that was read from a text never fails, and it never asks its random
source for a number between bounds that are out of order, not even in an attempt that it gives up.

A walk stops with an error where a list of branches, a list of attempts or the log is too short for
the number that it has in hand. Only a member of a class has a way out, the replacement character.
It is never taken: a walk that stops with an error there as well is the same walk.

Results:
* `Token.checkedStep_eq`: the walk that also checks the numbers of members is the same walk.
* `Sampler.inStep_traced`: keeping the draws changes nothing.
* `Engine.generate_safe`: generations succeed, and all bounds are in order.
-/

namespace PatternGen

variable {σ : Type} {sampler : Sampler σ} {chooser : Chooser σ}

/-! ## Members that are checked -/

namespace Chooser

/-- The character at a place of a set, if there is one. -/
def characterAt? (set : CodeSet) (k : Nat) : Option Char :=
  (set.index k).bind fun v => Numeral.char? v.toNat

theorem characterAt_eq_getD (set : CodeSet) (k : Nat) :
    characterAt set k = (characterAt? set k).getD '\ufffd' := rfl

/-- Chooses a member of a set, where a number without a character is an error. -/
def checkedMember (chooser : Chooser σ) (set : CodeSet) (next : Option Char) : Walk σ Member :=
  match chooser.targetRank? set next with
  | some (c, k) => do
    Walk.record k
    pure ⟨c, true⟩
  | none => do
    let k ← chooser.index set.size
    match characterAt? set k with
    | some c => pure ⟨c, false⟩
    | none => throw (.indexOutOfBounds k set.size)

/-- In a set of characters every number below the size has one. -/
theorem characterAt?_of_lt {set : CodeSet} (hs : ∀ v ∈ set, v.toNat.isValidChar) {k : Nat}
    (hk : k < set.size) : characterAt? set k = some (characterAt set k) := by
  obtain ⟨v, hv, hi⟩ := CodeSet.exists_index hk
  have hc : characterAt? set k = some ⟨v, hs v hv⟩ := by
    rw [characterAt?, hi, Option.bind_some, Numeral.char?, dif_pos (hs v hv)]
    rfl
  rw [characterAt_eq_getD, hc, Option.getD_some]

theorem checkedMember_eq (hd : chooser.Draws fun _ => True) {set : CodeSet}
    (hs : ∀ v ∈ set, v.toNat.isValidChar) (hne : ¬ set.isEmpty = true) (next : Option Char) :
    chooser.checkedMember set next = chooser.member set next := by
  funext s
  unfold checkedMember member
  cases chooser.targetRank? set next with
  | some ck => rfl
  | none =>
    obtain ⟨k, s', ha, hk, -⟩ := hd.ask (Nat.zero_le (set.size - 1)) (s := s) trivial
    have hpos := CodeSet.size_pos hne
    dsimp only [index]
    rw [Walk.bind_ok ha, Walk.bind_ok ha, characterAt?_of_lt hs (by omega)]

end Chooser

/-- Produces a member of a set that is checked. -/
def Step.checkedMember (chooser : Chooser σ) (set : CodeSet) : Step σ := fun target =>
  if set.isEmpty then pure {}
  else do
    let m ← chooser.checkedMember set target.head?
    pure ⟨[m.value], m.fromTarget.toNat⟩

section

variable (chooser) (settings : Settings)

/-- The step of a leaf, with members that are checked. -/
def Atom.checkedStep : Atom → Step σ
  | .charClass cls => Step.checkedMember chooser (settings.expand cls)
  | a => a.step chooser settings

/-- The step of a token, with members that are checked. -/
def Token.checkedStep (token : Token) : Step σ :=
  token.interpret
    { Step.interpretation chooser settings with atom := Atom.checkedStep chooser settings }

end

theorem Atom.checkedStep_eq (hd : chooser.Draws fun _ => True) (settings : Settings) (a : Atom) :
    a.checkedStep chooser settings = a.step chooser settings := by
  cases a with
  | literal c => rfl
  | position anchor => rfl
  | charClass cls =>
    funext target
    show Step.checkedMember chooser _ target = Step.member chooser _ target
    unfold Step.checkedMember Step.member
    split
    · rfl
    · next hne =>
      rw [Chooser.checkedMember_eq hd (fun v => Settings.isValidChar_of_mem_expand) hne]
  | reference n => rfl

theorem Token.checkedStep_eq (hd : chooser.Draws fun _ => True) (settings : Settings)
    (token : Token) : token.checkedStep chooser settings = token.step chooser settings := by
  rw [Token.step_eq_interpret, Token.checkedStep, funext (Atom.checkedStep_eq hd settings)]
  rfl

/-! ## Draws that are kept -/

/-- The bounds of all draws are in order. -/
def Traced.InOrder (t : Traced σ) : Prop := ∀ d ∈ t.draws, d.lo ≤ d.hi

namespace Sampler

theorem WithinBounds.traced (hs : sampler.WithinBounds) : sampler.traced.WithinBounds :=
  fun lo hi t h => hs lo hi t.state h

theorem inOrder_traced {lo hi : Nat} (h : lo ≤ hi) {t : Traced σ} (ht : t.InOrder) :
    (sampler.traced lo hi t).2.InOrder := by
  intro d hd
  rcases Array.mem_push.1 hd with hd | rfl
  · exact ht d hd
  · exact h

/-- The state of a sampler whose draws are kept. -/
def Traces (s : σ) (t : Traced σ) : Prop := t.state = s

theorem inStep_traced (steered : Bool) :
    (Chooser.drawing sampler steered).InStep Traces (.drawing sampler.traced steered) where
  answer := by
    rintro _ t lo hi rfl
    exact .inl ⟨_, _, _, rfl, rfl, rfl⟩
  steered := rfl
  recounts := rfl

end Sampler

/-! ## Generations -/

namespace Engine

variable {engine : Engine}

/-- Generates as `Engine.generate` does, with members that are checked. -/
def generateChecked (engine : Engine) (sampler : Sampler σ) (target : Option String) (source : σ) :
    Except Error Generation × σ :=
  generationOf (engine.pattern.root.checkedStep (.drawing sampler target.isSome) engine.settings
    (target.getD "").toList { source })

theorem generateChecked_eq (hs : sampler.WithinBounds) (target : Option String) (source : σ) :
    engine.generateChecked sampler target source = engine.generate sampler target source := by
  rw [generate_eq, generating_eq_walk, generateChecked, walk,
    Token.checkedStep_eq (hs.draws (fun _ _ => trivial) _)]

/-- Keeping the draws changes nothing else. -/
theorem generating_traced (h : engine.pattern.root.Regular) (sampler : Sampler σ)
    (target : Option String) (t : Traced σ) :
    Walk.SameEnd Sampler.Traces { source := t.state } { source := t }
      (engine.generating sampler target t.state) (engine.generating sampler.traced target t) := by
  rw [generating_eq_walk, generating_eq_walk]
  exact Token.inStep (Sampler.inStep_traced _) engine.settings h _ _ _ rfl rfl

theorem generating_traced_ends (h : engine.pattern.root.Regular) (hs : sampler.WithinBounds)
    (target : Option String) {t : Traced σ} (ht : t.InOrder) :
    ∃ p s, engine.generating sampler.traced target t = .ok p s ∧ s.source.InOrder := by
  rw [generating_eq_walk]
  obtain ⟨p, s, -, hw, hi, -⟩ := Token.follows
    (hs.traced.draws (fun h ht => Sampler.inOrder_traced h ht) target.isSome) engine.settings h
    (target.getD "").toList { source := t } ht
  exact ⟨p, s, hw, hi⟩

/-- What is generated with the draws kept is generated without keeping them. -/
theorem generate_of_traced (h : engine.pattern.root.Regular) {target : Option String}
    {t t' : Traced σ} {g : Generation}
    (hg : engine.generate sampler.traced target t = (.ok g, t')) :
    engine.generate sampler target t.state = (.ok g, t'.state) := by
  have hsame := generating_traced h sampler target t
  rw [generate_eq] at hg ⊢
  generalize engine.generating sampler target t.state = r,
    engine.generating sampler.traced target t = r' at hsame hg
  cases hsame with
  | ok p hal =>
    obtain ⟨vs, hsl, htl⟩ := hal.log
    cases hg
    show (Except.ok (Generation.mk _ _ p.consumed), _) = _
    rw [hsl, htl, ← hal.source]
  | error e _ => cases hg

/-- Every generation succeeds; it would have stopped with an error at a number that is no index of
the list, or no place of the log, that it is meant for. It is the same with all draws kept, which
have their bounds in order, those of attempts that were given up among them; and with all members
checked, so that the replacement character stands for none. -/
theorem generate_safe {dialect : Dialect} {text : List Char}
    (h : Pattern.parse dialect text = .ok engine.pattern) (hs : sampler.WithinBounds)
    (target : Option String) (source : σ) :
    ∃ g t, engine.generate sampler target source = (.ok g, t.state) ∧
      engine.generate sampler.traced target ⟨source, #[]⟩ = (.ok g, t) ∧
      engine.generateChecked sampler.traced target ⟨source, #[]⟩ = (.ok g, t) ∧
      ∀ d ∈ t.draws, d.lo ≤ d.hi := by
  have hreg := Pattern.regular_of_parse h
  obtain ⟨p, t, ht, hi⟩ := generating_traced_ends hreg hs target (t := ⟨source, #[]⟩)
    (fun d hd => absurd hd (Array.not_mem_empty d))
  have htraced := generate_of_generating ht
  refine ⟨_, t.source, generate_of_traced hreg htraced, htraced, ?_, hi⟩
  rw [generateChecked_eq hs.traced, htraced]

/-- Of the four draws of this run the first is a count. The others, a digit for `a` and the third
repetition, are made in attempts that are given up. -/
theorem generate_safe_echo : ∃ g t,
    (Engine.mk .echo {}).generate .tape (some "a7") [2, 0, 5] = (.ok g, t.state) ∧
      (Engine.mk .echo {}).generate (.traced .tape) (some "a7") ⟨[2, 0, 5], #[]⟩ = (.ok g, t) ∧
      (Engine.mk .echo {}).generateChecked (.traced .tape) (some "a7") ⟨[2, 0, 5], #[]⟩ =
        (.ok g, t) ∧
      ∀ d ∈ t.draws, d.lo ≤ d.hi :=
  generate_safe Pattern.parse_echo Sampler.tape_withinBounds (some "a7") [2, 0, 5]

end Engine

end PatternGen
