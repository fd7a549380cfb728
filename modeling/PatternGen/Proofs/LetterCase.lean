import Mathlib.Data.List.Forall2
import PatternGen.Proofs.Expansion
import PatternGen.Proofs.Generation

/-!
# Letters in the other case

Without regard to case, and without references, what a pattern gives does not depend on the case of
letters. A literal is either case by a decision of its own; a class holds both cases of each of its
letters if the alphabet does, since that holds of what it selects, negated or not. So the log of a
text can be rewritten to that of the same text with other letters in the other case: the decisions
are the same ones, in the same places, but for the numbers of class members and the cases of
literals.

Results:
* `LogReader.Takes`, `Engine.decisions`: what the numbers of a log decide, read along the pattern.
* `Settings.caseClosed_expand`: classes hold the other case of what they hold.
* `Plan.Respells`, `Plan.respells_interpretation`: the answers to a plan can be rewritten, part by
  part.
* `Engine.replay_other_case`: the log of a text rewritten for another case of its letters.
-/

namespace PatternGen

/-! ## Decisions -/

/-- What a number in a log decides. -/
inductive Decision where
  | branch (k : Nat)
  | member (k : Nat)
  | letterCase (k : Nat)
  | sampledCount (n : Nat)
  | realizedCount (n : Nat)
deriving DecidableEq, Repr

namespace Decision

/-- The number that stands in the log. -/
def value : Decision → Nat
  | branch k => k
  | member k => k
  | letterCase k => k
  | sampledCount n => n
  | realizedCount n => n

/-- The same decision, but for which member of a class it takes and which case of a literal. -/
inductive Alike : Decision → Decision → Prop
  | same (d : Decision) : Alike d d
  | member (j k : Nat) : Alike (.member j) (.member k)
  | letterCase (j k : Nat) : Alike (.letterCase j) (.letterCase k)

end Decision

/-! ## Reading a log -/

/-- Reads from the front of a log. -/
abbrev LogReader := StateT (List Nat) Option

namespace LogReader

variable {α β : Type}

/-- The next number of the log. -/
def next : LogReader Nat
  | [] => none
  | v :: log => some (v, log)

/-- A decision, and those that come after it. -/
def decision (kind : Nat → Decision) (others : Nat → LogReader (List Decision)) :
    LogReader (List Decision) := do
  let v ← next
  let decisions ← others v
  pure (kind v :: decisions)

def sequence : List (LogReader (List Decision)) → LogReader (List Decision)
  | [] => pure []
  | y :: ys => do
    let first ← y
    let others ← sequence ys
    pure (first ++ others)

def literal (ignoreCase : Bool) (c : Char) : LogReader (List Decision) :=
  let other := if ignoreCase then otherCase c else c
  if other = c then pure [] else decision .letterCase fun _ => pure []

def member (set : CodeSet) : LogReader (List Decision) :=
  if set.isEmpty then pure [] else decision .member fun _ => pure []

def alternation (ys : List (LogReader (List Decision))) : LogReader (List Decision) :=
  decision .branch fun k => ys.getD k (pure [])

def repetition (y : LogReader (List Decision)) (min : Nat) : LogReader (List Decision) :=
  decision .sampledCount fun sampled => decision .realizedCount fun realized =>
    sequence (List.replicate (Plan.count min sampled realized) y)

/-- The numbers `vs` are read as `a`, whatever comes after them. -/
def Takes (y : LogReader α) (vs : List Nat) (a : α) : Prop :=
  ∀ rest, y (vs ++ rest) = some (a, rest)

theorem takes_pure (a : α) : (pure a : LogReader α).Takes [] a := fun _ => rfl

theorem takes_next (v : Nat) : next.Takes [v] v := fun _ => rfl

theorem Takes.bind {y : LogReader α} {f : α → LogReader β} {us vs : List Nat} {a : α} {b : β}
    (hy : y.Takes us a) (hf : (f a).Takes vs b) : (y >>= f).Takes (us ++ vs) b := by
  intro rest
  rw [List.append_assoc]
  show (y (us ++ (vs ++ rest)) >>= fun p => f p.1 p.2) = some (b, rest)
  rw [hy, ← hf rest]
  rfl

theorem takes_decision {kind : Nat → Decision} {others : Nat → LogReader (List Decision)} {v : Nat}
    {vs : List Nat} {decisions : List Decision} (h : (others v).Takes vs decisions) :
    (decision kind others).Takes (v :: vs) (kind v :: decisions) := by
  rw [← List.append_nil vs]
  exact (takes_next v).bind (h.bind (takes_pure (kind v :: decisions)))

theorem takes_sequence_cons {y : LogReader (List Decision)} {ys : List (LogReader (List Decision))}
    {us vs : List Nat} {first others : List Decision} (hy : y.Takes us first)
    (hys : (sequence ys).Takes vs others) :
    (sequence (y :: ys)).Takes (us ++ vs) (first ++ others) := by
  rw [← List.append_nil vs]
  exact hy.bind (hys.bind (takes_pure (first ++ others)))

end LogReader

section

variable (settings : Settings)

def Atom.decisions : Atom → LogReader (List Decision)
  | .literal c => .literal settings.flags.caseInsensitive c
  | .position _ => pure []
  | .charClass cls => .member (settings.expand cls)
  | .reference _ => pure []

/-- The interpretation of token trees by how their decisions are read from a log. -/
def LogReader.interpretation : Interpretation (LogReader (List Decision)) where
  atom a := a.decisions settings
  looking := pure []
  sequence := sequence
  alternation := alternation
  capturing _ y := y
  repetition y min _ := repetition y min

end

/-- Reads the decisions of a pattern from a log, and tells which numbers of the log are left. -/
def Engine.decisions (engine : Engine) : LogReader (List Decision) :=
  engine.pattern.root.interpret (LogReader.interpretation engine.settings)

/-! ## The same letters -/

theorem otherCase_otherCase (c : Char) : otherCase (otherCase c) = c := by
  rw [← Char.val_inj, val_otherCase, val_otherCase, swapCase_swapCase]

/-- Every character of the second text is that of the first one or its other case. -/
def SameLetters (w w' : List Char) : Prop := List.Forall₂ (fun a b => b = a ∨ b = otherCase a) w w'

namespace SameLetters

variable {w w' : List Char}

theorem nil_left (h : SameLetters [] w') : w' = [] := List.forall₂_nil_left_iff.1 h

theorem singleton_left {a : Char} (h : SameLetters [a] w') :
    ∃ b, w' = [b] ∧ (b = a ∨ b = otherCase a) := by
  obtain ⟨b, rest, hb, hrest, rfl⟩ := List.forall₂_cons_left_iff.1 h
  exact ⟨b, by rw [nil_left hrest], hb⟩

theorem append_left {u v : List Char} (h : SameLetters (u ++ v) w') :
    ∃ u' v', w' = u' ++ v' ∧ SameLetters u u' ∧ SameLetters v v' := by
  induction u generalizing w' with
  | nil => exact ⟨[], w', rfl, .nil, h⟩
  | cons a u ih =>
    obtain ⟨b, rest, hb, hrest, rfl⟩ := List.forall₂_cons_left_iff.1 h
    obtain ⟨u', v', rfl, hu, hv⟩ := ih hrest
    exact ⟨b :: u', v', rfl, .cons hb hu, hv⟩

end SameLetters

/-! ## Sets with both cases -/

/-- The set has the other case of each letter that it has. -/
def CodeSet.CaseClosed (set : CodeSet) : Prop := ∀ v ∈ set, swapCase v ∈ set

theorem CodeSet.caseClosed_printable : printable.CaseClosed := by
  intro v hv
  rw [printable, mem_span, Span.le_def, Span.le_def] at *
  rw [toNat_swapCase]
  simp only [UInt32.reduceToNat] at *
  split_ifs <;> omega

theorem CodeSet.CaseClosed.mem_of_sameLetter {set : CodeSet} (hs : set.CaseClosed) {a b : Char}
    (ha : a.val ∈ set) (hb : b = a ∨ b = otherCase a) : b.val ∈ set := by
  rcases hb with rfl | rfl
  · exact ha
  · rw [val_otherCase]
    exact hs a.val ha

theorem isValidChar_swapCase {v : UInt32} (hv : v.toNat.isValidChar) :
    (swapCase v).toNat.isValidChar := by
  have h := (otherCase ⟨v, hv⟩).valid
  rwa [val_otherCase] at h

/-- Whether a class is negated or not, and whatever classes it has inside, it selects both cases of
a letter or none. -/
theorem Settings.caseClosed_expand {settings : Settings}
    (hcase : settings.flags.caseInsensitive = true) (hs : settings.alphabet.CaseClosed)
    (cls : CharClass) : (settings.expand cls).CaseClosed := by
  intro v hv
  obtain ⟨⟨halphabet, hvalid⟩, hmember⟩ := mem_expand.1 hv
  rw [hcase] at hmember
  refine mem_expand.2 ⟨⟨hs v halphabet, isValidChar_swapCase hvalid⟩, ?_⟩
  rw [hcase]
  exact CharClass.selects_swapCase.2 hmember

/-! ## Rewriting answers -/

namespace Plan

/-- The answers to the plan are read as decisions; and for every text with the same letters there
are decisions alike that lead to it, from any captures. -/
def Respells (x : Plan (List Char)) (y : LogReader (List Decision)) : Prop :=
  ∀ ⦃c vs w c₁⦄, x.Ends c vs w c₁ → ∃ ds : List Decision, ds.map (·.value) = vs ∧ y.Takes vs ds ∧
    ∀ w', SameLetters w w' → ∀ c₂, ∃ ds' : List Decision, List.Forall₂ Decision.Alike ds ds' ∧
      y.Takes (ds'.map (·.value)) ds' ∧ ∃ c₃, x.Ends c₂ (ds'.map (·.value)) w' c₃

variable {x : Plan (List Char)} {y : LogReader (List Decision)} {xs : List (Plan (List Char))}
  {ys : List (LogReader (List Decision))}

theorem respells_nothing : Respells (pure []) (pure []) := by
  intro c vs w c₁ h
  obtain ⟨rfl, rfl, -⟩ := ends_pure_iff.1 h
  refine ⟨[], rfl, LogReader.takes_pure [], fun w' hw' c₂ => ?_⟩
  rw [hw'.nil_left]
  exact ⟨[], .nil, LogReader.takes_pure [], c₂, .done⟩

/-- A decision that settles one character, and can settle it to be each letter of its kind. -/
theorem respells_letter {hi : Nat} {f : Nat → Char} {kind : Nat → Decision}
    (hvalue : ∀ v, (kind v).value = v) (halike : ∀ j k, (kind j).Alike (kind k))
    (hf : ∀ v ≤ hi, ∀ b, b = f v ∨ b = otherCase (f v) → ∃ k ≤ hi, f k = b) :
    Respells (question 0 hi >>= fun k => pure [f k]) (.decision kind fun _ => pure []) := by
  intro c vs w c₁ h
  obtain ⟨v, rest, rfl, hv, h⟩ := ends_question_bind_iff.1 h
  obtain ⟨rfl, rfl, -⟩ := ends_pure_iff.1 h
  refine ⟨[kind v], by simp [hvalue], LogReader.takes_decision (LogReader.takes_pure []),
    fun w' hw' c₂ => ?_⟩
  obtain ⟨b, rfl, hb⟩ := hw'.singleton_left
  obtain ⟨k, hk, rfl⟩ := hf v hv.2 b hb
  refine ⟨[kind k], .cons (halike v k) .nil, ?_⟩
  rw [List.map_singleton, hvalue]
  exact ⟨LogReader.takes_decision (LogReader.takes_pure []), c₂,
    ends_question_bind (Nat.zero_le k) hk .done⟩

/-- A decision that stays as it is. -/
theorem respells_question {lo hi : Nat} {f : Nat → Plan (List Char)}
    {g : Nat → LogReader (List Decision)} {kind : Nat → Decision}
    (hvalue : ∀ v, (kind v).value = v) (h : ∀ v, lo ≤ v → v ≤ hi → Respells (f v) (g v)) :
    Respells (question lo hi >>= f) (.decision kind g) := by
  intro c vs w c₁ he
  obtain ⟨v, rest, rfl, hv, he⟩ := ends_question_bind_iff.1 he
  obtain ⟨ds, rfl, htakes, hrespell⟩ := h v hv.1 hv.2 he
  refine ⟨kind v :: ds, by rw [List.map_cons, hvalue], LogReader.takes_decision htakes,
    fun w' hw' c₂ => ?_⟩
  obtain ⟨ds', halike, htakes', c₃, he'⟩ := hrespell w' hw' c₂
  refine ⟨kind v :: ds', .cons (.same _) halike, ?_⟩
  rw [List.map_cons, hvalue]
  exact ⟨LogReader.takes_decision htakes', c₃, ends_question_bind hv.1 hv.2 he'⟩

theorem respells_literal (ch : Char) : Respells (literal true ch) (.literal true ch) := by
  unfold literal LogReader.literal
  dsimp only
  rw [if_pos rfl]
  by_cases ho : otherCase ch = ch
  · -- what is no letter leaves no choice
    rw [if_pos ho, if_pos ho]
    intro c vs w c₁ h
    obtain ⟨rfl, rfl, -⟩ := ends_pure_iff.1 h
    refine ⟨[], rfl, LogReader.takes_pure [], fun w' hw' c₂ => ?_⟩
    obtain ⟨b, rfl, hb⟩ := hw'.singleton_left
    rw [ho, or_self] at hb
    exact ⟨[], .nil, LogReader.takes_pure [], c₂, hb ▸ .done⟩
  · rw [if_neg ho, if_neg ho]
    refine respells_letter (fun _ => rfl) .letterCase fun v _ b hb => ?_
    have hletter : b = ch ∨ b = otherCase ch := by
      split at hb
      · rwa [otherCase_otherCase, or_comm] at hb
      · exact hb
    rcases hletter with rfl | rfl
    · exact ⟨0, Nat.zero_le 1, rfl⟩
    · exact ⟨1, Nat.le_refl 1, rfl⟩

theorem respells_member {set : CodeSet} (hclosed : set.CaseClosed)
    (hvalid : ∀ v ∈ set, v.toNat.isValidChar) : Respells (member set) (.member set) := by
  unfold member LogReader.member
  by_cases he : set.isEmpty = true
  · rw [if_pos he, if_pos he]
    exact respells_nothing
  · have hpos := CodeSet.size_pos he
    rw [if_neg he, if_neg he]
    refine respells_letter (fun _ => rfl) .member fun v hv b hb => ?_
    have hmem := Chooser.characterAt_mem hvalid (show v < set.size by omega)
    obtain ⟨k, hk⟩ := CodeSet.exists_rank (hclosed.mem_of_sameLetter hmem hb)
    obtain ⟨hlt, hch⟩ := Chooser.characterAt_of_rank hk
    exact ⟨k, by omega, hch⟩

theorem respells_sequence (h : List.Forall₂ Respells xs ys) :
    Respells (sequence xs) (.sequence ys) := by
  induction h with
  | nil => exact respells_nothing
  | cons hx _ ih =>
    intro c vs w c₁ he
    obtain ⟨_, _, first, others, _, rfl, rfl, h₁, h₂⟩ := ends_sequence_cons_iff.1 he
    obtain ⟨ds₁, rfl, htakes₁, hrespell₁⟩ := hx h₁
    obtain ⟨ds₂, rfl, htakes₂, hrespell₂⟩ := ih h₂
    refine ⟨ds₁ ++ ds₂, List.map_append, LogReader.takes_sequence_cons htakes₁ htakes₂,
      fun w' hw' c₂ => ?_⟩
    obtain ⟨first', others', rfl, hfirst, hothers⟩ := hw'.append_left
    -- the second part goes on from the captures that the rewritten first part leaves
    obtain ⟨ds₁', halike₁, htakes₁', c₃, he₁⟩ := hrespell₁ first' hfirst c₂
    obtain ⟨ds₂', halike₂, htakes₂', c₄, he₂⟩ := hrespell₂ others' hothers c₃
    refine ⟨ds₁' ++ ds₂', List.rel_append halike₁ halike₂, ?_⟩
    rw [List.map_append]
    exact ⟨LogReader.takes_sequence_cons htakes₁' htakes₂', c₄,
      ends_sequence_cons_iff.2 ⟨_, _, first', others', c₃, rfl, rfl, he₁, he₂⟩⟩

theorem respells_alternation (hne : ys ≠ []) (h : List.Forall₂ Respells xs ys) :
    Respells (alternation xs) (.alternation ys) := by
  have hlen := h.length_eq
  have hpos := List.length_pos_iff.2 hne
  refine respells_question (fun _ => rfl) fun k _ hk => ?_
  have hx : k < xs.length := by omega
  have hy : k < ys.length := by omega
  rw [List.getD_eq_getElem _ _ hx, List.getD_eq_getElem _ _ hy]
  exact (List.forall₂_iff_get.1 h).2 k hx hy

theorem respells_capturing (h : Respells x y) (group : Option Nat) :
    Respells (capturing group x) y := by
  intro c vs w c₁ he
  obtain ⟨_, he, -⟩ := ends_capturing_iff.1 he
  obtain ⟨ds, hds, htakes, hrespell⟩ := h he
  refine ⟨ds, hds, htakes, fun w' hw' c₂ => ?_⟩
  obtain ⟨ds', halike, htakes', c₃, he'⟩ := hrespell w' hw' c₂
  exact ⟨ds', halike, htakes', _, ends_capturing_iff.2 ⟨c₃, he', rfl⟩⟩

/-- The counts stay, and with them the number of times that the token is repeated. -/
theorem respells_repetition (h : Respells x y) (min max : Nat) :
    Respells (repetition x min max) (.repetition y min) := by
  refine respells_question (fun _ => rfl) fun sampled _ _ => ?_
  refine respells_question (fun _ => rfl) fun realized _ _ => ?_
  apply respells_sequence
  rw [List.forall₂_iff_get]
  simp [h]

end Plan

/-! ## Token trees -/

theorem Atom.respells {settings : Settings} (hcase : settings.flags.caseInsensitive = true)
    (hs : settings.alphabet.CaseClosed) {a : Atom} (ha : ∀ n, a ≠ .reference n) :
    Plan.Respells (a.plan settings) (a.decisions settings) := by
  cases a with
  | literal c =>
    rw [plan, decisions, hcase]
    exact Plan.respells_literal c
  | position anchor => exact Plan.respells_nothing
  | charClass cls =>
    exact Plan.respells_member (Settings.caseClosed_expand hcase hs cls)
      fun _ => Settings.isValidChar_of_mem_expand
  | reference n => exact absurd rfl (ha n)

theorem Plan.respells_interpretation (settings : Settings) :
    Interpretation.RelatesInside Plan.Respells (Plan.interpretation settings)
      (LogReader.interpretation settings) where
  looking := respells_nothing
  sequence := respells_sequence
  alternation := respells_alternation
  capturing group h := respells_capturing h group
  repetition _ h := respells_repetition h _ _

/-- No group is referred to, outside of groups that only look around. -/
def Token.ReferenceFree (token : Token) : Prop := ∀ n, ¬ token.HasAtom (.reference n)

theorem Token.respells {settings : Settings} (hcase : settings.flags.caseInsensitive = true)
    (hs : settings.alphabet.CaseClosed) {token : Token} (h : token.Regular)
    (hfree : token.ReferenceFree) :
    Plan.Respells (token.plan settings) (token.interpret (LogReader.interpretation settings)) := by
  refine (Plan.respells_interpretation settings).interpret h fun a ha => ?_
  exact Atom.respells hcase hs fun n hn => hfree n (hn ▸ ha)

/-! ## Replays -/

namespace Engine

/-- The two logs, up to the numbers `rest` that are left of both, make the same decisions, but for
members of classes and cases of literals. -/
structure AlikeLogs (engine : Engine) (log log' rest : List Nat) : Prop where
  length_eq : log'.length = log.length
  decisions : ∃ ds ds' : List Decision,
    engine.decisions log = some (ds, rest) ∧ log = ds.map (·.value) ++ rest ∧
    engine.decisions log' = some (ds', rest) ∧ log' = ds'.map (·.value) ++ rest ∧
    List.Forall₂ Decision.Alike ds ds'

/-- The printable characters have both cases of each letter. Over such an alphabet, and without
regard to case, let a log be replayed to a text of a pattern without references. For every text that
is the same up to the case of letters there is a log that is replayed to it. It is as long as the
first one and makes the same decisions, but for members of classes and cases of literals, and leaves
the same numbers unused. -/
theorem replay_other_case :
    CodeSet.printable.CaseClosed ∧
    ∀ {engine : Engine} {dialect : Dialect} {text : List Char},
      Pattern.parse dialect text = .ok engine.pattern → engine.pattern.root.ReferenceFree →
      engine.settings.flags.caseInsensitive = true → engine.settings.alphabet.CaseClosed →
      ∀ {log : List Nat} {g : Generation} {left : Chooser.Replay},
        engine.replay log = (.ok g, left) →
        ∀ w' : String, SameLetters g.output.toList w'.toList →
          ∃ log' g', engine.replay log' = (.ok g', left) ∧ g'.output = w' ∧
            engine.AlikeLogs log log' left.pending := by
  refine ⟨CodeSet.caseClosed_printable, ?_⟩
  intro engine dialect text hparse hfree hcase hs log g left hreplay w' hw'
  have hreg := Pattern.regular_of_parse hparse
  obtain ⟨vs, w, c, rfl, rfl, hused, he⟩ := ends_of_replay hreg hreplay
  obtain ⟨ds, rfl, htakes, hrespell⟩ := Token.respells hcase hs hreg hfree he
  rw [String.toList_ofList] at hw'
  obtain ⟨ds', halike, htakes', c', he'⟩ := hrespell w'.toList hw' {}
  have hlen := halike.length_eq
  have hreplay' := replay_of_ends hreg he' left.pending
  have hleft : (⟨left.pending, (ds'.map (·.value)).length⟩ : Chooser.Replay) = left := by
    rw [List.length_map, ← hlen, ← List.length_map (f := Decision.value), ← hused]
  rw [hleft] at hreplay'
  refine ⟨_, _, hreplay', String.ofList_toList, ?_, ds, ds', htakes _, rfl, htakes' _, rfl, halike⟩
  simp [hlen]

end Engine

namespace Pattern

/-- The pattern `(k|\D)+`, without regard to case. -/
def anyCaseChoice : Pattern :=
  let others := Shorthand.toClass .lenient ⟨.digit, true⟩
  let choice : Body := .alternation [[.atom (.literal 'k')], [.atom (.charClass others)]]
  let body : Body := .sequence [.repetition (.group { capture := some 1 } choice) 1 none]
  ⟨.group { role := .root } body, 1, { caseInsensitive := true }⟩

theorem parse_anyCaseChoice : parse .lenient "(?i)(k|\\D)+".toList = .ok anyCaseChoice := by
  have h : readPattern .lenient "(?i)(k|\\D)+".toList = .ok anyCaseChoice := by cbv
  rw [parse, h]
  rfl

theorem referenceFree_anyCaseChoice : anyCaseChoice.root.ReferenceFree := by
  intro n h
  cases h with
  | inside _ hbody ht h =>
    rw [List.mem_singleton.1 hbody, List.mem_singleton] at ht
    subst ht
    cases h with
    | repeated h =>
      cases h with
      | inside _ hts ht h =>
        simp only [Body.branches, List.mem_cons, List.not_mem_nil, or_false] at hts
        rcases hts with rfl | rfl
        · rw [List.mem_singleton.1 ht] at h
          cases h
        · rw [List.mem_singleton.1 ht] at h
          cases h

end Pattern

namespace Engine

/-- The engine of that pattern, over the printable characters. -/
def anyCaseChoice : Engine := ⟨.anyCaseChoice, { flags := { caseInsensitive := true } }⟩

/-- The literal changes its case, and the negated class gives another member. -/
theorem replay_other_case_choice :
    anyCaseChoice.pattern.root.ReferenceFree ∧ anyCaseChoice.settings.alphabet.CaseClosed ∧
    anyCaseChoice.replay [2, 2, 0, 0, 1, 48, 5] =
      (.ok ⟨"kZ", .ofList [2, 2, 0, 0, 1, 48], 0⟩, ⟨[5], 6⟩) ∧
    SameLetters "kZ".toList "Kz".toList ∧
    ∃ log' g', anyCaseChoice.replay log' = (.ok g', ⟨[5], 6⟩) ∧ g'.output = "Kz" ∧
      anyCaseChoice.AlikeLogs [2, 2, 0, 0, 1, 48, 5] log' [5] := by
  have hfree := Pattern.referenceFree_anyCaseChoice
  have hwalk : anyCaseChoice.walk .replay ⟨[2, 2, 0, 0, 1, 48, 5], 0⟩ [] =
      .ok ⟨['k', 'Z'], 0⟩ ⟨⟨[5], 6⟩, .ofList [2, 2, 0, 0, 1, 48], ⟨[(1, ['Z'])]⟩⟩ := by rfl
  have hrun : anyCaseChoice.replay [2, 2, 0, 0, 1, 48, 5] =
      (.ok ⟨"kZ", .ofList [2, 2, 0, 0, 1, 48], 0⟩, ⟨[5], 6⟩) := by
    rw [replay, hwalk]
    rfl
  have hletters : SameLetters "kZ".toList "Kz".toList :=
    .cons (.inr rfl) (.cons (.inr rfl) .nil)
  obtain ⟨hprintable, h⟩ := replay_other_case
  exact ⟨hfree, hprintable, hrun, hletters,
    h Pattern.parse_anyCaseChoice hfree rfl hprintable hrun "Kz" hletters⟩

/-- How the first of the two logs is read. -/
example : anyCaseChoice.decisions [2, 2, 0, 0, 1, 48, 5] =
    some ([.sampledCount 2, .realizedCount 2, .branch 0, .letterCase 0, .branch 1, .member 48],
      [5]) := by decide

end Engine

end PatternGen
