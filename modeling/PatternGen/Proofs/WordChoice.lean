import PatternGen.Proofs.Composition
import PatternGen.Proofs.Lexemes.Spelling
import PatternGen.Proofs.Steering
import PatternGen.Proofs.Trials

/-!
# A choice among words

A pattern that is a list of words, with bars between them in one pair of brackets, steered toward
one of the words. All words are tried along that word, and each accounts for it up to the last
letter of its own that was found there. Searching for a letter skips others, and a letter that is
not found costs nothing: the search is greedy, and no alignment of the word with the target. So
other words than the target may account for all of it, and among those that do the first one in the
list is taken.

Results:
* `Pattern.parse_words`: what the text of such a pattern denotes.
* `Step.word_eq`: what a word accounts for.
* `Engine.steered_word_choice`: which word is generated, and when it is the target.
-/

namespace PatternGen

/-! ## Reading words -/

namespace Pattern

variable {dialect : Dialect}

/-- A character as it is written in a pattern: after a backslash if it has a meaning there. -/
def quote (c : Char) : List Char := if c ∈ Lexeme.signs then ['\\', c] else [c]

/-- Words with bars between them, in brackets. -/
def wordsText (words : List (List Char)) : List Char :=
  '(' :: (['|'].intercalate (words.map (·.flatMap quote)) ++ [')'])

/-- A word as a sequence of literals. -/
def wordTokens (word : List Char) : List Token := word.map fun c => .atom (.literal c)

/-- A choice among words. -/
def wordsBody (words : List (List Char)) : Body := .alternation (words.map wordTokens)

theorem spelling_quote (dialect : Dialect) (c : Char) : Spelling dialect c (quote c) := by
  have hsigns : ∀ d ∈ Lexeme.signs, d.isAlphanum = false ∧ d ≠ '<' ∧ d ≠ '>' := by
    simp [Lexeme.signs]
  unfold quote
  split
  · next hc => exact .escaped (hsigns c hc).1 fun _ => (hsigns c hc).2
  · next hc => exact .raw hc

theorem lexemes_word (word : List Char) :
    Token.lexemesAll (wordTokens word) = word.map fun c => .atom (.literal c) := by
  rw [Token.lexemesAll_eq, wordTokens, List.flatMap_map]
  exact List.map_eq_flatMap.symm

theorem spells_word (word : List Char) :
    Lexeme.Spells dialect (word.flatMap quote) (Token.lexemesAll (wordTokens word)) := by
  have hquotes : List.Forall₂ (Spelling dialect) word (word.map quote) :=
    List.forall₂_map_right_iff.2 (List.forall₂_same.2 fun c _ => spelling_quote dialect c)
  rw [lexemes_word, List.flatMap_def]
  exact Lexeme.spells_spellings hquotes

theorem spells_words (words : List (List Char)) :
    Lexeme.Spells dialect (['|'].intercalate (words.map (·.flatMap quote)))
      (Token.branchLexemes (words.map wordTokens)) := by
  induction words with
  | nil => exact .nil
  | cons word words ih =>
    cases words with
    | nil =>
      rw [List.map_singleton, List.intercalate_singleton]
      exact spells_word word
    | cons next words =>
      rw [List.map_cons, List.map_cons, List.intercalate_cons_cons, List.append_assoc]
      exact (spells_word word).append (endsPart_bar _) (.cons rfl ih)

theorem wellFormed_of_mem_word {word : List Char} {token : Token} (h : token ∈ wordTokens word) :
    token.WellFormed dialect := by
  obtain ⟨c, -, rfl⟩ := List.mem_map.1 h
  exact .atom trivial

theorem wellFormed_words {words : List (List Char)} (h : 2 ≤ words.length) :
    (wordsBody words).WellFormed dialect where
  choice := by
    rintro _ ⟨⟩
    rwa [List.length_map]
  tokens := by
    intro tokens htokens token htoken
    obtain ⟨word, -, rfl⟩ := List.mem_map.1 htokens
    exact wellFormed_of_mem_word htoken

theorem captures_word (word : List Char) : Token.capturesAll (wordTokens word) = [] := by
  rw [Token.capturesAll_eq, wordTokens, List.flatMap_map]
  exact List.flatMap_eq_nil_iff.2 fun _ _ => rfl

theorem captures_words (words : List (List Char)) : (wordsBody words).captures = [] := by
  rw [wordsBody, Body.captures, Token.branchCaptures_eq, List.flatMap_map]
  exact List.flatMap_eq_nil_iff.2 fun word _ => captures_word word

theorem raise_words (k : Nat) (words : List (List Char)) :
    (wordsBody words).raise k = wordsBody words := by
  have hword : ∀ word, Token.raiseAll k (wordTokens word) = wordTokens word := by
    intro word
    rw [Token.raiseAll_eq, wordTokens, List.map_map]
    rfl
  rw [wordsBody, Body.raise, Token.raiseBranches_eq, List.map_map]
  exact congrArg Body.alternation (List.map_congr_left fun word _ => hword word)

/-- The pattern that is a choice among words. -/
def ofWords (words : List (List Char)) : Pattern :=
  unflagged (.sequence [.group { capture := some 1 } (wordsBody words)]) 1

theorem parse_words {words : List (List Char)} (h : 2 ≤ words.length) :
    parse dialect (wordsText words) = .ok (ofWords words) := by
  have hbody : readBody dialect (['|'].intercalate (words.map (·.flatMap quote))) =
      .ok (wordsBody words, 0) :=
    readBody_eq_ok_iff.2 ⟨spells_words words, wellFormed_words h, captures_words words⟩
  have hread := readBody_capturing hbody
  rw [raise_words] at hread
  exact parse_unflagged (not_beginsWithFlags_capturing (head?_closing hbody)) hread

end Pattern

/-! ## Words along a target -/

/-- How much of the target a word accounts for: each of its letters is taken to its next occurrence
in what is left of the target, and does nothing if there is none. -/
def reach : (word target : List Char) → Nat
  | [], _ => 0
  | c :: word, target =>
    if c ∈ target then target.idxOf c + 1 + reach word (target.drop (target.idxOf c + 1))
    else reach word target

theorem reach_le (word target : List Char) : reach word target ≤ target.length := by
  induction word generalizing target with
  | nil => exact Nat.zero_le _
  | cons c word ih =>
    rw [reach]
    split
    · next hc =>
      have hlt := List.idxOf_lt_length_iff.2 hc
      have hrest := ih (target.drop (target.idxOf c + 1))
      rw [List.length_drop] at hrest
      omega
    · exact ih target

/-- A word accounts for all of itself. -/
theorem reach_self (word : List Char) : reach word word = word.length := by
  induction word with
  | nil => rfl
  | cons c word ih =>
    rw [reach, if_pos List.mem_cons_self, List.idxOf_cons_self, Nat.zero_add, List.drop_one,
      List.tail_cons, ih, List.length_cons, Nat.add_comm]

variable {σ : Type}

namespace Step

theorem seek_exact (c : Char) (target : List Char) :
    seek (fits false c) target = if c ∈ target then some (target.idxOf c, c) else none := by
  induction target with
  | nil => rfl
  | cons d target ih =>
    have hfits : fits false c d = true ↔ d = c := by simp [fits, variant]
    by_cases hd : d = c
    · rw [seek, if_pos (hfits.2 hd), hd, if_pos List.mem_cons_self, List.idxOf_cons_self]
    · rw [seek, if_neg (mt hfits.1 hd), ih, List.idxOf_cons_ne _ hd]
      have hmem : c ∈ d :: target ↔ c ∈ target := by simp [Ne.symm hd]
      simp only [hmem]
      split <;> rfl

/-- A literal with regard to case makes no decision. -/
theorem literal_exact (chooser : Chooser σ) (c : Char) (target : List Char) :
    literal chooser false c target =
      pure ⟨[c], if c ∈ target then target.idxOf c + 1 else 0⟩ := by
  have hv : variant false c = c := rfl
  rw [literal_eq, seek_exact, if_pos hv, hv]
  split <;> rfl

/-- Takes the letters of a word one after the other. -/
def word (chooser : Chooser σ) (settings : Settings) (letters : List Char) : Step σ :=
  sequence (Token.steps chooser settings (Pattern.wordTokens letters))

theorem word_cons (chooser : Chooser σ) (settings : Settings) (c : Char)
    (letters target : List Char) : word chooser settings (c :: letters) target = (do
      let first ← literal chooser settings.flags.caseInsensitive c target
      let others ← word chooser settings letters (target.drop first.consumed)
      pure (first.append others)) :=
  rfl

/-- A word with regard to case makes no decision. -/
theorem word_eq {settings : Settings} (h : settings.flags.caseInsensitive = false)
    (chooser : Chooser σ) (letters target : List Char) :
    word chooser settings letters target = pure ⟨letters, reach letters target⟩ := by
  induction letters generalizing target with
  | nil => rfl
  | cons c letters ih =>
    rw [word_cons, h, literal_exact, pure_bind, ih, pure_bind, reach]
    split
    · rfl
    · rw [List.drop_zero, Produced.append, Nat.zero_add]
      rfl

/-! ## Branches that make no decision -/

variable {α : Type} {f : α → Step σ} {p : α → Produced} {target : List Char} {xs : List α}

theorem attempts_of_pure (h : ∀ x ∈ xs, f x target = pure (p x)) (s : Walk.State σ) :
    attempts (xs.map f) target s = .ok (xs.map fun x => ⟨p x, ⟨[], s.captures⟩⟩) s := by
  induction xs with
  | nil => rfl
  | cons x xs ih =>
    rw [List.forall_mem_cons] at h
    have hlog : s.log = s.log.append [] := s.log.append_nil.symm
    have hstep : f x target s = .ok (p x) s := by
      rw [h.1]
      rfl
    have hattempt : attempt (f x) target s = .ok ⟨p x, ⟨[], s.captures⟩⟩ s := attempt_ok hstep hlog
    rw [List.map_cons, attempts, Walk.bind_ok hattempt, Walk.bind_ok (ih h.2)]
    rfl

theorem bestBranch_of_pure {sampler : Sampler σ} {k : Nat} {x : α}
    (h : ∀ x ∈ xs, f x target = pure (p x))
    (hk : Chooser.bestScore? (xs.map fun x => (p x).consumed) = some k) (hx : xs[k]? = some x)
    (s : Walk.State σ) : bestBranch (.steer sampler) (xs.map f) target s =
      .ok (p x) { s with log := s.log.push k } := by
  have hscores : (xs.map fun x => (⟨p x, ⟨[], s.captures⟩⟩ : Trial)).map (·.produced.consumed) =
      xs.map fun x => (p x).consumed := by
    rw [List.map_map]
    rfl
  have hbranch : (Chooser.steer sampler).branch (xs.map fun x => (p x).consumed) s =
      .ok k { s with log := s.log.push k } := by
    rw [Chooser.branch, Chooser.steer, if_pos rfl, hk]
    rfl
  have hpick : (pick (xs.map fun x => ⟨p x, ⟨[], s.captures⟩⟩) k : Walk σ Trial) =
      pure ⟨p x, ⟨[], s.captures⟩⟩ := by
    rw [pick, List.getElem?_map, hx]
    rfl
  rw [bestBranch, Walk.bind_ok (attempts_of_pure h s), hscores, Walk.bind_ok hbranch, hpick,
    pure_bind]
  show EStateM.Result.ok (p x) { s with log := (s.log.push k).append [] } = _
  rw [DecisionLog.append_nil]

end Step

/-! ## The choice -/

section

variable {words : List (List Char)} {w : List Char}

/-- All words are tried along one of them. The first one that accounts for all of that is the best
branch. -/
theorem exists_best_word (hw : w ∈ words) (hne : w ≠ []) : ∃ j v,
    Chooser.bestScore? (words.map fun v => reach v w) = some j ∧ words[j]? = some v ∧
      reach v w = w.length ∧ ∀ u ∈ words.take j, reach u w ≠ w.length := by
  have hself : w.length ∈ words.map fun v => reach v w :=
    List.mem_map.2 ⟨w, hw, reach_self w⟩
  cases hb : Chooser.bestScore? (words.map fun v => reach v w) with
  | none =>
    have hzero := Chooser.eq_zero_of_bestScore? hb _ hself
    exact absurd (List.length_eq_zero_iff.1 hzero) hne
  | some j =>
    have hpicks : Chooser.Picks 0 _ j := Chooser.picks_of_bestScore? hb
    cases hpicks with
    | @best _ score hj _ hmax hfirst =>
      rw [List.getElem?_map] at hj
      obtain ⟨v, hv, rfl⟩ := Option.map_eq_some_iff.1 hj
      have hreach : reach v w = w.length := Nat.le_antisymm (reach_le v w) (hmax _ hself)
      refine ⟨j, v, rfl, hv, hreach, fun u hu => ?_⟩
      have hlt := hfirst (reach u w) (by rw [← List.map_take]; exact List.mem_map_of_mem hu)
      omega
    | drawn hzero => exact absurd (List.length_eq_zero_iff.1 (hzero _ hself)) hne

/-- The first word that accounts for all of `w` is `w` itself, unless one before `w` does too. -/
theorem best_word_eq_iff {j : Nat} {v : List Char} (hj : words[j]? = some v)
    (hv : reach v w = w.length) (hfirst : ∀ u ∈ words.take j, reach u w ≠ w.length) :
    v = w ↔ ∀ u ∈ words.takeWhile (· ≠ w), reach u w ≠ w.length := by
  obtain ⟨hlt, hget⟩ := List.getElem?_eq_some_iff.1 hj
  have hsplit : words = words.take j ++ v :: words.drop (j + 1) := by
    rw [← hget, List.getElem_cons_drop, List.take_append_drop]
  have hbefore : ∀ u ∈ words.take j, decide (u ≠ w) = true := by
    intro u hu
    rw [decide_eq_true_eq]
    rintro rfl
    exact hfirst u hu (reach_self u)
  rw [hsplit, List.takeWhile_append_of_pos hbefore]
  by_cases h : v = w
  · rw [h, List.takeWhile_cons_of_neg (by simp), List.append_nil]
    exact iff_of_true rfl hfirst
  · rw [List.takeWhile_cons_of_pos (by simpa using h)]
    exact iff_of_false h fun hall =>
      hall v (List.mem_append_right _ List.mem_cons_self) hv

end

namespace Engine

variable {dialect : Dialect} {words : List (List Char)} {w : List Char}

theorem compile_words (hlen : 2 ≤ words.length) :
    compile dialect (String.ofList (Pattern.wordsText words)) "" =
      .ok ⟨Pattern.ofWords words, {}⟩ := by
  have hflags : Flags.parse "".toList = .ok {} := rfl
  exact compile_eq_ok hflags (by rw [String.toList_ofList, Pattern.parse_words hlen])

theorem generate_words {j : Nat} {v : List Char} (hne : w ≠ [])
    (hbest : Chooser.bestScore? (words.map fun v => reach v w) = some j) (hj : words[j]? = some v)
    (sampler : Sampler σ) (source : σ) :
    (Engine.mk (Pattern.ofWords words) {}).generate sampler (some (String.ofList w)) source =
      (.ok ⟨String.ofList v, .ofList [j], reach v w⟩, source) := by
  have hsteps : Token.branchSteps (.steer sampler) {} (words.map Pattern.wordTokens) =
      words.map (Step.word (.steer sampler) {}) := by
    rw [Token.branchSteps_eq_map, List.map_map]
    rfl
  have hchoice : Step.alternation (.steer sampler)
      (Token.branchSteps (.steer sampler) {} (words.map Pattern.wordTokens)) w { source } =
        .ok ⟨v, reach v w⟩ { source, log := .ofList [j] } := by
    rw [hsteps, Step.alternation, if_pos (Step.follows_steer sampler hne)]
    exact Step.bestBranch_of_pure (fun u _ => Step.word_eq rfl _ u w) hbest hj _
  have hgroup : Step.capturing (some 1) (Step.alternation (.steer sampler)
      (Token.branchSteps (.steer sampler) {} (words.map Pattern.wordTokens))) w { source } =
        .ok ⟨v, reach v w⟩ ⟨source, .ofList [j], Captures.set {} 1 v⟩ := by
    rw [Step.capturing, Walk.bind_ok hchoice]
    rfl
  have hroot : (Pattern.ofWords words).root.step (.steer sampler) {} w { source } =
      .ok ⟨v ++ [], reach v w⟩ ⟨source, .ofList [j], Captures.set {} 1 v⟩ := by
    show Step.capturing none (Step.sequence [_]) w _ = _
    rw [Step.capturing_none]
    exact Walk.bind_ok hgroup
  rw [generate, walk, String.toList_ofList, hroot, List.append_nil]
  rfl

/-- The engine of two or more words, steered toward one of them, generates the first word that
accounts for all of that one, and draws nothing. That is the word itself unless one before it
accounts for all of it, too. -/
theorem steered_word_choice (hlen : 2 ≤ words.length) (hw : w ∈ words) (hne : w ≠ []) :
    ∃ engine, compile dialect (String.ofList (Pattern.wordsText words)) "" = .ok engine ∧
      ∃ j v, words[j]? = some v ∧ reach v w = w.length ∧
        (∀ u ∈ words.take j, reach u w ≠ w.length) ∧
        (v = w ↔ ∀ u ∈ words.takeWhile (· ≠ w), reach u w ≠ w.length) ∧
        ∀ {σ : Type} (sampler : Sampler σ) (source : σ),
          engine.generate sampler (some (String.ofList w)) source =
            (.ok ⟨String.ofList v, .ofList [j], w.length⟩, source) := by
  obtain ⟨j, v, hbest, hj, hv, hfirst⟩ := exists_best_word hw hne
  refine ⟨_, compile_words hlen, j, v, hj, hv, hfirst, best_word_eq_iff hj hv hfirst, ?_⟩
  intro σ sampler source
  rw [generate_words hne hbest hj, hv]

/-- The last of three words, which has a sign. -/
theorem steered_word_choice_starred :
    ∃ engine, compile .lenient "(b|ab|a\\*)" "" = .ok engine ∧
      ∃ j v, [['b'], ['a', 'b'], ['a', '*']][j]? = some v ∧ reach v ['a', '*'] = 2 ∧
        (∀ u ∈ [['b'], ['a', 'b'], ['a', '*']].take j, reach u ['a', '*'] ≠ 2) ∧
        (v = ['a', '*'] ↔ ∀ u ∈ [['b'], ['a', 'b'], ['a', '*']].takeWhile (· ≠ ['a', '*']),
          reach u ['a', '*'] ≠ 2) ∧
        ∀ {σ : Type} (sampler : Sampler σ) (source : σ),
          engine.generate sampler (some "a*") source =
            (.ok ⟨String.ofList v, .ofList [j], 2⟩, source) := by
  have htext : String.ofList (Pattern.wordsText [['b'], ['a', 'b'], ['a', '*']]) =
      "(b|ab|a\\*)" := by decide
  rw [← htext]
  exact steered_word_choice (by decide) (by decide) (by decide)

/-- Not every word is generated when it is the target: `(b|ab)` steered toward `ab` gives `b`. -/
theorem not_forall_word_generated :
    ¬ ∀ (words : List (List Char)) (w : List Char) (engine : Engine),
      2 ≤ words.length → (∀ v ∈ words, v ≠ []) → w ∈ words →
      compile .lenient (String.ofList (Pattern.wordsText words)) "" = .ok engine →
      ∀ (σ : Type) (sampler : Sampler σ) (source : σ), sampler.WithinBounds →
        ∃ g source', engine.generate sampler (some (String.ofList w)) source = (.ok g, source') ∧
          g.output = String.ofList w := by
  intro h
  obtain ⟨g, source', hg, hout⟩ := h [['b'], ['a', 'b']] ['a', 'b'] _ (by decide) (by decide)
    (by decide) (compile_words (by decide)) _ Sampler.tape [] Sampler.tape_withinBounds
  rw [generate_words (List.cons_ne_nil _ _) rfl rfl] at hg
  cases hg
  exact absurd hout (by decide)

end Engine

end PatternGen
