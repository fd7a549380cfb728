import PatternGen.Proofs.WordChoice

/-!
# Words in any spellings

A text that spells a word, each of its characters in some way of its own, is a pattern that denotes
the word and nothing else. Where case is regarded there is nothing to decide in it: every walk
produces the word, draws nothing and writes nothing down, whether it is free, steered along any
target, or the replay of any log.

Results:
* `Pattern.parse_spellings`: what such a text denotes.
* `Token.step_ofWord`: what every walk through it does.
* `Engine.parse_generate_spellings`: its engine generates the word, whatever it is asked.
-/

namespace PatternGen

namespace Pattern

/-- The pattern that is a word. -/
def ofWord (word : List Char) : Pattern := unflagged (.sequence (wordTokens word)) 0

variable {dialect : Dialect} {word : List Char} {parts : List (List Char)}

theorem not_beginsWithFlags_spellings (h : List.Forall₂ (Spelling dialect) word parts) :
    ¬ BeginsWithFlags parts.flatten := by
  refine not_beginsWithFlags_of_head? ?_
  cases h with
  | nil =>
    intro heq
    cases heq
  | cons hc _ => exact hc.head?_ne _

theorem parse_spellings (h : List.Forall₂ (Spelling dialect) word parts) :
    parse dialect parts.flatten = .ok (ofWord word) := by
  have hspells : Lexeme.Spells dialect parts.flatten (Token.lexemesAll (wordTokens word)) := by
    rw [lexemes_word]
    exact Lexeme.spells_spellings h
  have hwell : (Body.sequence (wordTokens word)).WellFormed dialect := by
    refine ⟨nofun, fun tokens htokens token htoken => ?_⟩
    rw [List.mem_singleton.1 htokens] at htoken
    exact wellFormed_of_mem_word htoken
  exact parse_unflagged (not_beginsWithFlags_spellings h)
    (readBody_eq_ok_iff.2 ⟨hspells, hwell, captures_word word⟩)

end Pattern

variable {settings : Settings}

theorem Token.step_ofWord {σ : Type} (h : settings.flags.caseInsensitive = false)
    (chooser : Chooser σ) (word target : List Char) :
    (Pattern.ofWord word).root.step chooser settings target =
      pure ⟨word, reach word target⟩ := by
  show Step.capturing none (Step.word chooser settings word) target = _
  rw [Step.capturing_none, Step.word_eq h]

namespace Engine

theorem generate_ofWord {σ : Type} (h : settings.flags.caseInsensitive = false) (word : List Char)
    (sampler : Sampler σ) (target : Option String) (source : σ) :
    (Engine.mk (.ofWord word) settings).generate sampler target source =
      (.ok ⟨String.ofList word, {}, reach word (target.getD "").toList⟩, source) := by
  cases target <;>
  · rw [generate, walk, Token.step_ofWord h]
    rfl

theorem replay_ofWord (h : settings.flags.caseInsensitive = false) (word : List Char)
    (log : List Nat) : (Engine.mk (.ofWord word) settings).replay log =
      (.ok ⟨String.ofList word, {}, 0⟩, ⟨log, 0⟩) := by
  have hreach : reach word [] = 0 := Nat.le_zero.1 (reach_le word [])
  rw [replay, walk, Token.step_ofWord h, hreach]
  rfl

/-- A text that spells each character of a word in any way denotes the sequence of its literals, and
has neither groups nor flags. Whatever the settings, as long as they regard case, the engine
generates the word without a decision: freely, along every target and from every source, and as the
replay of every log. -/
theorem parse_generate_spellings {dialect : Dialect} {word : List Char}
    {parts : List (List Char)} (h : List.Forall₂ (Pattern.Spelling dialect) word parts) :
    Pattern.parse dialect parts.flatten =
        .ok (Pattern.unflagged (.sequence (Pattern.wordTokens word)) 0) ∧
      (∀ flagText flags, Flags.parse flagText.toList = .ok flags →
        compile dialect (String.ofList parts.flatten) flagText = .ok ⟨.ofWord word, { flags }⟩) ∧
      ∀ settings : Settings, settings.flags.caseInsensitive = false →
        (∀ {σ : Type} (sampler : Sampler σ) (target : Option String) (source : σ),
          (Engine.mk (.ofWord word) settings).generate sampler target source =
            (.ok ⟨String.ofList word, {}, reach word (target.getD "").toList⟩, source)) ∧
        ∀ log, (Engine.mk (.ofWord word) settings).replay log =
          (.ok ⟨String.ofList word, {}, 0⟩, ⟨log, 0⟩) := by
  have hparse := Pattern.parse_spellings h
  have hsource : Pattern.parse dialect (String.ofList parts.flatten).toList =
      .ok (.ofWord word) := by rw [String.toList_ofList, hparse]
  refine ⟨hparse, fun flagText flags hflags => ?_, fun settings hcase => ⟨?_, ?_⟩⟩
  · have hcompile := compile_eq_ok hflags hsource
    have hnone : (Pattern.ofWord word).inlineFlags = {} := rfl
    rwa [hnone, Flags.union_empty] at hcompile
  · exact generate_ofWord hcase word
  · exact replay_ofWord hcase word

/-- A digit behind two digits, a code point in braces with a zero in front, and a dash behind a
backslash. -/
theorem parse_generate_spellings_mixed :
    List.Forall₂ (Pattern.Spelling .strict) ['A', '1', '😀', '-']
        [['\\', 'x', '4', '1'], ['1'], ['\\', 'U', '{', '0', '1', 'f', '6', '0', '0', '}'],
          ['\\', '-']] ∧
      Pattern.parse .strict "\\x411\\U\x7b01f600\x7d\\-".toList =
        .ok (Pattern.unflagged (.sequence (Pattern.wordTokens ['A', '1', '😀', '-'])) 0) ∧
      compile .strict "\\x411\\U\x7b01f600\x7d\\-" "m" =
        .ok ⟨.ofWord ['A', '1', '😀', '-'], { flags := ⟨false, true⟩ }⟩ ∧
      (∀ (target : Option String) (source : List Nat),
        (Engine.mk (.ofWord ['A', '1', '😀', '-']) {}).generate .tape target source =
          (.ok ⟨"A1😀-", {}, reach ['A', '1', '😀', '-'] (target.getD "").toList⟩, source)) ∧
      ∀ log, (Engine.mk (.ofWord ['A', '1', '😀', '-']) {}).replay log =
        (.ok ⟨"A1😀-", {}, 0⟩, ⟨log, 0⟩) := by
  have hsmile : Pattern.Spelling .strict '😀' ('\\' :: 'U' :: '{' ::
      (['0', '1', 'f', '6', '0', '0'] ++ ['}'])) :=
    .braced (by decide) (List.cons_ne_nil _ _) ⟨List.all_eq_true.1 rfl, rfl⟩
  have hword : List.Forall₂ (Pattern.Spelling .strict) ['A', '1', '😀', '-']
      [['\\', 'x', '4', '1'], ['1'], ['\\', 'U', '{', '0', '1', 'f', '6', '0', '0', '}'],
        ['\\', '-']] :=
    .cons (.fixed (.two .strict) rfl ⟨List.all_eq_true.1 rfl, rfl⟩)
      (.cons (.raw (by decide)) (.cons hsmile
        (.cons (.escaped (by decide) fun _ => by decide) .nil)))
  obtain ⟨hparse, hcompile, hgenerate⟩ := parse_generate_spellings hword
  obtain ⟨hdraw, hreplay⟩ := hgenerate {} rfl
  exact ⟨hword, hparse, hcompile "m" ⟨false, true⟩ rfl, hdraw .tape, hreplay⟩

end Engine

end PatternGen
