import PatternGen.Engine
import PatternGen.Proofs.Composition
import PatternGen.Proofs.Faults

/-!
# Flags in front of a text

A group of flags in front of a text sets the flags of the pattern and changes nothing else. The body
is read from the same text as without the group, and so is a fault, which holds the text from its
construct on and not a position; only in the error is it as many bytes later as the group takes.

Results:
* `Flags.foldl_insert`: the flags that some letters set.
* `Pattern.readPattern_flagged`: what a text denotes behind a group of flags.
* `Pattern.parse_flagged_ok`, `Pattern.parse_flagged_error`: the same for patterns and their errors.
* `Engine.parse_compile_flagged`: flags in front of a text are as good as flags given beside it.
-/

namespace PatternGen

/-! ## Letters of flags -/

namespace Flags

/-- The flags that some letters set. -/
def ofLetters (letters : List Char) : Flags := ⟨decide ('i' ∈ letters), decide ('m' ∈ letters)⟩

theorem insert_eq (flags : Flags) (c : Char) :
    flags.insert c = flags.union ⟨decide ('i' = c), decide ('m' = c)⟩ := by
  unfold insert
  split
  · simp [union]
  · simp [union]
  · next hi hm => simp [union, Ne.symm hi, Ne.symm hm]

theorem foldl_insert (letters : List Char) (flags : Flags) :
    letters.foldl insert flags = flags.union (ofLetters letters) := by
  induction letters generalizing flags with
  | nil => simp [ofLetters, union]
  | cons c letters ih =>
    rw [List.foldl_cons, ih, insert_eq]
    simp [ofLetters, union, Bool.or_assoc]

theorem foldl_insert_empty (letters : List Char) :
    letters.foldl insert {} = ofLetters letters := by
  rw [foldl_insert, empty_union]

theorem parse_letters {letters : List Char} (hletters : ∀ c ∈ letters, c ∈ ['i', 'm', 's', 'u']) :
    parse letters = .ok (ofLetters letters) := by
  have hknown : (letters.find? fun c => !isLetter c) = none := by
    rw [List.find?_eq_none]
    intro c hc
    have hc := hletters c hc
    simp only [List.mem_cons, List.not_mem_nil, or_false] at hc
    obtain rfl | rfl | rfl | rfl := hc <;> decide
  rw [parse, hknown, ← foldl_insert_empty]

end Flags

variable {dialect : Dialect} {letters text : List Char}

namespace Pattern

/-! ## Reading behind a group of flags -/

/-- A text with a group of flags in front. -/
def flagged (letters text : List Char) : List Char := '(' :: '?' :: (letters ++ ')' :: text)

theorem flagged_eq_append (letters text : List Char) :
    flagged letters text = flagged letters [] ++ text := by
  simp [flagged]

theorem isInlineLetter_of_mem {c : Char} (h : c ∈ ['i', 'm', 's', 'u']) :
    isInlineLetter c = true := by
  simp only [List.mem_cons, List.not_mem_nil, or_false] at h
  obtain rfl | rfl | rfl | rfl := h <;> rfl

theorem inlineGroup?_flagged (hne : letters ≠ []) (h : ∀ c ∈ letters, isInlineLetter c = true) :
    inlineGroup? (flagged letters text) = some (letters, text) := by
  have htake : (letters ++ ')' :: text).takeWhile isInlineLetter = letters := by
    rw [List.takeWhile_append_of_pos h, List.takeWhile_cons_of_neg (by decide), List.append_nil]
  have hdrop : (letters ++ ')' :: text).dropWhile isInlineLetter = ')' :: text := by
    rw [List.dropWhile_append_of_pos h, List.dropWhile_cons_of_neg (by decide)]
  obtain ⟨c, letters, rfl⟩ := List.exists_cons_of_ne_nil hne
  simp only [inlineGroup?, flagged, htake, hdrop]

theorem readInlineFlags_flagged (hne : letters ≠ [])
    (hletters : ∀ c ∈ letters, c ∈ ['i', 'm', 's', 'u']) :
    readInlineFlags (flagged letters text) = .ok (Flags.ofLetters letters, text) := by
  have hx : 'x' ∉ letters := fun hx => absurd (hletters 'x' hx) (by decide)
  unfold readInlineFlags
  rw [inlineGroup?_flagged hne fun c hc => isInlineLetter_of_mem (hletters c hc)]
  dsimp only
  rw [if_neg hx, Flags.foldl_insert_empty]

theorem readPattern_flagged (hne : letters ≠ [])
    (hletters : ∀ c ∈ letters, c ∈ ['i', 'm', 's', 'u']) (h : ¬ BeginsWithFlags text) :
    readPattern dialect (flagged letters text) =
      (readPattern dialect text).map
        fun pattern => { pattern with inlineFlags := Flags.ofLetters letters } := by
  unfold readPattern
  rw [readInlineFlags_flagged hne hletters, readInlineFlags_eq h]
  dsimp only
  cases readBody dialect text <;> rfl

/-! ## Errors behind a group of flags -/

theorem byteSize_letters (h : ∀ c ∈ letters, c ∈ ['i', 'm', 's', 'u']) :
    byteSize letters = letters.length := by
  induction letters with
  | nil => rfl
  | cons c letters ih =>
    obtain ⟨hc, hmore⟩ := List.forall_mem_cons.1 h
    have hsize : c.utf8Size = 1 := by
      simp only [List.mem_cons, List.not_mem_nil, or_false] at hc
      obtain rfl | rfl | rfl | rfl := hc <;> rfl
    rw [byteSize, ih hmore, hsize, List.length_cons, Nat.add_comm]

theorem byteSize_flagged (h : ∀ c ∈ letters, c ∈ ['i', 'm', 's', 'u']) :
    byteSize (flagged letters []) = letters.length + 3 := by
  have hsigns : byteSize ['(', '?'] = 2 ∧ byteSize [')'] = 1 := by decide
  show byteSize (['(', '?'] ++ (letters ++ [')'])) = _
  rw [byteSize_append, byteSize_append, byteSize_letters h, hsigns.1, hsigns.2]
  omega

theorem inlineFlags_of_parse {pattern : Pattern} (h : ¬ BeginsWithFlags text)
    (hp : parse dialect text = .ok pattern) : pattern.inlineFlags = {} := by
  obtain ⟨body, hpattern, -⟩ := (parse_eq_ok_iff h).1 hp
  rw [hpattern]
  rfl

theorem parse_flagged_ok {pattern : Pattern} (hne : letters ≠ [])
    (hletters : ∀ c ∈ letters, c ∈ ['i', 'm', 's', 'u']) (h : ¬ BeginsWithFlags text)
    (hp : parse dialect text = .ok pattern) :
    parse dialect (flagged letters text) =
      .ok { pattern with inlineFlags := Flags.ofLetters letters } := by
  rw [parse, readPattern_flagged hne hletters h, readPattern_of_parse hp]
  rfl

/-- The error is that of a cause, at a place of the text that does not depend on the group. -/
theorem parse_flagged_error {e : Error} (hne : letters ≠ [])
    (hletters : ∀ c ∈ letters, c ∈ ['i', 'm', 's', 'u']) (h : ¬ BeginsWithFlags text)
    (he : parse dialect text = .error e) :
    ∃ offset, ∃ cause : Cause, e = cause.errorAt offset ∧
      parse dialect (flagged letters text) =
        .error (cause.errorAt (offset + letters.length + 3)) := by
  obtain ⟨fault, hr, rfl⟩ := exists_fault_of_parse he
  obtain ⟨⟨before, rfl⟩, -⟩ := liesIn_readPattern hr
  refine ⟨byteSize before, fault.cause, Fault.error_append _ before _, ?_⟩
  rw [parse, readPattern_flagged hne hletters h, hr]
  show Except.error (fault.error (flagged letters (before ++ fault.here))) = _
  rw [flagged_eq_append, ← List.append_assoc, Fault.error_append fault.cause, byteSize_append,
    byteSize_flagged hletters]
  congr 2
  omega

end Pattern

/-! ## Flags in front of a text and beside it -/

namespace Engine

open Pattern

/-- A group of flags in front of a text sets those flags in the pattern and leaves its root and the
number of its groups alone; compiled, the engine is that of the text with the flags beside it. A
text that is not accepted is refused for the same cause behind the group, at an offset which is
larger by the bytes of the group. -/
theorem parse_compile_flagged (hne : letters ≠ [])
    (hletters : ∀ c ∈ letters, c ∈ ['i', 'm', 's', 'u']) (htext : ¬ BeginsWithFlags text) :
    (∀ pattern, parse dialect text = .ok pattern →
      parse dialect (flagged letters text) =
        .ok { pattern with inlineFlags := Flags.ofLetters letters } ∧
      compile dialect (String.ofList (flagged letters text)) "" =
        .ok ⟨{ pattern with inlineFlags := Flags.ofLetters letters },
          { flags := Flags.ofLetters letters }⟩ ∧
      compile dialect (String.ofList text) (String.ofList letters) =
        .ok ⟨pattern, { flags := Flags.ofLetters letters }⟩) ∧
    ∀ e, parse dialect text = .error e → ∃ offset, ∃ cause : Cause, e = cause.errorAt offset ∧
      parse dialect (flagged letters text) =
        .error (cause.errorAt (offset + letters.length + 3)) ∧
      compile dialect (String.ofList (flagged letters text)) "" =
        .error (cause.errorAt (offset + letters.length + 3)) ∧
      compile dialect (String.ofList text) (String.ofList letters) =
        .error (cause.errorAt offset) := by
  have hnone : Flags.parse "".toList = .ok {} := rfl
  have hbeside : Flags.parse (String.ofList letters).toList = .ok (Flags.ofLetters letters) := by
    rw [String.toList_ofList, Flags.parse_letters hletters]
  constructor
  · intro pattern hp
    have hflagged := parse_flagged_ok hne hletters htext hp
    have hfront : parse dialect (String.ofList (flagged letters text)).toList =
        .ok { pattern with inlineFlags := Flags.ofLetters letters } := by
      rw [String.toList_ofList, hflagged]
    have hplain : parse dialect (String.ofList text).toList = .ok pattern := by
      rw [String.toList_ofList, hp]
    have hfrontEngine := compile_eq_ok hnone hfront
    have hplainEngine := compile_eq_ok hbeside hplain
    rw [Flags.empty_union] at hfrontEngine
    rw [inlineFlags_of_parse htext hp, Flags.union_empty] at hplainEngine
    exact ⟨hflagged, hfrontEngine, hplainEngine⟩
  · intro e he
    obtain ⟨offset, cause, rfl, hflagged⟩ := parse_flagged_error hne hletters htext he
    exact ⟨offset, cause, rfl, hflagged,
      compile_eq_error hnone (by rw [String.toList_ofList, hflagged]),
      compile_eq_error hbeside (by rw [String.toList_ofList, he])⟩

/-- A text with a group, and one that is refused behind a character of two bytes. -/
theorem parse_compile_flagged_doubled :
    ¬ BeginsWithFlags "(a)\\1".toList ∧ parse .lenient "(a)\\1".toList = .ok (doubled 'a') ∧
      compile .lenient "(?sim)(a)\\1" "" =
        .ok ⟨{ doubled 'a' with inlineFlags := ⟨true, true⟩ }, { flags := ⟨true, true⟩ }⟩ ∧
      compile .lenient "(a)\\1" "sim" = .ok ⟨doubled 'a', { flags := ⟨true, true⟩ }⟩ ∧
      ¬ BeginsWithFlags "é)".toList ∧
      parse .lenient "é)".toList = .error (.invalidPattern 2 .unmatchedClose) ∧
      parse .lenient "(?sim)é)".toList = .error (.invalidPattern 8 .unmatchedClose) := by
  have hne : ['s', 'i', 'm'] ≠ [] := List.cons_ne_nil _ _
  have hletters : ∀ c ∈ ['s', 'i', 'm'], c ∈ ['i', 'm', 's', 'u'] := by simp
  have hgroup : ¬ BeginsWithFlags "(a)\\1".toList := not_beginsWithFlags_capturing (by decide)
  have hclose : ¬ BeginsWithFlags "é)".toList := not_beginsWithFlags_of_head? (by decide)
  have hread : readPattern .lenient "é)".toList = invalid .unmatchedClose [')'] := by cbv
  have hrefused : parse .lenient "é)".toList = .error (.invalidPattern 2 .unmatchedClose) := by
    rw [parse, hread]
    rfl
  obtain ⟨-, hfront, hbeside⟩ :=
    (parse_compile_flagged hne hletters hgroup).1 _ parse_doubled.1
  obtain ⟨offset, cause, he, hflagged, -⟩ :=
    (parse_compile_flagged hne hletters hclose).2 _ hrefused
  refine ⟨hgroup, parse_doubled.1, hfront, hbeside, hclose, hrefused, ?_⟩
  cases cause with
  | invalid reason =>
    cases he
    exact hflagged
  | unsupported construct => cases he

end Engine

end PatternGen
