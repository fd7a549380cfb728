import PatternGen.Error
import PatternGen.Pattern.Assembly

/-!
# Reading patterns

A pattern text is a group of flags, which may be missing, and the body of the pattern.
-/

namespace PatternGen.Pattern

/-! ## Flags at the beginning -/

/-- The letters that a group of flags may hold. -/
def isInlineLetter (c : Char) : Bool := "imsux".toList.contains c

/-- The letters of the group of flags that a text begins with, and the text after the group. -/
def inlineGroup? : List Char → Option (List Char × List Char)
  | '(' :: '?' :: text =>
    match text.takeWhile isInlineLetter, text.dropWhile isInlineLetter with
    | c :: letters, ')' :: rest => some (c :: letters, rest)
    | _, _ => none
  | _ => none

theorem eq_of_inlineGroup? {text letters rest : List Char}
    (h : inlineGroup? text = some (letters, rest)) :
    letters ≠ [] ∧ (∀ c ∈ letters, isInlineLetter c = true) ∧
      text = '(' :: '?' :: (letters ++ ')' :: rest) := by
  unfold inlineGroup? at h
  split at h
  · next text =>
    split at h
    · next c letters rest htake hdrop =>
      cases h
      refine ⟨List.cons_ne_nil _ _, fun d hd => ?_, ?_⟩
      · rw [← htake] at hd
        exact List.all_eq_true.1 List.all_takeWhile d hd
      · rw [← htake, ← hdrop, List.takeWhile_append_dropWhile]
    · cases h
  · cases h

/-- Reads the group of flags that a text may begin with (`parse_inline_flags`). -/
def readInlineFlags (text : List Char) : Reading Flags :=
  match inlineGroup? text with
  | none => .ok ({}, text)
  | some (letters, rest) =>
    if 'x' ∈ letters then unsupported .verboseMode text
    else .ok (letters.foldl Flags.insert {}, rest)

theorem readInlineFlags_suffix {text rest : List Char} {flags : Flags}
    (h : readInlineFlags text = .ok (flags, rest)) : rest <:+ text := by
  unfold readInlineFlags at h
  split at h
  · cases h
    exact List.suffix_refl _
  · next letters rest hgroup =>
    split at h
    · cases h
    · cases h
      obtain ⟨-, -, rfl⟩ := eq_of_inlineGroup? hgroup
      exact ⟨'(' :: '?' :: (letters ++ [')']), by simp⟩

/-! ## Whole patterns -/

/-- The pattern that a text denotes, or the fault that `parse_with_syntax` makes an error of. -/
def readPattern (dialect : Dialect) (text : List Char) : Except Fault Pattern :=
  match readInlineFlags text with
  | .error fault => .error fault
  | .ok (flags, rest) =>
    match readBody dialect rest with
    | .error fault => .error fault
    | .ok (body, groupCount) =>
      .ok { root := .group { role := .root } body, groupCount, inlineFlags := flags }

/-- Number of bytes of a text in UTF-8. -/
def byteSize : List Char → Nat
  | [] => 0
  | c :: text => c.utf8Size + byteSize text

theorem byteSize_append (xs ys : List Char) : byteSize (xs ++ ys) = byteSize xs + byteSize ys := by
  induction xs with
  | nil => exact (Nat.zero_add _).symm
  | cons c xs ih => rw [List.cons_append, byteSize, byteSize, ih, Nat.add_assoc]

/-- The error of a cause at a byte offset. -/
def Cause.errorAt (offset : Nat) : Cause → Error
  | .invalid reason => .invalidPattern offset reason
  | .unsupported construct => .unsupportedSyntax offset construct

/-- The error of a fault in `text`, at the byte offset of the fault. -/
def Fault.error (fault : Fault) (text : List Char) : Error :=
  fault.cause.errorAt (byteSize text - byteSize fault.here)

/-- The byte offset of a fault is the size of the text before it. -/
theorem Fault.error_append (cause : Cause) (before here : List Char) :
    Fault.error ⟨cause, here⟩ (before ++ here) = cause.errorAt (byteSize before) := by
  rw [Fault.error, byteSize_append, Nat.add_sub_cancel]

/-- Reads a pattern text (`parse_with_syntax`; `parse_regex` if the dialect is lenient). -/
def parse (dialect : Dialect) (text : List Char) : Except Error Pattern :=
  (readPattern dialect text).mapError (·.error text)

end PatternGen.Pattern
