import PatternGen.Pattern.Lexeme

/-!
# Texts and their lexemes

A text spells a list of lexemes if it is read as these, one after the other, and nothing is left.
Where a lexeme takes a run of characters, what follows matters only up to the first one that does
not belong to the run.

Results:
* `Lexeme.takeWhile_append_of_head?`, `Lexeme.dropWhile_append_of_head?`: runs that end with a text.
* `Lexeme.spells_of_readAll`, `Lexeme.readAll_of_spells`: the texts whose lexemes are read without a
  fault.
-/

namespace PatternGen.Pattern.Lexeme

/-! ## Runs of characters -/

section

variable {rest : List Char} {p : Char → Bool}

theorem takeWhile_append_of_head? (h : ∀ c ∈ rest.head?, p c = false) (text : List Char) :
    (text ++ rest).takeWhile p = text.takeWhile p := by
  induction text with
  | nil =>
    cases rest with
    | nil => rfl
    | cons c rest => exact List.takeWhile_cons_of_neg (by rw [h c rfl]; decide)
  | cons c text ih => rw [List.cons_append, List.takeWhile_cons, List.takeWhile_cons, ih]

theorem dropWhile_append_of_head? (h : ∀ c ∈ rest.head?, p c = false) (text : List Char) :
    (text ++ rest).dropWhile p = text.dropWhile p ++ rest := by
  induction text with
  | nil =>
    cases rest with
    | nil => rfl
    | cons c rest => exact List.dropWhile_cons_of_neg (by rw [h c rfl]; decide)
  | cons c text ih =>
    rw [List.cons_append, List.dropWhile_cons, List.dropWhile_cons, ih]
    split <;> rfl

/-- Nothing is taken from behind the sign that ends a run. -/
theorem dropWhile_append_of_cons {text tail : List Char} {c : Char}
    (h : text.dropWhile p = c :: tail) : (text ++ rest).dropWhile p = c :: (tail ++ rest) := by
  rw [List.dropWhile_append, h]
  rfl

theorem takeWhile_append_of_cons {text tail : List Char} {c : Char}
    (h : text.dropWhile p = c :: tail) : (text ++ rest).takeWhile p = text.takeWhile p := by
  have hsplit := congrArg List.length (List.takeWhile_append_dropWhile (p := p) (l := text))
  rw [h, List.length_append, List.length_cons] at hsplit
  rw [List.takeWhile_append, if_neg (by omega)]

end

/-! ## Spelling -/

/-- The text is read as these lexemes, up to its end. -/
inductive Spells (dialect : Dialect) : List Char → List Lexeme → Prop
  | nil : Spells dialect [] []
  | cons {c : Char} {text rest : List Char} {l : Lexeme} {lexemes : List Lexeme} :
      read dialect c text = .ok (l, rest) → Spells dialect rest lexemes →
      Spells dialect (c :: text) (l :: lexemes)

variable {dialect : Dialect} {text : List Char}

/-- The text begins with a lexeme, and another text is left behind that. -/
def Begins (dialect : Dialect) (text : List Char) (l : Lexeme) (rest : List Char) : Prop :=
  ∃ c tail, text = c :: tail ∧ read dialect c tail = .ok (l, rest)

theorem Begins.spells {rest : List Char} {l : Lexeme} {lexemes : List Lexeme}
    (h : Begins dialect text l rest) (hr : Spells dialect rest lexemes) :
    Spells dialect text (l :: lexemes) := by
  obtain ⟨c, tail, rfl, hl⟩ := h
  exact .cons hl hr

/-- One more lexeme in front. -/
theorem readAll_cons {c : Char} {rest : List Char} {l : Lexeme}
    (h : read dialect c text = .ok (l, rest)) :
    readAll dialect (c :: text) =
      (⟨l, c :: text⟩ :: (readAll dialect rest).1, (readAll dialect rest).2) := by
  rw [readAll]
  split
  · next hr => rw [h] at hr; cases hr
  · next hr => rw [h] at hr; cases hr; rfl

/-- A fault in the first lexeme. -/
theorem readAll_cons_error {c : Char} {fault : Fault} (h : read dialect c text = .error fault) :
    readAll dialect (c :: text) = ([], some fault) := by
  rw [readAll]
  split
  · next hr => rw [h] at hr; cases hr; rfl
  · next hr => rw [h] at hr; cases hr

theorem spells_of_readAll {placed : List Placed} (h : readAll dialect text = (placed, none)) :
    Spells dialect text (placed.map (·.lexeme)) := by
  fun_induction readAll dialect text generalizing placed with
  | case1 =>
    cases h
    exact .nil
  | case2 => cases h
  | case3 c text l rest hr more fault hm ih =>
    cases h
    exact .cons hr (ih hm)

theorem readAll_of_spells {lexemes : List Lexeme} (h : Spells dialect text lexemes) :
    ∃ placed, readAll dialect text = (placed, none) ∧ placed.map (·.lexeme) = lexemes := by
  induction h with
  | nil => exact ⟨[], by rw [readAll], rfl⟩
  | @cons c text rest l lexemes hr _ ih =>
    obtain ⟨placed, hp, rfl⟩ := ih
    exact ⟨⟨l, c :: text⟩ :: placed, by rw [readAll_cons hr, hp], rfl⟩

end PatternGen.Pattern.Lexeme
