/-!
# Captures

The text that each capturing group produced last. `Captures` is the model of `GroupTable`.

Results:
* `Captures.get_set`: reading after writing.
-/

namespace PatternGen

/-- The captured texts by the numbers of their groups. -/
structure Captures where
  entries : List (Nat × List Char) := []
deriving DecidableEq, Inhabited

namespace Captures

/-- The text captured by group `n`; the empty text if there is none (`resolve`). -/
def get (captures : Captures) (n : Nat) : List Char := (captures.entries.lookup n).getD []

/-- Captures a text (`set`). Groups are numbered from one, and number zero captures nothing. -/
def set (captures : Captures) (n : Nat) (text : List Char) : Captures :=
  if n = 0 then captures else ⟨(n, text) :: captures.entries.filter (·.1 ≠ n)⟩

theorem get_empty (n : Nat) : ({} : Captures).get n = [] := rfl

private theorem lookup_filter_ne (entries : List (Nat × List Char)) {n m : Nat} (h : m ≠ n) :
    (entries.filter (·.1 ≠ n)).lookup m = entries.lookup m := by
  induction entries with
  | nil => rfl
  | cons e entries ih =>
    obtain ⟨k, text⟩ := e
    by_cases hk : k = n
    · rw [List.filter_cons_of_neg (by simpa using hk), ih, List.lookup_cons,
        show (m == k) = false by simpa [hk] using h]
    · rw [List.filter_cons_of_pos (by simpa using hk), List.lookup_cons, List.lookup_cons, ih]

theorem get_set (captures : Captures) (n m : Nat) (text : List Char) :
    (captures.set n text).get m = if m = n ∧ n ≠ 0 then text else captures.get m := by
  unfold set get
  by_cases hn : n = 0
  · simp [hn]
  · by_cases hm : m = n
    · subst hm
      simp [hn]
    · simp only [hn, if_false, hm, false_and, List.lookup_cons]
      rw [show (m == n) = false by simpa using hm, lookup_filter_ne _ hm]

end Captures

end PatternGen
