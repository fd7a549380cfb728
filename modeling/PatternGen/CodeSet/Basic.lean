import PatternGen.CodeSet.Span

/-!
# Sets of code points

`CodeSet` is an ordered set of 32-bit code points, kept as a canonical list of spans. It is the
model of `CharRange`, and serves both as the alphabet that classes are drawn from and as the
expansion of a class; `index` and `rank` turn a chosen number into a member and back.

Results:
* `CodeSet.mem_addSpan`, `CodeSet.mem_union`, `CodeSet.mem_subtract`, `CodeSet.mem_intersect`:
  what each operation does to membership.
* `CodeSet.eq_iff_mem`: sets are equal if they have the same members.
-/

namespace PatternGen

/-- A set of 32-bit code points. -/
@[ext]
structure CodeSet where
  spans : List Span
  canonical : Span.Canonical spans
deriving DecidableEq

namespace CodeSet

/-- The code point `v` is in the set. -/
def Mem (set : CodeSet) (v : UInt32) : Prop := Span.Covers set.spans v

instance : Membership UInt32 CodeSet := ⟨Mem⟩

/-! ## Building sets -/

/-- The empty set. -/
def empty : CodeSet := ⟨[], Span.canonical_nil⟩

instance : Inhabited CodeSet := ⟨empty⟩

/-- Adds the code points from `lo` to `hi`; nothing if `lo` is above `hi` (`add_span`). -/
def addSpan (set : CodeSet) (lo hi : UInt32) : CodeSet :=
  if h : lo ≤ hi then ⟨Span.insert ⟨lo, hi⟩ set.spans, Span.canonical_insert _ _ h set.canonical⟩
  else set

/-- The code points from `lo` to `hi`. -/
def span (lo hi : UInt32) : CodeSet := empty.addSpan lo hi

/-- The set of one code point. -/
def single (v : UInt32) : CodeSet := span v v

/-- The printable ASCII characters. -/
def printable : CodeSet := span 32 126

/-- The set with the spans of a list added in order. -/
def addSpans (set : CodeSet) (spans : List (UInt32 × UInt32)) : CodeSet :=
  spans.foldl (fun set s => set.addSpan s.1 s.2) set

/-! ## Set operations -/

/-- Set union (`add`). -/
def union (a b : CodeSet) : CodeSet := b.spans.foldl (fun set s => set.addSpan s.lo s.hi) a

/-- Set difference (`subtract`). -/
def subtract (a b : CodeSet) : CodeSet :=
  ⟨a.spans.flatMap (·.minus b.spans), Span.canonical_flatMap a.canonical fun s hs =>
    Span.canonical_minus s b.spans (a.canonical.1 s hs) b.canonical⟩

/-- Set intersection (`intersect`). -/
def intersect (a b : CodeSet) : CodeSet :=
  ⟨a.spans.flatMap (·.meet b.spans), Span.canonical_flatMap a.canonical fun s _ =>
    Span.canonical_meet s b.spans b.canonical⟩

/-! ## Reading sets -/

/-- Number of members (`len`). -/
def size (set : CodeSet) : Nat := Span.total set.spans

def isEmpty (set : CodeSet) : Bool := set.spans.isEmpty

/-- The `k`-th smallest member, counting from zero (`index`). -/
def index (set : CodeSet) (k : Nat) : Option UInt32 := Span.index set.spans k

/-- The number of members below `v`, if `v` is a member (`rank`). -/
def rank (set : CodeSet) (v : UInt32) : Option Nat := Span.rank set.spans v

def contains (set : CodeSet) (v : UInt32) : Bool := (set.rank v).isSome

/-- The spans in brackets, in ascending order, as in `[48-57, 95]` (`to_string`). -/
def text (set : CodeSet) : String :=
  "[" ++ String.intercalate ", " (set.spans.map spanText) ++ "]"
where
  spanText (s : Span) : String := if s.lo = s.hi then s!"{s.lo}" else s!"{s.lo}-{s.hi}"

/-! ## Membership -/

theorem mem_def {set : CodeSet} {v : UInt32} : v ∈ set ↔ Span.Covers set.spans v := Iff.rfl

@[simp] theorem not_mem_empty {v : UInt32} : ¬ v ∈ empty := Span.not_covers_nil

theorem mem_addSpan {set : CodeSet} {lo hi v : UInt32} :
    v ∈ set.addSpan lo hi ↔ (lo ≤ v ∧ v ≤ hi) ∨ v ∈ set := by
  unfold addSpan
  split
  · next h => exact Span.covers_insert ⟨lo, hi⟩ set.spans h set.canonical v
  · next h =>
    refine (or_iff_right fun hv => h ?_).symm
    rw [Span.le_def] at *
    have := Span.le_def.1 hv.2
    omega

theorem mem_span {lo hi v : UInt32} : v ∈ span lo hi ↔ lo ≤ v ∧ v ≤ hi := by
  rw [span, mem_addSpan, or_iff_left not_mem_empty]

theorem mem_union {a b : CodeSet} {v : UInt32} : v ∈ a.union b ↔ v ∈ a ∨ v ∈ b := by
  unfold union
  rw [show v ∈ b ↔ Span.Covers b.spans v from Iff.rfl]
  generalize b.spans = l
  induction l generalizing a with
  | nil => simp [Span.not_covers_nil]
  | cons s l ih => rw [List.foldl_cons, ih, mem_addSpan, Span.covers_cons, or_left_comm, or_assoc]; rfl

theorem mem_subtract {a b : CodeSet} {v : UInt32} : v ∈ a.subtract b ↔ v ∈ a ∧ ¬ v ∈ b := by
  simp only [mem_def, subtract, Span.covers_flatMap]
  constructor
  · rintro ⟨s, hs, hv⟩
    obtain ⟨h₁, h₂⟩ := (Span.covers_minus s _ (a.canonical.1 s hs) b.canonical v).1 hv
    exact ⟨⟨s, hs, h₁⟩, h₂⟩
  · rintro ⟨⟨s, hs, h₁⟩, h₂⟩
    exact ⟨s, hs, (Span.covers_minus s _ (a.canonical.1 s hs) b.canonical v).2 ⟨h₁, h₂⟩⟩

theorem mem_intersect {a b : CodeSet} {v : UInt32} : v ∈ a.intersect b ↔ v ∈ a ∧ v ∈ b := by
  simp only [mem_def, intersect, Span.covers_flatMap, Span.covers_meet]
  exact ⟨fun ⟨s, hs, h₁, h₂⟩ => ⟨⟨s, hs, h₁⟩, h₂⟩, fun ⟨⟨s, hs, h₁⟩, h₂⟩ => ⟨s, hs, h₁, h₂⟩⟩

theorem eq_iff_mem {a b : CodeSet} : a = b ↔ ∀ v, v ∈ a ↔ v ∈ b := by
  constructor
  · rintro rfl v
    exact Iff.rfl
  · intro h
    exact CodeSet.ext (Span.canonical_unique a.canonical b.canonical h)

end CodeSet

end PatternGen
