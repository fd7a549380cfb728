/-!
# Decision logs

A `DecisionLog` is the list of the numbers that a generation decided on, in the order in which a
replay asks for them. A number that is known only later gets its place first and is filled in
afterwards (`reserve` and `fill`), and the end of a log can be cut off and kept aside (`split_off`).

Results:
* `DecisionLog.toList_push`, `DecisionLog.toList_append`, `DecisionLog.toList_truncate`,
  `DecisionLog.fill?_eq_some_iff`, `DecisionLog.splitOff?_eq_some_iff`: each operation on the list
  of the decisions.
* `DecisionLog.truncate_append`, `DecisionLog.splitOff?_append`, `DecisionLog.fill?_append`: going
  back to an earlier end of a log, and filling in a place before the latest decisions.
-/

namespace PatternGen

/-- The decisions of a generation. -/
@[ext]
structure DecisionLog where
  values : Array Nat := #[]
deriving DecidableEq, Inhabited

namespace DecisionLog

def ofList (values : List Nat) : DecisionLog := ⟨values.toArray⟩

def toList (log : DecisionLog) : List Nat := log.values.toList

def size (log : DecisionLog) : Nat := log.values.size

def isEmpty (log : DecisionLog) : Bool := log.values.isEmpty

/-- Adds a decision. -/
def push (log : DecisionLog) (value : Nat) : DecisionLog := ⟨log.values.push value⟩

/-- Adds decisions in order (`extend`). -/
def append (log : DecisionLog) (values : List Nat) : DecisionLog := ⟨log.values.appendList values⟩

/-- Adds a place for a decision that is still open, and tells where it is. -/
def reserve (log : DecisionLog) : Nat × DecisionLog := (log.size, log.push 0)

/-- Writes the decision at a place, if the log has that place (`fill`). -/
def fill? (log : DecisionLog) (slot value : Nat) : Option DecisionLog :=
  if h : slot < log.values.size then some ⟨log.values.set slot value⟩ else none

/-- Drops the decisions after the first `size`. -/
def truncate (log : DecisionLog) (size : Nat) : DecisionLog := ⟨log.values.take size⟩

/-- The first `size` decisions as a log, and the others, if there are that many (`split_off`). -/
def splitOff? (log : DecisionLog) (size : Nat) : Option (DecisionLog × List Nat) :=
  if size ≤ log.size then some (log.truncate size, (log.values.extract size log.size).toList)
  else none

/-! ## The list of the decisions -/

@[simp] theorem toList_empty : ({} : DecisionLog).toList = [] := rfl

@[simp] theorem toList_ofList (values : List Nat) : (ofList values).toList = values := rfl

@[simp] theorem ofList_toList (log : DecisionLog) : ofList log.toList = log := rfl

@[simp] theorem size_eq_length (log : DecisionLog) : log.size = log.toList.length := by
  simp [size, toList]

theorem toList_inj {a b : DecisionLog} : a.toList = b.toList ↔ a = b := by
  refine ⟨fun h => ?_, fun h => h ▸ rfl⟩
  rw [← ofList_toList a, h, ofList_toList]

@[simp] theorem toList_push (log : DecisionLog) (value : Nat) :
    (log.push value).toList = log.toList ++ [value] := by
  simp [push, toList]

@[simp] theorem toList_append (log : DecisionLog) (values : List Nat) :
    (log.append values).toList = log.toList ++ values := by
  simp [append, toList]

@[simp] theorem toList_truncate (log : DecisionLog) (size : Nat) :
    (log.truncate size).toList = log.toList.take size := by
  simp [truncate, toList]

theorem fill?_eq_some_iff {log log' : DecisionLog} {slot value : Nat} :
    log.fill? slot value = some log' ↔
      slot < log.toList.length ∧ log'.toList = log.toList.set slot value := by
  unfold fill?
  split
  · next h =>
    rw [Option.some.injEq, ← toList_inj]
    simp only [toList, Array.toList_set, Array.length_toList, h, true_and]
    exact eq_comm
  · next h => simpa [toList] using fun h' => absurd h' h

theorem splitOff?_eq_some_iff {log kept : DecisionLog} {size : Nat} {rest : List Nat} :
    log.splitOff? size = some (kept, rest) ↔
      size ≤ log.toList.length ∧ kept.toList = log.toList.take size ∧
        rest = log.toList.drop size := by
  have hdrop : (log.values.extract size log.size).toList = log.toList.drop size := by
    rw [Array.toList_extract, List.extract_eq_take_drop, size_eq_length, ← List.length_drop]
    exact List.take_length
  unfold splitOff?
  split
  · next h =>
    rw [size_eq_length] at h
    rw [Option.some.injEq, Prod.mk.injEq, ← toList_inj, toList_truncate, hdrop]
    simp only [h, true_and]
    exact and_congr eq_comm eq_comm
  · next h =>
    rw [size_eq_length] at h
    simpa using fun h' => absurd h' h

/-! ## The end of a log -/

@[simp] theorem append_nil (log : DecisionLog) : log.append [] = log := by
  rw [← toList_inj, toList_append, List.append_nil]

@[simp] theorem append_append (log : DecisionLog) (values more : List Nat) :
    (log.append values).append more = log.append (values ++ more) := by
  rw [← toList_inj]
  simp only [toList_append, List.append_assoc]

theorem append_left_cancel {log : DecisionLog} {values more : List Nat}
    (h : log.append values = log.append more) : values = more := by
  rw [← toList_inj, toList_append, toList_append] at h
  exact List.append_cancel_left h

theorem push_eq_append (log : DecisionLog) (value : Nat) : log.push value = log.append [value] := by
  rw [← toList_inj, toList_push, toList_append]

theorem truncate_append (log : DecisionLog) (values : List Nat) :
    (log.append values).truncate log.size = log := by
  rw [← toList_inj, toList_truncate, toList_append, size_eq_length, List.take_left]

theorem splitOff?_append (log : DecisionLog) (values : List Nat) :
    (log.append values).splitOff? log.size = some (log, values) := by
  rw [splitOff?_eq_some_iff, toList_append, size_eq_length, List.take_left, List.drop_left]
  simp

/-- Filling the place that was reserved before `values`. -/
theorem fill?_append (log : DecisionLog) (values : List Nat) (value : Nat) :
    ((log.push 0).append values).fill? log.size value = some ((log.push value).append values) := by
  rw [fill?_eq_some_iff]
  simp only [toList_append, toList_push, size_eq_length]
  constructor
  · simp
  · rw [List.append_assoc, List.append_assoc, List.set_append_right _ _ (Nat.le_refl _)]
    simp

end DecisionLog

end PatternGen
