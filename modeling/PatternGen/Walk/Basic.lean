import PatternGen.Captures
import PatternGen.DecisionLog.Basic
import PatternGen.Error
import PatternGen.Sampler

/-!
# Walks

Generating a string is a walk through the token tree of its pattern. A walk keeps the state of
where its decisions come from, the log of the decisions so far and the captured texts; it may stop
with an error, which leaves the state as it was at that point.

A `Chooser` tells where decisions come from; it is the model of `DecisionChannel`. `Chooser.free`
draws every number from a sampler, as `RandomChannel` does; `Chooser.steer` does so too, but follows
the target text where the text settles a question, as `MatchChannel` does; `Chooser.replay` takes
the numbers of an earlier log, as `ReplayChannel` does.

Results:
* `Walk.bind_ok`, `Walk.bind_error`: a walk goes on where its first part ended, or stops with its
  error.
* `Walk.rollback_of_log`, `Walk.detach_of_log`, `Walk.fill_of_log`: going back to a checkpoint, and
  filling in a place, after decisions were added.
-/

namespace PatternGen

/-- The state of a walk over decision states `σ`: all that `Evaluator` and its channel change. -/
structure Walk.State (σ : Type) where
  source : σ
  log : DecisionLog := {}
  captures : Captures := {}

/-- A part of a walk. -/
abbrev Walk (σ : Type) := EStateM Error (Walk.State σ)

/-- Where the decisions of a walk come from. -/
structure Chooser (σ : Type) where
  /-- Answers the question for a number from `lo` to `hi`. -/
  answer : (lo hi : Nat) → EStateM Error σ Nat
  /-- Whether the target text settles the questions that it can (`is_steered`). -/
  steered : Bool
  /-- Whether the count of a repetition is a second question. Otherwise it is the sampled one. -/
  recounts : Bool

namespace Chooser

variable {σ : Type}

/-- Answers with a sampler (`rand_int`). -/
def sampled (sampler : Sampler σ) (lo hi : Nat) : EStateM Error σ Nat := fun s =>
  let (value, s) := sampler lo hi s
  .ok value s

/-- Draws every number (`RandomChannel`). -/
def free (sampler : Sampler σ) : Chooser σ := ⟨sampled sampler, false, false⟩

/-- Draws the numbers that the target does not settle (`MatchChannel`). -/
def steer (sampler : Sampler σ) : Chooser σ := ⟨sampled sampler, true, false⟩

/-- A log that is replayed: its values to come, and how many were used (`replay` and `cursor` of
`ReplayChannel`). -/
structure Replay where
  pending : List Nat
  used : Nat := 0
deriving DecidableEq

/-- Answers with the next value of a log, if there is one and it is within the bounds (`pop`). -/
def Replay.answer (lo hi : Nat) : EStateM Error Replay Nat := fun r =>
  match r.pending with
  | [] => .error (.exhaustedLog r.used) r
  | value :: rest =>
    if value < lo ∨ hi < value then .error (.valueOutOfBounds r.used value lo hi) r
    else .ok value ⟨rest, r.used + 1⟩

/-- Takes the numbers of a log (`ReplayChannel`). -/
def replay : Chooser Replay := ⟨Replay.answer, false, true⟩

end Chooser

namespace Walk

variable {σ : Type}

theorem bind_ok {α β : Type} {x : Walk σ α} {f : α → Walk σ β} {a : α} {s s' : State σ}
    (h : x s = .ok a s') : (x >>= f) s = f a s' := by
  simp only [bind, EStateM.bind, h]

theorem bind_error {α β : Type} {x : Walk σ α} {f : α → Walk σ β} {e : Error} {s s' : State σ}
    (h : x s = .error e s') : (x >>= f) s = .error e s' := by
  simp only [bind, EStateM.bind, h]

/-! ## Log and captures -/

/-- Adds a decision to the log. -/
def record (value : Nat) : Walk σ Unit := modify fun s => { s with log := s.log.push value }

/-- Adds decisions to the log (`extend`). -/
def recordAll (values : List Nat) : Walk σ Unit :=
  modify fun s => { s with log := s.log.append values }

/-- Adds an open place to the log. -/
def reserve : Walk σ Nat := fun s =>
  let (slot, log) := s.log.reserve
  .ok slot { s with log }

/-- Writes a decision into its place. -/
def fill (slot value : Nat) : Walk σ Unit := fun s =>
  match s.log.fill? slot value with
  | some log => .ok () { s with log }
  | none => .error (.indexOutOfBounds slot s.log.size) s

/-- The text that a group captured (`resolve`). -/
def captured (group : Nat) : Walk σ (List Char) := fun s => .ok (s.captures.get group) s

/-- Captures the text of a group (`set`). -/
def capture (group : Nat) (text : List Char) : Walk σ Unit :=
  modify fun s => { s with captures := s.captures.set group text }

/-- Replaces the captures. -/
def setCaptures (captures : Captures) : Walk σ Unit := modify fun s => { s with captures }

/-! ## Going back

Models of `checkpoint`, `rollback` and `detach`.
-/

/-- What a walk returns to when it gives up a part of its way (`Checkpoint`). The source is not part
of it. -/
structure Checkpoint where
  size : Nat
  captures : Captures

def checkpoint : Walk σ Checkpoint := fun s => .ok ⟨s.log.size, s.captures⟩ s

/-- Forgets the decisions and captures since a checkpoint. -/
def rollback (point : Checkpoint) : Walk σ Unit :=
  modify fun s => { s with log := s.log.truncate point.size, captures := point.captures }

/-- The decisions and captures of an attempt that is kept aside; with what it produced they are a
`Trial`. -/
structure Kept where
  decisions : List Nat
  captures : Captures

/-- Goes back to a checkpoint, and keeps the decisions and captures since then aside. -/
def detach (point : Checkpoint) : Walk σ Kept := fun s =>
  match s.log.splitOff? point.size with
  | some (log, decisions) =>
    .ok ⟨decisions, s.captures⟩ { s with log, captures := point.captures }
  | none => .error (.indexOutOfBounds point.size s.log.size) s

/-- Takes up again what was kept aside, as `eval_alternation` does with the trial that it chose. -/
def attach (kept : Kept) : Walk σ Unit := do
  recordAll kept.decisions
  setCaptures kept.captures

/-! ## From a checkpoint on -/

section

variable {s s' : State σ} {values : List Nat}

theorem checkpoint_apply (s : State σ) : checkpoint s = .ok ⟨s.log.size, s.captures⟩ s := rfl

theorem reserve_apply (s : State σ) :
    reserve s = .ok s.log.size { s with log := s.log.push 0 } := rfl

theorem rollback_of_log (h : s'.log = s.log.append values) :
    rollback ⟨s.log.size, s.captures⟩ s' =
      .ok () { s' with log := s.log, captures := s.captures } := by
  show EStateM.Result.ok _ { s' with log := s'.log.truncate s.log.size, captures := _ } = _
  rw [h, DecisionLog.truncate_append]

theorem detach_of_log (h : s'.log = s.log.append values) :
    detach ⟨s.log.size, s.captures⟩ s' =
      .ok ⟨values, s'.captures⟩ { s' with log := s.log, captures := s.captures } := by
  unfold detach
  rw [h, DecisionLog.splitOff?_append]

/-- The place that was reserved lies right before what the log got since then. -/
theorem fill_of_log (h : s'.log = (s.log.push 0).append values) (value : Nat) :
    fill s.log.size value s' = .ok () { s' with log := (s.log.push value).append values } := by
  unfold fill
  rw [h, DecisionLog.fill?_append]

end

end Walk

end PatternGen
