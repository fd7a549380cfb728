import PatternGen.Walk.Choice

/-!
# Plans

A `Plan` is a walk without the source of its decisions: it asks questions one after the other, each
for a number within bounds, and every answer settles how it goes on. It reads and writes captures on
its way. `Plan.Ends` and `Plan.Asks` tell where a list of answers leads: to the end of the plan, or
to one more question.

Results:
* `Plan.ends_bind`: the answers to two plans one after the other.
* `Plan.ends_or_asks`: a log leads to an end, or to a question that it does not answer, because it
  is too short or because its next value is out of bounds.
* `Plan.exists_ends_append`: the answers up to a question can be completed.
* `Plan.walk_of_ends`, `Plan.walk_of_asks`: what replaying a log does in these cases.
* `Plan.exists_reads`: a replay records what it takes of its log.
-/

namespace PatternGen

/-- What a walk does, with its questions left open. -/
inductive Plan (α : Type) where
  | done (a : α)
  /-- Asks for a number from `lo` to `hi`. -/
  | ask (lo hi : Nat) (next : Nat → Plan α)
  /-- Reads the text that a group captured. -/
  | fetch (group : Nat) (next : List Char → Plan α)
  /-- Captures the text of a group. -/
  | capture (group : Nat) (text : List Char) (next : Plan α)

namespace Plan

variable {α β σ : Type}

/-- One plan after the other. -/
protected def bind : Plan α → (α → Plan β) → Plan β
  | done a, f => f a
  | ask lo hi next, f => ask lo hi fun v => (next v).bind f
  | fetch group next, f => fetch group fun text => (next text).bind f
  | capture group text next, f => capture group text (next.bind f)

instance : Monad Plan where
  pure := done
  bind := Plan.bind

instance : LawfulMonad Plan :=
  LawfulMonad.mk' Plan
    (fun x => by
      induction x with
      | done a => rfl
      | ask lo hi next ih => exact congrArg (ask lo hi) (funext ih)
      | fetch group next ih => exact congrArg (fetch group) (funext ih)
      | capture group text next ih => exact congrArg (capture group text) ih)
    (fun _ _ => rfl)
    (fun x f g => by
      induction x with
      | done a => rfl
      | ask lo hi next ih => exact congrArg (ask lo hi) (funext ih)
      | fetch group next ih => exact congrArg (fetch group) (funext ih)
      | capture group text next ih => exact congrArg (capture group text) ih)

/-- The question for a number from `lo` to `hi`. -/
def question (lo hi : Nat) : Plan Nat := ask lo hi done

/-- The walk that puts the questions of a plan to a chooser. -/
def walk (chooser : Chooser σ) : Plan α → Walk σ α
  | done a => pure a
  | ask lo hi next => do
    let v ← chooser.ask lo hi
    (next v).walk chooser
  | fetch group next => do
    let text ← Walk.captured group
    (next text).walk chooser
  | capture group text next => do
    Walk.capture group text
    next.walk chooser

theorem walk_pure (chooser : Chooser σ) (a : α) : (pure a : Plan α).walk chooser = pure a := rfl

theorem walk_bind (chooser : Chooser σ) (x : Plan α) (f : α → Plan β) :
    (x >>= f).walk chooser = x.walk chooser >>= fun a => (f a).walk chooser := by
  induction x with
  | done a =>
    show (f a).walk chooser = (pure a : Walk σ α) >>= fun a => (f a).walk chooser
    rw [pure_bind]
  | ask lo hi next ih =>
    show (chooser.ask lo hi >>= fun v => ((next v) >>= f).walk chooser) = _
    rw [walk, bind_assoc]
    congr 1
    funext v
    exact ih v
  | fetch group next ih =>
    show (Walk.captured group >>= fun text => ((next text) >>= f).walk chooser) = _
    rw [walk, bind_assoc]
    congr 1
    funext text
    exact ih text
  | capture group text next ih =>
    show (Walk.capture group text >>= fun _ => (next >>= f).walk chooser) = _
    rw [walk, bind_assoc]
    congr 1
    funext _
    exact ih

theorem walk_question_bind (chooser : Chooser σ) (lo hi : Nat) (f : Nat → Plan α) :
    (question lo hi >>= f).walk chooser = chooser.ask lo hi >>= fun v => (f v).walk chooser := rfl

/-! ## Where answers lead -/

/-- From the captures `c`, the answers `vs` are in bounds and lead to the end of the plan, with the
value `a` and the captures `c'`. -/
inductive Ends : Plan α → Captures → List Nat → α → Captures → Prop
  | done {a : α} {c : Captures} : Ends (done a) c [] a c
  | ask {lo hi v : Nat} {next : Nat → Plan α} {c c' : Captures} {vs : List Nat} {a : α} :
      lo ≤ v → v ≤ hi → Ends (next v) c vs a c' → Ends (ask lo hi next) c (v :: vs) a c'
  | fetch {group : Nat} {next : List Char → Plan α} {c c' : Captures} {vs : List Nat} {a : α} :
      Ends (next (c.get group)) c vs a c' → Ends (fetch group next) c vs a c'
  | capture {group : Nat} {text : List Char} {next : Plan α} {c c' : Captures} {vs : List Nat}
      {a : α} : Ends next (c.set group text) vs a c' → Ends (capture group text next) c vs a c'

/-- From the captures `c`, the answers `vs` are in bounds and lead to the question for a number from
`lo` to `hi`. -/
inductive Asks : Plan α → Captures → List Nat → Nat → Nat → Prop
  | here {lo hi : Nat} {next : Nat → Plan α} {c : Captures} : Asks (ask lo hi next) c [] lo hi
  | ask {l h v lo hi : Nat} {next : Nat → Plan α} {c : Captures} {vs : List Nat} :
      l ≤ v → v ≤ h → Asks (next v) c vs lo hi → Asks (ask l h next) c (v :: vs) lo hi
  | fetch {group lo hi : Nat} {next : List Char → Plan α} {c : Captures} {vs : List Nat} :
      Asks (next (c.get group)) c vs lo hi → Asks (fetch group next) c vs lo hi
  | capture {group lo hi : Nat} {text : List Char} {next : Plan α} {c : Captures} {vs : List Nat} :
      Asks next (c.set group text) vs lo hi → Asks (capture group text next) c vs lo hi

/-- Whatever the answers to the questions before, each question has an answer. -/
def Answerable : Plan α → Prop
  | .done _ => True
  | .ask lo hi next => lo ≤ hi ∧ ∀ v, lo ≤ v → v ≤ hi → (next v).Answerable
  | .fetch _ next => ∀ text, (next text).Answerable
  | .capture _ _ next => next.Answerable

theorem ends_pure_iff {a b : α} {c c' : Captures} {vs : List Nat} :
    (pure a : Plan α).Ends c vs b c' ↔ vs = [] ∧ b = a ∧ c' = c := by
  constructor
  · intro h
    cases h
    exact ⟨rfl, rfl, rfl⟩
  · rintro ⟨rfl, rfl, rfl⟩
    exact .done

theorem ends_ask_iff {lo hi : Nat} {next : Nat → Plan α} {c c' : Captures} {vs : List Nat} {a : α} :
    (ask lo hi next).Ends c vs a c' ↔
      ∃ v rest, vs = v :: rest ∧ (lo ≤ v ∧ v ≤ hi) ∧ (next v).Ends c rest a c' := by
  constructor
  · intro h
    cases h with
    | ask hlo hhi h => exact ⟨_, _, rfl, ⟨hlo, hhi⟩, h⟩
  · rintro ⟨v, rest, rfl, ⟨hlo, hhi⟩, h⟩
    exact .ask hlo hhi h

theorem ends_bind {x : Plan α} {f : α → Plan β} {c c₁ c₂ : Captures} {us vs : List Nat} {a : α}
    {b : β} (hx : x.Ends c us a c₁) (hf : (f a).Ends c₁ vs b c₂) :
    (x >>= f).Ends c (us ++ vs) b c₂ := by
  induction hx with
  | done => exact hf
  | ask hlo hhi _ ih => exact .ask hlo hhi (ih hf)
  | fetch _ ih => exact .fetch (ih hf)
  | capture _ ih => exact .capture (ih hf)

theorem ends_bind_iff {x : Plan α} {f : α → Plan β} {c c₂ : Captures} {ws : List Nat} {b : β} :
    (x >>= f).Ends c ws b c₂ ↔
      ∃ us vs a c₁, ws = us ++ vs ∧ x.Ends c us a c₁ ∧ (f a).Ends c₁ vs b c₂ := by
  constructor
  · intro h
    induction x generalizing c ws with
    | done a => exact ⟨[], ws, a, c, rfl, .done, h⟩
    | ask lo hi next ih =>
      obtain ⟨v, rest, rfl, hv, h⟩ := ends_ask_iff.1 h
      obtain ⟨us, vs, a, c₁, rfl, hx, hf⟩ := ih v h
      exact ⟨v :: us, vs, a, c₁, rfl, .ask hv.1 hv.2 hx, hf⟩
    | fetch group next ih =>
      cases h with
      | fetch h =>
        obtain ⟨us, vs, a, c₁, rfl, hx, hf⟩ := ih _ h
        exact ⟨us, vs, a, c₁, rfl, .fetch hx, hf⟩
    | capture group text next ih =>
      cases h with
      | capture h =>
        obtain ⟨us, vs, a, c₁, rfl, hx, hf⟩ := ih h
        exact ⟨us, vs, a, c₁, rfl, .capture hx, hf⟩
  · rintro ⟨us, vs, a, c₁, rfl, hx, hf⟩
    exact ends_bind hx hf

theorem ends_question_bind {lo hi v : Nat} {f : Nat → Plan α} {c c' : Captures} {vs : List Nat}
    {a : α} (hlo : lo ≤ v) (hhi : v ≤ hi) (h : (f v).Ends c vs a c') :
    (question lo hi >>= f).Ends c (v :: vs) a c' :=
  .ask hlo hhi h

theorem ends_question_bind_iff {lo hi : Nat} {f : Nat → Plan α} {c c' : Captures} {vs : List Nat}
    {a : α} : (question lo hi >>= f).Ends c vs a c' ↔
      ∃ v rest, vs = v :: rest ∧ (lo ≤ v ∧ v ≤ hi) ∧ (f v).Ends c rest a c' :=
  ends_ask_iff

theorem answerable_bind {x : Plan α} {f : α → Plan β} (hx : x.Answerable)
    (hf : ∀ a, (f a).Answerable) : (x >>= f).Answerable := by
  induction x with
  | done a => exact hf a
  | ask lo hi next ih => exact ⟨hx.1, fun v hlo hhi => ih v (hx.2 v hlo hhi)⟩
  | fetch group next ih => exact fun text => ih text (hx text)
  | capture group text next ih => exact ih hx

/-! ## Reading a log -/

/-- A log answers all questions of a plan, or it is too short for a question, or a value of it is
out of the bounds of its question. -/
theorem ends_or_asks {x : Plan α} (hx : x.Answerable) (c : Captures) (log : List Nat) :
    (∃ vs rest a c', log = vs ++ rest ∧ x.Ends c vs a c') ∨
      (∃ lo hi, x.Asks c log lo hi) ∨
      ∃ vs v rest lo hi, log = vs ++ v :: rest ∧ x.Asks c vs lo hi ∧ lo ≤ hi ∧
        (v < lo ∨ hi < v) := by
  induction x generalizing c log with
  | done a => exact .inl ⟨[], log, a, c, rfl, .done⟩
  | ask lo hi next ih =>
    cases log with
    | nil => exact .inr (.inl ⟨lo, hi, .here⟩)
    | cons v log =>
      by_cases hv : v < lo ∨ hi < v
      · exact .inr (.inr ⟨[], v, log, lo, hi, rfl, .here, hx.1, hv⟩)
      · have hlo : lo ≤ v := by omega
        have hhi : v ≤ hi := by omega
        rcases ih v (hx.2 v hlo hhi) c log with
          ⟨vs, rest, a, c', rfl, h⟩ | ⟨l, h, ha⟩ | ⟨vs, w, rest, l, h, rfl, ha, hb⟩
        · exact .inl ⟨v :: vs, rest, a, c', rfl, .ask hlo hhi h⟩
        · exact .inr (.inl ⟨l, h, .ask hlo hhi ha⟩)
        · exact .inr (.inr ⟨v :: vs, w, rest, l, h, rfl, .ask hlo hhi ha, hb⟩)
  | fetch group next ih =>
    rcases ih _ (hx _) c log with
      ⟨vs, rest, a, c', rfl, h⟩ | ⟨l, h, ha⟩ | ⟨vs, w, rest, l, h, rfl, ha, hb⟩
    · exact .inl ⟨vs, rest, a, c', rfl, .fetch h⟩
    · exact .inr (.inl ⟨l, h, .fetch ha⟩)
    · exact .inr (.inr ⟨vs, w, rest, l, h, rfl, .fetch ha, hb⟩)
  | capture group text next ih =>
    rcases ih hx (c.set group text) log with
      ⟨vs, rest, a, c', rfl, h⟩ | ⟨l, h, ha⟩ | ⟨vs, w, rest, l, h, rfl, ha, hb⟩
    · exact .inl ⟨vs, rest, a, c', rfl, .capture h⟩
    · exact .inr (.inl ⟨l, h, .capture ha⟩)
    · exact .inr (.inr ⟨vs, w, rest, l, h, rfl, .capture ha, hb⟩)

/-- The lowest answer to every question is one way through a plan. -/
theorem exists_ends {x : Plan α} (hx : x.Answerable) (c : Captures) :
    ∃ vs a c', x.Ends c vs a c' := by
  induction x generalizing c with
  | done a => exact ⟨[], a, c, .done⟩
  | ask lo hi next ih =>
    obtain ⟨vs, a, c', h⟩ := ih lo (hx.2 lo (Nat.le_refl lo) hx.1) c
    exact ⟨lo :: vs, a, c', .ask (Nat.le_refl lo) hx.1 h⟩
  | fetch group next ih =>
    obtain ⟨vs, a, c', h⟩ := ih _ (hx _) c
    exact ⟨vs, a, c', .fetch h⟩
  | capture group text next ih =>
    obtain ⟨vs, a, c', h⟩ := ih hx (c.set group text)
    exact ⟨vs, a, c', .capture h⟩

/-- There are no dead ends. -/
theorem exists_ends_append {x : Plan α} (hx : x.Answerable) {c : Captures} {vs : List Nat}
    {lo hi : Nat} (h : x.Asks c vs lo hi) : ∃ us a c', x.Ends c (vs ++ us) a c' := by
  induction h with
  | here => exact exists_ends hx _
  | ask hlo hhi _ ih =>
    obtain ⟨us, a, c', h⟩ := ih (hx.2 _ hlo hhi)
    exact ⟨us, a, c', .ask hlo hhi h⟩
  | fetch _ ih =>
    obtain ⟨us, a, c', h⟩ := ih (hx _)
    exact ⟨us, a, c', .fetch h⟩
  | capture _ ih =>
    obtain ⟨us, a, c', h⟩ := ih hx
    exact ⟨us, a, c', .capture h⟩

/-- Before its end, a plan asks a question after each part of the answers. -/
theorem asks_take_of_ends {x : Plan α} {c c' : Captures} {vs : List Nat} {a : α}
    (h : x.Ends c vs a c') {j : Nat} (hj : j < vs.length) :
    ∃ lo hi, x.Asks c (vs.take j) lo hi := by
  induction h generalizing j with
  | done => simp at hj
  | @ask lo hi v next c c' vs a hlo hhi _ ih =>
    cases j with
    | zero => exact ⟨lo, hi, .here⟩
    | succ j =>
      obtain ⟨l, h, ha⟩ := ih (Nat.lt_of_succ_lt_succ hj)
      exact ⟨l, h, .ask hlo hhi ha⟩
  | fetch _ ih =>
    obtain ⟨l, h, ha⟩ := ih hj
    exact ⟨l, h, .fetch ha⟩
  | capture _ ih =>
    obtain ⟨l, h, ha⟩ := ih hj
    exact ⟨l, h, .capture ha⟩

/-! ## Replaying a log -/

section Replay

open Chooser (Replay)

/-- A value within the bounds is taken, and recorded. -/
theorem ask_replay {lo hi v : Nat} (hlo : lo ≤ v) (hhi : v ≤ hi) (rest : List Nat) (u : Nat)
    (log : DecisionLog) (c : Captures) :
    Chooser.replay.ask lo hi ⟨⟨v :: rest, u⟩, log, c⟩ =
      .ok v ⟨⟨rest, u + 1⟩, log.append [v], c⟩ := by
  have hv : ¬ (v < lo ∨ hi < v) := by omega
  rw [← DecisionLog.push_eq_append]
  simp only [Chooser.ask, Chooser.replay, Replay.answer, hv, if_false]

/-- A value out of the bounds is refused. -/
theorem ask_replay_outside {lo hi v : Nat} (hv : v < lo ∨ hi < v) (rest : List Nat) (u : Nat)
    (log : DecisionLog) (c : Captures) :
    Chooser.replay.ask lo hi ⟨⟨v :: rest, u⟩, log, c⟩ =
      .error (.valueOutOfBounds u v lo hi) ⟨⟨v :: rest, u⟩, log, c⟩ := by
  simp only [Chooser.ask, Chooser.replay, Replay.answer, hv, if_true]

/-- A log that begins with the answers to a plan leads to its end, and its other values are not
used. -/
theorem walk_of_ends {x : Plan α} {c c' : Captures} {vs : List Nat} {a : α}
    (h : x.Ends c vs a c') (rest : List Nat) (u : Nat) (log : DecisionLog) :
    x.walk .replay ⟨⟨vs ++ rest, u⟩, log, c⟩ =
      .ok a ⟨⟨rest, u + vs.length⟩, log.append vs, c'⟩ := by
  induction h generalizing u log with
  | done =>
    rw [DecisionLog.append_nil]
    rfl
  | @ask lo hi v next c c' vs a hlo hhi _ ih =>
    rw [walk, List.cons_append, Walk.bind_ok (ask_replay hlo hhi _ _ _ _), ih,
      DecisionLog.append_append, List.length_cons, Nat.add_right_comm, Nat.add_assoc]
    rfl
  | fetch _ ih => exact ih u log
  | capture _ ih => exact ih u log

/-- A replay that comes to the end of a plan was led there by answers. -/
theorem ends_of_walk {x : Plan α} {s s' : Walk.State Replay} {a : α}
    (h : x.walk .replay s = .ok a s') : ∃ vs, x.Ends s.captures vs a s'.captures := by
  induction x generalizing s with
  | done b =>
    cases h
    exact ⟨[], .done⟩
  | ask lo hi next ih =>
    obtain ⟨⟨pending, u⟩, log, c⟩ := s
    cases pending with
    | nil => cases h
    | cons v rest =>
      by_cases hv : v < lo ∨ hi < v
      · rw [walk, Walk.bind_error (ask_replay_outside hv _ _ _ _)] at h
        cases h
      · have hlo : lo ≤ v := by omega
        have hhi : v ≤ hi := by omega
        rw [walk, Walk.bind_ok (ask_replay hlo hhi _ _ _ _)] at h
        obtain ⟨vs, he⟩ := ih v h
        exact ⟨v :: vs, .ask hlo hhi he⟩
  | fetch group next ih =>
    obtain ⟨vs, he⟩ := ih (s.captures.get group) h
    exact ⟨vs, .fetch he⟩
  | capture group text next ih =>
    obtain ⟨vs, he⟩ := ih (s := { s with captures := s.captures.set group text }) h
    exact ⟨vs, .capture he⟩

/-- A log that begins with the answers up to a question leads to that question, with the rest of
the log to come. -/
theorem walk_of_asks {x : Plan α} {c : Captures} {vs : List Nat} {lo hi : Nat}
    (h : x.Asks c vs lo hi) : ∃ (next : Nat → Plan α) (c' : Captures),
      ∀ (rest : List Nat) (u : Nat) (log : DecisionLog),
        x.walk .replay ⟨⟨vs ++ rest, u⟩, log, c⟩ =
          (ask lo hi next).walk .replay ⟨⟨rest, u + vs.length⟩, log.append vs, c'⟩ := by
  induction h with
  | @here lo hi next c =>
    refine ⟨next, c, fun rest u log => ?_⟩
    rw [DecisionLog.append_nil]
    rfl
  | @ask l h v lo hi next c vs hlo hhi _ ih =>
    obtain ⟨next', c', ih⟩ := ih
    refine ⟨next', c', fun rest u log => ?_⟩
    rw [walk, List.cons_append, Walk.bind_ok (ask_replay hlo hhi _ _ _ _), ih,
      DecisionLog.append_append, List.length_cons, Nat.add_right_comm, Nat.add_assoc]
    rfl
  | fetch _ ih => exact ih
  | capture _ ih => exact ih

/-- A log that ends at a question is exhausted. -/
theorem walk_of_asks_end {x : Plan α} {c : Captures} {vs : List Nat} {lo hi : Nat}
    (h : x.Asks c vs lo hi) (log : DecisionLog) : ∃ c', x.walk .replay ⟨⟨vs, 0⟩, log, c⟩ =
      .error (.exhaustedLog vs.length) ⟨⟨[], vs.length⟩, log.append vs, c'⟩ := by
  obtain ⟨next, c', h⟩ := walk_of_asks h
  refine ⟨c', ?_⟩
  have := h [] 0 log
  rw [List.append_nil, Nat.zero_add] at this
  rw [this]
  rfl

/-- A value out of the bounds of its question is refused. -/
theorem walk_of_asks_outside {x : Plan α} {c : Captures} {vs : List Nat} {lo hi v : Nat}
    (h : x.Asks c vs lo hi) (hv : v < lo ∨ hi < v) (log : DecisionLog) :
    ∃ c', ∀ rest, x.walk .replay ⟨⟨vs ++ v :: rest, 0⟩, log, c⟩ =
      .error (.valueOutOfBounds vs.length v lo hi)
        ⟨⟨v :: rest, vs.length⟩, log.append vs, c'⟩ := by
  obtain ⟨next, c', h⟩ := walk_of_asks h
  refine ⟨c', fun rest => ?_⟩
  rw [h, Nat.zero_add]
  exact Walk.bind_error (ask_replay_outside hv _ _ _ _)

/-- The state in which a walk ended or stopped. -/
def finalState : EStateM.Result Error (Walk.State σ) α → Walk.State σ
  | .ok _ s => s
  | .error _ s => s

theorem finalState_bind_pure (x : Walk σ α) (f : α → β) (s : Walk.State σ) :
    finalState ((x >>= fun a => pure (f a)) s) = finalState (x s) := by
  cases h : x s with
  | ok a s' =>
    rw [Walk.bind_ok h]
    rfl
  | error e s' =>
    rw [Walk.bind_error h]
    rfl

/-- Between the states a replay took the next `values` of its log, and recorded them. -/
structure Reads (s s' : Walk.State Replay) (values : List Nat) : Prop where
  pending : s.source.pending = values ++ s'.source.pending
  used : s'.source.used = s.source.used + values.length
  log : s'.log = s.log.append values

theorem Reads.refl (s : Walk.State Replay) : Reads s s [] := ⟨rfl, rfl, s.log.append_nil.symm⟩

theorem Reads.cons {v u : Nat} {rest values : List Nat} {log : DecisionLog} {c : Captures}
    {s' : Walk.State Replay} (h : Reads ⟨⟨rest, u + 1⟩, log.append [v], c⟩ s' values) :
    Reads ⟨⟨v :: rest, u⟩, log, c⟩ s' (v :: values) where
  pending := congrArg (v :: ·) h.pending
  used := h.used.trans (Nat.succ_add_eq_add_succ u values.length)
  log := by
    rw [h.log, DecisionLog.append_append]
    rfl

/-- Whether it comes to an end or stops with an error, a replay records what it takes of its
log. -/
theorem exists_reads (x : Plan α) (s : Walk.State Replay) :
    ∃ values, Reads s (finalState (x.walk .replay s)) values := by
  induction x generalizing s with
  | done a => exact ⟨[], .refl s⟩
  | ask lo hi next ih =>
    obtain ⟨⟨pending, u⟩, log, c⟩ := s
    cases pending with
    | nil => exact ⟨[], .refl _⟩
    | cons v rest =>
      by_cases hv : v < lo ∨ hi < v
      · rw [walk, Walk.bind_error (ask_replay_outside hv _ _ _ _)]
        exact ⟨[], .refl _⟩
      · have hlo : lo ≤ v := by omega
        have hhi : v ≤ hi := by omega
        rw [walk, Walk.bind_ok (ask_replay hlo hhi _ _ _ _)]
        obtain ⟨values, h⟩ := ih v ⟨⟨rest, u + 1⟩, log.append [v], c⟩
        exact ⟨v :: values, h.cons⟩
  | fetch group next ih => exact ih _ s
  | capture group text next ih =>
    obtain ⟨values, h⟩ := ih { s with captures := s.captures.set group text }
    exact ⟨values, h.pending, h.used, h.log⟩

/-- Values that were used stay used. -/
theorem used_le_walk (x : Plan α) (s : Walk.State Replay) :
    s.source.used ≤ (finalState (x.walk .replay s)).source.used := by
  obtain ⟨values, h⟩ := exists_reads x s
  rw [h.used]
  exact Nat.le_add_right _ _

/-- A value within the bounds of its question is used. -/
theorem used_of_asks {x : Plan α} {c : Captures} {vs : List Nat} {lo hi v : Nat}
    (h : x.Asks c vs lo hi) (hlo : lo ≤ v) (hhi : v ≤ hi) (rest : List Nat) (log : DecisionLog) :
    vs.length < (finalState (x.walk .replay ⟨⟨vs ++ v :: rest, 0⟩, log, c⟩)).source.used := by
  obtain ⟨next, c', h⟩ := walk_of_asks h
  rw [h, walk, Walk.bind_ok (ask_replay hlo hhi _ _ _ _)]
  have := used_le_walk (next v) ⟨⟨rest, 0 + vs.length + 1⟩, (log.append vs).append [v], c'⟩
  simp only at this
  omega

end Replay

end Plan

end PatternGen
