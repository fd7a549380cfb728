import PatternGen.EngineCache

/-!
# Interleaved calls of a cache

A call for the value of a key looks the key up; after a miss it computes the value by itself, and
then inserts it. Look-up and insertion are taken at once, since `get_or_compile` holds the lock of
the cache for each of them, but between them any number of other calls may insert their values, or
have the cache emptied. Calls are numbered here, and the two steps of all calls come in any order.

Results:
* `Cache.step_eq_some_iff`: what a step can do.
* `Cache.sound_step`, `Cache.sound_run`: what holds after every step, and so at all times.
* `Cache.exists_run_alone`: a call whose steps come one after the other is `Cache.getOrCompute`.
* `EngineCache.calls_transparent`: engines come from calls for their own key, the cache keeps its
  bound, nothing but the insertion of a new engine changes it, and calls for one key get one engine
  until the cache is emptied; `EngineCache.engineFor` is such a call, taken without a pause.
-/

namespace PatternGen

namespace Cache

/-- A call for the value of a key, with what computing the value gives. -/
structure Call (κ ν ε : Type) where
  key : κ
  computed : Except ε ν

/-- How far a call is. One that is finished has its result; with it stands how often the cache had
been emptied by then. -/
inductive Phase (ν ε : Type) where
  | waiting
  | missed
  | finished (result : Except ε ν) (emptyings : Nat)

/-- The steps of a call: the look-up, and after a miss what ends the call. -/
inductive Event where
  | lookUp (i : Nat)
  | complete (i : Nat)

/-- A cache in use by calls, and how often it was emptied. -/
structure State (κ ν ε : Type) where
  cache : Cache κ ν
  emptyings : Nat := 0
  phase : Nat → Phase ν ε := fun _ => .waiting

namespace State

variable {κ ν ε : Type} (s : State κ ν ε)

def setPhase (i : Nat) (phase : Phase ν ε) : State κ ν ε :=
  { s with phase := fun j => if j = i then phase else s.phase j }

/-- The call `i` ends with a result. -/
def finish (i : Nat) (result : Except ε ν) : State κ ν ε :=
  s.setPhase i (.finished result s.emptyings)

/-- No call has begun. -/
def start (capacity : Nat) : State κ ν ε := { cache := { capacity } }

@[simp]
theorem phase_setPhase_self (i : Nat) (phase : Phase ν ε) : (s.setPhase i phase).phase i = phase :=
  if_pos rfl

theorem phase_setPhase_of_ne {i j : Nat} (h : j ≠ i) (phase : Phase ν ε) :
    (s.setPhase i phase).phase j = s.phase j :=
  if_neg h

end State

variable {κ ν ε : Type} [BEq κ]

/-- Whether an insertion for the key empties the cache first. -/
def emptiedFor (cache : Cache κ ν) (key : κ) : Bool :=
  (cache.get? key).isNone && decide (cache.capacity ≤ cache.entries.length)

/-- The call `i` inserts the value that it computed for its key. -/
def State.insert (s : State κ ν ε) (i : Nat) (key : κ) (value : ν) : State κ ν ε :=
  let emptyings := if s.cache.emptiedFor key then s.emptyings + 1 else s.emptyings
  let (value, cache) := s.cache.insert key value
  State.finish { s with cache, emptyings } i (.ok value)

/-- Takes a step, if the call of the step is about to take it. -/
def step (calls : Nat → Call κ ν ε) (s : State κ ν ε) : Event → Option (State κ ν ε)
  | .lookUp i =>
    match s.phase i, s.cache.get? (calls i).key with
    | .waiting, some value => some (s.finish i (.ok value))
    | .waiting, none => some (s.setPhase i .missed)
    | _, _ => none
  | .complete i =>
    match s.phase i, (calls i).computed with
    | .missed, .error e => some (s.finish i (.error e))
    | .missed, .ok value => some (s.insert i (calls i).key value)
    | _, _ => none

/-- Takes steps in order. -/
def run (calls : Nat → Call κ ν ε) (s : State κ ν ε) : List Event → Option (State κ ν ε)
  | [] => some s
  | event :: events =>
    match step calls s event with
    | some s => run calls s events
    | none => none

/-! ## What a step can do -/

variable {calls : Nat → Call κ ν ε} {s s' : State κ ν ε} {event : Event}

/-- The steps from a state. -/
inductive Step (calls : Nat → Call κ ν ε) (s : State κ ν ε) : Event → State κ ν ε → Prop
  | hit {i : Nat} {value : ν} : s.phase i = .waiting → s.cache.get? (calls i).key = some value →
      Step calls s (.lookUp i) (s.finish i (.ok value))
  | miss {i : Nat} : s.phase i = .waiting → s.cache.get? (calls i).key = none →
      Step calls s (.lookUp i) (s.setPhase i .missed)
  | fail {i : Nat} {e : ε} : s.phase i = .missed → (calls i).computed = .error e →
      Step calls s (.complete i) (s.finish i (.error e))
  | late {i : Nat} {computed value : ν} : s.phase i = .missed → (calls i).computed = .ok computed →
      s.cache.get? (calls i).key = some value →
      Step calls s (.complete i) (s.finish i (.ok value))
  | add {i : Nat} {value : ν} : s.phase i = .missed → (calls i).computed = .ok value →
      s.cache.get? (calls i).key = none → s.cache.entries.length < s.cache.capacity →
      Step calls s (.complete i)
        (State.finish
          { s with cache.entries := ((calls i).key, value) :: s.cache.entries } i (.ok value))
  | replace {i : Nat} {value : ν} : s.phase i = .missed → (calls i).computed = .ok value →
      s.cache.get? (calls i).key = none → s.cache.capacity ≤ s.cache.entries.length →
      Step calls s (.complete i)
        (State.finish
          { s with cache.entries := [((calls i).key, value)], emptyings := s.emptyings + 1 }
          i (.ok value))

theorem State.insert_of_present {i : Nat} {key : κ} {present : ν}
    (h : s.cache.get? key = some present) (value : ν) :
    s.insert i key value = s.finish i (.ok present) := by
  simp [State.insert, emptiedFor, Cache.insert, h]

theorem State.insert_of_lt {i : Nat} {key : κ} (h : s.cache.get? key = none)
    (hlt : s.cache.entries.length < s.cache.capacity) (value : ν) :
    s.insert i key value =
      State.finish { s with cache.entries := (key, value) :: s.cache.entries } i (.ok value) := by
  simp [State.insert, emptiedFor, Cache.insert, h, Nat.not_le.2 hlt]

theorem State.insert_of_le {i : Nat} {key : κ} (h : s.cache.get? key = none)
    (hle : s.cache.capacity ≤ s.cache.entries.length) (value : ν) :
    s.insert i key value =
      State.finish { s with cache.entries := [(key, value)], emptyings := s.emptyings + 1 } i
        (.ok value) := by
  simp [State.insert, emptiedFor, Cache.insert, h, hle]

/-- The steps that are taken are these. -/
theorem step_eq_some_iff : step calls s event = some s' ↔ Step calls s event s' := by
  constructor
  · intro h
    unfold step at h
    split at h
    · split at h
      · next hphase hget =>
        cases h
        exact .hit hphase hget
      · next hphase hget =>
        cases h
        exact .miss hphase hget
      · cases h
    · next i =>
      split at h
      · next hphase hcomputed =>
        cases h
        exact .fail hphase hcomputed
      · next value hphase hcomputed =>
        cases h
        cases hget : s.cache.get? (calls i).key with
        | some present =>
          rw [State.insert_of_present hget]
          exact .late hphase hcomputed hget
        | none =>
          rcases Nat.lt_or_ge s.cache.entries.length s.cache.capacity with hlt | hle
          · rw [State.insert_of_lt hget hlt]
            exact .add hphase hcomputed hget hlt
          · rw [State.insert_of_le hget hle]
            exact .replace hphase hcomputed hget hle
      · cases h
  · intro h
    cases h with
    | hit hphase hget => simp only [step, hphase, hget]
    | miss hphase hget => simp only [step, hphase, hget]
    | fail hphase hcomputed => simp only [step, hphase, hcomputed]
    | late hphase hcomputed hget =>
      simp only [step, hphase, hcomputed, State.insert_of_present hget]
    | add hphase hcomputed hget hlt =>
      simp only [step, hphase, hcomputed, State.insert_of_lt hget hlt]
    | replace hphase hcomputed hget hle =>
      simp only [step, hphase, hcomputed, State.insert_of_le hget hle]

/-- A step evicts nothing, unless it is the insertion of a new key into a full cache, which is then
emptied. -/
theorem entries_of_step (h : step calls s event = some s') :
    s.cache.entries <:+ s'.cache.entries ∧ s'.emptyings = s.emptyings ∨
      ∃ i value, event = .complete i ∧ (calls i).computed = .ok value ∧
        s.cache.get? (calls i).key = none ∧ s.cache.capacity ≤ s.cache.entries.length ∧
        s'.cache.entries = [((calls i).key, value)] ∧ s'.emptyings = s.emptyings + 1 := by
  cases step_eq_some_iff.1 h with
  | hit | miss | fail | late => exact .inl ⟨List.suffix_refl _, rfl⟩
  | add => exact .inl ⟨List.suffix_cons _ _, rfl⟩
  | @replace i value _ hcomputed hget hle =>
    exact .inr ⟨i, value, rfl, hcomputed, hget, hle, rfl, rfl⟩

/-! ## What holds at all times -/

/-- Some call for the key computed this value. -/
def ComputedFor (calls : Nat → Call κ ν ε) (key : κ) (value : ν) : Prop :=
  ∃ i, (calls i).key = key ∧ (calls i).computed = .ok value

/-- What holds of the cache and of all results after any steps. -/
structure Sound (calls : Nat → Call κ ν ε) (bound : Nat) (s : State κ ν ε) : Prop where
  capacity : s.cache.capacity = bound
  bounded : s.cache.entries.length ≤ bound
  stored : ∀ entry ∈ s.cache.entries, ComputedFor calls entry.1 entry.2
  returned : ∀ i value n, s.phase i = .finished (.ok value) n →
    ComputedFor calls (calls i).key value
  /-- The count of a result is one that was reached. -/
  reached : ∀ i result n, s.phase i = .finished result n → n ≤ s.emptyings
  /-- What was returned since the cache was last emptied is still there. -/
  kept : ∀ i value, s.phase i = .finished (.ok value) s.emptyings →
    s.cache.get? (calls i).key = some value
  /-- Calls for one key get one value as long as the cache is not emptied. -/
  agree : ∀ i j value value' n, s.phase i = .finished (.ok value) n →
    s.phase j = .finished (.ok value') n → (calls i).key = (calls j).key → value = value'

variable {bound : Nat}

theorem sound_start (calls : Nat → Call κ ν ε) (bound : Nat) :
    Sound calls bound (State.start bound) where
  capacity := rfl
  bounded := Nat.zero_le _
  stored := nofun
  returned := nofun
  reached := nofun
  kept := nofun
  agree := nofun

/-- An emptied cache has nothing of what was returned before, and none of it counts as recent. -/
theorem Sound.replace (h : Sound calls bound s) (hc : 1 ≤ bound) {key : κ} {value : ν}
    (hcomputed : ComputedFor calls key value) :
    Sound calls bound
      { s with cache.entries := [(key, value)], emptyings := s.emptyings + 1 } := by
  refine ⟨h.capacity, hc, ?_, h.returned, ?_, ?_, h.agree⟩
  · exact List.forall_mem_singleton.2 hcomputed
  · intro j result n hj
    exact Nat.le_succ_of_le (h.reached j result n hj)
  · intro j value' hj
    have hle : s.emptyings + 1 ≤ s.emptyings := h.reached j _ _ hj
    exact absurd hle (Nat.not_succ_le_self _)

section

variable [LawfulBEq κ]

theorem mem_of_get? {cache : Cache κ ν} {key : κ} {value : ν} (h : cache.get? key = some value) :
    (key, value) ∈ cache.entries := by
  obtain ⟨before, after, heq, -⟩ := List.lookup_eq_some_iff.1 h
  rw [heq]
  exact List.mem_append_right _ List.mem_cons_self

/-- A call goes on. If that ends it with a value, this is the one that the cache has for its key. -/
theorem Sound.setPhase (h : Sound calls bound s) {i : Nat} {phase : Phase ν ε}
    (hp : ∀ result n, phase = .finished result n → n = s.emptyings ∧
      ∀ value, result = .ok value → s.cache.get? (calls i).key = some value) :
    Sound calls bound (s.setPhase i phase) := by
  have hcases : ∀ j result n, (s.setPhase i phase).phase j = .finished result n →
      s.phase j = .finished result n ∨ j = i ∧ phase = .finished result n := by
    intro j result n hj
    by_cases hji : j = i
    · subst hji
      exact .inr ⟨rfl, by rwa [State.phase_setPhase_self] at hj⟩
    · exact .inl (by rwa [State.phase_setPhase_of_ne s hji] at hj)
  have hkept : ∀ j value, (s.setPhase i phase).phase j = .finished (.ok value) s.emptyings →
      s.cache.get? (calls j).key = some value := by
    intro j value hj
    rcases hcases j _ _ hj with hold | ⟨rfl, hnew⟩
    · exact h.kept j value hold
    · exact (hp _ _ hnew).2 value rfl
  refine ⟨h.capacity, h.bounded, h.stored, ?_, ?_, hkept, ?_⟩
  · intro j value n hj
    rcases hcases j _ _ hj with hold | ⟨rfl, hnew⟩
    · exact h.returned j value n hold
    · exact h.stored _ (mem_of_get? ((hp _ _ hnew).2 value rfl))
  · intro j result n hj
    rcases hcases j _ _ hj with hold | ⟨-, hnew⟩
    · exact h.reached j result n hold
    · exact Nat.le_of_eq (hp _ _ hnew).1
  · intro j k value value' n hj hk hkey
    by_cases hn : n = s.emptyings
    · -- both results are what the cache has for the key
      subst hn
      have hvalue := hkept j value hj
      rw [hkey, hkept k value' hk] at hvalue
      exact (Option.some.inj hvalue).symm
    · rcases hcases j _ _ hj with hold | ⟨-, hnew⟩
      · rcases hcases k _ _ hk with hold' | ⟨-, hnew⟩
        · exact h.agree j k value value' n hold hold' hkey
        · exact absurd (hp _ _ hnew).1 hn
      · exact absurd (hp _ _ hnew).1 hn

theorem Sound.finish_ok (h : Sound calls bound s) {i : Nat} {value : ν}
    (hget : s.cache.get? (calls i).key = some value) :
    Sound calls bound (s.finish i (.ok value)) := by
  refine h.setPhase ?_
  rintro _ _ ⟨⟩
  refine ⟨rfl, ?_⟩
  rintro _ ⟨⟩
  exact hget

theorem Sound.finish_error (h : Sound calls bound s) (i : Nat) (e : ε) :
    Sound calls bound (s.finish i (.error e)) := by
  refine h.setPhase ?_
  rintro _ _ ⟨⟩
  exact ⟨rfl, nofun⟩

theorem get?_cons_self (cache : Cache κ ν) (key : κ) (value : ν) (entries : List (κ × ν)) :
    ({ cache with entries := (key, value) :: entries } : Cache κ ν).get? key = some value := by
  simp [get?]

/-- Room for a new key: what the cache has for other keys stays. -/
theorem Sound.add (h : Sound calls bound s) {key : κ} {value : ν}
    (hcomputed : ComputedFor calls key value) (hget : s.cache.get? key = none)
    (hlt : s.cache.entries.length < s.cache.capacity) :
    Sound calls bound { s with cache.entries := (key, value) :: s.cache.entries } := by
  refine ⟨h.capacity, ?_, ?_, h.returned, h.reached, ?_, h.agree⟩
  · rw [← h.capacity]
    exact hlt
  · exact List.forall_mem_cons.2 ⟨hcomputed, h.stored⟩
  · intro j value' hj
    have hold := h.kept j value' hj
    have hne : ((calls j).key == key) = false := by
      rw [beq_eq_false_iff_ne]
      rintro rfl
      rw [hget] at hold
      cases hold
    rw [get?, List.lookup_cons, hne]
    exact hold

theorem sound_step (hc : 1 ≤ bound) (h : Sound calls bound s)
    (hs : step calls s event = some s') : Sound calls bound s' := by
  cases step_eq_some_iff.1 hs with
  | hit _ hget => exact h.finish_ok hget
  | miss => exact h.setPhase nofun
  | fail => exact h.finish_error _ _
  | late _ _ hget => exact h.finish_ok hget
  | @add i value _ hcomputed hget hlt =>
    exact (h.add ⟨i, rfl, hcomputed⟩ hget hlt).finish_ok (get?_cons_self ..)
  | @replace i value _ hcomputed =>
    exact (h.replace hc ⟨i, rfl, hcomputed⟩).finish_ok (get?_cons_self ..)

theorem sound_run (hc : 1 ≤ bound) {events : List Event} (h : Sound calls bound s)
    (hr : run calls s events = some s') : Sound calls bound s' := by
  induction events generalizing s with
  | nil =>
    cases hr
    exact h
  | cons event events ih =>
    rw [run] at hr
    split at hr
    · next hs => exact ih (sound_step hc h hs) hr
    · cases hr

end

/-! ## A call by itself -/

/-- When its steps come one after the other, a call gives what `getOrCompute` gives. -/
theorem exists_run_alone {i : Nat} (h : s.phase i = .waiting) :
    ∃ events s', run calls s events = some s' ∧
      s'.cache = (s.cache.getOrCompute (fun _ => (calls i).computed) (calls i).key).2 ∧
      s'.phase i =
        .finished (s.cache.getOrCompute (fun _ => (calls i).computed) (calls i).key).1
          s'.emptyings := by
  unfold getOrCompute
  cases hget : s.cache.get? (calls i).key with
  | some value =>
    refine ⟨[.lookUp i], s.finish i (.ok value), ?_, rfl, ?_⟩
    · rw [run, step_eq_some_iff.2 (.hit h hget)]
      rfl
    · exact State.phase_setPhase_self s i _
  | none =>
    let missed := s.setPhase i .missed
    have hmiss : step calls s (.lookUp i) = some missed := step_eq_some_iff.2 (.miss h hget)
    have hphase : missed.phase i = .missed := State.phase_setPhase_self s i _
    have hrun : ∀ s', step calls missed (.complete i) = some s' →
        run calls s [.lookUp i, .complete i] = some s' := by
      intro s' hs'
      rw [run, hmiss]
      dsimp only
      rw [run, hs']
      rfl
    cases hcomputed : (calls i).computed with
    | error e =>
      have hfail := step_eq_some_iff.2 (.fail hphase hcomputed)
      exact ⟨_, missed.finish i (.error e), hrun _ hfail, rfl, State.phase_setPhase_self missed i _⟩
    | ok value =>
      have hinsert : step calls missed (.complete i) =
          some (missed.insert i (calls i).key value) := by
        simp only [step, hphase, hcomputed]
      exact ⟨_, missed.insert i (calls i).key value, hrun _ hinsert, rfl,
        State.phase_setPhase_self _ i _⟩

end Cache

namespace EngineCache

open Cache (Call Event State Phase step run)

/-- The calls with the engine of each one numbered by the call. -/
def numbered (calls : Nat → Call EngineKey Engine Error) (i : Nat) :
    Call EngineKey NumberedEngine Error :=
  ⟨(calls i).key, (calls i).computed.map (⟨i, ·⟩)⟩

variable {calls : Nat → Call EngineKey Engine Error} {capacity : Nat}
  {s : State EngineKey NumberedEngine Error}

/-- The engine is the one that the call of its number compiled, and this was for the key. -/
def CompiledFor (calls : Nat → Call EngineKey Engine Error) (key : EngineKey)
    (e : NumberedEngine) : Prop :=
  (calls e.number).key = key ∧ (calls e.number).computed = .ok e.engine

theorem compiledFor_of_computedFor {key : EngineKey} {e : NumberedEngine}
    (h : Cache.ComputedFor (numbered calls) key e) : CompiledFor calls key e := by
  obtain ⟨i, hkey, hcomputed⟩ := h
  cases hengine : (calls i).computed with
  | error error =>
    rw [numbered, hengine] at hcomputed
    cases hcomputed
  | ok engine =>
    rw [numbered, hengine] at hcomputed
    cases hcomputed
    exact ⟨hkey, hengine⟩

/-- What callers can rely on, however their calls are interleaved. -/
structure Transparent (calls : Nat → Call EngineKey Engine Error) (capacity : Nat)
    (s : State EngineKey NumberedEngine Error) : Prop where
  bounded : s.cache.entries.length ≤ capacity
  stored : ∀ entry ∈ s.cache.entries, CompiledFor calls entry.1 entry.2
  returned : ∀ i e n, s.phase i = .finished (.ok e) n → CompiledFor calls (calls i).key e
  /-- A call that cannot compile returns the error. -/
  failure : ∀ i error, s.phase i = .missed → (calls i).computed = .error error →
    step (numbered calls) s (.complete i) = some (s.finish i (.error error))
  /-- A call that finds an engine returns it. -/
  hit : ∀ i e, s.phase i = .waiting → s.cache.get? (calls i).key = some e →
    step (numbered calls) s (.lookUp i) = some (s.finish i (.ok e))
  /-- A call returns the engine that was inserted for its key while it compiled its own. -/
  late : ∀ i engine e, s.phase i = .missed → (calls i).computed = .ok engine →
    s.cache.get? (calls i).key = some e →
    step (numbered calls) s (.complete i) = some (s.finish i (.ok e))
  /-- Nothing is evicted, except that the cache is emptied for a new key when it is full. -/
  evicts : ∀ event s', step (numbered calls) s event = some s' →
    s.cache.entries <:+ s'.cache.entries ∧ s'.emptyings = s.emptyings ∨
      ∃ i engine, event = .complete i ∧ (calls i).computed = .ok engine ∧
        s.cache.get? (calls i).key = none ∧ s.cache.entries.length = capacity ∧
        s'.cache.entries = [((calls i).key, ⟨i, engine⟩)] ∧ s'.emptyings = s.emptyings + 1
  /-- Calls for one key that finish between two emptyings return one engine. -/
  stable : ∀ i j e e' n, s.phase i = .finished (.ok e) n → s.phase j = .finished (.ok e') n →
    (calls i).key = (calls j).key → e = e'

theorem transparent_of_sound (hs : Cache.Sound (numbered calls) capacity s) :
    Transparent calls capacity s := by
  refine ⟨hs.bounded, ?_, ?_, ?_, ?_, ?_, ?_, hs.agree⟩
  · intro entry hentry
    exact compiledFor_of_computedFor (hs.stored entry hentry)
  · intro i e n hi
    exact compiledFor_of_computedFor (hs.returned i e n hi)
  · intro i error hi herror
    have hcomputed : (numbered calls i).computed = .error error := by rw [numbered, herror]; rfl
    exact Cache.step_eq_some_iff.2 (.fail hi hcomputed)
  · intro i e hi hget
    exact Cache.step_eq_some_iff.2 (.hit hi hget)
  · intro i engine e hi hengine hget
    have hcomputed : (numbered calls i).computed = .ok ⟨i, engine⟩ := by rw [numbered, hengine]; rfl
    exact Cache.step_eq_some_iff.2 (.late hi hcomputed hget)
  · intro event s' hstep
    rcases Cache.entries_of_step hstep with hkept | ⟨i, e, rfl, he, hget, hfull, hentries, hn⟩
    · exact .inl hkept
    · rw [hs.capacity] at hfull
      have hlength := Nat.le_antisymm hs.bounded hfull
      cases hengine : (calls i).computed with
      | error error =>
        rw [numbered, hengine] at he
        cases he
      | ok engine =>
        rw [numbered, hengine] at he
        cases he
        exact .inr ⟨i, engine, rfl, hengine, hget, hlength, hentries, hn⟩

/-- The engine of a key, by a call whose steps come one after the other. -/
theorem exists_run_engineFor (engines : EngineCache) (key : EngineKey)
    (hcall : calls engines.requests =
      ⟨key, Engine.compile key.dialect key.source key.flags⟩)
    (hcache : s.cache = engines.cache) (hphase : s.phase engines.requests = .waiting) :
    ∃ events s', run (numbered calls) s events = some s' ∧
      s'.cache = (engines.engineFor key).2.cache ∧
      s'.phase engines.requests = .finished (engines.engineFor key).1 s'.emptyings := by
  obtain ⟨events, s', hr, hs', hp⟩ : ∃ events s', run (numbered calls) s events = some s' ∧ _ :=
    Cache.exists_run_alone hphase
  refine ⟨events, s', hr, ?_, ?_⟩
  · rw [hs', hcache, numbered, hcall]
    rfl
  · rw [hp, hcache, numbered, hcall]
    rfl

/-- All of it holds at all times. From any such state on, `engineFor` is a call whose steps come one
after the other: it gives the result of the call, and leaves the cache that the call leaves. -/
theorem calls_transparent (hc : 1 ≤ capacity) {events : List Event}
    (h : run (numbered calls) (State.start capacity) events = some s) :
    Transparent calls capacity s ∧
      ∀ (engines : EngineCache) (key : EngineKey),
        calls engines.requests = ⟨key, Engine.compile key.dialect key.source key.flags⟩ →
        s.cache = engines.cache → s.phase engines.requests = .waiting →
        ∃ alone s', run (numbered calls) s alone = some s' ∧
          s'.cache = (engines.engineFor key).2.cache ∧
          s'.phase engines.requests = .finished (engines.engineFor key).1 s'.emptyings := by
  constructor
  · exact transparent_of_sound
      (Cache.sound_run hc (Cache.sound_start (numbered calls) capacity) h)
  · intro engines key hcall hcache hphase
    exact exists_run_engineFor engines key hcall hcache hphase

/-- The engine of a letter. -/
def letter (c : Char) : Engine :=
  ⟨⟨.group { role := .root } (.sequence [.atom (.literal c)]), 0, {}⟩, {}⟩

/-- Calls for the engines of two letters, of which the first two calls are for one. -/
def rivals (i : Nat) : Call EngineKey Engine Error :=
  let key : EngineKey := if i < 2 then ⟨.lenient, "a", ""⟩ else ⟨.lenient, "b", ""⟩
  ⟨key, Engine.compile key.dialect key.source key.flags⟩

theorem compile_letter {c : Char} {source : String}
    (h : Pattern.readPattern .lenient source.toList = .ok (letter c).pattern) :
    Engine.compile .lenient source "" = .ok (letter c) := by
  have hflags : Flags.parse "".toList = .ok {} := rfl
  have hparse : Pattern.parse .lenient source.toList = .ok (letter c).pattern := by
    rw [Pattern.parse, h]
    rfl
  exact Engine.compile_eq_ok hflags hparse

theorem rivals_eq : rivals = fun i =>
    if i < 2 then ⟨⟨.lenient, "a", ""⟩, .ok (letter 'a')⟩
    else ⟨⟨.lenient, "b", ""⟩, .ok (letter 'b')⟩ := by
  have ha : Engine.compile .lenient "a" "" = .ok (letter 'a') := compile_letter (by cbv)
  have hb : Engine.compile .lenient "b" "" = .ok (letter 'b') := compile_letter (by cbv)
  funext i
  rw [rivals, ← ha, ← hb]
  split <;> rfl

/-- The first two calls compile at the same time. The second one ends when the cache is full: it
returns the engine of the first one, and nothing is evicted before the third one ends. A fourth call
finds the engine of the third one. -/
theorem calls_transparent_rivals : ∃ s : State EngineKey NumberedEngine Error,
    let engines : EngineCache := ⟨s.cache, 3⟩
    let key : EngineKey := ⟨.lenient, "b", ""⟩
    1 ≤ 1 ∧
      run (numbered rivals) (State.start 1)
        [.lookUp 0, .lookUp 1, .complete 0, .complete 1, .lookUp 2, .complete 2] = some s ∧
      s.phase 1 = .finished (.ok ⟨0, letter 'a'⟩) 0 ∧
      s.cache.entries = [(key, ⟨2, letter 'b'⟩)] ∧
      (engines.engineFor key).1 = .ok ⟨2, letter 'b'⟩ ∧
      Transparent rivals 1 s ∧
      ∃ alone s', run (numbered rivals) s alone = some s' ∧
        s'.cache = (engines.engineFor key).2.cache ∧
        s'.phase 3 = .finished (engines.engineFor key).1 s'.emptyings := by
  obtain ⟨s, hrun, hlate, hentries, hwaiting, hfound⟩ :
      ∃ s : State EngineKey NumberedEngine Error, run (numbered rivals) (State.start 1)
        [.lookUp 0, .lookUp 1, .complete 0, .complete 1, .lookUp 2, .complete 2] = some s ∧
      s.phase 1 = .finished (.ok ⟨0, letter 'a'⟩) 0 ∧
      s.cache.entries = [(⟨.lenient, "b", ""⟩, ⟨2, letter 'b'⟩)] ∧ s.phase 3 = .waiting ∧
      ((⟨s.cache, 3⟩ : EngineCache).engineFor ⟨.lenient, "b", ""⟩).1 = .ok ⟨2, letter 'b'⟩ := by
    rw [rivals_eq]
    exact ⟨_, rfl, rfl, rfl, rfl, rfl⟩
  obtain ⟨hall, hcall⟩ := calls_transparent (Nat.le_refl 1) hrun
  exact ⟨s, Nat.le_refl 1, hrun, hlate, hentries, hfound, hall,
    hcall ⟨s.cache, 3⟩ _ rfl rfl hwaiting⟩

end EngineCache

end PatternGen
