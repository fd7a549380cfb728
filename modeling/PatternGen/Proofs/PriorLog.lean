import PatternGen.Proofs.Blindness
import PatternGen.Proofs.Safety

/-!
# The log before a walk

A walk writes into its log by position, cuts off parts of it and takes them up again, and yet all
that it does to the log is to add decisions to its end. Neither these decisions nor anything else
depends on what the log held before: from one source and the same captures, a walk comes to the same
end from every log. That is so if it stops with an error, too. What a replay adds are the values
that it took, those between its old place in the log that it replays and its new one.

Results:
* `Token.adds`: what the steps of a token do from the empty log they do from every log.
* `Token.exists_reads`: the replay of a token, with any target, records what it takes.
* `Token.step_only_appends`: both, for free runs, steered ones and replays.
-/

namespace PatternGen

variable {σ : Type} {α : Type}

/-! ## What a walk adds -/

/-- With the captures `c`, from the state `source` and every log, the walk stops with `r` and
leaves the state `source'`. It adds the decisions of `kept` to the log, and leaves its captures. -/
def Walk.Adds (x : Walk σ α) (source : σ) (c : Captures) (r : Except Error α) (source' : σ)
    (kept : Walk.Kept) : Prop :=
  ∀ log, x ⟨source, log, c⟩ = stop r ⟨source', log.append kept.decisions, kept.captures⟩

/-- A chooser answers itself alike. -/
theorem Chooser.inStep_self (chooser : Chooser σ) : chooser.InStep Eq chooser where
  answer {s t} lo hi hst := by
    subst hst
    cases h : chooser.answer lo hi s with
    | ok v s' => exact .inl ⟨v, s', s', rfl, rfl, rfl⟩
    | error e s' => exact .inr ⟨e, s', s', rfl, rfl, rfl⟩
  steered := rfl
  recounts := rfl

variable {chooser : Chooser σ} {settings : Settings} {token : Token}

/-- What the walk through a token does from the empty log, it does from every log. -/
theorem Token.adds (h : token.Regular) {target : List Char} {source : σ} {c : Captures}
    {r : Except Error Produced} {s : Walk.State σ}
    (hrun : token.step chooser settings target ⟨source, {}, c⟩ = Walk.stop r s) :
    Walk.Adds (token.step chooser settings target) source c r s.source
      ⟨s.log.toList, s.captures⟩ := by
  intro log
  obtain ⟨_, rfl, hlog⟩ := (Token.inStep chooser.inStep_self settings h target).from_log rfl hrun log
  exact hlog

/-- What it does with its draws kept, from the empty log, it also does without, from every log. -/
theorem Token.adds_of_traced {sampler : Sampler σ} {steered : Bool} (h : token.Regular)
    {target : List Char} {t : Traced σ} {c : Captures} {r : Except Error Produced}
    {s : Walk.State (Traced σ)}
    (hrun : token.step (.drawing sampler.traced steered) settings target ⟨t, {}, c⟩ =
      Walk.stop r s) :
    Walk.Adds (token.step (.drawing sampler steered) settings target) t.state c r s.source.state
      ⟨s.log.toList, s.captures⟩ := by
  intro log
  have ht : Sampler.Traces t.state t := rfl
  obtain ⟨_, rfl, hlog⟩ :=
    (Token.inStep (Sampler.inStep_traced steered) settings h target).from_log ht hrun log
  exact hlog

/-- A sampler that answers within bounds does so with its draws kept. -/
theorem Chooser.Draws.traced {sampler : Sampler σ} {steered : Bool} {I : σ → Prop}
    (hd : (Chooser.drawing sampler steered).Draws I) :
    (Chooser.drawing sampler.traced steered).Draws fun t => I t.state where
  answer h hI := by
    obtain ⟨v, s', ha, hv, hI'⟩ := hd.answer h hI
    cases ha
    exact ⟨_, _, rfl, hv, hI'⟩
  recounts := rfl

/-! ## What a replay takes -/

theorem Walk.finalState_stop (r : Except Error α) (s : Walk.State σ) :
    Plan.finalState (stop r s) = s := by
  cases r with
  | ok a => rfl
  | error e => rfl

/-- The replay of a token records what it takes of its log, whatever the target is. -/
theorem Token.exists_reads (settings : Settings) {token : Token} (h : token.Regular)
    (target : List Char) (s : Walk.State Chooser.Replay) :
    ∃ values, Plan.Reads s (Plan.finalState (token.step .replay settings target s)) values := by
  rw [(Token.sameStop_plan settings h target s).finalState_eq]
  exact (token.plan settings).exists_reads s

/-- What was read from the place `cursor` of a log on is the slice up to the place that the replay
came to. -/
theorem Plan.Reads.exists_slice {s s' : Walk.State Chooser.Replay} {values read : List Nat}
    {cursor : Nat} (h : Reads s s' read) (hs : s.source = ⟨values.drop cursor, cursor⟩)
    (hcursor : cursor ≤ values.length) :
    ∃ cursor', cursor ≤ cursor' ∧ cursor' ≤ values.length ∧
      s'.source = ⟨values.drop cursor', cursor'⟩ ∧ read = values.extract cursor cursor' := by
  have hpending : values.drop cursor = read ++ s'.source.pending := by
    rw [← h.pending, hs]
  have hused : s'.source.used = cursor + read.length := by
    rw [h.used, hs]
  refine ⟨cursor + read.length, Nat.le_add_right cursor _, ?_, ?_, ?_⟩
  · have hlen := congrArg List.length hpending
    rw [List.length_drop, List.length_append] at hlen
    omega
  · rw [← List.drop_drop, hpending, List.drop_left, ← hused]
  · rw [List.extract_eq_take_drop, hpending, Nat.add_sub_cancel_left, List.take_left]

/-! ## Token trees -/

/-- From the same source and captures and along the same target, a run does from every log what it
does from any other: it stops with the same value or error, leaves the same source and captures,
and adds the same decisions to the end of the log. A free run and a steered one whose sampler is in
a state from which it answers within bounds end with a text, after the same draws; a replay adds the
slice of the log that it replays between its old place there and its new one. -/
theorem Token.step_only_appends (settings : Settings) {token : Token} (h : token.Regular)
    (target : List Char) (c : Captures) :
    (∀ {σ : Type} {sampler : Sampler σ} {steered : Bool} {I : σ → Prop},
      (Chooser.drawing sampler steered).Draws I → ∀ source, I source → ∃ p t kept,
        Walk.Adds (token.step (.drawing sampler steered) settings target) source c (.ok p) t.state
          kept ∧
        Walk.Adds (token.step (.drawing sampler.traced steered) settings target) ⟨source, #[]⟩ c
          (.ok p) t kept) ∧
    ∀ (values : List Nat) (cursor : Nat), cursor ≤ values.length → ∃ r cursor' c',
      cursor ≤ cursor' ∧ cursor' ≤ values.length ∧
      Walk.Adds (token.step .replay settings target) ⟨values.drop cursor, cursor⟩ c r
        ⟨values.drop cursor', cursor'⟩ ⟨values.extract cursor cursor', c'⟩ := by
  constructor
  · intro σ sampler steered I hd source hI
    obtain ⟨p, s, -, hrun, -⟩ :=
      Token.follows hd.traced settings h target ⟨⟨source, #[]⟩, {}, c⟩ hI
    exact ⟨p, s.source, ⟨s.log.toList, s.captures⟩, Token.adds_of_traced (r := .ok p) h hrun,
      Token.adds (r := .ok p) h hrun⟩
  · intro values cursor hcursor
    let start : Walk.State Chooser.Replay := ⟨⟨values.drop cursor, cursor⟩, {}, c⟩
    obtain ⟨r, s, hrun⟩ := Walk.exists_stop (token.step .replay settings target start)
    obtain ⟨read, hread⟩ := Token.exists_reads settings h target start
    rw [hrun, Walk.finalState_stop] at hread
    obtain ⟨cursor', hle, hle', hsource, hslice⟩ := hread.exists_slice rfl hcursor
    have hlog : s.log.toList = read := by
      rw [hread.log, DecisionLog.toList_append]
      rfl
    refine ⟨r, cursor', s.captures, hle, hle', ?_⟩
    rw [← hslice, ← hsource, ← hlog]
    exact Token.adds h hrun

/-- Of the four draws of the run along `a7` three are made in attempts that are given up. The replay
begins at the second value of its log and refuses the last one. -/
theorem Token.step_only_appends_echo :
    let root := Pattern.echo.root
    let c : Captures := ⟨[(1, ['x'])]⟩
    root.Regular ∧ (Chooser.drawing Sampler.tape true).Draws (fun _ => True) ∧ 1 ≤ 5 ∧
    (∃ p t kept,
      Walk.Adds (root.step (.drawing .tape true) {} ['a', '7']) [2, 0, 5] c (.ok p) t.state kept ∧
      Walk.Adds (root.step (.drawing (.traced .tape) true) {} ['a', '7']) ⟨[2, 0, 5], #[]⟩ c (.ok p)
        t kept) ∧
    ∃ r cursor' c', 1 ≤ cursor' ∧ cursor' ≤ 5 ∧
      Walk.Adds (root.step .replay {} ['a', '7']) ⟨[2, 0, 0, 99], 1⟩ c r
        ⟨[9, 2, 0, 0, 99].drop cursor', cursor'⟩ ⟨[9, 2, 0, 0, 99].extract 1 cursor', c'⟩ := by
  intro root c
  have hreg : root.Regular := Pattern.regular_of_parse Pattern.parse_echo
  have hd : (Chooser.drawing Sampler.tape true).Draws fun _ => True :=
    Sampler.tape_withinBounds.draws (fun _ _ => trivial) true
  have hle : 1 ≤ [9, 2, 0, 0, 99].length := by decide
  obtain ⟨hdraws, hreplay⟩ := Token.step_only_appends {} hreg ['a', '7'] c
  exact ⟨hreg, hd, hle, hdraws hd [2, 0, 5] trivial, hreplay [9, 2, 0, 0, 99] 1 hle⟩

end PatternGen
