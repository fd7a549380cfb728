import PatternGen.Proofs.Replay

/-!
# Logs as a prefix code

A replay reads its log from the front and uses no more of it than it needs. It either accepts the
values that it used, whatever comes after them, or asks for more of them, or refuses one of them.

Results:
* `Engine.replay_outcome`: what is known of a log and of others like it, by the result of its
  replay.
-/

namespace PatternGen.Engine

variable {engine : Engine}

/-- The first `k` values of the log, and no fewer, settle what is generated. -/
structure Accepts (engine : Engine) (log : List Nat) (g : Generation) (k : Nat) : Prop where
  le : k ≤ log.length
  replay : engine.replay log = (.ok g, ⟨log.drop k, k⟩)
  decisions : g.decisions.toList = log.take k
  agree : ∀ other : List Nat, other.take k = log.take k →
    engine.replay other = (.ok g, ⟨other.drop k, k⟩)
  shorter : ∀ j < k, engine.replay (log.take j) = (.error (.exhaustedLog j), ⟨[], j⟩)

/-- The log is too short, but can be completed. -/
structure Exhausts (engine : Engine) (log : List Nat) : Prop where
  replay : engine.replay log = (.error (.exhaustedLog log.length), ⟨[], log.length⟩)
  completed : ∃ more g, engine.replay (log ++ more) = (.ok g, ⟨[], (log ++ more).length⟩)

/-- The value at position `p` of the log is the first that is out of the bounds that are set for
it. -/
structure Refuses (engine : Engine) (log : List Nat) (p value lo hi : Nat) : Prop where
  lt : p < log.length
  value_eq : log[p]? = some value
  outside : value < lo ∨ hi < value
  inOrder : lo ≤ hi
  replay : engine.replay log = (.error (.valueOutOfBounds p value lo hi), ⟨log.drop p, p⟩)
  agree : ∀ other : List Nat, other.take (p + 1) = log.take (p + 1) →
    (engine.replay other).1 = .error (.valueOutOfBounds p value lo hi)
  shorter : engine.replay (log.take p) = (.error (.exhaustedLog p), ⟨[], p⟩)
  mended : ∀ v, lo ≤ v → v ≤ hi → ∀ rest, p < (engine.replay (log.take p ++ v :: rest)).2.used

theorem accepts_of_ends (h : engine.pattern.root.Regular) {vs : List Nat} {text : List Char}
    {c : Captures} (he : engine.plan.Ends {} vs text c) (rest : List Nat) :
    engine.Accepts (vs ++ rest) ⟨String.ofList text, .ofList vs, 0⟩ vs.length where
  le := by simp
  replay := by
    rw [replay_of_ends h he, List.drop_left]
  decisions := by
    rw [DecisionLog.toList_ofList, List.take_left]
  agree other ho := by
    rw [List.take_left] at ho
    have hr := replay_of_ends h he (other.drop vs.length)
    nth_rewrite 1 [← ho] at hr
    rw [List.take_append_drop] at hr
    exact hr
  shorter j hj := by
    obtain ⟨lo, hi, ha⟩ := Plan.asks_take_of_ends he hj
    have hr := replay_of_asks_end h ha
    rw [List.length_take_of_le (Nat.le_of_lt hj)] at hr
    rw [List.take_append_of_le_length (Nat.le_of_lt hj), hr]

theorem exhausts_of_asks (h : engine.pattern.root.Regular) {vs : List Nat} {lo hi : Nat}
    (ha : engine.plan.Asks {} vs lo hi) : engine.Exhausts vs where
  replay := replay_of_asks_end h ha
  completed := by
    obtain ⟨more, text, c, he⟩ := Plan.exists_ends_append (Token.answerable engine.settings h) ha
    have hr := replay_of_ends h he []
    rw [List.append_nil] at hr
    exact ⟨more, _, hr⟩

theorem refuses_of_asks (h : engine.pattern.root.Regular) {vs : List Nat} {lo hi v : Nat}
    (ha : engine.plan.Asks {} vs lo hi) (hle : lo ≤ hi) (hv : v < lo ∨ hi < v)
    (rest : List Nat) : engine.Refuses (vs ++ v :: rest) vs.length v lo hi where
  lt := by simp
  value_eq := by simp
  outside := hv
  inOrder := hle
  replay := by
    rw [replay_of_asks_outside h ha hv, List.drop_left]
  agree other ho := by
    rw [List.take_length_add_append, List.take_succ_cons, List.take_zero] at ho
    -- `other` goes on in its own way after the value that is refused
    have hother : other = vs ++ v :: other.drop (vs.length + 1) := by
      conv_lhs => rw [← List.take_append_drop (vs.length + 1) other, ho]
      simp
    rw [hother, replay_of_asks_outside h ha hv]
  shorter := by
    rw [List.take_left, replay_of_asks_end h ha]
  mended w hlo hhi rest' := by
    rw [List.take_left]
    exact used_of_asks h ha hlo hhi rest'

/-- The result of a replay tells how the log was read, and what becomes of logs that begin like
it. There are no other results. -/
theorem replay_outcome {dialect : Dialect} {text : List Char}
    (h : Pattern.parse dialect text = .ok engine.pattern) (log : List Nat) :
    match (engine.replay log).1 with
    | .ok g => ∃ k, engine.Accepts log g k
    | .error (.exhaustedLog used) => used = log.length ∧ engine.Exhausts log
    | .error (.valueOutOfBounds p value lo hi) => engine.Refuses log p value lo hi
    | .error _ => False := by
  have hreg := Pattern.regular_of_parse h
  have hans := Token.answerable engine.settings hreg
  rcases Plan.ends_or_asks hans {} log with
    ⟨vs, rest, w, c, rfl, he⟩ | ⟨lo, hi, ha⟩ | ⟨vs, v, rest, lo, hi, rfl, ha, hle, hv⟩
  · have hacc := accepts_of_ends hreg he rest
    rw [hacc.replay]
    exact ⟨vs.length, hacc⟩
  · have hexh := exhausts_of_asks hreg ha
    rw [hexh.replay]
    exact ⟨rfl, hexh⟩
  · have href := refuses_of_asks hreg ha hle hv rest
    rw [href.replay]
    exact href

theorem replay_outcome_echo :
    (∃ k, (Engine.mk .echo {}).Accepts [2, 0, 0, 1, 7, 3] ⟨"a77", .ofList [2, 0, 0, 1, 7], 0⟩ k) ∧
      (Engine.mk .echo {}).Exhausts [2, 0, 0, 1] ∧
      (Engine.mk .echo {}).Refuses [1, 1, 1, 12] 3 12 0 9 :=
  have h := @replay_outcome ⟨.echo, {}⟩ _ _ Pattern.parse_echo
  have hshort : 4 = 4 ∧ (Engine.mk .echo {}).Exhausts [2, 0, 0, 1] := h [2, 0, 0, 1]
  ⟨h [2, 0, 0, 1, 7, 3], hshort.2, h [1, 1, 1, 12]⟩

end PatternGen.Engine
