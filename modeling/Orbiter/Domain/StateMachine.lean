import Mathlib.Data.List.Basic
import Mathlib.Tactic.Cases

/-!
# The job lifecycle state machine

`apply` judges one event against a state, and `replay` folds a whole event log. A job's state is a
projection of its log, so the facts proved here are about logs. Everything above this module uses
the table through them: `transitions` itself is read by cases here and in the grammar only.

* `replay_concat`, `replay_concat_inv` — a replayable log is extended by exactly the events legal in
  the state it replays to;
* `target_of_apply`, `getLast?_of_replay` — every event type leads to one state only, whatever state
  it started from, so the state a log replays to is the target of its **last** event;
* `eq_nil_of_replay_terminal`, `succ_eq_length_of_replay_final` — nothing follows a `completed` or
  `failed` event, so it is the last one of its log and there is at most one;
* `isSettled_of_deadLettered_illegal`, `isSettled_of_started_illegal` — what a refusal says about
  the state: past the submission, only a settled job refuses these events. A worker and the listener
  read a refusal as "somebody else has decided", and this is why they may. A completion is refused
  by a queued job as well (`isSettled_of_completed_illegal`);
* `eq_deadLettered_of_transitions`, `eq_replayed_of_transitions`,
  `deadLetter_of_settled_transitions` — one event enters the DLQ, one leaves it, and this one is all
  that revives a settled job.

`ReplayError` keeps the empty log apart from an illegal event, as the source's exceptions do.
-/

namespace Orbiter

/-- The states a job can be in. -/
inductive JobState
  | submitted
  | queued
  | running
  | succeeded
  | failed
  | deadLetter
  deriving DecidableEq, Repr

/-- The events of the audit trail. -/
inductive EventType
  | submitted
  | enqueued
  | started
  | completed
  /-- Non-retryable, or retries exhausted at the application layer. -/
  | failed
  /-- Retryable failure, or worker lost mid-run. -/
  | requeued
  /-- `MaxDeliver` exhausted: quarantined. -/
  | deadLettered
  /-- An operator re-injects a dead-lettered job. -/
  | replayed
  deriving DecidableEq, Repr

/-- The exception of an event that is not legal in a state; `none` is a job that does not exist. -/
structure IllegalTransition where
  /-- The state the event met. -/
  state : Option JobState
  /-- The refused event. -/
  event : EventType
  deriving DecidableEq, Repr

/-- The transition table. Absence means illegal. -/
def transitions : JobState → EventType → Option JobState
  | .submitted, .enqueued => some .queued
  | .queued, .started => some .running
  | .queued, .deadLettered => some .deadLetter
  | .running, .completed => some .succeeded
  | .running, .failed => some .failed
  | .running, .requeued => some .queued
  | .running, .deadLettered => some .deadLetter
  -- A lost worker leaves the job running; the redelivery's `started` is the recovery.
  | .running, .started => some .running
  | .deadLetter, .replayed => some .queued
  | _, _ => none

/-- The state after an event, or the refusal. A job that does not exist yet accepts `submitted`
only. -/
def apply (state : Option JobState) (event : EventType) : Except IllegalTransition JobState :=
  match state with
  | none => if event = .submitted then .ok .submitted else .error ⟨none, event⟩
  | some s =>
    match transitions s event with
    | none => .error ⟨some s, event⟩
    | some next => .ok next

/-- How folding a log can fail. -/
inductive ReplayError
  | illegal (e : IllegalTransition)
  /-- `ValueError`: cannot replay an empty event log. -/
  | emptyLog
  deriving DecidableEq, Repr

/-- The loop of `replay`, from any state. -/
def replayFrom : Option JobState → List EventType → Except IllegalTransition (Option JobState)
  | state, [] => .ok state
  | state, event :: events =>
    match apply state event with
    | .error e => .error e
    | .ok next => replayFrom (some next) events

/-- Fold an event log into the current state. -/
def replay (events : List EventType) : Except ReplayError JobState :=
  match replayFrom none events with
  | .error e => .error (.illegal e)
  | .ok none => .error .emptyLog
  | .ok (some state) => .ok state

/-- The states from which no event is ever legal again. -/
def JobState.isTerminal : JobState → Bool
  | .succeeded | .failed => true
  | _ => false

/-- The states in which a job waits for nobody: terminal, or quarantined until an operator acts. -/
def JobState.isSettled : JobState → Bool
  | .succeeded | .failed | .deadLetter => true
  | _ => false

/-- The one state an event leads to, from wherever it is legal. -/
def EventType.target : EventType → JobState
  | .submitted => .submitted
  | .enqueued | .requeued | .replayed => .queued
  | .started => .running
  | .completed => .succeeded
  | .failed => .failed
  | .deadLettered => .deadLetter

/-- The two events that end a job. -/
def EventType.isFinal : EventType → Bool
  | .completed | .failed => true
  | _ => false

/-! ### One event -/

theorem apply_some_eq_ok {s s' : JobState} {e : EventType} :
    apply (some s) e = .ok s' ↔ transitions s e = some s' := by
  rw [apply]
  cases transitions s e <;> simp

/-- What is refused is what the table lacks, and the error names state and event. -/
theorem apply_some_eq_error {s : JobState} {e : EventType} {x : IllegalTransition} :
    apply (some s) e = .error x ↔ transitions s e = none ∧ x = ⟨some s, e⟩ := by
  rw [apply]
  cases transitions s e <;> simp [eq_comm]

/-- The event decides the state it leads to. -/
theorem target_of_transitions {s s' : JobState} {e : EventType}
    (h : transitions s e = some s') : s' = e.target := by
  cases s <;> cases e <;> first
    | exact (Option.some.inj h).symm
    | contradiction

/-- A job past `submitted` stays past it, and is not submitted or enqueued again. -/
theorem past_submitted {s s' : JobState} {e : EventType} (hs : s ≠ .submitted)
    (h : transitions s e = some s') : e ≠ .submitted ∧ e ≠ .enqueued ∧ s' ≠ .submitted := by
  obtain rfl := target_of_transitions h
  cases s <;> cases e <;> first
    | contradiction
    | decide

/-- Nothing leads back to `submitted`. -/
theorem ne_submitted_of_transitions {s s' : JobState} {e : EventType}
    (h : transitions s e = some s') : s' ≠ .submitted := by
  rintro rfl
  cases s <;> cases e <;> contradiction

/-- As `target_of_transitions`, the first event included. -/
theorem target_of_apply {state : Option JobState} {e : EventType} {s' : JobState}
    (h : apply state e = .ok s') : s' = e.target := by
  cases state with
  | none =>
    rw [apply] at h
    split at h
    · next he => rw [he]; exact (Except.ok.inj h).symm
    · exact absurd h (by simp)
  | some s => exact target_of_transitions (apply_some_eq_ok.1 h)

@[simp] theorem transitions_terminal {s : JobState} (h : s.isTerminal = true) (e : EventType) :
    transitions s e = none := by
  cases s <;> first
    | contradiction
    | (cases e <;> rfl)

/-- The final events are those that lead to a terminal state. -/
theorem isTerminal_target {e : EventType} : e.target.isTerminal = e.isFinal := by
  cases e <;> rfl

/-- An outcome is legal while the job runs, and in no other state. -/
theorem eq_running_of_transitions {s s' : JobState} {e : EventType}
    (he : e = .completed ∨ e = .failed ∨ e = .requeued) (h : transitions s e = some s') :
    s = .running := by
  rcases he with rfl | rfl | rfl <;> cases s <;> first
    | rfl
    | contradiction

/-- The DLQ is entered by a quarantine. -/
theorem eq_deadLettered_of_transitions {s : JobState} {e : EventType}
    (h : transitions s e = some .deadLetter) : e = .deadLettered := by
  cases s <;> cases e <;> first
    | rfl
    | contradiction

/-- The DLQ is left by a replay. -/
theorem eq_replayed_of_transitions {s' : JobState} {e : EventType}
    (h : transitions .deadLetter e = some s') : e = .replayed := by
  cases e <;> first
    | rfl
    | contradiction

/-- The one event that revives a settled job is the replay of a dead-lettered one. -/
theorem deadLetter_of_settled_transitions {s s' : JobState} {e : EventType}
    (hs : s.isSettled = true) (h : transitions s e = some s') :
    s = .deadLetter ∧ e = .replayed := by
  cases s with
  | deadLetter => exact ⟨rfl, eq_replayed_of_transitions h⟩
  | succeeded => exact absurd (h.symm.trans (transitions_terminal rfl e)) (Option.some_ne_none s')
  | failed => exact absurd (h.symm.trans (transitions_terminal rfl e)) (Option.some_ne_none s')
  | _ => contradiction

/-- A dead-letter event leaves the job settled whether it is accepted or refused, once the job has
left `submitted`. -/
theorem isSettled_of_deadLettered_illegal {s : JobState} (hs : s ≠ .submitted)
    (h : transitions s .deadLettered = none) : s.isSettled = true := by
  cases s <;> first
    | rfl
    | contradiction

/-- A job past its submission that cannot be started is settled. -/
theorem isSettled_of_started_illegal {s : JobState} (hs : s ≠ .submitted)
    (h : transitions s .started = none) : s.isSettled = true := by
  cases s <;> first
    | rfl
    | contradiction

/-- A completion is refused where the job is neither running nor settled only if it is queued. -/
theorem isSettled_of_completed_illegal {s : JobState} (hs : s ≠ .submitted) (hq : s ≠ .queued)
    (h : transitions s .completed = none) : s.isSettled = true := by
  cases s <;> first
    | rfl
    | contradiction

/-! ### Logs -/

theorem replayFrom_append (state : Option JobState) (l l' : List EventType) :
    replayFrom state (l ++ l') =
      match replayFrom state l with
      | .error e => .error e
      | .ok mid => replayFrom mid l' := by
  induction l generalizing state with
  | nil => rfl
  | cons e l ih =>
    rw [List.cons_append, replayFrom, replayFrom]
    cases apply state e with
    | error x => rfl
    | ok next => exact ih (some next)

theorem replayFrom_of_replay {l : List EventType} {s : JobState} (h : replay l = .ok s) :
    replayFrom none l = .ok (some s) := by
  rw [replay] at h
  split at h
  · exact absurd h (by simp)
  · exact absurd h (by simp)
  · next s' hs => rw [hs, Except.ok.inj h]

/-- **One more event.** A replayable log followed by `e` replays to what `apply` says of `e`. -/
theorem replay_concat {l : List EventType} {s s' : JobState} {e : EventType}
    (h : replay l = .ok s) (ha : apply (some s) e = .ok s') : replay (l ++ [e]) = .ok s' := by
  have hl : replayFrom none (l ++ [e]) = .ok (some s') := by
    rw [replayFrom_append, replayFrom_of_replay h]
    simp only [replayFrom, ha]
  rw [replay, hl]

/-- A replayable log splits into a replayable prefix and a legal last event. -/
theorem replay_concat_inv {l : List EventType} {e : EventType} {s : JobState}
    (h : replay (l ++ [e]) = .ok s) :
    ∃ mid, replayFrom none l = .ok mid ∧ apply mid e = .ok s := by
  have hl := replayFrom_of_replay h
  rw [replayFrom_append] at hl
  cases hm : replayFrom none l with
  | error x => simp [hm] at hl
  | ok mid =>
    refine ⟨mid, rfl, ?_⟩
    rw [hm] at hl
    cases ha : apply mid e with
    | error x => simp [replayFrom, ha] at hl
    | ok next => simpa [replayFrom, ha] using hl

/-- **The last event decides.** A log replays to the target of its last event. -/
theorem getLast?_of_replay {l : List EventType} {s : JobState} (h : replay l = .ok s) :
    ∃ e, l.getLast? = some e ∧ s = e.target := by
  rcases List.eq_nil_or_concat l with rfl | ⟨l', e, rfl⟩
  · exact absurd h (by simp [replay, replayFrom])
  · rw [List.concat_eq_append] at h
    obtain ⟨mid, -, ha⟩ := replay_concat_inv h
    exact ⟨e, by simp, target_of_apply ha⟩

theorem getLast?_of_replay_running {l : List EventType} (h : replay l = .ok .running) :
    l.getLast? = some .started := by
  obtain ⟨e, he, ht⟩ := getLast?_of_replay h
  rw [he]
  cases e <;> first | rfl | exact absurd ht (by decide)

theorem getLast?_of_replay_deadLetter {l : List EventType} (h : replay l = .ok .deadLetter) :
    l.getLast? = some .deadLettered := by
  obtain ⟨e, he, ht⟩ := getLast?_of_replay h
  rw [he]
  cases e <;> first | rfl | exact absurd ht (by decide)

/-- **Nothing after the end.** No event follows a final one in a replayable log. -/
theorem eq_nil_of_replay_terminal {l l' : List EventType} {e : EventType} {s : JobState}
    (he : e.isFinal = true) (h : replay (l ++ e :: l') = .ok s) : l' = [] := by
  have hl := replayFrom_of_replay h
  rw [show l ++ e :: l' = (l ++ [e]) ++ l' by simp, replayFrom_append] at hl
  cases hm : replayFrom none (l ++ [e]) with
  | error x => simp [hm] at hl
  | ok mid =>
    cases mid with
    | none =>
      rw [replayFrom_append] at hm
      cases hp : replayFrom none l with
      | error x => simp [hp] at hm
      | ok st => cases ha : apply st e <;> simp [hp, replayFrom, ha] at hm
    | some t =>
      have ht : t.isTerminal = true := by
        obtain ⟨st, -, ha⟩ := replay_concat_inv (l := l) (e := e) (s := t) (by rw [replay, hm])
        rw [target_of_apply ha, isTerminal_target, he]
      cases l' with
      | nil => rfl
      | cons e' l' =>
        have hno := transitions_terminal ht e'
        simp [hm, replayFrom, apply, hno] at hl

/-- A final event stands at the last position of a replayable log. -/
theorem succ_eq_length_of_replay_final {l : List EventType} {s : JobState} (h : replay l = .ok s)
    {i : ℕ} {e : EventType} (hi : l[i]? = some e) (he : e.isFinal = true) : i + 1 = l.length := by
  obtain ⟨hlt, hget⟩ := List.getElem?_eq_some_iff.1 hi
  have hsplit : l = l.take i ++ e :: l.drop (i + 1) := by
    rw [← hget, List.getElem_cons_drop, List.take_append_drop]
  rw [hsplit] at h
  have hnil := eq_nil_of_replay_terminal he h
  have hlen := congrArg List.length hnil
  simp only [List.length_drop, List.length_nil] at hlen
  omega

end Orbiter
