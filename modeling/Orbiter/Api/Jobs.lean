import Orbiter.Api.Admission
import Orbiter.Db.Status

/-!
# The job endpoints

`GET /jobs/{job_id}` and `POST /jobs/{job_id}/replay`: what the repository answers, with the text of
every refusal. Both take the id as a text and refuse what is no UUID before they ask the database.

* `JobState.value`, `JobState.name`, `IllegalTransition.message` — the words of the source for
  states and events, as the answers show them;
* `status_eq_ok` — the status of a job is answered when the text names a job that is there;
* `replay_cases` — **a replay has exactly four answers**, and which one it is depends on the text
  and on the job's state alone: not a UUID, no such job, replayed, or refused for the state it is
  in;
* `replay_of_error` — a refused one leaves the database as it was.

The repository's own part is two lemmas, `replayJob_of_deadLetter` and `replayJob_of_ne_deadLetter`:
a replay asks for a dead-lettered job, and the transition table decides.
-/

namespace Orbiter

/-! ### The texts -/

/-- The text of a state. -/
def JobState.value : JobState → String
  | submitted => "submitted"
  | queued => "queued"
  | running => "running"
  | succeeded => "succeeded"
  | failed => "failed"
  | deadLetter => "dead_letter"

/-- The member's name. -/
def JobState.name : JobState → String
  | submitted => "SUBMITTED"
  | queued => "QUEUED"
  | running => "RUNNING"
  | succeeded => "SUCCEEDED"
  | failed => "FAILED"
  | deadLetter => "DEAD_LETTER"

/-- `repr(state)`. -/
def JobState.pyRepr (s : JobState) : String := "<JobState." ++ s.name ++ ": '" ++ s.value ++ "'>"

/-- The text of an event. -/
def EventType.value : EventType → String
  | submitted => "submitted"
  | enqueued => "enqueued"
  | started => "started"
  | completed => "completed"
  | failed => "failed"
  | requeued => "requeued"
  | deadLettered => "dead_lettered"
  | replayed => "replayed"

/-- `str(exc)`. -/
def IllegalTransition.message (e : IllegalTransition) : String :=
  "event '" ++ e.event.value ++ "' is not legal in state " ++
    (e.state.map JobState.pyRepr).getD "None"

/-! ### The handlers -/

/-- How a handler can fail. -/
inductive HandlerExc
  | http (e : HttpException)
  /-- What nobody catches. -/
  | database (e : DbError)
  deriving DecidableEq

/-- The body of an accepted replay. -/
structure ReplayResponse where
  id : String
  state : String
  deriving DecidableEq

/-- A replay of a quarantined job is accepted. -/
theorem Database.replayJob_of_deadLetter {π : Type} {db : Database π} {j : Uuid} {row : JobRow π}
    (now : ℕ) (subject : String) (hrow : db.job? j = some row) (hstate : row.state = .deadLetter) :
    db.replayJob now j subject = .ok (some .queued,
      (db.accept now (replayWrite j) row .queued).enqueueReplay now j subject row.payload) := by
  have hnext : transitions row.state .replayed = some .queued := by
    rw [hstate]
    rfl
  have happly : db.applyEvent now (replayWrite j) =
      .ok (.queued, db.accept now (replayWrite j) row .queued) :=
    applyEvent_eq_ok.2 ⟨row, hrow, hnext, le_refl _, rfl⟩
  rw [replayJob, hrow]
  simp only [happly]

/-- A replay of any other job is refused. -/
theorem Database.replayJob_of_ne_deadLetter {π : Type} {db : Database π} {j : Uuid}
    {row : JobRow π} (now : ℕ) (subject : String) (hrow : db.job? j = some row)
    (hstate : row.state ≠ .deadLetter) :
    db.replayJob now j subject = .error (.illegalTransition ⟨some row.state, .replayed⟩) := by
  have hnone : transitions row.state .replayed = none := by
    cases hs : row.state <;> first | rfl | exact absurd hs hstate
  have happly : db.applyEvent now (replayWrite j) =
      .error (.illegalTransition ⟨some row.state, .replayed⟩) := by
    rw [applyEvent, show db.job? (replayWrite j).jobId = some row from hrow]
    simp only [replayWrite, apply, hnone]
  rw [replayJob, hrow]
  simp only [happly]

namespace Api

variable {π : Type} {cfg : Settings} {db : Database π} {now : ℕ} {jobId : String}

def notUuid : HttpException := ⟨422, "job_id must be a UUID", []⟩

def noSuchJob : HttpException := ⟨404, "no such job", []⟩

def notReplayable (e : IllegalTransition) : HttpException :=
  ⟨409, "only dead-lettered jobs can be replayed: " ++ e.message, []⟩

/-- `GET /jobs/{job_id}`; `first` and `second` are what the two statements of `get_job` see. -/
def status (first second : Database π) (jobId : String) : Except HttpException (JobView π) :=
  match Uuid.parse jobId with
  | none => .error notUuid
  | some parsed =>
    match getJob first second parsed with
    | none => .error noSuchJob
    | some job => .ok job

/-- A status is answered when the text names a job that is there. -/
theorem status_eq_ok {first second : Database π} {v : JobView π} :
    status first second jobId = .ok v ↔
      ∃ j, Uuid.parse jobId = some j ∧ getJob first second j = some v := by
  rw [status]
  cases Uuid.parse jobId with
  | none => simp
  | some j => cases hget : getJob first second j <;> simp [hget]

/-- `POST /jobs/{job_id}/replay`, and the database after it. -/
def replay (cfg : Settings) (db : Database π) (now : ℕ) (jobId : String) :
    Except HandlerExc ReplayResponse × Database π :=
  match Uuid.parse jobId with
  | none => (.error (.http notUuid), db)
  | some parsed =>
    match db.replayJob now parsed cfg.subjectJobs with
    | .error (.illegalTransition e) => (.error (.http (notReplayable e)), db)
    | .error e => (.error (.database e), db)
    | .ok (none, db') => (.error (.http noSuchJob), db')
    | .ok (some state, db') => (.ok ⟨jobId, state.value⟩, db')

/-- A dead-lettered job is replayed, and what that makes of the database. -/
theorem replay_of_deadLetter {j : Uuid} {row : JobRow π} (cfg : Settings) (now : ℕ)
    (hparse : Uuid.parse jobId = some j) (hrow : db.job? j = some row)
    (hstate : row.state = .deadLetter) :
    replay cfg db now jobId = (.ok ⟨jobId, "queued"⟩,
      (db.accept now (Database.replayWrite j) row .queued).enqueueReplay now j cfg.subjectJobs
        row.payload) := by
  rw [replay, hparse]
  simp only [Database.replayJob_of_deadLetter now cfg.subjectJobs hrow hstate]
  rfl

/-- **The answers to a replay.** -/
theorem replay_cases (cfg : Settings) (db : Database π) (now : ℕ) (jobId : String) :
    (Uuid.parse jobId = none ∧ replay cfg db now jobId = (.error (.http notUuid), db)) ∨
    (∃ j, Uuid.parse jobId = some j ∧ db.replayJob now j cfg.subjectJobs = .ok (none, db) ∧
      replay cfg db now jobId = (.error (.http noSuchJob), db)) ∨
    (∃ j e, Uuid.parse jobId = some j ∧
      db.replayJob now j cfg.subjectJobs = .error (.illegalTransition e) ∧
      replay cfg db now jobId = (.error (.http (notReplayable e)), db)) ∨
    ∃ j db', Uuid.parse jobId = some j ∧
      db.replayJob now j cfg.subjectJobs = .ok (some .queued, db') ∧
      replay cfg db now jobId = (.ok ⟨jobId, "queued"⟩, db') := by
  cases hparse : Uuid.parse jobId with
  | none => exact .inl ⟨rfl, by rw [replay, hparse]⟩
  | some j =>
    refine .inr ?_
    cases hrow : db.job? j with
    | none =>
      have hjob : db.replayJob now j cfg.subjectJobs = .ok (none, db) := by
        rw [Database.replayJob, hrow]
      refine .inl ⟨j, rfl, hjob, ?_⟩
      rw [replay, hparse]
      simp only [hjob]
    | some row =>
      refine .inr ?_
      by_cases hstate : row.state = .deadLetter
      · exact .inr ⟨j, _, rfl, Database.replayJob_of_deadLetter now _ hrow hstate,
          replay_of_deadLetter cfg now hparse hrow hstate⟩
      · have hjob := Database.replayJob_of_ne_deadLetter now cfg.subjectJobs hrow hstate
        refine .inl ⟨j, _, rfl, hjob, ?_⟩
        rw [replay, hparse]
        simp only [hjob]

/-- **A refused replay changes nothing**, and the refusal is one of the three that have a text. -/
theorem replay_of_error {e : HandlerExc} (h : (replay cfg db now jobId).1 = .error e) :
    (replay cfg db now jobId).2 = db ∧ ∃ x, e = .http x := by
  rcases replay_cases cfg db now jobId with ⟨-, heq⟩ | ⟨j, -, -, heq⟩ | ⟨j, x, -, -, heq⟩ |
    ⟨j, db', -, -, heq⟩ <;> rw [heq] at h ⊢
  · exact ⟨rfl, _, (Except.error.inj h).symm⟩
  · exact ⟨rfl, _, (Except.error.inj h).symm⟩
  · exact ⟨rfl, _, (Except.error.inj h).symm⟩
  · exact absurd h (by simp)

end Api

end Orbiter
