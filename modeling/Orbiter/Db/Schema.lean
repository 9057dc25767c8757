import Mathlib.Data.List.AList
import Orbiter.Data.Values
import Orbiter.Data.Uuid
import Orbiter.Domain.StateMachine
import Orbiter.Foundation.SerialTable

/-!
# The database: jobs, job events, outbox

The three tables of the schema, and the selections the rest of the development reads them by.

* `JobRow`, `EventRow`, `OutboxRow` — a row of each table. `jobs` is keyed by its primary key;
  `job_events` and `outbox` are numbered by their `BIGSERIAL` ids, so `ORDER BY id` is the order of
  the table;
* `job?`, `jobByKey?` — a job by its id and by its idempotency key, the unique column;
* `eventRows`, `log`, `outboxRows` — what is recorded of a job, and what is to be sent of it.

The payload column is `JSONB` the repository never looks into, and its type `π` stays a parameter:
nothing here can depend on a payload. Columns of type `INT` and `BIGINT` hold unbounded integers,
and `now()` is a number supplied by the caller. The foreign keys are not a part of the structure;
that every event has its job is an invariant, proved where the transactions are.
-/

namespace Orbiter

/-- A trace context that rides inside a message. -/
abbrev Carrier := List (String × String)

/-- A row of `jobs`, without its primary key. -/
structure JobRow (π : Type) where
  /-- `TEXT NOT NULL UNIQUE`. -/
  idempotencyKey : String
  payload : π
  /-- A cached projection of the job's events. -/
  state : JobState
  attempts : ℤ
  /-- The newest lease token whose write was accepted. -/
  fenceToken : ℤ
  result : Option Json
  createdAt : ℕ
  updatedAt : ℕ

/-- A row of `job_events`, without its serial id. -/
structure EventRow where
  jobId : Uuid
  event : EventType
  attempt : ℤ
  detail : Json
  at' : ℕ

/-- The JSON object of an outbox row, and of the stream message the relay makes of it. -/
structure Message (π : Type) where
  jobId : Uuid
  payload : π
  /-- Present on submission, absent on replay. -/
  traceparent : Option Carrier

/-- A row of `outbox`, without its serial id. -/
structure OutboxRow (π : Type) where
  jobId : Uuid
  subject : String
  payload : Message π
  createdAt : ℕ
  publishedAt : Option ℕ

/-- The committed contents of the database. -/
structure Database (π : Type) where
  jobs : AList fun _ : Uuid ↦ JobRow π
  jobEvents : SerialTable EventRow
  outbox : SerialTable (OutboxRow π)

namespace Database

variable {π : Type}

/-- The schema just applied: no rows. -/
def empty : Database π := ⟨∅, .empty, .empty⟩

/-- `SELECT … FROM jobs WHERE id = $1`. -/
def job? (db : Database π) (j : Uuid) : Option (JobRow π) := db.jobs.lookup j

/-- `SELECT id FROM jobs WHERE idempotency_key = $1`. -/
def jobByKey? (db : Database π) (key : String) : Option Uuid :=
  (db.jobs.entries.find? fun entry ↦ entry.2.idempotencyKey = key).map Sigma.fst

/-- `SELECT … FROM job_events WHERE job_id = $1 ORDER BY id`. -/
def eventRows (db : Database π) (j : Uuid) : List (ℕ × EventRow) :=
  db.jobEvents.select fun e ↦ e.jobId = j

/-- A job's event log: the types of its events, in id order. -/
def log (db : Database π) (j : Uuid) : List EventType := (db.eventRows j).map (·.2.event)

/-- The outbox rows of a job, in id order. -/
def outboxRows (db : Database π) (j : Uuid) : List (ℕ × OutboxRow π) :=
  db.outbox.select fun r ↦ r.jobId = j

/-! ### What the selections see of an insertion -/

@[simp] theorem job?_empty (j : Uuid) : (empty : Database π).job? j = none := rfl

@[simp] theorem eventRows_empty (j : Uuid) : (empty : Database π).eventRows j = [] := rfl

@[simp] theorem outboxRows_empty (j : Uuid) : (empty : Database π).outboxRows j = [] := rfl

/-- A key is found exactly when some row carries it. -/
theorem jobByKey?_eq_none {db : Database π} {key : String} :
    db.jobByKey? key = none ↔ ∀ j row, db.job? j = some row → row.idempotencyKey ≠ key := by
  rw [jobByKey?, Option.map_eq_none_iff, List.find?_eq_none]
  constructor
  · intro h j row hj hkey
    exact absurd hkey (by simpa using h ⟨j, row⟩ (AList.mem_lookup_iff.1 hj))
  · rintro h ⟨j, row⟩ hmem
    simpa using h j row (AList.mem_lookup_iff.2 hmem)

theorem exists_of_jobByKey? {db : Database π} {key : String} {j : Uuid}
    (h : db.jobByKey? key = some j) : ∃ row, db.job? j = some row ∧ row.idempotencyKey = key := by
  rw [jobByKey?, Option.map_eq_some_iff] at h
  obtain ⟨⟨j', row⟩, hfind, rfl⟩ := h
  exact ⟨row, AList.mem_lookup_iff.2 (List.mem_of_find?_eq_some hfind),
    by simpa using List.find?_some hfind⟩

end Database

end Orbiter
