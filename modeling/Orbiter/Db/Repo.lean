import Orbiter.Db.Schema
import Orbiter.Leases.Fencing

/-!
# The repository: three transactions

`submitJob`, `recordEvent` and `replayJob`, each one transaction: it returns a value with the new
contents of the database, or raises and leaves the database as it was. `applyEvent` is the common
core of the last two. It reads the row, judges the transition *before* it looks at the fencing
token, and then updates the row only if the token is not older than the newest accepted one. The
order matters to callers: a write that is both illegal and stale raises as illegal.

## The specifications

* `applyEvent_eq_ok` — what an accepted write requires: the job exists, the transition is in the
  table, the token is not older than the row's. With `applyEvent_eq_error` every outcome is covered;
* `submitJob_eq_ok`, `replayJob_eq_ok` — what a submission and a replay that return have done;
* `job?_accept`, `eventRows_accept`, `log_accept` and their companions for `create` and
  `enqueueReplay` — what the resulting database shows, of the job written and of every other. These
  are simp lemmas, a pair for each selection.

Later modules use these and do not unfold the transactions. Here a transaction is one function of
the committed contents; its statements one by one, and what interleaving them can do, are the
subject of `Db.Statements` and `Db.Server`, and `Db.Serializable` says how the two are related.
-/

namespace Orbiter

/-- What a transaction can raise. -/
inductive DbError
  | lookupError (jobId : Uuid)
  | illegalTransition (e : IllegalTransition)
  | staleLease (e : StaleLeaseError)
  /-- The primary key of `jobs` is taken. -/
  | uniqueViolation (jobId : Uuid)
  deriving DecidableEq

/-- The arguments of `record_event`. -/
structure Write where
  jobId : Uuid
  event : EventType
  attempt : ℤ := 0
  detail : Option Json := none
  fenceToken : Option ℤ := none
  result : Option Json := none

namespace Database

variable {π : Type}

/-! ### The transactions -/

/-- The row a submission inserts. -/
def newRow (now : ℕ) (idempotencyKey : String) (payload : π) : JobRow π :=
  { idempotencyKey, payload, state := .queued, attempts := 0, fenceToken := 0, result := none,
    createdAt := now, updatedAt := now }

/-- The database after a submission that creates its job: the row in state `queued`, the `submitted`
and `enqueued` events, and the outbox row. -/
def create (db : Database π) (now : ℕ) (jobId : Uuid) (idempotencyKey : String) (payload : π)
    (subject : String) (carrier : Carrier) : Database π where
  jobs := db.jobs.insert jobId (newRow now idempotencyKey payload)
  jobEvents := (db.jobEvents.insert ⟨jobId, .submitted, 0, .obj [], now⟩).insert
    ⟨jobId, .enqueued, 0, .obj [], now⟩
  outbox := db.outbox.insert ⟨jobId, subject, ⟨jobId, payload, some carrier⟩, now, none⟩

/-- Insert job, first events and outbox row. `jobId` is the fresh `uuid4`. A key seen before returns
the existing job; the conflict target is the key, so a taken primary key raises. -/
def submitJob (db : Database π) (now : ℕ) (jobId : Uuid) (idempotencyKey : String) (payload : π)
    (subject : String) (carrier : Carrier) : Except DbError ((Uuid × Bool) × Database π) :=
  match db.jobByKey? idempotencyKey with
  | some existing => .ok ((existing, false), db)
  | none =>
    if (db.job? jobId).isSome then .error (.uniqueViolation jobId)
    else .ok ((jobId, true), db.create now jobId idempotencyKey payload subject carrier)

/-- The row after an accepted write: `GREATEST` on the attempts, `COALESCE` on the result. -/
def acceptRow (row : JobRow π) (now : ℕ) (w : Write) (nextState : JobState) : JobRow π :=
  { row with
    state := nextState
    attempts := max row.attempts w.attempt
    fenceToken := w.fenceToken.getD row.fenceToken
    result := w.result.or row.result
    updatedAt := now }

/-- The database after an accepted write: the updated row and one more event. -/
def accept (db : Database π) (now : ℕ) (w : Write) (row : JobRow π) (nextState : JobState) :
    Database π :=
  { db with
    jobs := db.jobs.insert w.jobId (acceptRow row now w nextState)
    jobEvents := db.jobEvents.insert
      ⟨w.jobId, w.event, w.attempt, w.detail.getD (.obj []), now⟩ }

/-- Validate the transition, check the token, refresh the projection, append the event. -/
def applyEvent (db : Database π) (now : ℕ) (w : Write) : Except DbError (JobState × Database π) :=
  match db.job? w.jobId with
  | none => .error (.lookupError w.jobId)
  | some row =>
    match apply (some row.state) w.event with
    | .error e => .error (.illegalTransition e)
    | .ok nextState =>
      let token := w.fenceToken.getD row.fenceToken
      if row.fenceToken ≤ token then .ok (nextState, db.accept now w row nextState)
      else .error (.staleLease ⟨w.jobId.str, token, row.fenceToken⟩)

def recordEvent (db : Database π) (now : ℕ) (w : Write) :
    Except DbError (JobState × Database π) :=
  db.applyEvent now w

/-- The arguments `replay_job` calls `_apply_event` with. -/
def replayWrite (jobId : Uuid) : Write := { jobId, event := .replayed }

/-- The outbox row of a replay carries the stored payload and no trace context. -/
def enqueueReplay (db : Database π) (now : ℕ) (jobId : Uuid) (subject : String) (payload : π) :
    Database π :=
  { db with outbox := db.outbox.insert ⟨jobId, subject, ⟨jobId, payload, none⟩, now, none⟩ }

/-- Operator replay of a dead-lettered job: `replayed` event and a fresh outbox row. -/
def replayJob (db : Database π) (now : ℕ) (jobId : Uuid) (subject : String) :
    Except DbError (Option JobState × Database π) :=
  match db.job? jobId with
  | none => .ok (none, db)
  | some row =>
    match db.applyEvent now (replayWrite jobId) with
    | .error e => .error e
    | .ok (state, db') => .ok (some state, db'.enqueueReplay now jobId subject row.payload)

/-! ### What an accepted write requires -/

/-- **What an accepted write requires, and what it leaves.** -/
theorem applyEvent_eq_ok {db db' : Database π} {now : ℕ} {w : Write} {s : JobState} :
    db.applyEvent now w = .ok (s, db') ↔
      ∃ row, db.job? w.jobId = some row ∧ transitions row.state w.event = some s ∧
        row.fenceToken ≤ w.fenceToken.getD row.fenceToken ∧ db' = db.accept now w row s := by
  constructor
  · intro h
    rw [applyEvent] at h
    split at h
    · exact absurd h (by simp)
    · next row hj =>
      split at h
      · exact absurd h (by simp)
      · next next ha =>
        dsimp only at h
        split at h
        · next ht =>
          obtain ⟨rfl, rfl⟩ := Prod.mk.inj (Except.ok.inj h)
          exact ⟨row, hj, apply_some_eq_ok.1 ha, ht, rfl⟩
        · exact absurd h (by simp)
  · rintro ⟨row, hj, ha, ht, rfl⟩
    simp only [applyEvent, hj, apply_some_eq_ok.2 ha, if_pos ht]

/-- A refusal names its cause, and the causes are tried in this order. -/
theorem applyEvent_eq_error {db : Database π} {now : ℕ} {w : Write} {e : DbError}
    (h : db.applyEvent now w = .error e) :
    (e = .lookupError w.jobId ∧ db.job? w.jobId = none) ∨
    (∃ row, db.job? w.jobId = some row ∧ transitions row.state w.event = none ∧
      e = .illegalTransition ⟨some row.state, w.event⟩) ∨
    (∃ row s, db.job? w.jobId = some row ∧ transitions row.state w.event = some s ∧
      w.fenceToken.getD row.fenceToken < row.fenceToken ∧
      e = .staleLease ⟨w.jobId.str, w.fenceToken.getD row.fenceToken, row.fenceToken⟩) := by
  rw [applyEvent] at h
  cases hj : db.job? w.jobId with
  | none =>
    rw [hj] at h
    exact .inl ⟨(Except.error.inj h).symm, rfl⟩
  | some row =>
    rw [hj] at h
    cases ha : apply (some row.state) w.event with
    | error x =>
      obtain ⟨hno, rfl⟩ := apply_some_eq_error.1 ha
      simp only [ha] at h
      exact .inr (.inl ⟨row, rfl, hno, (Except.error.inj h).symm⟩)
    | ok next =>
      simp only [ha] at h
      split at h
      · exact absurd h (by simp)
      · next ht =>
        exact .inr (.inr ⟨row, next, rfl, apply_some_eq_ok.1 ha, not_le.1 ht,
          (Except.error.inj h).symm⟩)

/-- A write without a token is never stale. -/
theorem applyEvent_ne_staleLease {db : Database π} {now : ℕ} {w : Write}
    (hw : w.fenceToken = none) (e : StaleLeaseError) :
    db.applyEvent now w ≠ .error (.staleLease e) := by
  intro h
  rcases applyEvent_eq_error h with ⟨he, -⟩ | ⟨row, -, -, he⟩ | ⟨row, s, -, -, hlt, -⟩
  · exact absurd he (by simp)
  · exact absurd he (by simp)
  · rw [hw, Option.getD_none] at hlt
    exact absurd hlt (lt_irrefl _)

/-- A replay that returns has found no job, or has made a `replayed` write and a new outbox row with
the payload that was stored. -/
theorem replayJob_eq_ok {db db' : Database π} {now : ℕ} {j : Uuid} {subject : String}
    {r : Option JobState} (h : db.replayJob now j subject = .ok (r, db')) :
    (r = none ∧ db.job? j = none ∧ db' = db) ∨
    ∃ row s db₁, r = some s ∧ db.job? j = some row ∧
      db.applyEvent now (replayWrite j) = .ok (s, db₁) ∧
      db' = db₁.enqueueReplay now j subject row.payload := by
  rw [replayJob] at h
  cases hj : db.job? j with
  | none =>
    rw [hj] at h
    obtain ⟨rfl, rfl⟩ := Prod.mk.inj (Except.ok.inj h)
    exact .inl ⟨rfl, rfl, rfl⟩
  | some row =>
    rw [hj] at h
    cases ha : db.applyEvent now (replayWrite j) with
    | error e => simp [ha] at h
    | ok p =>
      obtain ⟨s, db₁⟩ := p
      simp only [ha] at h
      obtain ⟨rfl, rfl⟩ := Prod.mk.inj (Except.ok.inj h)
      exact .inr ⟨row, s, db₁, rfl, rfl, rfl, rfl⟩

/-- A submission that returns has found the job of its key, or has created one under a free id. -/
theorem submitJob_eq_ok {db db' : Database π} {now : ℕ} {jobId j : Uuid} {key : String}
    {payload : π} {subject : String} {carrier : Carrier} {created : Bool}
    (h : db.submitJob now jobId key payload subject carrier = .ok ((j, created), db')) :
    (created = false ∧ db.jobByKey? key = some j ∧ db' = db) ∨
    (created = true ∧ j = jobId ∧ db.jobByKey? key = none ∧ db.job? jobId = none ∧
      db' = db.create now jobId key payload subject carrier) := by
  rw [submitJob] at h
  cases hk : db.jobByKey? key with
  | some existing =>
    rw [hk] at h
    obtain ⟨hp, rfl⟩ := Prod.mk.inj (Except.ok.inj h)
    obtain ⟨rfl, rfl⟩ := Prod.mk.inj hp
    exact .inl ⟨rfl, rfl, rfl⟩
  | none =>
    rw [hk] at h
    cases hj : db.job? jobId with
    | some row => simp [hj] at h
    | none =>
      simp only [hj, Option.isSome_none, Bool.false_eq_true, if_false] at h
      obtain ⟨hp, rfl⟩ := Prod.mk.inj (Except.ok.inj h)
      obtain ⟨rfl, rfl⟩ := Prod.mk.inj hp
      exact .inr ⟨rfl, rfl, rfl, rfl, rfl⟩

/-! ### What the result shows -/

section Create

variable (db : Database π) (now : ℕ) (jobId : Uuid) (key : String) (payload : π) (subject : String)
  (carrier : Carrier)

@[simp] theorem job?_create_self :
    (db.create now jobId key payload subject carrier).job? jobId = some (newRow now key payload) :=
  AList.lookup_insert _

variable {jobId} in
@[simp] theorem job?_create_ne {j : Uuid} (hj : j ≠ jobId) :
    (db.create now jobId key payload subject carrier).job? j = db.job? j :=
  AList.lookup_insert_ne hj

@[simp] theorem eventRows_create_self :
    (db.create now jobId key payload subject carrier).eventRows jobId = db.eventRows jobId ++
      [(db.jobEvents.last + 1, ⟨jobId, .submitted, 0, .obj [], now⟩),
        (db.jobEvents.last + 2, ⟨jobId, .enqueued, 0, .obj [], now⟩)] := by
  rw [eventRows, create, SerialTable.select_insert_pos _ (by simp),
    SerialTable.select_insert_pos _ (by simp), List.append_assoc]
  rfl

variable {jobId} in
@[simp] theorem eventRows_create_ne {j : Uuid} (hj : j ≠ jobId) :
    (db.create now jobId key payload subject carrier).eventRows j = db.eventRows j := by
  rw [eventRows, create, SerialTable.select_insert_neg _ (by simpa using hj.symm),
    SerialTable.select_insert_neg _ (by simpa using hj.symm), ← eventRows]

@[simp] theorem log_create_self :
    (db.create now jobId key payload subject carrier).log jobId =
      db.log jobId ++ [.submitted, .enqueued] := by
  simp [log]

variable {jobId} in
@[simp] theorem log_create_ne {j : Uuid} (hj : j ≠ jobId) :
    (db.create now jobId key payload subject carrier).log j = db.log j := by
  simp [log, hj]

end Create

section Accept

variable (db : Database π) (now : ℕ) (w : Write) (row : JobRow π) (s : JobState)

@[simp] theorem job?_accept_self :
    (db.accept now w row s).job? w.jobId = some (acceptRow row now w s) :=
  AList.lookup_insert _

variable {w} in
@[simp] theorem job?_accept_ne {j : Uuid} (hj : j ≠ w.jobId) :
    (db.accept now w row s).job? j = db.job? j :=
  AList.lookup_insert_ne hj

@[simp] theorem eventRows_accept_self :
    (db.accept now w row s).eventRows w.jobId = db.eventRows w.jobId ++
      [(db.jobEvents.last + 1, ⟨w.jobId, w.event, w.attempt, w.detail.getD (.obj []), now⟩)] :=
  SerialTable.select_insert_pos _ (by simp)

variable {w} in
@[simp] theorem eventRows_accept_ne {j : Uuid} (hj : j ≠ w.jobId) :
    (db.accept now w row s).eventRows j = db.eventRows j :=
  SerialTable.select_insert_neg _ (by simpa using hj.symm)

@[simp] theorem outbox_accept : (db.accept now w row s).outbox = db.outbox := rfl

@[simp] theorem log_accept_self :
    (db.accept now w row s).log w.jobId = db.log w.jobId ++ [w.event] := by
  simp [log]

variable {w} in
@[simp] theorem log_accept_ne {j : Uuid} (hj : j ≠ w.jobId) :
    (db.accept now w row s).log j = db.log j := by
  simp [log, hj]

end Accept

section EnqueueReplay

variable (db : Database π) (now : ℕ) (jobId : Uuid) (subject : String) (payload : π) (j : Uuid)

@[simp] theorem job?_enqueueReplay :
    (db.enqueueReplay now jobId subject payload).job? j = db.job? j := rfl

@[simp] theorem eventRows_enqueueReplay :
    (db.enqueueReplay now jobId subject payload).eventRows j = db.eventRows j := rfl

@[simp] theorem log_enqueueReplay :
    (db.enqueueReplay now jobId subject payload).log j = db.log j := rfl

end EnqueueReplay

end Database

end Orbiter
