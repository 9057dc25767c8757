import Orbiter.Db.Projection
import Orbiter.Foundation.Program

/-!
# The repository, statement by statement

The three transactions as they talk to the database: each awaits one SQL statement at a time, and
between two statements other transactions run. `submitJob` returns what its second `SELECT` finds
without a check, so its job id may be `NULL` here; `replayJob` reads the payload before it locks the
row. What the statements do is up to the server.

* `Stmt`, `Stmt.Resp` — the statements with their parameters, and what each answers;
* `submitJob`, `recordEvent`, `replayJob` — the programs, in the order of the source, with
  `applyEvent` as their common part;
* `TxPc`, `view` — the control points of a transaction: which statement comes next, with what the
  transaction has read so far;
* `follows_start` — **the control points are the programs**: whatever the statements answer or
  raise, the machine makes the calls of the source, in its order, and ends as it ends.

An exception is an answer like any other here. It ends the transaction, and the server rolls back.
-/

namespace Orbiter

/-- The SQL statements. -/
inductive Stmt (π : Type)
  /-- `INSERT INTO jobs … ON CONFLICT (idempotency_key) DO NOTHING RETURNING id`. -/
  | insertJob (jobId : Uuid) (idempotencyKey : String) (payload : π) (state : JobState)
  /-- `SELECT id FROM jobs WHERE idempotency_key = $1`. -/
  | selectByKey (idempotencyKey : String)
  /-- `SELECT payload FROM jobs WHERE id = $1`. -/
  | selectPayload (jobId : Uuid)
  /-- `SELECT state, attempts, fence_token FROM jobs WHERE id = $1 FOR UPDATE`. -/
  | selectForUpdate (jobId : Uuid)
  /-- `UPDATE jobs … WHERE id = $1 AND fence_token <= $4 RETURNING id`. -/
  | updateJob (jobId : Uuid) (state : JobState) (attempt token : ℤ) (result : Option Json)
  /-- `INSERT INTO job_events`. -/
  | insertEvent (jobId : Uuid) (event : EventType) (attempt : ℤ) (detail : Json)
  /-- `INSERT INTO outbox`. -/
  | insertOutbox (jobId : Uuid) (subject : String) (payload : Message π)

/-- The columns `_apply_event` reads. -/
structure LockedRow where
  state : JobState
  attempts : ℤ
  fenceToken : ℤ
  deriving DecidableEq

/-- What a statement returns. -/
def Stmt.Resp {π : Type} : Stmt π → Type
  | insertJob _ _ _ _ | selectByKey _ => Option Uuid
  | selectPayload _ => Option π
  | selectForUpdate _ => Option LockedRow
  | updateJob _ _ _ _ _ => Option Uuid
  | insertEvent _ _ _ _ | insertOutbox _ _ _ => Unit

/-- What a call returns. -/
inductive SqlResult
  | submitted (jobId : Option Uuid) (created : Bool)
  | recorded (state : JobState)
  | replayed (state : Option JobState)
  deriving DecidableEq

/-- A result of the transactions of the repository as a result of the statements. -/
def RepoResult.toSql : RepoResult → SqlResult
  | submitted jobId created => .submitted (some jobId) created
  | recorded state => .recorded state
  | replayed state => .replayed state

/-- The body of a transaction. -/
abbrev SqlProg (π α : Type) : Type := Prog (Stmt π) Stmt.Resp DbError α

namespace Sql

variable {π : Type}

/-! ### The programs -/

/-- Run one statement. -/
def run (c : Stmt π) : SqlProg π c.Resp := Prog.await c

def submitJob (jobId : Uuid) (idempotencyKey : String) (payload : π) (subject : String)
    (carrier : Carrier) : SqlProg π SqlResult := do
  let inserted : Option Uuid ← run (.insertJob jobId idempotencyKey payload .queued)
  if inserted.isNone then
    let existing : Option Uuid ← run (.selectByKey idempotencyKey)
    return .submitted existing false
  run (.insertEvent jobId .submitted 0 (.obj []))
  run (.insertEvent jobId .enqueued 0 (.obj []))
  run (.insertOutbox jobId subject ⟨jobId, payload, some carrier⟩)
  return .submitted (some jobId) true

def applyEvent (w : Write) : SqlProg π JobState := do
  let row : Option LockedRow ← run (.selectForUpdate w.jobId)
  match row with
  | none => Prog.raise (.lookupError w.jobId)
  | some row =>
    match apply (some row.state) w.event with
    | .error e => Prog.raise (.illegalTransition e)
    | .ok nextState =>
      let token := w.fenceToken.getD row.fenceToken
      let updated : Option Uuid ← run (.updateJob w.jobId nextState w.attempt token w.result)
      if updated.isNone then Prog.raise (.staleLease ⟨w.jobId.str, token, row.fenceToken⟩)
      else
        run (.insertEvent w.jobId w.event w.attempt (w.detail.getD (.obj [])))
        return nextState

def recordEvent (w : Write) : SqlProg π SqlResult := do
  let state ← applyEvent w
  return .recorded state

def replayJob (jobId : Uuid) (subject : String) : SqlProg π SqlResult := do
  let row : Option π ← run (.selectPayload jobId)
  match row with
  | none => return .replayed none
  | some payload =>
    let state ← applyEvent (Database.replayWrite jobId)
    run (.insertOutbox jobId subject ⟨jobId, payload, none⟩)
    return .replayed (some state)

end Sql

/-- The body of the transaction a call opens. -/
def RepoCall.prog {π : Type} : RepoCall π → SqlProg π SqlResult
  | submitJob jobId key payload subject carrier => Sql.submitJob jobId key payload subject carrier
  | recordEvent w => Sql.recordEvent w
  | replayJob jobId subject => Sql.replayJob jobId subject

/-! ### The same as control points -/

/-- The arguments of `submit_job`, with the fresh id and the trace context. -/
structure Submission (π : Type) where
  jobId : Uuid
  idempotencyKey : String
  payload : π
  subject : String
  carrier : Carrier

/-- Where a transaction stands. A write of `replay_job` carries the subject and the payload it read
along. -/
inductive TxPc (π : Type)
  | insertJob (a : Submission π)
  | selectByKey (a : Submission π)
  | insertSubmitted (a : Submission π)
  | insertEnqueued (a : Submission π)
  | insertMessage (a : Submission π)
  | selectPayload (jobId : Uuid) (subject : String)
  | selectForUpdate (w : Write) (again : Option (String × π))
  | updateJob (w : Write) (again : Option (String × π)) (row : LockedRow) (next : JobState)
  | insertEvent (w : Write) (again : Option (String × π)) (next : JobState)
  | insertReplay (jobId : Uuid) (subject : String) (payload : π) (next : JobState)
  | finished (exit : Except DbError SqlResult)

namespace TxPc

variable {π : Type}

/-- A statement whose exception ends the call. -/
def await (c : Stmt π) (k : c.Resp → TxPc π) :
    Except DbError SqlResult ⊕ (Σ c : Stmt π, Except DbError c.Resp → TxPc π) :=
  .inr ⟨c, fun
    | .ok r => k r
    | .error e => finished (.error e)⟩

/-- After the row is locked: judge the transition. -/
def judge (w : Write) (again : Option (String × π)) : Option LockedRow → TxPc π
  | none => finished (.error (.lookupError w.jobId))
  | some row =>
    match apply (some row.state) w.event with
    | .error e => finished (.error (.illegalTransition e))
    | .ok next => updateJob w again row next

/-- After the event is written: `record_event` is done, `replay_job` inserts its message. -/
def appended (w : Write) (next : JobState) : Option (String × π) → TxPc π
  | none => finished (.ok (.recorded next))
  | some (subject, payload) => insertReplay w.jobId subject payload next

/-- The statement a control point awaits and where each answer leads. -/
def view : Prog.View (Stmt π) Stmt.Resp DbError SqlResult (TxPc π)
  | insertJob a => await (.insertJob a.jobId a.idempotencyKey a.payload .queued)
      fun inserted : Option Uuid ↦ if inserted.isNone then selectByKey a else insertSubmitted a
  | selectByKey a => await (.selectByKey a.idempotencyKey)
      fun existing : Option Uuid ↦ finished (.ok (.submitted existing false))
  | insertSubmitted a => await (.insertEvent a.jobId .submitted 0 (.obj []))
      fun _ ↦ insertEnqueued a
  | insertEnqueued a => await (.insertEvent a.jobId .enqueued 0 (.obj [])) fun _ ↦ insertMessage a
  | insertMessage a =>
      await (.insertOutbox a.jobId a.subject ⟨a.jobId, a.payload, some a.carrier⟩)
        fun _ ↦ finished (.ok (.submitted (some a.jobId) true))
  | selectPayload jobId subject => await (.selectPayload jobId) fun
      | none => finished (.ok (.replayed none))
      | some payload => selectForUpdate (Database.replayWrite jobId) (some (subject, payload))
  | selectForUpdate w again => await (.selectForUpdate w.jobId) (judge w again)
  | updateJob w again row next =>
      await (.updateJob w.jobId next w.attempt (w.fenceToken.getD row.fenceToken) w.result)
        fun updated : Option Uuid ↦
          if updated.isNone then
            finished (.error (.staleLease
              ⟨w.jobId.str, w.fenceToken.getD row.fenceToken, row.fenceToken⟩))
          else insertEvent w again next
  | insertEvent w again next =>
      await (.insertEvent w.jobId w.event w.attempt (w.detail.getD (.obj [])))
        fun _ ↦ appended w next again
  | insertReplay jobId subject payload next =>
      await (.insertOutbox jobId subject ⟨jobId, payload, none⟩)
        fun _ ↦ finished (.ok (.replayed (some next)))
  | finished exit => .inl exit

/-- Where a call begins. -/
def start : RepoCall π → TxPc π
  | .submitJob jobId key payload subject carrier =>
    insertJob ⟨jobId, key, payload, subject, carrier⟩
  | .recordEvent w => selectForUpdate w none
  | .replayJob jobId subject => selectPayload jobId subject

/-! ### The machine is the program -/

/-- A transaction that has raised makes no more statements. -/
theorem follows_raise (e : DbError) :
    Prog.Follows view (finished (.error e) : TxPc π) (.raise e) := rfl

/-- The control points of a submission are its program. -/
theorem follows_submitJob (a : Submission π) : Prog.Follows view (insertJob a)
    (Sql.submitJob a.jobId a.idempotencyKey a.payload a.subject a.carrier) := by
  apply Prog.Follows.of_call rfl rfl _ follows_raise
  rintro (_ | j)
  · exact Prog.Follows.of_call rfl rfl (fun _ ↦ rfl) follows_raise
  · apply Prog.Follows.of_call rfl rfl _ follows_raise
    intro _
    apply Prog.Follows.of_call rfl rfl _ follows_raise
    intro _
    exact Prog.Follows.of_call rfl rfl (fun _ ↦ rfl) follows_raise

/-- `_apply_event`, followed by whatever its caller does with the next state. -/
theorem follows_applyEvent (w : Write) (again : Option (String × π))
    {k : JobState → SqlProg π SqlResult}
    (hk : ∀ next, Prog.Follows view (appended w next again) (k next)) :
    Prog.Follows view (selectForUpdate w again) ((Sql.applyEvent w).bind k) := by
  apply Prog.Follows.of_call rfl rfl _ follows_raise
  rintro (_ | row)
  · exact follows_raise _
  · show Prog.Follows view (judge w again (some row)) (Prog.bind (match apply _ _ with
      | .error e => _
      | .ok nextState => _) k)
    rw [judge]
    cases apply (some row.state) w.event with
    | error e => exact follows_raise _
    | ok next =>
      apply Prog.Follows.of_call rfl rfl _ follows_raise
      rintro (_ | j)
      · exact follows_raise _
      · exact Prog.Follows.of_call rfl rfl (fun _ ↦ hk next) follows_raise

/-- **The control points are the programs**, statement by statement and answer by answer. -/
theorem follows_start (c : RepoCall π) : Prog.Follows view (start c) c.prog := by
  match c with
  | .submitJob jobId key payload subject carrier =>
    exact follows_submitJob ⟨jobId, key, payload, subject, carrier⟩
  | .recordEvent w => exact follows_applyEvent w none fun _ ↦ rfl
  | .replayJob jobId subject =>
    apply Prog.Follows.of_call rfl rfl _ follows_raise
    rintro (_ | payload)
    · rfl
    · refine follows_applyEvent (Database.replayWrite jobId) (some (subject, payload)) fun next ↦ ?_
      exact Prog.Follows.of_call rfl rfl (fun _ ↦ rfl) follows_raise

end TxPc

end Orbiter
