import Orbiter.Db.Repo
import Orbiter.Inputs
import Orbiter.Worker.Idempotency

/-!
# `Worker.handle`

One delivery of one message, twice. First as the program of its awaited calls, with the `try`
statement of the source: the two writes inside the `except SimulatedFailure` clause are *not*
covered by its sibling clauses, and the lease is released on every way out. Then as a machine of
control points (`HandlePc`), one for each call the coroutine can be suspended at, which is what
interleavings are about. `follows_handle` says that the machine is the program.

* `WorkerCall` — what the coroutine awaits: a call to the store, a write, the execution itself, an
  answer to the broker. `WorkerExc` are the exceptions it can see. Every call may answer with one
  the source does not name (`WorkerExc.fault`): a lost connection, a malformed field;
* `attemptJob`, `onException`, `handle` — the body, the `except` clauses, and the whole, with the
  four writes as definitions of their own;
* `lease?`, `catching` — the lease a control point holds, and the clause an exception of the body
  goes to. `awaitBody` and `awaitHandler` differ in this alone: what an exception does depends on
  where it is raised;
* `Worker.decode` — what `process` does before it calls `handle`: it reads the job and the payload
  from the JSON object of the message, which either encoder of the outbox writes.
-/

namespace Orbiter

/-- The exceptions that can pass through `handle`. -/
inductive WorkerExc
  /-- The job's own failure mode, retryable by policy. -/
  | simulatedFailure (message : String)
  | db (e : DbError)
  /-- Anything else a call raises. -/
  | fault

/-- The delay of a negative acknowledgement. -/
inductive NakDelay
  /-- `0.5` seconds. -/
  | poison
  /-- `uniform(4.0, 9.0)` seconds. -/
  | jitter
  /-- `min(2 ** attempt, 30)` seconds. -/
  | backoff (attempt : ℕ)

/-- What `handle` awaits. -/
inductive WorkerCall
  | kv (c : KvCall ℕ)
  | recordEvent (w : Write)
  | execute (durationMs : ℕ) (failureRate : ℚ)
  | ack
  | nak (delay : NakDelay)
  | term

/-- What each call answers. -/
def WorkerCall.Resp : WorkerCall → Type
  | .kv c => c.Resp
  | .recordEvent _ => JobState
  | .execute _ _ => Json
  | .ack | .nak _ | .term => Unit

/-- A delivery, as `process` hands it to `handle`. -/
structure Delivery where
  /-- The stream sequence of the message. -/
  seq : ℕ
  workerId : String
  jobId : Uuid
  payload : SubmitRequest
  /-- `num_delivered`. -/
  attempt : ℕ

/-- `f"{worker_id}:{attempt}"`, the owner a claim names. -/
def Delivery.delivery (d : Delivery) : String := d.workerId ++ ":" ++ d.attempt.repr

/-- `{"elapsed_ms": …}`. -/
def executionResult (elapsedMs : ℕ) : Json := .obj [("elapsed_ms", .int elapsedMs)]

/-- `execute`: the draw of the generator decides before the sleep whether the job fails. -/
def execute (failureRate draw : ℚ) (elapsedMs : ℕ) : Except WorkerExc Json :=
  if draw < failureRate then
    .error (.simulatedFailure ("simulated failure after " ++ elapsedMs.repr ++ "ms"))
  else .ok (executionResult elapsedMs)

namespace Worker

/-- Programs of the worker. -/
abbrev WorkerProg (α : Type) : Type := Prog WorkerCall WorkerCall.Resp WorkerExc α

/-- Key-value programs run on the worker's connection. -/
def onKv {α : Type} (p : KvProg ℕ WorkerExc α) : WorkerProg α :=
  p.liftCalls WorkerCall.kv fun _ r ↦ r

def ack : WorkerProg Unit := Prog.await WorkerCall.ack

def nak (delay : NakDelay) : WorkerProg Unit := Prog.await (WorkerCall.nak delay)

def term : WorkerProg Unit := Prog.await WorkerCall.term

/-- The four writes of `handle`. -/
def startedWrite (d : Delivery) (lease : Lease) : Write :=
  { jobId := d.jobId, event := .started, attempt := d.attempt, fenceToken := some lease.token }

def completedWrite (d : Delivery) (lease : Lease) (result : Json) : Write :=
  { jobId := d.jobId, event := .completed, attempt := d.attempt, fenceToken := some lease.token,
    result := some result }

def requeuedWrite (d : Delivery) (lease : Lease) (message : String) : Write :=
  { jobId := d.jobId, event := .requeued, attempt := d.attempt, fenceToken := some lease.token,
    detail := some (.obj [("error", .str message)]) }

def failedWrite (d : Delivery) (lease : Lease) (message : String) : Write :=
  { jobId := d.jobId, event := .failed, attempt := d.attempt, fenceToken := some lease.token,
    detail := some (.obj [("error", .str message), ("reason", .str "retries exhausted")]) }

def record (w : Write) : WorkerProg JobState := Prog.await (WorkerCall.recordEvent w)

/-- The body of the `try` statement. -/
def attemptJob (cfg : Settings) (d : Delivery) (lease : Lease) : WorkerProg Unit := do
  let _ ← record (startedWrite d lease)
  let result ← Prog.await (WorkerCall.execute d.payload.durationMs d.payload.failureRate)
  let _ ← record (completedWrite d lease result)
  onKv (ExecutionGuard.markDone cfg.execGuardTtlMs d.jobId.str d.delivery)
  ack

/-- Its `except` clauses. -/
def onException (cfg : Settings) (d : Delivery) (lease : Lease) : WorkerExc → WorkerProg Unit
  | .simulatedFailure message =>
    if d.attempt < cfg.maxDeliver then do
      let _ ← record (requeuedWrite d lease message)
      onKv (ExecutionGuard.releaseClaim d.jobId.str d.delivery)
      nak (.backoff d.attempt)
    else do
      let _ ← record (failedWrite d lease message)
      onKv (ExecutionGuard.releaseClaim d.jobId.str d.delivery)
      term
  | .db (.staleLease _) => return ()
  | .db (.illegalTransition _) => do
    onKv (ExecutionGuard.releaseClaim d.jobId.str d.delivery)
    term
  | e => Prog.raise e

def handle (cfg : Settings) (d : Delivery) : WorkerProg Unit :=
  if d.payload.poison then nak .poison
  else do
    match ← onKv (ExecutionGuard.tryClaim cfg.leaseTtlMs d.jobId.str d.delivery) with
    | .alreadyDone => ack
    | .inProgress => nak .jitter
    | .claimed =>
      match ← onKv (LeaseManager.acquire cfg.leaseTtlMs d.jobId.str d.workerId) with
      | none =>
        onKv (ExecutionGuard.releaseClaim d.jobId.str d.delivery)
        nak .jitter
      | some lease =>
        ((attemptJob cfg d lease).tryExcept (onException cfg d lease)).tryFinally
          (onKv (LeaseManager.release lease))

end Worker

/-! ### The same as control points -/

/-- Where a `handle` call is suspended. From `recordStarted` to `releaseLease` the call is inside
the `try` statement and holds `lease`. -/
inductive HandlePc
  | nakPoison
  /-- `try_claim`: read the done marker. -/
  | readDone
  | ackDuplicate
  /-- `try_claim`: take the claim. -/
  | setClaim
  | nakInProgress
  /-- `acquire`: draw a token. -/
  | drawToken
  /-- `acquire`: take the lease. -/
  | setLease (token : ℕ)
  | releaseClaimUnleased
  | nakUnleased
  | recordStarted (lease : Lease)
  | executing (lease : Lease)
  | recordCompleted (lease : Lease) (result : Json)
  /-- `mark_done`: set the marker. -/
  | setDone (lease : Lease)
  /-- `mark_done`: delete the claim. -/
  | clearClaim (lease : Lease)
  | ackCompleted (lease : Lease)
  | recordRequeued (lease : Lease) (message : String)
  | releaseClaimRequeued (lease : Lease)
  | nakRequeued (lease : Lease)
  | recordFailed (lease : Lease) (message : String)
  | releaseClaimFailed (lease : Lease)
  | termFailed (lease : Lease)
  /-- The `IllegalTransition` clause. -/
  | releaseClaimObsolete (lease : Lease)
  | termObsolete (lease : Lease)
  /-- The `finally` clause, with the exit it resumes. -/
  | releaseLease (lease : Lease) (exit : Except WorkerExc Unit)
  | finished (exit : Except WorkerExc Unit)

namespace HandlePc

/-- The lease a control point holds. -/
def lease? : HandlePc → Option Lease
  | recordStarted l | executing l | recordCompleted l _ | setDone l | clearClaim l | ackCompleted l
  | recordRequeued l _ | releaseClaimRequeued l | nakRequeued l | recordFailed l _
  | releaseClaimFailed l | termFailed l | releaseClaimObsolete l | termObsolete l
  | releaseLease l _ => some l
  | _ => none

/-- The clause an exception of the `try` body enters. -/
def catching (cfg : Settings) (d : Delivery) (lease : Lease) : WorkerExc → HandlePc
  | .simulatedFailure message =>
    if d.attempt < cfg.maxDeliver then recordRequeued lease message else recordFailed lease message
  | .db (.staleLease _) => releaseLease lease (.ok ())
  | .db (.illegalTransition _) => releaseClaimObsolete lease
  | e => releaseLease lease (.error e)

/-- A call whose exception ends `handle` at once. -/
def awaitBare (c : WorkerCall) (k : c.Resp → HandlePc) :
    Except WorkerExc Unit ⊕ (Σ c : WorkerCall, Except WorkerExc c.Resp → HandlePc) :=
  .inr ⟨c, fun
    | .ok r => k r
    | .error e => finished (.error e)⟩

/-- A call of the `try` body. -/
def awaitBody (cfg : Settings) (d : Delivery) (lease : Lease) (c : WorkerCall)
    (k : c.Resp → HandlePc) :
    Except WorkerExc Unit ⊕ (Σ c : WorkerCall, Except WorkerExc c.Resp → HandlePc) :=
  .inr ⟨c, fun
    | .ok r => k r
    | .error e => catching cfg d lease e⟩

/-- A call of an `except` clause: what it raises passes the sibling clauses by. -/
def awaitHandler (lease : Lease) (c : WorkerCall) (k : c.Resp → HandlePc) :
    Except WorkerExc Unit ⊕ (Σ c : WorkerCall, Except WorkerExc c.Resp → HandlePc) :=
  .inr ⟨c, fun
    | .ok r => k r
    | .error e => releaseLease lease (.error e)⟩

open ExecutionGuard LeaseManager Worker

/-- The call a control point awaits and where each answer leads. -/
def view (cfg : Settings) (d : Delivery) :
    Prog.View WorkerCall WorkerCall.Resp WorkerExc Unit HandlePc
  | nakPoison => awaitBare (.nak .poison) fun _ ↦ finished (.ok ())
  | readDone => awaitBare (.kv (.get (doneKey d.jobId.str))) fun done : Option String ↦
      if done.isSome then ackDuplicate else setClaim
  | ackDuplicate => awaitBare .ack fun _ ↦ finished (.ok ())
  | setClaim =>
      awaitBare (.kv (.setIfAbsent (claimKey d.jobId.str) d.delivery cfg.leaseTtlMs))
        fun claimed : Bool ↦ if claimed then drawToken else nakInProgress
  | nakInProgress => awaitBare (.nak .jitter) fun _ ↦ finished (.ok ())
  | drawToken => awaitBare (.kv (.incr (tokenKey d.jobId.str))) fun token : ℕ ↦ setLease token
  | setLease token =>
      awaitBare
        (.kv (.setIfAbsent (leaseKey d.jobId.str) (leaseValue d.workerId token) cfg.leaseTtlMs))
        fun acquired : Bool ↦
          if acquired then recordStarted ⟨d.jobId.str, d.workerId, token⟩ else releaseClaimUnleased
  | releaseClaimUnleased =>
      awaitBare (.kv (.compareAndDelete (claimKey d.jobId.str) d.delivery)) fun _ ↦ nakUnleased
  | nakUnleased => awaitBare (.nak .jitter) fun _ ↦ finished (.ok ())
  | recordStarted l =>
      awaitBody cfg d l (.recordEvent (startedWrite d l)) fun _ ↦ executing l
  | executing l =>
      awaitBody cfg d l (.execute d.payload.durationMs d.payload.failureRate)
        fun result : Json ↦ recordCompleted l result
  | recordCompleted l result =>
      awaitBody cfg d l (.recordEvent (completedWrite d l result)) fun _ ↦ setDone l
  | setDone l =>
      awaitBody cfg d l
        (.kv (.setIfAbsent (doneKey d.jobId.str) d.delivery cfg.execGuardTtlMs))
        fun _ ↦ clearClaim l
  | clearClaim l =>
      awaitBody cfg d l (.kv (.compareAndDelete (claimKey d.jobId.str) d.delivery))
        fun _ ↦ ackCompleted l
  | ackCompleted l => awaitBody cfg d l .ack fun _ ↦ releaseLease l (.ok ())
  | recordRequeued l message =>
      awaitHandler l (.recordEvent (requeuedWrite d l message)) fun _ ↦ releaseClaimRequeued l
  | releaseClaimRequeued l =>
      awaitHandler l (.kv (.compareAndDelete (claimKey d.jobId.str) d.delivery))
        fun _ ↦ nakRequeued l
  | nakRequeued l => awaitHandler l (.nak (.backoff d.attempt)) fun _ ↦ releaseLease l (.ok ())
  | recordFailed l message =>
      awaitHandler l (.recordEvent (failedWrite d l message)) fun _ ↦ releaseClaimFailed l
  | releaseClaimFailed l =>
      awaitHandler l (.kv (.compareAndDelete (claimKey d.jobId.str) d.delivery))
        fun _ ↦ termFailed l
  | termFailed l => awaitHandler l .term fun _ ↦ releaseLease l (.ok ())
  | releaseClaimObsolete l =>
      awaitHandler l (.kv (.compareAndDelete (claimKey d.jobId.str) d.delivery))
        fun _ ↦ termObsolete l
  | termObsolete l => awaitHandler l .term fun _ ↦ releaseLease l (.ok ())
  | releaseLease l exit =>
      awaitBare (.kv (.compareAndDelete (leaseKey l.resource) (leaseValue l.holder l.token)))
        fun _ ↦ finished exit
  | finished exit => .inl exit

/-- Where a call begins: a poison payload is refused before anything else. -/
def start (d : Delivery) : HandlePc := if d.payload.poison then nakPoison else readDone

/-! ### The machine is the program -/

variable (cfg : Settings) (d : Delivery) (l : Lease)

/-- The lease is released when the body has returned. -/
theorem follows_releaseLease_ok : Prog.Follows (view cfg d) (releaseLease l (.ok ()))
    (Prog.tryFinally (.ret ()) (onKv (LeaseManager.release l))) := by
  apply Prog.Follows.of_call rfl rfl
  · exact fun _ ↦ rfl
  · exact fun _ ↦ rfl

/-- The lease is released when something was raised, which is then raised on. -/
theorem follows_releaseLease_error (e : WorkerExc) :
    Prog.Follows (view cfg d) (releaseLease l (.error e))
      (Prog.tryFinally (.raise e) (onKv (LeaseManager.release l))) := by
  apply Prog.Follows.of_call rfl rfl
  · exact fun _ ↦ rfl
  · exact fun _ ↦ rfl

/-- The `except` clauses, each followed by the `finally` clause. -/
theorem follows_catching (e : WorkerExc) : Prog.Follows (view cfg d) (catching cfg d l e)
    ((onException cfg d l e).tryFinally (onKv (LeaseManager.release l))) := by
  have herr := follows_releaseLease_error cfg d l
  match e with
  | .simulatedFailure message =>
    rw [catching, onException]
    split
    · apply Prog.Follows.of_call rfl rfl _ herr
      intro _
      apply Prog.Follows.of_call rfl rfl _ herr
      intro _
      exact Prog.Follows.of_call rfl rfl (fun _ ↦ follows_releaseLease_ok cfg d l) herr
    · apply Prog.Follows.of_call rfl rfl _ herr
      intro _
      apply Prog.Follows.of_call rfl rfl _ herr
      intro _
      exact Prog.Follows.of_call rfl rfl (fun _ ↦ follows_releaseLease_ok cfg d l) herr
  | .db (.staleLease _) => exact follows_releaseLease_ok cfg d l
  | .db (.illegalTransition _) =>
    apply Prog.Follows.of_call rfl rfl _ herr
    intro _
    exact Prog.Follows.of_call rfl rfl (fun _ ↦ follows_releaseLease_ok cfg d l) herr
  | .db (.lookupError j) => exact herr (.db (.lookupError j))
  | .db (.uniqueViolation j) => exact herr (.db (.uniqueViolation j))
  | .fault => exact herr .fault

/-- The whole `try` statement. -/
theorem follows_recordStarted : Prog.Follows (view cfg d) (recordStarted l)
    (((attemptJob cfg d l).tryExcept (onException cfg d l)).tryFinally
      (onKv (LeaseManager.release l))) := by
  have herr := follows_catching cfg d l
  apply Prog.Follows.of_call rfl rfl _ herr
  intro _
  apply Prog.Follows.of_call rfl rfl _ herr
  intro result
  apply Prog.Follows.of_call rfl rfl _ herr
  intro _
  apply Prog.Follows.of_call rfl rfl _ herr
  intro _
  apply Prog.Follows.of_call rfl rfl _ herr
  intro _
  exact Prog.Follows.of_call rfl rfl (fun _ ↦ follows_releaseLease_ok cfg d l) herr

/-- **The control points are the program**, call by call and answer by answer. -/
theorem follows_handle : Prog.Follows (view cfg d) (start d) (handle cfg d) := by
  have hraise : ∀ e, Prog.Follows (view cfg d) (finished (.error e)) (.raise e) := fun _ ↦ rfl
  rw [start, handle]
  split
  · exact Prog.Follows.of_call rfl rfl (fun _ ↦ rfl) hraise
  apply Prog.Follows.of_call rfl rfl _ hraise
  rintro (_ | done)
  · apply Prog.Follows.of_call rfl rfl _ hraise
    rintro (_ | _)
    · exact Prog.Follows.of_call rfl rfl (fun _ ↦ rfl) hraise
    apply Prog.Follows.of_call rfl rfl _ hraise
    intro token
    apply Prog.Follows.of_call rfl rfl _ hraise
    rintro (_ | _)
    · apply Prog.Follows.of_call rfl rfl _ hraise
      intro _
      exact Prog.Follows.of_call rfl rfl (fun _ ↦ rfl) hraise
    · exact follows_recordStarted cfg d ⟨d.jobId.str, d.workerId, token⟩
  · exact Prog.Follows.of_call rfl rfl (fun _ ↦ rfl) hraise

end HandlePc

/-! ### What a message says

The two encoders of the outbox, `submit_job` with a trace context and `replay_job` without one,
write one JSON object each; `process` reads the job and the payload back from either.
-/

/-- The JSON object of a message. -/
def Message.toJson (m : Message Json) : Json :=
  .obj ([("job_id", .str m.jobId.str), ("payload", m.payload)] ++
    match m.traceparent with
    | some carrier => [("traceparent", .obj (carrier.map fun field ↦ (field.1, .str field.2)))]
    | none => [])

/-- `uuid.UUID(data["job_id"])` and `data["payload"]`; `none` when either raises. -/
def Worker.decode (data : Json) : Option (Uuid × Json) := do
  let .str text ← data.get? "job_id" | none
  let jobId ← Uuid.parse text
  let payload ← data.get? "payload"
  return (jobId, payload)

/-- **What either encoder writes is read back.** -/
@[simp] theorem Worker.decode_toJson (m : Message Json) :
    Worker.decode m.toJson = some (m.jobId, m.payload) := by
  have hid : m.toJson.get? "job_id" = some (.str m.jobId.str) := by
    simp [Message.toJson, Json.get?]
  have hpayload : m.toJson.get? "payload" = some m.payload := by
    simp [Message.toJson, Json.get?, List.lookup_cons]
  rw [decode, hid, hpayload]
  simp [Uuid.parse_str]

end Orbiter
