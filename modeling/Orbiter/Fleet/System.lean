import Orbiter.Dlq.Quarantine
import Orbiter.Fleet.World

/-!
# The fleet: everything that reaches the database and the store

Any number of `handle` calls, for any deliveries, run over one world, one awaited call at a time;
between two calls of one of them anybody else may move. The other actors appear by what they do to
the world: submissions, operator replays, the `record_event` of a quarantine, and the relay's mark.
Any call may fail, any process may die at any point, time passes, entries of the store vanish.

A delivery is an arbitrary value here: what the broker really delivers is a restriction the pipeline
adds. So what is proved of the fleet holds of redeliveries, of replayed messages and of deliveries
that cross, without a word about the broker.

* `HandleCall` — one call: its delivery, its control point, whether it lives, and four observations,
  written as the call moves and read by nothing but statements: when it reached its control point,
  the token it drew, when it took the lease, and what it last saw of its job;
* `Fleet`, `FleetStep` — the world with the calls, and the steps anybody can make;
* `stepHandle` — a step of one call: what it awaits is answered, takes effect as the answer says,
  and the call goes on from the answer.

Restrictions such as "no lease is lost" or "no call fails" are guards of the results that need them.
-/

namespace Orbiter

/-- The token a control point remembers. -/
def HandlePc.token? : HandlePc → Option ℕ
  | .setLease token => some token
  | pc => pc.lease?.map Lease.token

/-- The call a control point awaits. -/
def HandlePc.call (cfg : Settings) (d : Delivery) (pc : HandlePc) : Option WorkerCall :=
  match pc.view cfg d with
  | .inl _ => none
  | .inr ⟨c, _⟩ => some c

/-- The calls that tell a worker where the job stands: its transactions, and the read of the done
marker. -/
def WorkerCall.observes : WorkerCall → Bool
  | .recordEvent _ | .kv (.get _) => true
  | _ => false

/-- A `handle` call in progress, finished or dead. -/
structure HandleCall where
  delivery : Delivery
  pc : HandlePc
  /-- Its process lives. -/
  alive : Bool
  /-- When the control point was reached. -/
  since : ℕ
  /-- The lease token drawn. -/
  token : Option ℕ := none
  /-- When the lease was taken. -/
  leasedAt : Option ℕ := none
  /-- The state of the job at the last call that tells. -/
  seen : Option JobState := none

namespace HandleCall

/-- A call that has just begun. -/
def begin (d : Delivery) (now : ℕ) : HandleCall :=
  { delivery := d, pc := .start d, alive := true, since := now }

/-- The call moves to `pc` after `c` took the world from `s` to `s'`. -/
def advance (h : HandleCall) (s s' : World) (c : WorkerCall) (pc : HandlePc) : HandleCall :=
  { h with
    pc := pc
    since := s.now
    token := pc.token?.or h.token
    leasedAt := if h.pc.lease?.isNone && pc.lease?.isSome then some s.now else h.leasedAt
    seen := if c.observes then (s'.db.job? h.delivery.jobId).map JobRow.state else h.seen }

@[simp] theorem delivery_advance (h : HandleCall) (s s' : World) (c : WorkerCall) (pc : HandlePc) :
    (h.advance s s' c pc).delivery = h.delivery := rfl

/-- What a living call is about to do. -/
def call? (cfg : Settings) (h : HandleCall) : Option WorkerCall :=
  if h.alive then h.pc.call cfg h.delivery else none

/-- A living call awaits what its control point says. -/
theorem call?_eq_some {cfg : Settings} {h : HandleCall} {c : WorkerCall} :
    h.call? cfg = some c ↔ h.alive = true ∧ h.pc.call cfg h.delivery = some c := by
  rw [call?]
  cases h.alive <;> simp

end HandleCall

/-- The world and the `handle` calls, numbered from the first one made. -/
structure Fleet where
  world : World
  calls : List HandleCall

/-- The steps of the fleet. -/
inductive FleetStep
  | submit (jobId : Uuid) (idempotencyKey : String) (payload : SubmitRequest) (carrier : Carrier)
  | replay (jobId : Uuid)
  /-- The transaction of a quarantine. -/
  | deadLetter (jobId : Uuid) (streamSeq deliveries : ℤ)
  /-- The mark of a relay. -/
  | publish (ids : List ℕ)
  | start (d : Delivery)
  | handle (pid : ℕ) (ans : Answer)
  | die (pid : ℕ)
  | tick (ms : ℕ)
  /-- The store loses an entry; counters are not entries. -/
  | vanish (key : String)

namespace Fleet

/-- One call of `handle` number `pid`. -/
def stepHandle (cfg : Settings) (f : Fleet) (pid : ℕ) (ans : Answer) : Option Fleet :=
  match f.calls[pid]? with
  | none => none
  | some h =>
    if h.alive then
      match h.pc.view cfg h.delivery with
      | .inl _ => none
      | .inr ⟨c, k⟩ =>
        (f.world.reply c ans).map fun r ↦
          let world := f.world.serve (.handle pid) c ans
          ⟨world, f.calls.set pid (h.advance f.world world c (k r))⟩
    else none

/-- The step function. -/
def step (cfg : Settings) (f : Fleet) : FleetStep → Option Fleet
  | .submit jobId key payload carrier =>
    some ⟨f.world.transact .submitter (.submitJob jobId key payload cfg.subjectJobs carrier),
      f.calls⟩
  | .replay jobId =>
    some ⟨f.world.transact .operator (.replayJob jobId cfg.subjectJobs), f.calls⟩
  | .deadLetter jobId streamSeq deliveries =>
    some ⟨f.world.transact .listener
      (.recordEvent (deadLetterWrite jobId streamSeq deliveries)), f.calls⟩
  | .publish ids => some ⟨f.world.markPublished ids, f.calls⟩
  | .start d => some ⟨f.world, f.calls ++ [HandleCall.begin d f.world.now]⟩
  | .handle pid ans => f.stepHandle cfg pid ans
  | .die pid => some ⟨f.world, f.calls.modify pid fun h ↦ { h with alive := false }⟩
  | .tick ms => some ⟨f.world.later ms, f.calls⟩
  | .vanish key => some ⟨{ f.world with kv := f.world.kv.vanish key }, f.calls⟩

/-- All runs from the empty schema and the empty store. -/
def system (cfg : Settings) : TransitionSystem Fleet FleetStep where
  init f := f = ⟨.empty, []⟩
  step := step cfg

end Fleet

end Orbiter
