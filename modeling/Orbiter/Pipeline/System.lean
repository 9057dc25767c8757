import Orbiter.Broker.Stream
import Orbiter.Fleet.System
import Orbiter.Relay.OutboxRelay

/-!
# The pipeline: submitters, relays, broker, workers, listener, operator

The fleet, with what stands between its actors put in: a delivery comes from a message of the work
stream, a message from an outbox row some relay published, and the transaction of a quarantine from
a listener that works through an advisory. Relays and listeners are machines of control points like
the workers, any number of them at a time, and each of them may die between any two calls.

A call that is `served` is answered by its service, and the answer may be an exception: asking for
or deleting a message that is gone raises. A call that `failed` raised for some other reason, before
or after it took effect.

## Contents

* `Pipeline` — the fleet, the work stream, the relays, the advisories stored, the listeners at work
  on them, and the dead-letter stream;
* `PipelineStep` — what anybody can do: submit and replay, a call of a worker, a relay or a listener
  answered, a process killed; the broker delivers, delivers to nobody (`miss`), gives a message up
  (`exhaust`), or stores an advisory anybody has made (`advise`); time passes, entries vanish;
* `stepRelay`, `stepQuarantine` — one answered call of a relay or a listener, as its program goes on
  from the answer;
* `step`, `system` — all of them in one step function. What a step can do is in `Pipeline.Moves`,
  and `step` is not unfolded after it.

## Granularity

Calls to the store and to the broker are single steps, as they are single commands. A transaction of
the repository is one step too, and so is each of the two ends of a relay's transaction, its
`SELECT` with the locks and its mark with the commit. Outbox ids are therefore drawn and seen at
once, and rows of different jobs become visible in the order of their ids. On the server ids are
drawn at the insertion and rows are seen at the commit, so two transactions that overlap can commit
in the other order. The statements one by one are modelled in `Db.Server` and `Relay.Transactions`:
`Server.serializable` says that the committed contents are, job by job, those of calls made one at a
time, and `RelayedServer.relay_safe` is proved there and not here. What this module's runs are used
for is said of one job at a time, whose ids are drawn under the lock of its row, and does not depend
on the order of the rows of different jobs.

A delivery is one step with the beginning of the `handle` call it is handed to. The broker counts it
whether or not anybody is there to take it, which is `miss`: `fetch` has just given up, or the
process that asked is dead.
-/

namespace Orbiter

/-- A run of `relay_once`. -/
structure RelayRun where
  pc : RelayPc := .select
  /-- Its process lives. -/
  alive : Bool := true

/-- A message of the advisory stream. -/
structure StoredAdvisory where
  raw : Loaded
  acked : Bool := false

/-- A listener at work on an advisory. The last two fields are observations: nothing reads them but
statements. -/
structure QuarantineRun where
  /-- The number of the advisory. -/
  advisory : ℕ
  pc : QuarantinePc
  /-- Its process lives. -/
  alive : Bool := true
  /-- `quarantine` raised, and the loop caught it. -/
  raised : Bool := false
  /-- The length of the job's log after `record_event`. -/
  seen : ℕ := 0

/-- A copy in the dead-letter stream, under the message id `dlq-{stream}-{seq}`. -/
structure DlqCopy where
  streamSeq : ℤ
  data : Message SubmitRequest

/-- The state of the pipeline. -/
structure Pipeline where
  fleet : Fleet
  stream : WorkStream
  relays : List RelayRun
  advisories : List StoredAdvisory
  quarantines : List QuarantineRun
  dlq : List DlqCopy

/-- The control point of the acknowledgement. -/
def QuarantinePc.atAck : QuarantinePc → Bool
  | ackAdvisory => true
  | _ => false

/-- The run moves to `pc` after `c`, answered with `reply`, left the database at `db`. -/
def QuarantineRun.advance (q : QuarantineRun) (db : Database SubmitRequest) (c : ListenerCall)
    (reply : Except ListenerExc c.Resp) (pc : QuarantinePc) : QuarantineRun :=
  { q with
    pc := pc
    raised := q.raised || (!reply.isOk && pc.atAck)
    seen := match c with
      | .recordEvent w => (db.log w.jobId).length
      | _ => q.seen }

/-- The steps of the pipeline. -/
inductive PipelineStep
  | submit (jobId : Uuid) (idempotencyKey : String) (payload : SubmitRequest) (carrier : Carrier)
  | replay (jobId : Uuid)
  | beginRelay
  /-- One call of a relay. `remembered`: the broker still knows the message id. -/
  | relay (rid : ℕ) (ans : Answer) (remembered : Bool)
  | killRelay (rid : ℕ)
  /-- The broker delivers a message to a worker, which begins to handle it. -/
  | deliver (seq : ℕ) (workerId : String)
  /-- The broker delivers a message that reaches nobody: `fetch` has just given up, or its process
  is dead. -/
  | miss (seq : ℕ)
  | handle (pid : ℕ) (ans : Answer)
  | die (pid : ℕ)
  /-- The broker gives up on a message. -/
  | exhaust (seq : ℕ)
  /-- Something else is published on the advisory subject. -/
  | advise (raw : Loaded)
  /-- A listener fetches an advisory. -/
  | fetch (aid : ℕ)
  /-- One call of a listener. -/
  | quarantine (qid : ℕ) (ans : Answer) (remembered : Bool)
  | killListener (qid : ℕ)
  | tick (ms : ℕ)
  | vanish (key : String)

namespace Pipeline

/-- Nothing has happened. -/
def empty : Pipeline := ⟨⟨.empty, []⟩, [], [], [], [], []⟩

/-! ### The relay's calls -/

/-- The outbox ids some relay holds locked. -/
def lockedIds (p : Pipeline) : List ℕ :=
  p.relays.flatMap fun r ↦ if r.alive then r.pc.locked.map Prod.fst else []

/-- `WHERE published_at IS NULL ORDER BY id LIMIT $1 FOR UPDATE SKIP LOCKED`. -/
def selectUnpublished (p : Pipeline) (limit : ℕ) : List OutboxEntry :=
  (p.fleet.world.db.outbox.rows.filter fun r ↦
    r.2.publishedAt.isNone && !p.lockedIds.contains r.1).take limit

/-- What a relay gets to see. -/
def relayReply (p : Pipeline) : (c : RelayCall) → Answer → Option (Except RelayExc c.Resp)
  | _, .failed _ => some (.error .fault)
  | .select limit, .served => some (.ok (p.selectUnpublished limit))
  | .publish _, .served | .mark _, .served => some (.ok ())
  | _, .executed _ _ => none

/-- What a call of a relay does when it takes effect. -/
def relayEffect (p : Pipeline) (remembered : Bool) : RelayCall → Pipeline
  | .select _ => p
  | .publish entry => { p with
      stream := p.stream.publish entry.2.subject entry.1 entry.2.payload remembered }
  | .mark ids => { p with fleet := ⟨p.fleet.world.markPublished ids, p.fleet.calls⟩ }

/-- One call of relay number `rid`. -/
def stepRelay (cfg : Settings) (p : Pipeline) (rid : ℕ) (ans : Answer) (remembered : Bool) :
    Option Pipeline :=
  match p.relays[rid]? with
  | none => none
  | some r =>
    if r.alive then
      match r.pc.view cfg with
      | .inl _ => none
      | .inr ⟨c, k⟩ =>
        (p.relayReply c ans).map fun reply ↦
          let p' := if ans.takesEffect then p.relayEffect remembered c else p
          { p' with relays := p.relays.set rid { r with pc := k reply } }
    else none

/-! ### The listener's calls -/

/-- What a listener gets to see. -/
def listenerReply (p : Pipeline) :
    (c : ListenerCall) → Answer → Option (Except ListenerExc c.Resp)
  | _, .failed _ => some (.error .fault)
  | .getMsg streamSeq, .served =>
    match p.stream.stored? streamSeq with
    | some m => some (.ok m.data)
    | none => some (.error .fault)
  | .recordEvent w, .served =>
    match p.fleet.world.db.recordEvent p.fleet.world.now w with
    | .error e => some (.error (.db e))
    | .ok (state, _) => some (.ok state)
  | .deleteMsg streamSeq, .served =>
    match p.stream.stored? streamSeq with
    | some _ => some (.ok ())
    | none => some (.error .fault)
  | .publishDlq _ _, .served | .ack, .served => some (.ok ())
  | _, .executed _ _ => none

/-- What a call of the listener at work on advisory `aid` does when it takes effect. -/
def listenerEffect (p : Pipeline) (aid : ℕ) (remembered : Bool) : ListenerCall → Pipeline
  | .getMsg _ => p
  | .publishDlq streamSeq data =>
    if remembered && p.dlq.any (fun copy ↦ copy.streamSeq = streamSeq) then p
    else { p with dlq := p.dlq ++ [⟨streamSeq, data⟩] }
  | .recordEvent w => { p with
      fleet := ⟨p.fleet.world.transact .listener (.recordEvent w), p.fleet.calls⟩ }
  | .deleteMsg streamSeq => { p with stream := p.stream.remove streamSeq }
  | .ack => { p with
      advisories := p.advisories.modify aid fun a ↦ { a with acked := true } }

/-- One call of listener run number `qid`. -/
def stepQuarantine (p : Pipeline) (qid : ℕ) (ans : Answer) (remembered : Bool) :
    Option Pipeline :=
  match p.quarantines[qid]? with
  | none => none
  | some q =>
    if q.alive then
      match q.pc.view with
      | .inl _ => none
      | .inr ⟨c, k⟩ =>
        (p.listenerReply c ans).map fun reply ↦
          let p' := if ans.takesEffect then p.listenerEffect q.advisory remembered c else p
          { p' with
            quarantines := p.quarantines.set qid
              (q.advance p'.fleet.world.db c reply (k reply)) }
    else none

/-! ### All steps -/

/-- A step the fleet makes without the broker. -/
def onFleet (cfg : Settings) (p : Pipeline) (a : FleetStep) : Option Pipeline :=
  (p.fleet.step cfg a).map fun f ↦ { p with fleet := f }

/-- What the broker makes of a call of a worker, about the message with this sequence number. -/
def workerEffect (stream : WorkStream) (seq : ℕ) : WorkerCall → WorkStream
  | .ack | .term => stream.remove seq
  | .nak _ => stream.nak seq
  | .kv _ | .recordEvent _ | .execute _ _ => stream

/-- The stream after the next call of `handle` number `pid`. -/
def streamAfter (cfg : Settings) (p : Pipeline) (pid : ℕ) (ans : Answer) : WorkStream :=
  match p.fleet.calls[pid]? with
  | none => p.stream
  | some hc =>
    match hc.call? cfg with
    | none => p.stream
    | some c => if ans.takesEffect then workerEffect p.stream hc.delivery.seq c else p.stream

/-- The delivery `process` makes of a message. -/
def delivery (seq : ℕ) (workerId : String) (m : StreamMsg) : Delivery :=
  ⟨seq, workerId, m.data.jobId, m.data.payload, m.delivered + 1⟩

/-- The step function. -/
def step (cfg : Settings) (p : Pipeline) : PipelineStep → Option Pipeline
  | .submit jobId key payload carrier => p.onFleet cfg (.submit jobId key payload carrier)
  | .replay jobId => p.onFleet cfg (.replay jobId)
  | .beginRelay => some { p with relays := p.relays ++ [{}] }
  | .relay rid ans remembered => p.stepRelay cfg rid ans remembered
  | .killRelay rid =>
    some { p with relays := p.relays.modify rid fun r ↦ { r with alive := false } }
  | .deliver seq workerId =>
    match p.stream.stored? seq with
    | none => none
    | some m =>
      if m.delivered < cfg.maxDeliver then
        ({ p with stream := p.stream.deliver seq p.fleet.world.now }).onFleet cfg
          (.start (delivery seq workerId m))
      else none
  | .miss seq =>
    match p.stream.stored? seq with
    | none => none
    | some m =>
      if m.delivered < cfg.maxDeliver then
        some { p with stream := p.stream.deliver seq p.fleet.world.now }
      else none
  | .handle pid ans =>
    ({ p with stream := p.streamAfter cfg pid ans }).onFleet cfg (.handle pid ans)
  | .die pid => p.onFleet cfg (.die pid)
  | .exhaust seq =>
    match p.stream.stored? seq with
    | none => none
    | some m =>
      if cfg.maxDeliver ≤ m.delivered ∧ m.advisory = none then
        some { p with
          stream := p.stream.exhaust seq p.advisories.length
          advisories := p.advisories ++ [{ raw := brokerAdvisory cfg seq m.delivered }] }
      else none
  | .advise raw => some { p with advisories := p.advisories ++ [{ raw := raw }] }
  | .fetch aid =>
    match p.advisories[aid]? with
    | none => none
    | some a =>
      if a.acked then none
      else some { p with
        quarantines := p.quarantines ++ [{ advisory := aid, pc := .start a.raw }] }
  | .quarantine qid ans remembered => p.stepQuarantine qid ans remembered
  | .killListener qid =>
    some { p with quarantines := p.quarantines.modify qid fun q ↦ { q with alive := false } }
  | .tick ms => p.onFleet cfg (.tick ms)
  | .vanish key => p.onFleet cfg (.vanish key)

/-- All runs from the beginning. -/
def system (cfg : Settings) : TransitionSystem Pipeline PipelineStep where
  init p := p = empty
  step := step cfg

end Pipeline

end Orbiter
