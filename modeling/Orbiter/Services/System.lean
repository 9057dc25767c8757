import Orbiter.Foundation.Driven
import Orbiter.Pipeline.System

/-!
# The services

The pipeline's machines do not run by themselves. Each belongs to a process that executes `run`: the
calls before the `try` statement, the `while not shutdown.is_set()` loop, the calls of the `finally`
clause. A worker and a listener fetch one message at a time and await what they make of it; a relay
awaits `relay_once` and pauses when there was nothing to publish. An exception that leaves the loop
ends the process, by way of the `finally` clause; one that leaves the calls before it does not get
there.

SIGTERM sets the flag and nothing else. A process killed, by the chaos subject or by the platform,
takes no further step.

## Contents

* `Machine`, `Outcome` — the body of a loop, which is a machine of the pipeline, and what the loop
  does when it has ended: go on, pause, or leave with an exception;
* `ServiceKind`, `setUp`, `close` — all services share this shape, so they are one machine over what
  differs: the calls before and after, and the body;
* `ServicePc`, `Service.next` — the control points of `run`, and one answer to the call a service
  awaits: the steps of the pipeline it takes, and where it goes in the state they lead to;
* `Service.miss` — a service that asked for a message and has given up. The broker's delivery to
  nobody is a step of its own, since it can also find the process dead;
* `Deployment`, `system` — any number of services over one pipeline, as the controller of it in the
  sense of `Foundation.Driven`. What nobody controls — submissions, operators, the broker's own
  steps, time — comes from outside (`isOutside`);
* `toPipeline` — the controller only restricts, so everything proved of the pipeline holds here.
-/

namespace Orbiter

/-! ### The bodies of the loops -/

/-- What a service works on: a `handle` call, a run of `relay_once`, an advisory. -/
inductive Machine
  | call (pid : ℕ)
  | relay (rid : ℕ)
  | advisory (qid : ℕ)
  deriving DecidableEq

/-- How the body of a loop ends. -/
inductive Outcome
  /-- The loop goes on at once. -/
  | again
  /-- `relay_once` published nothing. -/
  | idle
  | raised
  deriving DecidableEq

def HandlePc.outcome? : HandlePc → Option Outcome
  | finished (.ok _) => some .again
  | finished (.error _) => some .raised
  | _ => none

def RelayPc.outcome? : RelayPc → Option Outcome
  | finished (.ok published) => some (if published = 0 then .idle else .again)
  | finished (.error _) => some .raised
  | _ => none

def QuarantinePc.outcome? : QuarantinePc → Option Outcome
  | finished (.ok _) => some .again
  | finished (.error _) => some .raised
  | _ => none

namespace Machine

/-- One call of the machine. -/
def step : Machine → Answer → Bool → PipelineStep
  | call pid, ans, _ => .handle pid ans
  | relay rid, ans, remembered => .relay rid ans remembered
  | advisory qid, ans, remembered => .quarantine qid ans remembered

/-- Its process dies. -/
def kill : Machine → PipelineStep
  | call pid => .die pid
  | relay rid => .killRelay rid
  | advisory qid => .killListener qid

end Machine

/-- How the machine's body ended; `none` while it is at work. -/
def Pipeline.outcome? (p : Pipeline) : Machine → Option Outcome
  | .call pid => p.fleet.calls[pid]?.bind fun hc ↦ hc.pc.outcome?
  | .relay rid => p.relays[rid]?.bind fun r ↦ r.pc.outcome?
  | .advisory qid => p.quarantines[qid]?.bind fun q ↦ q.pc.outcome?

/-! ### `run` -/

/-- What `run` awaits before its `try` statement. -/
inductive SetUpCall
  | createPool
  | applySchema
  | connect
  /-- `ensure_stream`, `ensure_streams`. -/
  | ensureStreams
  | pullSubscribe
  | subscribeChaos

/-- What it awaits in its `finally` clause. -/
inductive CloseCall
  | closeNats
  | closeKv
  | closePool

inductive ServiceKind
  | worker (workerId : String)
  | relay
  | listener

namespace ServiceKind

def setUp : ServiceKind → List SetUpCall
  | worker _ => [.createPool, .applySchema, .connect, .ensureStreams, .pullSubscribe,
      .subscribeChaos]
  | relay => [.createPool, .applySchema, .connect, .ensureStreams]
  | listener => [.createPool, .applySchema, .connect, .ensureStreams, .pullSubscribe]

def close : ServiceKind → List CloseCall
  | worker _ => [.closeNats, .closeKv, .closePool]
  | relay | listener => [.closeNats, .closePool]

end ServiceKind

/-- Where `run` is suspended. -/
inductive ServicePc
  | starting (call : SetUpCall) (rest : List SetUpCall)
  /-- About to look at the flag. -/
  | loop
  /-- `sub.fetch(1, timeout=…)`. -/
  | fetching
  | working (m : Machine)
  /-- `wait_for(stop.wait(), timeout=…)`. -/
  | pausing
  | closing (call : CloseCall) (rest : List CloseCall)
  /-- `run` has returned or raised. -/
  | exited
  | killed

namespace ServicePc

/-- The calls before the `try` statement, from some point on. -/
def setUp : List SetUpCall → ServicePc
  | [] => loop
  | call :: rest => starting call rest

/-- The `finally` clause, from some point on. -/
def close : List CloseCall → ServicePc
  | [] => exited
  | call :: rest => closing call rest

/-- Where the body of the loop leads: `none` while it is at work. -/
def after (kind : ServiceKind) (m : Machine) : Option Outcome → ServicePc
  | none => working m
  | some .again => loop
  | some .idle => pausing
  | some .raised => close kind.close

end ServicePc

/-- A process. -/
structure Service where
  kind : ServiceKind
  pc : ServicePc
  /-- The event SIGTERM sets. -/
  stop : Bool := false

/-- What a service hears. -/
inductive ServiceAnswer
  /-- What it awaited returned. -/
  | returned
  | raised
  | timeout
  /-- `fetch` returned the message, or the advisory, with this number. -/
  | message (n : ℕ)
  /-- The broker delivered the message just when `fetch` gave up. -/
  | lost (n : ℕ)
  /-- The body of the loop got an answer. -/
  | reply (ans : Answer) (remembered : Bool)

/-- Which steps a service makes of the pipeline, and where they lead it. -/
abbrev ServiceMove : Type := List PipelineStep × (Pipeline → ServicePc)

namespace Service

/-- A new process. -/
def launch (kind : ServiceKind) : Service := { kind := kind, pc := .setUp kind.setUp }

/-- It stays out of the pipeline. -/
def goTo (pc : ServicePc) : ServiceMove := ([], fun _ ↦ pc)

/-- It makes one step of the pipeline, in which `m` begins or goes on. -/
def drive (sv : Service) (b : PipelineStep) (m : Machine) : ServiceMove :=
  ([b], fun p ↦ .after sv.kind m (p.outcome? m))

/-- The `while` statement. -/
def iterate (sv : Service) (p : Pipeline) : ServiceMove :=
  if sv.stop then goTo (.close sv.kind.close)
  else match sv.kind with
    | .relay => sv.drive .beginRelay (.relay p.relays.length)
    | .worker _ | .listener => goTo .fetching

/-- `fetch` returned a message. -/
def receive (sv : Service) (p : Pipeline) (n : ℕ) : Option ServiceMove :=
  match sv.kind with
  | .worker workerId => some (sv.drive (.deliver n workerId) (.call p.fleet.calls.length))
  | .listener => some (sv.drive (.fetch n) (.advisory p.quarantines.length))
  | .relay => none

/-- `fetch` gave up on a message the broker had just delivered. Only the broker's count knows of
it. -/
def miss (sv : Service) (n : ℕ) : Option ServiceMove :=
  match sv.kind with
  | .worker _ => some ([.miss n], fun _ ↦ .loop)
  | .relay | .listener => none

/-- `run`, one answer at a time. -/
def next (sv : Service) (p : Pipeline) (x : ServiceAnswer) : Option ServiceMove :=
  match sv.pc, x with
  | .starting _ rest, .returned => some (goTo (.setUp rest))
  -- The pool and the connection were never inside a `try`.
  | .starting _ _, .raised => some (goTo .exited)
  | .loop, .returned => some (sv.iterate p)
  | .fetching, .timeout => some (goTo .loop)
  | .fetching, .raised => some (goTo (.close sv.kind.close))
  | .fetching, .message n => sv.receive p n
  | .fetching, .lost n => sv.miss n
  | .working m, .reply ans remembered => some (sv.drive (m.step ans remembered) m)
  | .pausing, .returned => some (goTo .loop)
  | .closing _ rest, .returned => some (goTo (.close rest))
  -- An exception in the `finally` clause skips the rest of it.
  | .closing _ _, .raised => some (goTo .exited)
  | _, _ => none

/-- What its death does to the pipeline; `none` when it has ended. -/
def kill (sv : Service) : Option (List PipelineStep) :=
  match sv.pc with
  | .exited | .killed => none
  | .working m => some [m.kill]
  | _ => some []

end Service

/-! ### All services -/

/-- The steps of the deployment. -/
inductive DeploymentStep
  | start (kind : ServiceKind)
  | sigterm (i : ℕ)
  | kill (i : ℕ)
  /-- Service number `i` gets an answer. -/
  | own (i : ℕ) (x : ServiceAnswer)
  | outside (a : PipelineStep)

/-- The step can be made without a service. A delivery that reaches nobody is among these: the
broker may still answer the fetch of a process that is dead. -/
def PipelineStep.isOutside : PipelineStep → Bool
  | submit _ _ _ _ | replay _ | miss _ | exhaust _ | advise _ | tick _ | vanish _ => true
  | beginRelay | relay _ _ _ | killRelay _ | deliver _ _ | handle _ _ | die _ | fetch _
  | quarantine _ _ _ | killListener _ => false

/-- The pipeline with its services, numbered from the first one started. -/
abbrev Deployment : Type := Pipeline × List Service

namespace Deployment

open TransitionSystem

/-- The services, as the controller of the pipeline. -/
def controller : Controller Pipeline PipelineStep (List Service) DeploymentStep where
  init services := services = []
  plan p services
    | .start kind => some ([], fun _ ↦ services ++ [Service.launch kind])
    | .sigterm i => some ([], fun _ ↦ services.modify i fun sv ↦ { sv with stop := true })
    | .kill i =>
      match services[i]? with
      | none => none
      | some sv => sv.kill.map fun as ↦ (as, fun _ ↦ services.set i { sv with pc := .killed })
    | .own i x =>
      match services[i]? with
      | none => none
      | some sv => (sv.next p x).map fun move ↦
        (move.1, fun p' ↦ services.set i { sv with pc := move.2 p' })
    | .outside a => if a.isOutside then some ([a], fun _ ↦ services) else none

/-- All runs from the beginning. -/
def system (cfg : Settings) : TransitionSystem Deployment DeploymentStep :=
  (Pipeline.system cfg).driven controller

/-- **Services only restrict.** Every run of the deployment is a run of the pipeline, at any guard
on the pipeline's steps. -/
def toPipeline (cfg : Settings) (G : Pipeline → PipelineStep → Prop) :
    Simulation (system cfg) (Within (Pipeline.system cfg) G controller) (Pipeline.system cfg) G :=
  toPlant

end Deployment

end Orbiter
