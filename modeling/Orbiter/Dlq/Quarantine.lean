import Orbiter.Db.Repo
import Orbiter.Dlq.Advisory
import Orbiter.Foundation.Program
import Orbiter.Inputs

/-!
# The dead-letter listener

What `run` does with one message of the advisory stream: parse it, quarantine what it names, and
acknowledge it — whatever the quarantine raised. As for `Worker.handle`, the program comes first and
then the machine of its control points.

A quarantine fetches the message from the work stream, copies it, records `deadLettered`, deletes
the original. `IllegalTransition` from the record is caught at once; everything else ends the
quarantine and is caught by the loop. What `parse_advisory` raises is caught by nobody.

* `ListenerCall`, `ListenerExc` — the calls, and what they can raise: the broker's and the
  database's exceptions, and those of Python the parser lets through;
* `quarantine`, `processAdvisory` — the programs. The order of the three calls is the design: a copy
  is there before anything is deleted, and a crash in between is repeated by the redelivery of the
  advisory;
* `QuarantinePc` — the control points, with the advisory and, from the first answer on, the message.
  `awaitCaught` is a call whose exceptions are caught by the loop;
* `follows_processAdvisory` — the machine is the program.
-/

namespace Orbiter

/-- The exceptions that can pass through the listener. -/
inductive ListenerExc
  | python (e : PyError)
  | db (e : DbError)
  /-- Anything else a call raises. -/
  | fault

/-- What the listener awaits. -/
inductive ListenerCall
  | getMsg (streamSeq : ℤ)
  /-- The copy, published under the message id `dlq-{stream}-{seq}`. -/
  | publishDlq (streamSeq : ℤ) (data : Message SubmitRequest)
  | recordEvent (w : Write)
  | deleteMsg (streamSeq : ℤ)
  | ack

/-- What each call answers. -/
def ListenerCall.Resp : ListenerCall → Type
  | .getMsg _ => Message SubmitRequest
  | .recordEvent _ => JobState
  | .publishDlq _ _ | .deleteMsg _ | .ack => Unit

/-- What `_quarantine_inner` records. -/
def deadLetterWrite (jobId : Uuid) (streamSeq deliveries : ℤ) : Write :=
  { jobId, event := .deadLettered, attempt := deliveries,
    detail := some (.obj [("stream_seq", .int streamSeq), ("deliveries", .int deliveries)]) }

namespace Listener

/-- Programs of the listener. -/
abbrev ListenerProg (α : Type) : Type := Prog ListenerCall ListenerCall.Resp ListenerExc α

/-- The record, with the one exception it expects. -/
def recordDeadLettered (adv : MaxDeliveriesAdvisory) (raw : Message SubmitRequest) :
    ListenerProg Unit :=
  Prog.tryExcept (do
    let _ ← Prog.await
      (ListenerCall.recordEvent (deadLetterWrite raw.jobId adv.streamSeq adv.deliveries)))
    fun
      | .db (.illegalTransition _) => return ()
      | e => Prog.raise e

/-- `_quarantine_inner`: copy before delete. -/
def quarantineInner (adv : MaxDeliveriesAdvisory) (raw : Message SubmitRequest) :
    ListenerProg Unit := do
  Prog.await (ListenerCall.publishDlq adv.streamSeq raw)
  recordDeadLettered adv raw
  Prog.await (ListenerCall.deleteMsg adv.streamSeq)

def quarantine (adv : MaxDeliveriesAdvisory) : ListenerProg Unit := do
  let raw ← Prog.await (ListenerCall.getMsg adv.streamSeq)
  quarantineInner adv raw

/-- The body of the loop of `run`, for one message. -/
def processAdvisory (raw : Loaded) : ListenerProg Unit :=
  match parseAdvisory raw with
  | .error e => Prog.raise (.python e)
  | .ok none => Prog.await ListenerCall.ack
  | .ok (some adv) => do
    (quarantine adv).tryExcept fun _ ↦ return ()
    Prog.await ListenerCall.ack

end Listener

/-! ### The same as control points -/

/-- Where the processing of an advisory is suspended. -/
inductive QuarantinePc
  | getMsg (adv : MaxDeliveriesAdvisory)
  | publish (adv : MaxDeliveriesAdvisory) (raw : Message SubmitRequest)
  | record (adv : MaxDeliveriesAdvisory) (raw : Message SubmitRequest)
  | delete (adv : MaxDeliveriesAdvisory) (raw : Message SubmitRequest)
  | ackAdvisory
  | finished (exit : Except ListenerExc Unit)

namespace QuarantinePc

/-- A call inside the `try` of the loop: what it raises leads to the acknowledgement. -/
def awaitCaught (c : ListenerCall) (k : c.Resp → QuarantinePc) :
    Except ListenerExc Unit ⊕ (Σ c : ListenerCall, Except ListenerExc c.Resp → QuarantinePc) :=
  .inr ⟨c, fun
    | .ok r => k r
    | .error _ => ackAdvisory⟩

/-- The call a control point awaits and where each answer leads. -/
def view : Prog.View ListenerCall ListenerCall.Resp ListenerExc Unit QuarantinePc
  | getMsg adv => awaitCaught (.getMsg adv.streamSeq) fun raw ↦ publish adv raw
  | publish adv raw => awaitCaught (.publishDlq adv.streamSeq raw) fun _ ↦ record adv raw
  | record adv raw =>
    .inr ⟨.recordEvent (deadLetterWrite raw.jobId adv.streamSeq adv.deliveries), fun
      | .ok _ => delete adv raw
      | .error (.db (.illegalTransition _)) => delete adv raw
      | .error _ => ackAdvisory⟩
  | delete adv _ => awaitCaught (.deleteMsg adv.streamSeq) fun _ ↦ ackAdvisory
  | ackAdvisory => .inr ⟨.ack, fun
      | .ok _ => finished (.ok ())
      | .error e => finished (.error e)⟩
  | finished exit => .inl exit

/-- Where the processing of a message begins. -/
def start (raw : Loaded) : QuarantinePc :=
  match parseAdvisory raw with
  | .error e => finished (.error (.python e))
  | .ok none => ackAdvisory
  | .ok (some adv) => getMsg adv

/-- The advisory a control point works on. -/
def adv? : QuarantinePc → Option MaxDeliveriesAdvisory
  | getMsg adv | publish adv _ | record adv _ | delete adv _ => some adv
  | ackAdvisory | finished _ => none

/-- The message a control point has fetched. -/
def raw? : QuarantinePc → Option (Message SubmitRequest)
  | publish _ raw | record _ raw | delete _ raw => some raw
  | getMsg _ | ackAdvisory | finished _ => none

/-! ### The machine is the program -/

/-- At its end the listener acknowledges the advisory. -/
theorem follows_ackAdvisory :
    Prog.Follows view ackAdvisory (Prog.await ListenerCall.ack) :=
  Prog.Follows.of_call rfl rfl (fun _ ↦ rfl) fun _ ↦ rfl

/-- **The control points are the program**, call by call and answer by answer. -/
theorem follows_processAdvisory (raw : Loaded) :
    Prog.Follows view (start raw) (Listener.processAdvisory raw) := by
  have hack : Prog.Follows view ackAdvisory (Prog.await ListenerCall.ack) := follows_ackAdvisory
  rw [start, Listener.processAdvisory]
  rcases parseAdvisory raw with e | (_ | adv)
  · exact rfl
  · exact hack
  · show Prog.Follows view (getMsg adv) _
    refine Prog.Follows.of_call rfl rfl (fun raw' ↦ ?_) fun _ ↦ hack
    refine Prog.Follows.of_call rfl rfl (fun _ ↦ ?_) fun _ ↦ hack
    have hdelete : Prog.Follows view (delete adv raw')
        (Prog.bind (Prog.tryExcept (Prog.await (ListenerCall.deleteMsg adv.streamSeq))
          fun _ ↦ Prog.ret ()) fun _ ↦ Prog.await ListenerCall.ack) :=
      Prog.Follows.of_call rfl rfl (fun _ ↦ hack) fun _ ↦ hack
    refine Prog.Follows.of_call rfl rfl (fun _ ↦ hdelete) fun e ↦ ?_
    rcases e with e | e | _
    · exact hack
    · rcases e with j | e | e | j
      · exact hack
      · exact hdelete
      · exact hack
      · exact hack
    · exact hack

end QuarantinePc

end Orbiter
