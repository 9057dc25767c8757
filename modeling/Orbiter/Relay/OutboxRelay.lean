import Orbiter.Db.Schema
import Orbiter.Foundation.Program
import Orbiter.Inputs

/-!
# The outbox relay

`relay_once`: lock a batch of unpublished rows, publish them one by one, mark the whole batch, all
inside one transaction. A publish that raises leaves the transaction, which rolls back: the locks go
and nothing is marked. As before the program comes first, then its control points.

* `Relay.relayOnce`, `Relay.publishAll` — the program. The loop is a recursion on the batch;
* `RelayPc` — the control points: a publish carries the batch, the row being published and those
  still to come, so what the relay holds and what is left can be read off it (`locked`, `todo`);
* `follows_relayOnce` — the control points are the program. The induction is on what is still to be
  published, with the batch fixed.

What the `SELECT` sees and when, and what a publish that raises has done, is up to the systems the
relay is run in.
-/

namespace Orbiter

/-- An outbox row with its id. -/
abbrev OutboxEntry : Type := ℕ × OutboxRow SubmitRequest

/-- What the relay awaits. -/
inductive RelayCall
  /-- `SELECT … WHERE published_at IS NULL ORDER BY id LIMIT $1 FOR UPDATE SKIP LOCKED`. -/
  | select (limit : ℕ)
  /-- Published under the message id `outbox-{id}`. -/
  | publish (entry : OutboxEntry)
  /-- The update, and the commit that follows it. -/
  | mark (ids : List ℕ)

/-- What each call answers. -/
def RelayCall.Resp : RelayCall → Type
  | .select _ => List OutboxEntry
  | .publish _ | .mark _ => Unit

/-- The relay names no exception: any of them ends it. -/
inductive RelayExc
  | fault

namespace Relay

/-- Programs of the relay. -/
abbrev RelayProg (α : Type) : Type := Prog RelayCall RelayCall.Resp RelayExc α

/-- The loop over the batch. -/
def publishAll : List OutboxEntry → RelayProg Unit
  | [] => return ()
  | entry :: rest => do
    Prog.await (RelayCall.publish entry)
    publishAll rest

/-- Publish one batch. Returns the number of rows published. -/
def relayOnce (cfg : Settings) : RelayProg ℕ := do
  let rows ← Prog.await (RelayCall.select cfg.relayBatchSize)
  publishAll rows
  if rows.isEmpty then return rows.length
  else do
    Prog.await (RelayCall.mark (rows.map Prod.fst))
    return rows.length

end Relay

/-! ### The same as control points -/

/-- Where a relay is suspended. -/
inductive RelayPc
  | select
  /-- Inside the loop, with the batch and the rows still to publish. -/
  | publish (batch : List OutboxEntry) (entry : OutboxEntry) (rest : List OutboxEntry)
  | mark (batch : List OutboxEntry)
  | finished (exit : Except RelayExc ℕ)

namespace RelayPc

/-- Where the loop stands when `todo` is left of the batch. -/
def loop (batch : List OutboxEntry) : List OutboxEntry → RelayPc
  | entry :: rest => publish batch entry rest
  | [] => if batch.isEmpty then finished (.ok batch.length) else mark batch

/-- The rows a control point holds locked. -/
def locked : RelayPc → List OutboxEntry
  | publish batch _ _ | mark batch => batch
  | _ => []

/-- The rows a control point has still to publish. -/
def todo : RelayPc → List OutboxEntry
  | publish _ entry rest => entry :: rest
  | _ => []

/-- The call a control point awaits and where each answer leads. -/
def view (cfg : Settings) : Prog.View RelayCall RelayCall.Resp RelayExc ℕ RelayPc
  | select => .inr ⟨.select cfg.relayBatchSize, fun
      | .ok rows => loop rows rows
      | .error e => finished (.error e)⟩
  | publish batch entry rest => .inr ⟨.publish entry, fun
      | .ok _ => loop batch rest
      | .error e => finished (.error e)⟩
  | mark batch => .inr ⟨.mark (batch.map Prod.fst), fun
      | .ok _ => finished (.ok batch.length)
      | .error e => finished (.error e)⟩
  | finished exit => .inl exit

/-- The loop holds its batch to the end. -/
@[simp] theorem locked_loop (batch rest : List OutboxEntry) :
    (loop batch rest).locked = batch := by
  match rest with
  | entry :: rest => rfl
  | [] =>
    rw [loop]
    split
    · next hempty => exact (List.isEmpty_iff.1 hempty).symm
    · rfl

@[simp] theorem todo_loop (batch rest : List OutboxEntry) : (loop batch rest).todo = rest := by
  match rest with
  | entry :: rest => rfl
  | [] =>
    rw [loop]
    split <;> rfl

/-- The rest of `relay_once` after `publishAll`. -/
theorem follows_loop (cfg : Settings) (batch todo : List OutboxEntry) :
    Prog.Follows (view cfg) (loop batch todo) (Prog.bind (Relay.publishAll todo) fun _ ↦
      if batch.isEmpty then Prog.ret batch.length
      else Prog.bind (Prog.await (RelayCall.mark (batch.map Prod.fst))) fun _ ↦
        Prog.ret batch.length) := by
  induction todo with
  | nil =>
    rw [loop]
    show Prog.Follows (view cfg) _ (if batch.isEmpty then _ else _)
    split
    · exact rfl
    · exact Prog.Follows.of_call rfl rfl (fun _ ↦ rfl) fun _ ↦ rfl
  | cons entry rest ih => exact Prog.Follows.of_call rfl rfl (fun _ ↦ ih) fun _ ↦ rfl

/-- **The control points are the program**, call by call and answer by answer. -/
theorem follows_relayOnce (cfg : Settings) :
    Prog.Follows (view cfg) select (Relay.relayOnce cfg) :=
  Prog.Follows.of_call rfl rfl (fun rows ↦ follows_loop cfg rows rows) fun _ ↦ rfl

end RelayPc

end Orbiter
