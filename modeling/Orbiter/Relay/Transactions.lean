import Orbiter.Db.Isolation
import Orbiter.Relay.OutboxRelay

/-!
# The relays' transactions

Any number of runs of `relay_once` beside the transactions of the repository, each in a transaction
of its own. Steps are single statements and single publishes, and `SELECT … FOR UPDATE SKIP LOCKED`
is taken apart further: it first takes its snapshot, then comes to the rows one by one, and at each
of them passes over a row that another relay has locked and looks at the newest committed version of
the others, which it locks if it is still unpublished. In between anything can happen.

A publish that raises may or may not have reached the broker. An exception rolls the transaction
back, and so does the death of the relay, at any step; the locks are gone then, and marks that were
not committed.

## Contents

* `RelayedServer` — the statement-level server of the repository, the relays' transactions, and
  every publication made so far, with the relay that made it. Rows of transactions that have not
  committed are in the server and invisible to the relays;
* `natsMsgId`, `Publication.Of` — the id a row is published under, and that a publication is of a
  row: id, subject and payload;
* `Ran`, `stepRun_eq_some` — what one statement or publish makes of its transaction, one constructor
  for each;
* `step_cases` — the steps of the system: those of the repository, and what a relay does, from its
  beginning to its commit, its rollback or its death. What they preserve is the subject of
  `Relay.Safety`.
-/

namespace Orbiter

/-- `f"outbox-{row['id']}"`, the message id of an outbox row. -/
def natsMsgId (id : ℕ) : String := "outbox-" ++ id.repr

theorem natsMsgId_inj {id id' : ℕ} : natsMsgId id = natsMsgId id' ↔ id = id' := by
  refine ⟨fun h ↦ ?_, congrArg natsMsgId⟩
  -- The digits are read back.
  rw [natsMsgId, natsMsgId, String.append_right_inj] at h
  have hd := congrArg (fun s : String ↦ Nat.ofDigitChars 10 s.toList 0) h
  simpa only [Nat.toList_repr, Nat.ofDigitChars_ten_toDigits] using hd

/-- A message that reached the broker. -/
structure Publication where
  /-- The relay transaction it was published in. -/
  relay : ℕ
  natsMsgId : String
  subject : String
  payload : Message SubmitRequest

/-- A message with the row's subject, its payload and its id. -/
structure Publication.Of (m : Publication) (e : OutboxEntry) : Prop where
  natsMsgId : m.natsMsgId = Orbiter.natsMsgId e.1
  subject : m.subject = e.2.subject
  payload : m.payload = e.2.payload

/-- What a relay publishes of an outbox row. -/
def OutboxEntry.publication (entry : OutboxEntry) (rid : ℕ) : Publication :=
  ⟨rid, natsMsgId entry.1, entry.2.subject, entry.2.payload⟩

/-- How a call of a relay ends. -/
inductive RelayAnswer
  | served
  /-- It raises; `effect` tells whether it took effect before. -/
  | raised (effect : Bool)

def RelayAnswer.takesEffect : RelayAnswer → Bool
  | .served => true
  | .raised effect => effect

/-- A transaction of `relay_once`. -/
structure RelayTx where
  /-- `now()`. -/
  now : ℕ
  pc : RelayPc := .select
  status : TxStatus := .active
  /-- The ids of the snapshot it has not come to yet, once there is one. -/
  scan : Option (List ℕ) := none
  /-- The rows it has locked. -/
  held : List OutboxEntry := []
  /-- The ids its update has marked. -/
  marks : List ℕ := []

/-- The database server, the relays, and what reached the broker, in this order. -/
structure RelayedServer where
  server : Server SubmitRequest
  relays : List RelayTx
  sent : List Publication

/-- The steps. -/
inductive RelayedServerStep
  /-- A step of a transaction of the repository. -/
  | repo (a : ServerStep SubmitRequest)
  | begin (now : ℕ)
  /-- The `SELECT` of relay `rid` takes its snapshot. -/
  | look (rid : ℕ)
  /-- And comes to the next row. -/
  | visit (rid : ℕ)
  /-- The call the relay awaits ends. -/
  | run (rid : ℕ) (ans : RelayAnswer)
  /-- Commit, or the rollback after an exception. -/
  | finish (rid : ℕ)
  /-- The relay dies. -/
  | die (rid : ℕ)

namespace RelayedServer

/-- The schema just applied. -/
def empty : RelayedServer := ⟨.empty, [], []⟩

/-- The committed rows of `outbox`, in id order. -/
def rows (s : RelayedServer) : List OutboxEntry := s.server.db.outbox.rows

def active? (s : RelayedServer) (rid : ℕ) : Option RelayTx :=
  s.relays[rid]?.filter fun tx ↦ tx.status = .active

/-- Another open relay has locked the row. -/
def lockedByOther (s : RelayedServer) (rid id : ℕ) : Bool :=
  (List.range s.relays.length).any fun r ↦
    r ≠ rid && (s.active? r).any fun tx ↦ (tx.held.map Prod.fst).contains id

def setRelay (s : RelayedServer) (rid : ℕ) (tx : RelayTx) : RelayedServer :=
  { s with relays := s.relays.set rid tx }

/-- `WHERE published_at IS NULL ORDER BY id`, in the snapshot. -/
def snapshot (s : RelayedServer) : List ℕ :=
  (s.rows.filter fun e ↦ e.2.publishedAt.isNone).map Prod.fst

/-- `FOR UPDATE SKIP LOCKED` at one row: the newest committed version of it, if it can be locked and
is still unpublished. -/
def lockRow (s : RelayedServer) (rid id : ℕ) : Option OutboxEntry :=
  if s.lockedByOther rid id then none
  else s.rows.find? fun e ↦ e.1 = id && e.2.publishedAt.isNone

/-- The `SELECT` takes its snapshot. -/
def stepLook (s : RelayedServer) (rid : ℕ) (tx : RelayTx) : Option RelayedServer :=
  match tx.pc, tx.scan with
  | .select, none => some (s.setRelay rid { tx with scan := some s.snapshot })
  | _, _ => none

/-- The `SELECT` comes to its next row, unless it has reached its limit. -/
def stepVisit (cfg : Settings) (s : RelayedServer) (rid : ℕ) (tx : RelayTx) :
    Option RelayedServer :=
  match tx.pc, tx.scan with
  | .select, some (id :: rest) =>
    if tx.held.length < cfg.relayBatchSize then
      some (s.setRelay rid { tx with
        scan := some rest
        held := tx.held ++ (s.lockRow rid id).toList })
    else none
  | _, _ => none

/-- What a relay gets to see. The `SELECT` answers when it has come to its last row, or has as many
rows as it may. -/
def reply (tx : RelayTx) : (c : RelayCall) → RelayAnswer → Option (Except RelayExc c.Resp)
  | _, .raised _ => some (.error .fault)
  | .select limit, .served =>
    if tx.scan = some [] ∨ (tx.scan.isSome ∧ limit ≤ tx.held.length) then some (.ok tx.held)
    else none
  | .publish _, .served | .mark _, .served => some (.ok ())

/-- What reaches the broker when a call takes effect. -/
def published (rid : ℕ) : RelayCall → List Publication
  | .publish entry => [entry.publication rid]
  | .select _ | .mark _ => []

/-- What a call marks when it takes effect. -/
def marked : RelayCall → List ℕ
  | .mark ids => ids
  | .select _ | .publish _ => []

/-- The call relay `rid` awaits ends. -/
def stepRun (cfg : Settings) (s : RelayedServer) (rid : ℕ) (tx : RelayTx) (ans : RelayAnswer) :
    Option RelayedServer :=
  match tx.pc.view cfg with
  | .inl _ => none
  | .inr ⟨c, k⟩ => (reply tx c ans).map fun r ↦
    { s with
      relays := s.relays.set rid { tx with
        pc := k r
        marks := tx.marks ++ if ans.takesEffect then marked c else [] }
      sent := s.sent ++ if ans.takesEffect then published rid c else [] }

/-- `SET published_at = now() WHERE id = ANY($1)`, at one row. -/
def markRow (now : ℕ) (ids : List ℕ) (id : ℕ) (row : OutboxRow SubmitRequest) :
    OutboxRow SubmitRequest :=
  if id ∈ ids then { row with publishedAt := some now } else row

/-- The marked rows, from the commit on. -/
def mark (server : Server SubmitRequest) (now : ℕ) (ids : List ℕ) : Server SubmitRequest :=
  { server with outbox := server.outbox.modify fun id r ↦ (r.1, markRow now ids id r.2) }

/-- The commit. -/
def commit (s : RelayedServer) (rid : ℕ) (tx : RelayTx) : RelayedServer :=
  { s.setRelay rid { tx with status := .committed } with
    server := mark s.server tx.now tx.marks }

/-- The end of a transaction whose body is done. -/
def stepFinish (s : RelayedServer) (rid : ℕ) (tx : RelayTx) : Option RelayedServer :=
  match tx.pc with
  | .finished (.ok _) => some (s.commit rid tx)
  | .finished (.error _) => some (s.setRelay rid { tx with status := .rolledBack })
  | _ => none

/-- The step function. -/
def step (cfg : Settings) (s : RelayedServer) : RelayedServerStep → Option RelayedServer
  | .repo a => (s.server.step a).map fun server ↦ { s with server := server }
  | .begin now => some { s with relays := s.relays ++ [{ now := now }] }
  | .look rid => (s.active? rid).bind fun tx ↦ s.stepLook rid tx
  | .visit rid => (s.active? rid).bind fun tx ↦ s.stepVisit cfg rid tx
  | .run rid ans => (s.active? rid).bind fun tx ↦ s.stepRun cfg rid tx ans
  | .finish rid => (s.active? rid).bind fun tx ↦ s.stepFinish rid tx
  | .die rid => (s.active? rid).map fun tx ↦ s.setRelay rid { tx with status := .dead }

/-- All runs from the schema just applied. -/
def system (cfg : Settings) : TransitionSystem RelayedServer RelayedServerStep where
  init s := s = empty
  step := step cfg

/-! ### What one step does -/

variable {cfg : Settings} {s s' : RelayedServer} {rid : ℕ} {tx tx' : RelayTx}

/-- An open transaction of a relay is an entry that has not ended. -/
theorem active?_eq_some :
    s.active? rid = some tx ↔ s.relays[rid]? = some tx ∧ tx.status = .active := by
  rw [active?, Option.filter_eq_some_iff, decide_eq_true_eq]

/-- **What a relay locks** is committed, unpublished, and locked by no other relay. -/
theorem lockRow_eq_some {id : ℕ} {e : OutboxEntry} (h : s.lockRow rid id = some e) :
    e.1 = id ∧ e ∈ s.rows ∧ e.2.publishedAt = none ∧
      ∀ r tx, r ≠ rid → s.active? r = some tx → ∀ e' ∈ tx.held, e'.1 ≠ id := by
  rw [lockRow] at h
  split at h
  · exact nomatch h
  · next hfree =>
    have hp := List.find?_some h
    rw [Bool.and_eq_true_iff, decide_eq_true_eq, Option.isNone_iff_eq_none] at hp
    refine ⟨hp.1, List.mem_of_find?_eq_some h, hp.2, fun r tx hne hx e' he' heq ↦ hfree ?_⟩
    have hlt := List.lt_length_of_getElem? (active?_eq_some.1 hx).1
    refine List.any_eq_true.2 ⟨r, List.mem_range.2 hlt, ?_⟩
    rw [hx, Option.any_some, Bool.and_eq_true_iff, List.contains_iff_mem]
    exact ⟨decide_eq_true hne, heq ▸ List.mem_map_of_mem he'⟩

/-- A step inside a relay's transaction: the transaction after it, and what it sends. -/
inductive Ran (s : RelayedServer) (rid : ℕ) (tx : RelayTx) :
    RelayPc → RelayTx → List Publication → Prop
  | looked (h : tx.scan = none) : Ran s rid tx .select { tx with scan := some s.snapshot } []
  | visited {id : ℕ} {rest : List ℕ} (h : tx.scan = some (id :: rest)) : Ran s rid tx .select
      { tx with scan := some rest, held := tx.held ++ (s.lockRow rid id).toList } []
  | selected : Ran s rid tx .select { tx with pc := .loop tx.held tx.held } []
  | sent (batch : List OutboxEntry) (entry : OutboxEntry) (rest : List OutboxEntry) :
      Ran s rid tx (.publish batch entry rest) { tx with pc := .loop batch rest }
        [entry.publication rid]
  | marked (batch : List OutboxEntry) : Ran s rid tx (.mark batch)
      { tx with pc := .finished (.ok batch.length), marks := tx.marks ++ batch.map Prod.fst } []
  | raised {pc : RelayPc} (h : ∀ exit, pc ≠ .finished exit) (marks : List ℕ) : Ran s rid tx pc
      { tx with pc := .finished (.error .fault), marks := marks } []
  | lost (batch : List OutboxEntry) (entry : OutboxEntry) (rest : List OutboxEntry) :
      Ran s rid tx (.publish batch entry rest) { tx with pc := .finished (.error .fault) }
        [entry.publication rid]

/-- Taking the snapshot changes the relay's own transaction only. -/
theorem stepLook_eq_some (h : s.stepLook rid tx = some s') :
    ∃ tx', Ran s rid tx tx.pc tx' [] ∧ s' = s.setRelay rid tx' := by
  rw [stepLook] at h
  split at h
  · next hpc hscan =>
    rw [hpc]
    exact ⟨_, .looked hscan, (Option.some.inj h).symm⟩
  · exact nomatch h

theorem stepVisit_eq_some (h : s.stepVisit cfg rid tx = some s') :
    ∃ tx', Ran s rid tx tx.pc tx' [] ∧ s' = s.setRelay rid tx' := by
  rw [stepVisit] at h
  split at h
  · next id rest hpc hscan =>
    split at h
    · rw [hpc]
      exact ⟨_, .visited hscan, (Option.some.inj h).symm⟩
    · exact nomatch h
  · exact nomatch h

/-- **The inversion.** A call that ends is one of those listed. -/
theorem stepRun_eq_some {ans : RelayAnswer} (h : s.stepRun cfg rid tx ans = some s') :
    ∃ tx' out, Ran s rid tx tx.pc tx' out ∧
      s' = { s with relays := s.relays.set rid tx', sent := s.sent ++ out } := by
  rw [stepRun] at h
  generalize hpc : tx.pc = pc at h ⊢
  match pc, ans with
  | .select, .served =>
    obtain ⟨r, hr, rfl⟩ := Option.map_eq_some_iff.1 h
    rw [reply] at hr
    split at hr
    · obtain rfl := Option.some.inj hr
      refine ⟨_, _, .selected, ?_⟩
      simp [RelayAnswer.takesEffect, RelayedServer.marked, published]
    · exact nomatch hr
  | .select, .raised effect =>
    obtain rfl := Option.some.inj h
    refine ⟨_, _, Ran.raised (by simp) tx.marks, ?_⟩
    simp [RelayedServer.marked, published]
  | .publish batch entry rest, .served =>
    obtain rfl := Option.some.inj h
    refine ⟨_, _, .sent batch entry rest, ?_⟩
    simp [RelayAnswer.takesEffect, RelayedServer.marked, published]
  | .publish batch entry rest, .raised true =>
    obtain rfl := Option.some.inj h
    refine ⟨_, _, .lost batch entry rest, ?_⟩
    simp [RelayAnswer.takesEffect, RelayedServer.marked, published]
  | .publish batch entry rest, .raised false =>
    obtain rfl := Option.some.inj h
    refine ⟨_, _, Ran.raised (by simp) tx.marks, ?_⟩
    simp [RelayAnswer.takesEffect]
  | .mark batch, .served =>
    obtain rfl := Option.some.inj h
    refine ⟨_, _, .marked batch, ?_⟩
    simp [RelayAnswer.takesEffect, RelayedServer.marked, published]
  | .mark batch, .raised true =>
    obtain rfl := Option.some.inj h
    refine ⟨_, _, Ran.raised (by simp) (tx.marks ++ batch.map Prod.fst), ?_⟩
    simp [RelayAnswer.takesEffect, RelayedServer.marked, published]
  | .mark batch, .raised false =>
    obtain rfl := Option.some.inj h
    refine ⟨_, _, Ran.raised (by simp) tx.marks, ?_⟩
    simp [RelayAnswer.takesEffect]
  | .finished exit, ans => exact nomatch h

/-- **What one step can do**: a step of the repository, the begin of a relay, a step inside a
relay's transaction, its commit, or another end of it. -/
theorem step_cases {a : RelayedServerStep} (h : s.step cfg a = some s') :
    (∃ a server, s.server.step a = some server ∧ s' = { s with server := server }) ∨
    (∃ now, s' = { s with relays := s.relays ++ [{ now := now }] }) ∨
    (∃ rid tx tx' out, s.active? rid = some tx ∧ Ran s rid tx tx.pc tx' out ∧
      s' = { s with relays := s.relays.set rid tx', sent := s.sent ++ out }) ∨
    (∃ rid tx n, s.active? rid = some tx ∧ tx.pc = .finished (.ok n) ∧ s' = s.commit rid tx) ∨
    ∃ rid tx status, s.active? rid = some tx ∧ (status = .rolledBack ∨ status = .dead) ∧
      s' = s.setRelay rid { tx with status := status } := by
  match a with
  | .repo a =>
    obtain ⟨server, hstep, rfl⟩ := Option.map_eq_some_iff.1 h
    exact .inl ⟨a, server, hstep, rfl⟩
  | .begin now => exact .inr (.inl ⟨now, (Option.some.inj h).symm⟩)
  | .look rid =>
    obtain ⟨tx, hx, h⟩ := Option.bind_eq_some_iff.1 h
    obtain ⟨tx', hran, rfl⟩ := stepLook_eq_some h
    refine .inr (.inr (.inl ⟨rid, tx, tx', [], hx, hran, ?_⟩))
    rw [setRelay, List.append_nil]
  | .visit rid =>
    obtain ⟨tx, hx, h⟩ := Option.bind_eq_some_iff.1 h
    obtain ⟨tx', hran, rfl⟩ := stepVisit_eq_some h
    refine .inr (.inr (.inl ⟨rid, tx, tx', [], hx, hran, ?_⟩))
    rw [setRelay, List.append_nil]
  | .run rid ans =>
    obtain ⟨tx, hx, h⟩ := Option.bind_eq_some_iff.1 h
    obtain ⟨tx', out, hran, rfl⟩ := stepRun_eq_some h
    exact .inr (.inr (.inl ⟨rid, tx, tx', out, hx, hran, rfl⟩))
  | .finish rid =>
    obtain ⟨tx, hx, h⟩ := Option.bind_eq_some_iff.1 h
    rw [stepFinish] at h
    split at h
    · next n hpc => exact .inr (.inr (.inr (.inl ⟨rid, tx, n, hx, hpc, (Option.some.inj h).symm⟩)))
    · exact .inr (.inr (.inr (.inr ⟨rid, tx, _, hx, .inl rfl, (Option.some.inj h).symm⟩)))
    · exact nomatch h
  | .die rid =>
    obtain ⟨tx, hx, rfl⟩ := Option.map_eq_some_iff.1 h
    exact .inr (.inr (.inr (.inr ⟨rid, tx, _, hx, .inr rfl, rfl⟩)))

end RelayedServer

end Orbiter
