import Orbiter.Db.Statements
import Orbiter.Foundation.Records
import Orbiter.Foundation.TaggedTable

/-!
# Transactions on the server

`READ COMMITTED` with row locks, as far as the repository relies on it. Any number of transactions
are open; each runs one statement at a time, and a statement sees what is committed when it runs and
what its own transaction has written. Rows of `job_events` and `outbox` draw their ids when they are
inserted and become visible when their transaction commits. A row of `jobs` that a transaction has
locked, written or inserted is its own until it ends.

A statement that has to wait is one that cannot run yet: `FOR UPDATE` and `UPDATE` on a row another
transaction has locked, and an `INSERT` of a key, or of an id, another transaction has inserted and
not committed. `now()` is the time the transaction began.

A transaction ends by its commit, by the rollback an exception causes, or at any statement by the
death of its connection, which is a rollback too. Every transaction of the repository locks and
writes one row of `jobs` at most. The foreign keys of `job_events` and `outbox` are met by that row.

## How a step is used

* `Ran`, `RanTo` — what one statement makes of its transaction, and of the server: one constructor
  for each control point and outcome, with everything the statement has seen;
* `stepRun_eq_some` — a statement that runs is one of these, so `perform` is opened here and nowhere
  else;
* `step_cases` — a step begins a transaction, runs a statement, commits, rolls back, or loses a
  connection. Every invariant over runs is proved by these five cases;
* `committed_eq_false`, `committed_set` — an open transaction is invisible, and stays so until it
  commits.
-/

namespace Orbiter

/-- How far a transaction is. -/
inductive TxStatus
  | active
  | committed
  /-- Ended by an exception the call raised. -/
  | rolledBack
  /-- Its connection is gone; the call neither returned nor raised what it was going to. -/
  | dead
  deriving DecidableEq

/-- A transaction and the call that opened it. -/
structure Tx (π : Type) where
  call : RepoCall π
  /-- `now()`. -/
  now : ℕ
  pc : TxPc π
  status : TxStatus := .active
  /-- The row of `jobs` it holds. -/
  lock : Option Uuid := none
  /-- What it has written there. -/
  version : Option (Uuid × JobRow π) := none

namespace Tx

variable {π : Type}

/-- It goes on at `pc`. -/
def goto (tx : Tx π) (pc : TxPc π) : Tx π := { tx with pc := pc }

/-- It locks a row. -/
def hold (tx : Tx π) (j : Uuid) : Tx π := { tx with lock := some j }

/-- It writes a row, which is its own from then on. -/
def write (tx : Tx π) (j : Uuid) (row : JobRow π) : Tx π :=
  { tx with lock := some j, version := some (j, row) }

def ended (tx : Tx π) (status : TxStatus) : Tx π := { tx with status := status }

end Tx

/-- The database with its open and ended transactions. The rows of `job_events` and `outbox` are
tagged with the transaction that inserted them; `commits` lists the committed transactions in the
order of their commits and is read by statements only. -/
structure Server (π : Type) where
  jobs : AList fun _ : Uuid ↦ JobRow π
  jobEvents : SerialTable (ℕ × EventRow)
  outbox : SerialTable (ℕ × OutboxRow π)
  txs : List (Tx π)
  commits : List ℕ

/-- The steps. -/
inductive ServerStep (π : Type)
  | begin (now : ℕ) (c : RepoCall π)
  /-- The next statement of a transaction. -/
  | run (tid : ℕ)
  /-- Commit, or the rollback after an exception. -/
  | finish (tid : ℕ)
  /-- The connection dies. -/
  | die (tid : ℕ)

namespace Server

variable {π : Type}

/-- The schema just applied. -/
def empty : Server π := ⟨∅, .empty, .empty, [], []⟩

def committed (s : Server π) (tid : ℕ) : Bool :=
  s.txs[tid]?.any fun tx ↦ tx.status = .committed

/-- What is committed. -/
def db (s : Server π) : Database π :=
  ⟨s.jobs, s.jobEvents.visible s.committed, s.outbox.visible s.committed⟩

/-- The rows of `jobs` a transaction sees: the committed ones and what it has written. -/
def seen (s : Server π) (tx : Tx π) : Database π :=
  match tx.version with
  | none => s.db
  | some (j, row) => { s.db with jobs := s.jobs.insert j row }

/-- Some other open transaction is as described. -/
def otherActive (s : Server π) (tid : ℕ) (p : Tx π → Bool) : Bool :=
  (List.range s.txs.length).any fun t ↦
    t ≠ tid && s.txs[t]?.any fun tx ↦ tx.status = .active && p tx

def setTx (s : Server π) (tid : ℕ) (tx : Tx π) : Server π := { s with txs := s.txs.set tid tx }

/-- One statement of transaction `tid`; `none` when it has to wait. -/
def perform (s : Server π) (tid : ℕ) (tx : Tx π) :
    (c : Stmt π) → Option (Except DbError c.Resp × Server π)
  | .insertJob jobId key payload state =>
    if ((s.seen tx).jobByKey? key).isSome then some (.ok none, s)
    else if s.otherActive tid fun x ↦ x.version.any fun v ↦ v.2.idempotencyKey = key then none
    else if ((s.seen tx).job? jobId).isSome then some (.error (.uniqueViolation jobId), s)
    else if s.otherActive tid fun x ↦ x.version.any fun v ↦ v.1 = jobId then none
    else some (.ok (some jobId),
      s.setTx tid (tx.write jobId { Database.newRow tx.now key payload with state := state }))
  | .selectByKey key => some (.ok ((s.seen tx).jobByKey? key), s)
  | .selectPayload jobId => some (.ok (((s.seen tx).job? jobId).map JobRow.payload), s)
  | .selectForUpdate jobId =>
    match (s.seen tx).job? jobId with
    | none => some (.ok none, s)
    | some row =>
      if s.otherActive tid fun x ↦ x.lock = some jobId then none
      else some (.ok (some ⟨row.state, row.attempts, row.fenceToken⟩), s.setTx tid (tx.hold jobId))
  | .updateJob jobId state attempt token result =>
    match (s.seen tx).job? jobId with
    | none => some (.ok none, s)
    | some row =>
      if s.otherActive tid fun x ↦ x.lock = some jobId then none
      else if row.fenceToken ≤ token then some (.ok (some jobId), s.setTx tid (tx.write jobId
        { row with
          state := state
          attempts := max row.attempts attempt
          fenceToken := token
          result := result.or row.result
          updatedAt := tx.now }))
      else some (.ok none, s)
  | .insertEvent jobId event attempt detail =>
    some (.ok (), { s with
      jobEvents := s.jobEvents.insert (tid, ⟨jobId, event, attempt, detail, tx.now⟩) })
  | .insertOutbox jobId subject payload =>
    some (.ok (), { s with
      outbox := s.outbox.insert (tid, ⟨jobId, subject, payload, tx.now, none⟩) })

/-- The transaction goes on at `pc`. -/
def moveTo (s : Server π) (tid : ℕ) (pc : TxPc π) : Server π :=
  { s with txs := s.txs.modify tid fun tx ↦ tx.goto pc }

/-- The next statement of transaction `tid`. -/
def stepRun (s : Server π) (tid : ℕ) (tx : Tx π) : Option (Server π) :=
  match tx.pc.view with
  | .inl _ => none
  | .inr ⟨c, k⟩ => (s.perform tid tx c).map fun p ↦ p.2.moveTo tid (k p.1)

/-- The commit: what the transaction has written becomes visible at once. -/
def commit (s : Server π) (tid : ℕ) (tx : Tx π) : Server π where
  jobs := (s.seen tx).jobs
  jobEvents := s.jobEvents
  outbox := s.outbox
  txs := s.txs.set tid (tx.ended .committed)
  commits := s.commits ++ [tid]

/-- The end of a transaction whose body is done. -/
def stepFinish (s : Server π) (tid : ℕ) (tx : Tx π) : Option (Server π) :=
  match tx.pc with
  | .finished (.ok _) => some (s.commit tid tx)
  | .finished (.error _) => some (s.setTx tid (tx.ended .rolledBack))
  | _ => none

/-- The open transaction with a number. -/
def active? (s : Server π) (tid : ℕ) : Option (Tx π) :=
  s.txs[tid]?.filter fun tx ↦ tx.status = .active

/-- The step function. -/
def step (s : Server π) : ServerStep π → Option (Server π)
  | .begin now c => some { s with txs := s.txs ++ [{ call := c, now := now, pc := .start c }] }
  | .run tid => (s.active? tid).bind fun tx ↦ s.stepRun tid tx
  | .finish tid => (s.active? tid).bind fun tx ↦ s.stepFinish tid tx
  | .die tid => (s.active? tid).map fun tx ↦ s.setTx tid (tx.ended .dead)

/-- All runs from the schema just applied. -/
def system : TransitionSystem (Server π) (ServerStep π) where
  init s := s = empty
  step := step

/-! ### Selections -/

/-- An open transaction is an entry that has not ended. -/
theorem active?_eq_some {s : Server π} {tid : ℕ} {tx : Tx π} :
    s.active? tid = some tx ↔ s.txs[tid]? = some tx ∧ tx.status = .active := by
  rw [active?, Option.filter_eq_some_iff, decide_eq_true_eq]

/-- Where no other open transaction has the property, a given one has not. -/
theorem otherActive_eq_false {s : Server π} {tid : ℕ} {p : Tx π → Bool}
    (h : ¬ s.otherActive tid p = true) {t : ℕ} {tx : Tx π} (hne : t ≠ tid)
    (hx : s.active? t = some tx) : p tx = false := by
  obtain ⟨hget, hact⟩ := active?_eq_some.1 hx
  cases hp : p tx with
  | false => rfl
  | true =>
    refine absurd (List.any_eq_true.2 ⟨t, List.mem_range.2 (List.lt_length_of_getElem? hget), ?_⟩) h
    simp [hne, hget, hact, hp]

/-- A row that nobody else holds is locked by no other open transaction. -/
theorem not_lock_of_otherActive {s : Server π} {tid : ℕ} {j : Uuid}
    (h : ¬ s.otherActive tid (fun x ↦ x.lock = some j) = true) (t : ℕ) (tx : Tx π) (hne : t ≠ tid)
    (hx : s.active? t = some tx) : tx.lock ≠ some j :=
  of_decide_eq_false (otherActive_eq_false h hne hx)

/-- A transaction that has written no row sees what is committed. -/
theorem seen_of_none {s : Server π} {tx : Tx π} (h : tx.version = none) : s.seen tx = s.db := by
  rw [seen, h]

/-! ### What one statement does -/

/-- The statements, from control point to control point: the transaction after the statement, and
the rows it inserts into `job_events` and `outbox`. -/
inductive Ran (s : Server π) (tid : ℕ) (tx : Tx π) :
    TxPc π → Tx π → Option EventRow → Option (OutboxRow π) → Prop
  | keyTaken (a : Submission π) (h : (s.seen tx).jobByKey? a.idempotencyKey ≠ none) :
      Ran s tid tx (.insertJob a) (tx.goto (.selectByKey a)) none none
  | idTaken (a : Submission π) (hk : (s.seen tx).jobByKey? a.idempotencyKey = none)
      (h : (s.seen tx).job? a.jobId ≠ none) :
      Ran s tid tx (.insertJob a) (tx.goto (.finished (.error (.uniqueViolation a.jobId))))
        none none
  | inserted (a : Submission π) (hk : (s.seen tx).jobByKey? a.idempotencyKey = none)
      (h : (s.seen tx).job? a.jobId = none)
      (hfree : ∀ t tx', t ≠ tid → s.active? t = some tx' → ∀ j row, tx'.version = some (j, row) →
        row.idempotencyKey ≠ a.idempotencyKey ∧ j ≠ a.jobId) :
      Ran s tid tx (.insertJob a)
        ((tx.write a.jobId (Database.newRow tx.now a.idempotencyKey a.payload)).goto
          (.insertSubmitted a)) none none
  | existing (a : Submission π) : Ran s tid tx (.selectByKey a)
      (tx.goto (.finished (.ok (.submitted ((s.seen tx).jobByKey? a.idempotencyKey) false))))
      none none
  | submitted (a : Submission π) : Ran s tid tx (.insertSubmitted a)
      (tx.goto (.insertEnqueued a)) (some ⟨a.jobId, .submitted, 0, .obj [], tx.now⟩) none
  | enqueued (a : Submission π) : Ran s tid tx (.insertEnqueued a)
      (tx.goto (.insertMessage a)) (some ⟨a.jobId, .enqueued, 0, .obj [], tx.now⟩) none
  | posted (a : Submission π) : Ran s tid tx (.insertMessage a)
      (tx.goto (.finished (.ok (.submitted (some a.jobId) true)))) none
      (some ⟨a.jobId, a.subject, ⟨a.jobId, a.payload, some a.carrier⟩, tx.now, none⟩)
  | noJob (jobId : Uuid) (subject : String) (h : (s.seen tx).job? jobId = none) :
      Ran s tid tx (.selectPayload jobId subject) (tx.goto (.finished (.ok (.replayed none))))
        none none
  | payload (jobId : Uuid) (subject : String) {row : JobRow π}
      (h : (s.seen tx).job? jobId = some row) :
      Ran s tid tx (.selectPayload jobId subject)
        (tx.goto (.selectForUpdate (Database.replayWrite jobId) (some (subject, row.payload))))
        none none
  | missing (w : Write) (again : Option (String × π)) (h : (s.seen tx).job? w.jobId = none) :
      Ran s tid tx (.selectForUpdate w again)
        (tx.goto (.finished (.error (.lookupError w.jobId)))) none none
  | refused (w : Write) (again : Option (String × π)) {row : JobRow π}
      (h : (s.seen tx).job? w.jobId = some row)
      (hfree : ∀ t tx', t ≠ tid → s.active? t = some tx' → tx'.lock ≠ some w.jobId)
      (ht : transitions row.state w.event = none) :
      Ran s tid tx (.selectForUpdate w again)
        ((tx.hold w.jobId).goto
          (.finished (.error (.illegalTransition ⟨some row.state, w.event⟩)))) none none
  | locked (w : Write) (again : Option (String × π)) {row : JobRow π} {next : JobState}
      (h : (s.seen tx).job? w.jobId = some row)
      (hfree : ∀ t tx', t ≠ tid → s.active? t = some tx' → tx'.lock ≠ some w.jobId)
      (ht : transitions row.state w.event = some next) :
      Ran s tid tx (.selectForUpdate w again)
        ((tx.hold w.jobId).goto
          (.updateJob w again ⟨row.state, row.attempts, row.fenceToken⟩ next)) none none
  | stale (w : Write) (again : Option (String × π)) (lrow : LockedRow) (next : JobState)
      (h : ∀ row, (s.seen tx).job? w.jobId = some row →
        w.fenceToken.getD lrow.fenceToken < row.fenceToken) :
      Ran s tid tx (.updateJob w again lrow next)
        (tx.goto (.finished (.error (.staleLease
          ⟨w.jobId.str, w.fenceToken.getD lrow.fenceToken, lrow.fenceToken⟩)))) none none
  | updated (w : Write) (again : Option (String × π)) (lrow : LockedRow) (next : JobState)
      {row : JobRow π} (h : (s.seen tx).job? w.jobId = some row)
      (hfree : ∀ t tx', t ≠ tid → s.active? t = some tx' → tx'.lock ≠ some w.jobId)
      (ht : row.fenceToken ≤ w.fenceToken.getD lrow.fenceToken) :
      Ran s tid tx (.updateJob w again lrow next)
        ((tx.write w.jobId
          { row with
            state := next
            attempts := max row.attempts w.attempt
            fenceToken := w.fenceToken.getD lrow.fenceToken
            result := w.result.or row.result
            updatedAt := tx.now }).goto (.insertEvent w again next)) none none
  | appended (w : Write) (again : Option (String × π)) (next : JobState) :
      Ran s tid tx (.insertEvent w again next) (tx.goto (.appended w next again))
        (some ⟨w.jobId, w.event, w.attempt, w.detail.getD (.obj []), tx.now⟩) none
  | reposted (jobId : Uuid) (subject : String) (payload : π) (next : JobState) :
      Ran s tid tx (.insertReplay jobId subject payload next)
        (tx.goto (.finished (.ok (.replayed (some next))))) none
        (some ⟨jobId, subject, ⟨jobId, payload, none⟩, tx.now, none⟩)

/-- The server after a statement. -/
structure RanTo (s : Server π) (tid : ℕ) (tx' : Tx π) (ev : Option EventRow)
    (out : Option (OutboxRow π)) (s' : Server π) : Prop where
  jobs : s'.jobs = s.jobs
  commits : s'.commits = s.commits
  txs : s'.txs = s.txs.set tid tx'
  jobEvents : s'.jobEvents = s.jobEvents.insertOwned tid ev
  outbox : s'.outbox = s.outbox.insertOwned tid out

/-- A statement that writes nothing leaves everything but its own control point. -/
theorem RanTo.same {s : Server π} {tid : ℕ} {tx : Tx π} (hget : s.txs[tid]? = some tx)
    (pc : TxPc π) : RanTo s tid (tx.goto pc) none none (s.moveTo tid pc) :=
  ⟨rfl, rfl, List.modify_eq_set_of_getElem? hget, rfl, rfl⟩

/-- A statement that only changes its own transaction leaves the tables alone. -/
theorem RanTo.set {s : Server π} {tid : ℕ} {tx : Tx π} (hget : s.txs[tid]? = some tx) (tx' : Tx π)
    (pc : TxPc π) : RanTo s tid (tx'.goto pc) none none ((s.setTx tid tx').moveTo tid pc) := by
  refine ⟨rfl, rfl, ?_, rfl, rfl⟩
  have hget' : (s.txs.set tid tx')[tid]? = some tx' :=
    List.getElem?_set_self (List.lt_length_of_getElem? hget)
  exact (List.modify_eq_set_of_getElem? hget').trans (List.set_set _)

section Perform

variable {s s' : Server π} {tid : ℕ} {tx : Tx π}

/-- `INSERT … ON CONFLICT (idempotency_key) DO NOTHING`. -/
theorem perform_insertJob {jobId : Uuid} {key : String} {payload : π} {state : JobState}
    {r : Except DbError (Option Uuid)}
    (h : s.perform tid tx (.insertJob jobId key payload state) = some (r, s')) :
    ((s.seen tx).jobByKey? key ≠ none ∧ r = .ok none ∧ s' = s) ∨
    ((s.seen tx).jobByKey? key = none ∧ (s.seen tx).job? jobId ≠ none ∧
      r = .error (.uniqueViolation jobId) ∧ s' = s) ∨
    ((s.seen tx).jobByKey? key = none ∧ (s.seen tx).job? jobId = none ∧
      (∀ t tx', t ≠ tid → s.active? t = some tx' → ∀ j row, tx'.version = some (j, row) →
        row.idempotencyKey ≠ key ∧ j ≠ jobId) ∧ r = .ok (some jobId) ∧
      s' = s.setTx tid
        (tx.write jobId { Database.newRow tx.now key payload with state := state })) := by
  rw [perform] at h
  split at h
  · next hkey =>
    obtain ⟨rfl, rfl⟩ := Prod.mk.inj (Option.some.inj h)
    exact .inl ⟨Option.isSome_iff_ne_none.1 hkey, rfl, rfl⟩
  · next hkey =>
    have hkey := Option.not_isSome_iff_eq_none.1 hkey
    split at h
    · exact nomatch h
    · next hkeys =>
      split at h
      · next hid =>
        obtain ⟨rfl, rfl⟩ := Prod.mk.inj (Option.some.inj h)
        exact .inr (.inl ⟨hkey, Option.isSome_iff_ne_none.1 hid, rfl, rfl⟩)
      · next hid =>
        split at h
        · exact nomatch h
        · next hids =>
          obtain ⟨rfl, rfl⟩ := Prod.mk.inj (Option.some.inj h)
          refine .inr (.inr ⟨hkey, Option.not_isSome_iff_eq_none.1 hid, ?_, rfl, rfl⟩)
          intro t tx' hne hx' j row hv
          have h₁ := otherActive_eq_false hkeys hne hx'
          have h₂ := otherActive_eq_false hids hne hx'
          rw [hv, Option.any_some, decide_eq_false_iff_not] at h₁ h₂
          exact ⟨h₁, h₂⟩

/-- `SELECT … FOR UPDATE`. -/
theorem perform_selectForUpdate {jobId : Uuid} {r : Except DbError (Option LockedRow)}
    (h : s.perform tid tx (.selectForUpdate jobId) = some (r, s')) :
    ((s.seen tx).job? jobId = none ∧ r = .ok none ∧ s' = s) ∨
    ∃ row, (s.seen tx).job? jobId = some row ∧
      (∀ t tx', t ≠ tid → s.active? t = some tx' → tx'.lock ≠ some jobId) ∧
      r = .ok (some ⟨row.state, row.attempts, row.fenceToken⟩) ∧
      s' = s.setTx tid (tx.hold jobId) := by
  rw [perform] at h
  split at h
  · next hj =>
    obtain ⟨rfl, rfl⟩ := Prod.mk.inj (Option.some.inj h)
    exact .inl ⟨hj, rfl, rfl⟩
  · next row hj =>
    split at h
    · exact nomatch h
    · next hlocks =>
      obtain ⟨rfl, rfl⟩ := Prod.mk.inj (Option.some.inj h)
      exact .inr ⟨row, hj, not_lock_of_otherActive hlocks, rfl, rfl⟩

/-- `UPDATE … WHERE id = $1 AND fence_token <= $4`. -/
theorem perform_updateJob {jobId : Uuid} {state : JobState} {attempt token : ℤ}
    {result : Option Json} {r : Except DbError (Option Uuid)}
    (h : s.perform tid tx (.updateJob jobId state attempt token result) = some (r, s')) :
    ((∀ row, (s.seen tx).job? jobId = some row → token < row.fenceToken) ∧ r = .ok none ∧ s' = s) ∨
    ∃ row, (s.seen tx).job? jobId = some row ∧
      (∀ t tx', t ≠ tid → s.active? t = some tx' → tx'.lock ≠ some jobId) ∧
      row.fenceToken ≤ token ∧ r = .ok (some jobId) ∧
      s' = s.setTx tid (tx.write jobId
        { row with
          state := state
          attempts := max row.attempts attempt
          fenceToken := token
          result := result.or row.result
          updatedAt := tx.now }) := by
  rw [perform] at h
  split at h
  · next hj =>
    obtain ⟨rfl, rfl⟩ := Prod.mk.inj (Option.some.inj h)
    exact .inl ⟨fun row hrow ↦ (nomatch hj.symm.trans hrow), rfl, rfl⟩
  · next row hj =>
    split at h
    · exact nomatch h
    · next hlocks =>
      split at h
      · next ht =>
        obtain ⟨rfl, rfl⟩ := Prod.mk.inj (Option.some.inj h)
        exact .inr ⟨row, hj, not_lock_of_otherActive hlocks, ht, rfl, rfl⟩
      · next ht =>
        obtain ⟨rfl, rfl⟩ := Prod.mk.inj (Option.some.inj h)
        refine .inl ⟨fun row' hrow' ↦ ?_, rfl, rfl⟩
        obtain rfl := Option.some.inj (hj.symm.trans hrow')
        exact not_le.1 ht

end Perform

/-- **The inversion.** A statement that runs is one of those listed. -/
theorem stepRun_eq_some {s s' : Server π} {tid : ℕ} {tx : Tx π} (hx : s.active? tid = some tx)
    (h : s.stepRun tid tx = some s') :
    ∃ tx' ev out, Ran s tid tx tx.pc tx' ev out ∧ RanTo s tid tx' ev out s' := by
  have hget := (active?_eq_some.1 hx).1
  rw [stepRun] at h
  generalize tx.pc = pc at h ⊢
  cases pc with
  | insertJob a =>
    obtain ⟨⟨r, s₁⟩, hp, rfl⟩ := Option.map_eq_some_iff.1 h
    rcases perform_insertJob hp with ⟨hkey, rfl, rfl⟩ | ⟨hkey, hid, rfl, rfl⟩ |
      ⟨hkey, hid, hfree, rfl, rfl⟩
    · exact ⟨_, _, _, .keyTaken a hkey, .same hget _⟩
    · exact ⟨_, _, _, .idTaken a hkey hid, .same hget _⟩
    · exact ⟨_, _, _, .inserted a hkey hid hfree, .set hget _ _⟩
  | selectByKey a =>
    obtain ⟨⟨r, s₁⟩, hp, rfl⟩ := Option.map_eq_some_iff.1 h
    obtain ⟨rfl, rfl⟩ := Prod.mk.inj (Option.some.inj hp)
    exact ⟨_, _, _, .existing a, .same hget _⟩
  | insertSubmitted a =>
    obtain ⟨⟨r, s₁⟩, hp, rfl⟩ := Option.map_eq_some_iff.1 h
    obtain ⟨rfl, rfl⟩ := Prod.mk.inj (Option.some.inj hp)
    exact ⟨_, _, _, .submitted a, rfl, rfl, List.modify_eq_set_of_getElem? hget, rfl, rfl⟩
  | insertEnqueued a =>
    obtain ⟨⟨r, s₁⟩, hp, rfl⟩ := Option.map_eq_some_iff.1 h
    obtain ⟨rfl, rfl⟩ := Prod.mk.inj (Option.some.inj hp)
    exact ⟨_, _, _, .enqueued a, rfl, rfl, List.modify_eq_set_of_getElem? hget, rfl, rfl⟩
  | insertMessage a =>
    obtain ⟨⟨r, s₁⟩, hp, rfl⟩ := Option.map_eq_some_iff.1 h
    obtain ⟨rfl, rfl⟩ := Prod.mk.inj (Option.some.inj hp)
    exact ⟨_, _, _, .posted a, rfl, rfl, List.modify_eq_set_of_getElem? hget, rfl, rfl⟩
  | selectPayload jobId subject =>
    obtain ⟨⟨r, s₁⟩, hp, rfl⟩ := Option.map_eq_some_iff.1 h
    obtain ⟨rfl, rfl⟩ := Prod.mk.inj (Option.some.inj hp)
    cases hj : (s.seen tx).job? jobId with
    | none => exact ⟨_, _, _, .noJob jobId subject hj, .same hget _⟩
    | some row => exact ⟨_, _, _, .payload jobId subject hj, .same hget _⟩
  | selectForUpdate w again =>
    obtain ⟨⟨r, s₁⟩, hp, rfl⟩ := Option.map_eq_some_iff.1 h
    rcases perform_selectForUpdate hp with ⟨hj, rfl, rfl⟩ | ⟨row, hj, hfree, rfl, rfl⟩
    · exact ⟨_, _, _, .missing w again hj, .same hget _⟩
    · show ∃ tx' ev out, _ ∧ RanTo s tid tx' ev out
        ((s.setTx tid (tx.hold w.jobId)).moveTo tid (TxPc.judge w again (some _)))
      rw [TxPc.judge]
      cases ha : apply (some row.state) w.event with
      | error e =>
        obtain ⟨hno, rfl⟩ := apply_some_eq_error.1 ha
        exact ⟨_, _, _, .refused w again hj hfree hno, .set hget _ _⟩
      | ok next =>
        exact ⟨_, _, _, .locked w again hj hfree (apply_some_eq_ok.1 ha), .set hget _ _⟩
  | updateJob w again lrow next =>
    obtain ⟨⟨r, s₁⟩, hp, rfl⟩ := Option.map_eq_some_iff.1 h
    rcases perform_updateJob hp with ⟨hstale, rfl, rfl⟩ | ⟨row, hj, hfree, ht, rfl, rfl⟩
    · exact ⟨_, _, _, .stale w again lrow next hstale, .same hget _⟩
    · exact ⟨_, _, _, .updated w again lrow next hj hfree ht, .set hget _ _⟩
  | insertEvent w again next =>
    obtain ⟨⟨r, s₁⟩, hp, rfl⟩ := Option.map_eq_some_iff.1 h
    obtain ⟨rfl, rfl⟩ := Prod.mk.inj (Option.some.inj hp)
    exact ⟨_, _, _, .appended w again next, rfl, rfl, List.modify_eq_set_of_getElem? hget, rfl, rfl⟩
  | insertReplay jobId subject payload next =>
    obtain ⟨⟨r, s₁⟩, hp, rfl⟩ := Option.map_eq_some_iff.1 h
    obtain ⟨rfl, rfl⟩ := Prod.mk.inj (Option.some.inj hp)
    exact ⟨_, _, _, .reposted jobId subject payload next, rfl, rfl,
      List.modify_eq_set_of_getElem? hget, rfl, rfl⟩
  | finished exit => contradiction

/-- **What one step can do**: begin a transaction, run a statement, commit, or end a transaction in
some other way. -/
theorem step_cases {s s' : Server π} {a : ServerStep π} (h : s.step a = some s') :
    (∃ now c, s' = { s with txs := s.txs ++ [{ call := c, now := now, pc := .start c }] }) ∨
    (∃ tid tx tx' ev out, s.active? tid = some tx ∧ Ran s tid tx tx.pc tx' ev out ∧
      RanTo s tid tx' ev out s') ∨
    (∃ tid tx r, s.active? tid = some tx ∧ tx.pc = .finished (.ok r) ∧ s' = s.commit tid tx) ∨
    ∃ tid tx status, s.active? tid = some tx ∧ s' = s.setTx tid (tx.ended status) ∧
      ((status = .rolledBack ∧ ∃ e, tx.pc = .finished (.error e)) ∨ status = .dead) := by
  cases a with
  | begin now c => exact .inl ⟨now, c, (Option.some.inj h).symm⟩
  | run tid =>
    obtain ⟨tx, hx, hrun⟩ := Option.bind_eq_some_iff.1 h
    obtain ⟨tx', ev, out, hran, hto⟩ := stepRun_eq_some hx hrun
    exact .inr (.inl ⟨tid, tx, tx', ev, out, hx, hran, hto⟩)
  | finish tid =>
    obtain ⟨tx, hx, hfin⟩ := Option.bind_eq_some_iff.1 h
    rw [stepFinish] at hfin
    split at hfin
    · next r hpc => exact .inr (.inr (.inl ⟨tid, tx, r, hx, hpc, (Option.some.inj hfin).symm⟩))
    · next e hpc =>
      exact .inr (.inr (.inr ⟨tid, tx, .rolledBack, hx, (Option.some.inj hfin).symm,
        .inl ⟨rfl, e, hpc⟩⟩))
    · exact nomatch hfin
  | die tid =>
    obtain ⟨tx, hx, rfl⟩ := Option.map_eq_some_iff.1 h
    exact .inr (.inr (.inr ⟨tid, tx, .dead, hx, rfl, .inr rfl⟩))

/-! ### What stays -/

theorem committed_eq_false {s : Server π} {tid : ℕ} {tx : Tx π} (hx : s.active? tid = some tx) :
    s.committed tid = false := by
  obtain ⟨hget, hact⟩ := active?_eq_some.1 hx
  rw [committed, hget, Option.any_some, hact]
  rfl

/-- Replacing a transaction by one that is committed neither before nor after shows nothing. -/
theorem committed_set {s : Server π} {tid : ℕ} {tx : Tx π} (hx : s.active? tid = some tx)
    {tx' : Tx π} (h : tx'.status ≠ .committed) (l : List (Tx π)) (hl : l = s.txs.set tid tx')
    (t : ℕ) : (l[t]?.any fun x ↦ decide (x.status = .committed)) = s.committed t := by
  subst hl
  by_cases ht : tid = t
  · subst ht
    rw [committed_eq_false hx,
      List.getElem?_set_self (List.lt_length_of_getElem? (active?_eq_some.1 hx).1), Option.any_some]
    exact decide_eq_false h
  · rw [List.getElem?_set_ne ht, committed]

end Server

end Orbiter
