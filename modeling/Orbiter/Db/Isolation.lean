import Orbiter.Db.Contents
import Orbiter.Db.Server

/-!
# Open transactions do not get in each other's way

What a transaction relies on between two of its statements: the row it has locked stays as it read
it, a key it found free and has inserted stays free, a key it found stays with its job, and the
payload of a job does not change. Each control point comes with what holds there (`Local`), in terms
of the committed database and of what the transaction has written so far; another transaction's step
keeps all of it, because rows are locked exclusively and keys inserted exclusively.

## The argument

* `Clean`, `Inserted`, `Written` — how far a transaction can have come: it has written nothing yet,
  it has inserted a job, or it has updated a row it holds. `Local` says which, at each control
  point;
* `Frame` — what a step of somebody else leaves alone for a given transaction, and `Local.frame`:
  what holds at its control point still holds. There is one lemma per stage, and the control points
  follow from the stages;
* `Isolated` — the invariant: each open transaction is where `Local` says, no two hold one row, no
  two have inserted one key, committed keys are unique, and of one job what is not committed has
  larger ids than what is;
* `Isolated.begin`, `Isolated.run`, `Isolated.drop`, `Isolated.commit` — each kind of step keeps it,
  and `isolated_of_reachable` puts them together;
* `Isolated.adds_commit` — **what a commit adds to the committed contents**, in the terms of
  `Database.Adds`: the version of the row and the events and outbox rows of this transaction, at the
  end of their job's.

The last is where the row lock is needed for order: ids are drawn at insertion, but nobody else can
have inserted an event of this job in the meantime, so those of the committing transaction are the
job's newest. Of rows of different jobs nothing of the kind holds.
-/

namespace Orbiter

variable {π : Type}

/-- The call a submission belongs to. -/
def Submission.call (a : Submission π) : RepoCall π :=
  .submitJob a.jobId a.idempotencyKey a.payload a.subject a.carrier

/-- The call a write belongs to: `record_event`, or a replay that has read the payload. -/
inductive RepoCall.Writes : RepoCall π → Write → Option (String × π) → Prop
  | record (w : Write) : Writes (.recordEvent w) w none
  | replay (jobId : Uuid) (subject : String) (payload : π) :
      Writes (.replayJob jobId subject) (Database.replayWrite jobId) (some (subject, payload))

/-- The event of a write. -/
def Write.eventRow (w : Write) (now : ℕ) : EventRow :=
  ⟨w.jobId, w.event, w.attempt, w.detail.getD (.obj []), now⟩

namespace Server

/-! ### What holds at a control point -/

/-- The transaction has written nothing; a row it has locked exists. -/
structure Clean (s : Server π) (tid : ℕ) (tx : Tx π) : Prop where
  version : tx.version = none
  lock : ∀ j, tx.lock = some j → s.db.job? j ≠ none
  jobEvents : s.jobEvents.ownedBy tid = []
  outbox : s.outbox.ownedBy tid = []

/-- The transaction has inserted the job of `a`, with these events and outbox rows. -/
structure Inserted (s : Server π) (tid : ℕ) (tx : Tx π) (a : Submission π)
    (events : List EventType) (outbox : List (OutboxRow π)) : Prop where
  call : tx.call = a.call
  lock : tx.lock = some a.jobId
  version : tx.version = some (a.jobId, Database.newRow tx.now a.idempotencyKey a.payload)
  absent : s.db.job? a.jobId = none
  keyFree : s.db.jobByKey? a.idempotencyKey = none
  jobEvents : s.jobEvents.ownedBy tid = events.map fun e ↦ ⟨a.jobId, e, 0, .obj [], tx.now⟩
  outbox : s.outbox.ownedBy tid = outbox

/-- The transaction has updated the row as `w` asks, with these events and outbox rows. -/
structure Written (s : Server π) (tid : ℕ) (tx : Tx π) (w : Write) (row : JobRow π)
    (next : JobState) (events : List EventRow) (outbox : List (OutboxRow π)) : Prop where
  lock : tx.lock = some w.jobId
  version : tx.version = some (w.jobId, Database.acceptRow row tx.now w next)
  held : s.db.job? w.jobId = some row
  legal : transitions row.state w.event = some next
  token : row.fenceToken ≤ w.fenceToken.getD row.fenceToken
  jobEvents : s.jobEvents.ownedBy tid = events
  outbox : s.outbox.ownedBy tid = outbox

/-- The message of a submission. -/
def message (a : Submission π) (now : ℕ) : OutboxRow π :=
  ⟨a.jobId, a.subject, ⟨a.jobId, a.payload, some a.carrier⟩, now, none⟩

/-- What a transaction that is about to commit has done. -/
inductive Ready (s : Server π) (tid : ℕ) (tx : Tx π) : SqlResult → Prop
  | created {a : Submission π}
      (h : Inserted s tid tx a [.submitted, .enqueued] [message a tx.now]) :
      Ready s tid tx (.submitted (some a.jobId) true)
  | existing {a : Submission π} {j : Uuid} (hcall : tx.call = a.call) (hclean : Clean s tid tx)
      (hj : s.db.jobByKey? a.idempotencyKey = some j) : Ready s tid tx (.submitted (some j) false)
  | recorded {w : Write} {row : JobRow π} {next : JobState} (hcall : tx.call = .recordEvent w)
      (h : Written s tid tx w row next [w.eventRow tx.now] []) : Ready s tid tx (.recorded next)
  | replayed {jobId : Uuid} {subject : String} {row : JobRow π} {next : JobState}
      (hcall : tx.call = .replayJob jobId subject)
      (h : Written s tid tx (Database.replayWrite jobId) row next
        [(Database.replayWrite jobId).eventRow tx.now]
        [⟨jobId, subject, ⟨jobId, row.payload, none⟩, tx.now, none⟩]) :
      Ready s tid tx (.replayed (some next))
  | nothing {jobId : Uuid} {subject : String} (hcall : tx.call = .replayJob jobId subject)
      (hclean : Clean s tid tx) : Ready s tid tx (.replayed none)

/-- The payload a replay has read is that of its job. -/
def ReadPayload (s : Server π) (w : Write) (again : Option (String × π)) : Prop :=
  ∀ subject payload, again = some (subject, payload) →
    ∃ row, s.db.job? w.jobId = some row ∧ row.payload = payload

/-- **What holds at each control point.** -/
def Local (s : Server π) (tid : ℕ) (tx : Tx π) : TxPc π → Prop
  | .insertJob a => tx.call = a.call ∧ Clean s tid tx
  | .selectByKey a =>
    tx.call = a.call ∧ Clean s tid tx ∧ ∃ j, s.db.jobByKey? a.idempotencyKey = some j
  | .insertSubmitted a => Inserted s tid tx a [] []
  | .insertEnqueued a => Inserted s tid tx a [.submitted] []
  | .insertMessage a => Inserted s tid tx a [.submitted, .enqueued] []
  | .selectPayload jobId subject => tx.call = .replayJob jobId subject ∧ Clean s tid tx
  | .selectForUpdate w again => tx.call.Writes w again ∧ s.ReadPayload w again ∧ Clean s tid tx
  | .updateJob w again lrow next =>
    tx.call.Writes w again ∧ s.ReadPayload w again ∧ Clean s tid tx ∧ tx.lock = some w.jobId ∧
      ∃ row, s.db.job? w.jobId = some row ∧ lrow = ⟨row.state, row.attempts, row.fenceToken⟩ ∧
        transitions row.state w.event = some next
  | .insertEvent w again next =>
    tx.call.Writes w again ∧ s.ReadPayload w again ∧ ∃ row, Written s tid tx w row next [] []
  | .insertReplay jobId subject payload next =>
    tx.call = .replayJob jobId subject ∧ ∃ row, row.payload = payload ∧
      Written s tid tx (Database.replayWrite jobId) row next
        [(Database.replayWrite jobId).eventRow tx.now] []
  | .finished (.error _) => Clean s tid tx
  | .finished (.ok r) => Ready s tid tx r

/-! ### What the others leave alone -/

/-- What a step of another transaction guarantees. -/
structure Frame (s s' : Server π) (tid : ℕ) (tx : Tx π) : Prop where
  jobEvents : s'.jobEvents.ownedBy tid = s.jobEvents.ownedBy tid
  outbox : s'.outbox.ownedBy tid = s.outbox.ownedBy tid
  /-- A locked row stays as it is, and so does one that is not there. -/
  held : ∀ j, tx.lock = some j → s'.db.job? j = s.db.job? j
  /-- A key inserted stays free. -/
  keyFree : ∀ j row, tx.version = some (j, row) → s.db.job? j = none →
    s.db.jobByKey? row.idempotencyKey = none → s'.db.jobByKey? row.idempotencyKey = none
  /-- A key found stays with its job. -/
  keyFound : ∀ key j, s.db.jobByKey? key = some j → s'.db.jobByKey? key = some j
  payload : ∀ j row, s.db.job? j = some row →
    ∃ row', s'.db.job? j = some row' ∧ row'.payload = row.payload

section FrameRules

variable {s s' : Server π} {tid : ℕ} {tx : Tx π}

/-- A transaction that has written nothing stays so. -/
theorem Clean.frame (h : Clean s tid tx) (hf : Frame s s' tid tx) : Clean s' tid tx where
  version := h.version
  lock j hj := by
    rw [hf.held j hj]
    exact h.lock j hj
  jobEvents := hf.jobEvents.trans h.jobEvents
  outbox := hf.outbox.trans h.outbox

/-- A job inserted stays inserted, and its key stays free for everybody else. -/
theorem Inserted.frame {a : Submission π} {events : List EventType} {outbox : List (OutboxRow π)}
    (h : Inserted s tid tx a events outbox) (hf : Frame s s' tid tx) :
    Inserted s' tid tx a events outbox where
  call := h.call
  lock := h.lock
  version := h.version
  absent := (hf.held _ h.lock).trans h.absent
  keyFree := hf.keyFree _ _ h.version h.absent h.keyFree
  jobEvents := hf.jobEvents.trans h.jobEvents
  outbox := hf.outbox.trans h.outbox

/-- A row updated and held stays as it was updated. -/
theorem Written.frame {w : Write} {row : JobRow π} {next : JobState} {events : List EventRow}
    {outbox : List (OutboxRow π)} (h : Written s tid tx w row next events outbox)
    (hf : Frame s s' tid tx) : Written s' tid tx w row next events outbox where
  lock := h.lock
  version := h.version
  held := (hf.held _ h.lock).trans h.held
  legal := h.legal
  token := h.token
  jobEvents := hf.jobEvents.trans h.jobEvents
  outbox := hf.outbox.trans h.outbox

/-- What a transaction is about to return stays right. -/
theorem Ready.frame {r : SqlResult} (h : Ready s tid tx r) (hf : Frame s s' tid tx) :
    Ready s' tid tx r := by
  rcases h with h | ⟨hcall, hclean, hj⟩ | ⟨hcall, h⟩ | ⟨hcall, h⟩ | ⟨hcall, hclean⟩
  · exact .created (h.frame hf)
  · exact .existing hcall (hclean.frame hf) (hf.keyFound _ _ hj)
  · exact .recorded hcall (h.frame hf)
  · exact .replayed hcall (h.frame hf)
  · exact .nothing hcall (hclean.frame hf)

theorem ReadPayload.frame {w : Write} {again : Option (String × π)} (h : s.ReadPayload w again)
    (hf : Frame s s' tid tx) : s'.ReadPayload w again := by
  intro subject payload hagain
  obtain ⟨row, hrow, hp⟩ := h subject payload hagain
  obtain ⟨row', hrow', hp'⟩ := hf.payload _ row hrow
  exact ⟨row', hrow', hp'.trans hp⟩

/-- **What holds at a control point survives the others.** -/
theorem Local.frame {pc : TxPc π} (h : Local s tid tx pc) (hf : Frame s s' tid tx) :
    Local s' tid tx pc := by
  match pc with
  | .insertJob a => exact ⟨h.1, h.2.frame hf⟩
  | .selectByKey a =>
    obtain ⟨hcall, hclean, j, hj⟩ := h
    exact ⟨hcall, hclean.frame hf, j, hf.keyFound _ _ hj⟩
  | .insertSubmitted a => exact Inserted.frame h hf
  | .insertEnqueued a => exact Inserted.frame h hf
  | .insertMessage a => exact Inserted.frame h hf
  | .selectPayload jobId subject => exact ⟨h.1, h.2.frame hf⟩
  | .selectForUpdate w again => exact ⟨h.1, h.2.1.frame hf, h.2.2.frame hf⟩
  | .updateJob w again lrow next =>
    obtain ⟨hcall, hread, hclean, hlock, row, hrow, hl, hnext⟩ := h
    exact ⟨hcall, hread.frame hf, hclean.frame hf, hlock, row, (hf.held _ hlock).trans hrow, hl,
      hnext⟩
  | .insertEvent w again next =>
    obtain ⟨hcall, hread, row, h⟩ := h
    exact ⟨hcall, hread.frame hf, row, h.frame hf⟩
  | .insertReplay jobId subject payload next =>
    obtain ⟨hcall, row, hp, h⟩ := h
    exact ⟨hcall, row, hp, h.frame hf⟩
  | .finished (.error e) => exact Clean.frame h hf
  | .finished (.ok r) => exact Ready.frame h hf

end FrameRules

/-! ### What a transaction has done so far -/

section Facts

variable {s s' : Server π} {tid : ℕ} {tx : Tx π} {pc : TxPc π}

/-- Whatever the control point: nothing is written, a job is inserted, or a row is updated, and all
events and messages are of the one job. -/
theorem Local.cases (h : Local s tid tx pc) :
    Clean s tid tx ∨
    (∃ (a : Submission π) (events : List EventType) (outbox : List (OutboxRow π)),
      Inserted s tid tx a events outbox ∧ ∀ r ∈ outbox, r.jobId = a.jobId) ∨
    ∃ (w : Write) (row : JobRow π) (next : JobState) (events : List EventRow)
      (outbox : List (OutboxRow π)), Written s tid tx w row next events outbox ∧
        (∀ e ∈ events, e.jobId = w.jobId) ∧ ∀ r ∈ outbox, r.jobId = w.jobId := by
  match pc with
  | .insertJob a => exact .inl h.2
  | .selectByKey a => exact .inl h.2.1
  | .insertSubmitted a => exact .inr (.inl ⟨a, _, _, h, by simp⟩)
  | .insertEnqueued a => exact .inr (.inl ⟨a, _, _, h, by simp⟩)
  | .insertMessage a => exact .inr (.inl ⟨a, _, _, h, by simp⟩)
  | .selectPayload jobId subject => exact .inl h.2
  | .selectForUpdate w again => exact .inl h.2.2
  | .updateJob w again lrow next => exact .inl h.2.2.1
  | .insertEvent w again next =>
    obtain ⟨-, -, row, h⟩ := h
    exact .inr (.inr ⟨w, row, next, _, _, h, by simp, by simp⟩)
  | .insertReplay jobId subject payload next =>
    obtain ⟨-, row, -, h⟩ := h
    exact .inr (.inr ⟨_, row, next, _, _, h, by simp [Write.eventRow], by simp⟩)
  | .finished (.error e) => exact .inl h
  | .finished (.ok r) =>
    rcases h with h | ⟨-, hclean, -⟩ | ⟨-, h⟩ | ⟨-, h⟩ | ⟨-, hclean⟩
    · exact .inr (.inl ⟨_, _, _, h, by simp [message]⟩)
    · exact .inl hclean
    · exact .inr (.inr ⟨_, _, _, _, _, h, by simp [Write.eventRow], by simp⟩)
    · exact .inr (.inr ⟨_, _, _, _, _, h, by simp [Write.eventRow], by simp [Database.replayWrite]⟩)
    · exact .inl hclean

/-- Events and messages are for the locked row. -/
theorem Local.mine (h : Local s tid tx pc) :
    (∀ e ∈ s.jobEvents.ownedBy tid, tx.lock = some e.jobId) ∧
      ∀ r ∈ s.outbox.ownedBy tid, tx.lock = some r.jobId := by
  rcases h.cases with h | ⟨a, events, outbox, h, hout⟩ |
    ⟨w, row, next, events, outbox, h, hev, hout⟩
  · rw [h.jobEvents, h.outbox]
    simp
  · rw [h.jobEvents, h.outbox, h.lock]
    refine ⟨fun e he ↦ ?_, fun r hr ↦ by rw [hout r hr]⟩
    obtain ⟨e', -, rfl⟩ := List.mem_map.1 he
    rfl
  · rw [h.jobEvents, h.outbox, h.lock]
    exact ⟨fun e he ↦ by rw [hev e he], fun r hr ↦ by rw [hout r hr]⟩

/-- What is written is locked, and is new, with a new key, or has the key and the payload of the row
it replaces. -/
theorem Local.version (h : Local s tid tx pc) {j : Uuid} {row : JobRow π}
    (hv : tx.version = some (j, row)) : tx.lock = some j ∧
      ((s.db.job? j = none ∧ s.db.jobByKey? row.idempotencyKey = none) ∨
        ∃ row₀, s.db.job? j = some row₀ ∧ row.idempotencyKey = row₀.idempotencyKey ∧
          row.payload = row₀.payload) := by
  rcases h.cases with h | ⟨a, events, outbox, h, -⟩ | ⟨w, row₀, next, events, outbox, h, -, -⟩
  · rw [h.version] at hv
    exact nomatch hv
  · obtain ⟨rfl, rfl⟩ := Prod.mk.inj (Option.some.inj (h.version.symm.trans hv))
    exact ⟨h.lock, .inl ⟨h.absent, h.keyFree⟩⟩
  · obtain ⟨rfl, rfl⟩ := Prod.mk.inj (Option.some.inj (h.version.symm.trans hv))
    exact ⟨h.lock, .inr ⟨row₀, h.held, rfl, rfl⟩⟩

/-- A locked row exists, or is the transaction's own. -/
theorem Local.lock (h : Local s tid tx pc) {j : Uuid} (hj : tx.lock = some j) :
    s.db.job? j ≠ none ∨ ∃ row, tx.version = some (j, row) := by
  rcases h.cases with h | ⟨a, events, outbox, h, -⟩ | ⟨w, row₀, next, events, outbox, h, -, -⟩
  · exact .inl (h.lock j hj)
  · obtain rfl := Option.some.inj (h.lock.symm.trans hj)
    exact .inr ⟨_, h.version⟩
  · obtain rfl := Option.some.inj (h.lock.symm.trans hj)
    exact .inr ⟨_, h.version⟩

end Facts

/-! ### The invariant -/

/-- **Isolation.** -/
structure Isolated (s : Server π) : Prop where
  keys : s.db.KeysUnique
  /-- Rows are locked exclusively. -/
  apart : ∀ (t t' : ℕ) (tx tx' : Tx π) (j : Uuid), s.active? t = some tx → s.active? t' = some tx' →
    tx.lock = some j → tx'.lock = some j → t = t'
  /-- Keys are inserted exclusively. -/
  fresh : ∀ (t t' : ℕ) (tx tx' : Tx π) (j j' : Uuid) (row row' : JobRow π),
    s.active? t = some tx → s.active? t' = some tx' → tx.version = some (j, row) →
    tx'.version = some (j', row') → s.db.job? j = none → s.db.job? j' = none →
    row.idempotencyKey = row'.idempotencyKey → t = t'
  at_pc : ∀ (t : ℕ) (tx : Tx π), s.active? t = some tx → Local s t tx tx.pc
  /-- What is not committed has larger ids than what is, for each job. -/
  eventsAfter : ∀ (t : ℕ) (tx : Tx π), s.active? t = some tx → ∀ r ∈ s.jobEvents.rows,
    ∀ r' ∈ s.jobEvents.rows, s.committed r.2.1 = true → r'.2.1 = t →
      r.2.2.jobId = r'.2.2.jobId → r.1 < r'.1
  outboxAfter : ∀ (t : ℕ) (tx : Tx π), s.active? t = some tx → ∀ r ∈ s.outbox.rows,
    ∀ r' ∈ s.outbox.rows, s.committed r.2.1 = true → r'.2.1 = t →
      r.2.2.jobId = r'.2.2.jobId → r.1 < r'.1
  /-- Rows are tagged by transactions. -/
  eventTags : ∀ r ∈ s.jobEvents.rows, r.2.1 < s.txs.length
  outboxTags : ∀ r ∈ s.outbox.rows, r.2.1 < s.txs.length

section Steps

variable {s s' : Server π} {tid : ℕ} {tx tx' : Tx π} {ev : Option EventRow}
  {out : Option (OutboxRow π)}

/-- The committed jobs are read from the table of jobs. -/
theorem job?_of_jobs (hjobs : s'.jobs = s.jobs) (j : Uuid) : s'.db.job? j = s.db.job? j :=
  congrArg (AList.lookup j) hjobs

/-- The committed keys are read from the table of jobs. -/
theorem jobByKey?_of_jobs (hjobs : s'.jobs = s.jobs) (key : String) :
    s'.db.jobByKey? key = s.db.jobByKey? key := by
  dsimp only [Database.jobByKey?, db]
  rw [hjobs]

/-- A step that leaves the jobs alone. -/
theorem Frame.of_jobs (hjobs : s'.jobs = s.jobs)
    (hev : s'.jobEvents.ownedBy tid = s.jobEvents.ownedBy tid)
    (hout : s'.outbox.ownedBy tid = s.outbox.ownedBy tid) : Frame s s' tid tx := by
  have hjob := job?_of_jobs hjobs
  have hkey := jobByKey?_of_jobs hjobs
  refine ⟨hev, hout, ?_, ?_, ?_, ?_⟩
  · exact fun j _ ↦ hjob j
  · exact fun j row _ _ h ↦ (hkey _).trans h
  · exact fun key j h ↦ (hkey key).trans h
  · exact fun j row h ↦ ⟨row, (hjob j).trans h, rfl⟩

/-- A transaction begins. -/
theorem committed_begin (s : Server π) {tx : Tx π} (h : tx.status = .active) (t : ℕ) :
    ((s.txs ++ [tx])[t]?.any fun x ↦ decide (x.status = .committed)) = s.committed t := by
  rw [committed, List.getElem?_append]
  split
  · rfl
  · next hlt =>
    rw [List.getElem?_eq_none (not_lt.1 hlt), List.getElem?_singleton]
    split
    · rw [Option.any_some, h]
      rfl
    · rfl

/-- After a transaction has begun, the open ones are the old ones and it. -/
theorem active?_begin {new x : Tx π} {t : ℕ} (hl : s'.txs = s.txs ++ [new])
    (h : s'.active? t = some x) : s.active? t = some x ∨ (t = s.txs.length ∧ x = new) := by
  obtain ⟨hget, hact⟩ := active?_eq_some.1 h
  rw [hl] at hget
  rcases List.getElem?_concat_eq_some hget with hold | ⟨-, ht, hx⟩
  · exact .inl (active?_eq_some.2 ⟨hold, hact⟩)
  · exact .inr ⟨ht, hx⟩

/-- A transaction that has not begun owns no rows. -/
theorem ownedBy_eq_nil {α : Type} {t : SerialTable (ℕ × α)} {n : ℕ} (h : ∀ r ∈ t.rows, r.2.1 < n) :
    t.ownedBy n = [] := by
  refine List.eq_nil_iff_forall_not_mem.2 fun a ha ↦ ?_
  obtain ⟨id, hr⟩ := SerialTable.mem_ownedBy.1 ha
  exact absurd (h _ hr) (Nat.lt_irrefl _)

/-- A transaction begins clean. -/
theorem local_start {t : ℕ} {c : RepoCall π} (hcall : tx.call = c) (hlock : tx.lock = none)
    (hv : tx.version = none) (hev : s.jobEvents.ownedBy t = []) (hout : s.outbox.ownedBy t = []) :
    Local s t tx (.start c) := by
  have hclean : Clean s t tx := ⟨hv, fun j hj ↦ (nomatch hlock.symm.trans hj), hev, hout⟩
  match c with
  | .submitJob jobId key payload subject carrier => exact ⟨hcall, hclean⟩
  | .recordEvent w => exact ⟨hcall ▸ .record w, fun _ _ h ↦ (nomatch h), hclean⟩
  | .replayJob jobId subject => exact ⟨hcall, hclean⟩

/-- **Beginning a transaction** keeps the others isolated, and the new one holds nothing. -/
theorem Isolated.begin (hs : s.Isolated) (now : ℕ) (c : RepoCall π) :
    ({ s with txs := s.txs ++ [{ call := c, now := now, pc := .start c }] } :
      Server π).Isolated := by
  let new : Tx π := { call := c, now := now, pc := .start c }
  let s' : Server π := { s with txs := s.txs ++ [new] }
  have hcom : s'.committed = s.committed := funext (committed_begin s rfl)
  have hact : ∀ {t x}, s'.active? t = some x → s.active? t = some x ∨
      (t = s.txs.length ∧ x = new) := active?_begin rfl
  have hev := ownedBy_eq_nil hs.eventTags
  have hout := ownedBy_eq_nil hs.outboxTags
  refine ⟨hs.keys, ?_, ?_, ?_, ?_, ?_, ?_, ?_⟩
  · intro t t' x x' j hx hx' hl hl'
    rcases hact hx with h | ⟨-, rfl⟩
    · rcases hact hx' with h' | ⟨-, rfl⟩
      · exact hs.apart t t' x x' j h h' hl hl'
      · exact nomatch hl'
    · exact nomatch hl
  · intro t t' x x' j j' row row' hx hx' hv hv'
    rcases hact hx with h | ⟨-, rfl⟩
    · rcases hact hx' with h' | ⟨-, rfl⟩
      · exact hs.fresh t t' x x' j j' row row' h h' hv hv'
      · exact nomatch hv'
    · exact nomatch hv
  · intro t x hx
    rcases hact hx with h | ⟨rfl, rfl⟩
    · exact (hs.at_pc t x h).frame (.of_jobs rfl rfl rfl)
    · exact local_start rfl rfl rfl hev hout
  · intro t x hx r hr r' hr' hc ht
    rw [hcom] at hc
    rcases hact hx with h | ⟨rfl, rfl⟩
    · exact hs.eventsAfter t x h r hr r' hr' hc ht
    · exact absurd (hs.eventTags r' hr') (by rw [ht]; exact Nat.lt_irrefl _)
  · intro t x hx r hr r' hr' hc ht
    rw [hcom] at hc
    rcases hact hx with h | ⟨rfl, rfl⟩
    · exact hs.outboxAfter t x h r hr r' hr' hc ht
    · exact absurd (hs.outboxTags r' hr') (by rw [ht]; exact Nat.lt_irrefl _)
  · intro r hr
    exact (hs.eventTags r hr).trans_le (by simp)
  · intro r hr
    exact (hs.outboxTags r hr).trans_le (by simp)

/-! ### A statement -/

/-- Moving on without writing leaves a transaction clean. -/
theorem Clean.goto (h : Clean s tid tx) (pc : TxPc π) : Clean s tid (tx.goto pc) :=
  ⟨h.version, h.lock, h.jobEvents, h.outbox⟩

/-- Locking a row that is there leaves a transaction clean. -/
theorem Clean.hold (h : Clean s tid tx) {j : Uuid} {row : JobRow π} (hj : s.db.job? j = some row) :
    Clean s tid (tx.hold j) := by
  refine ⟨h.version, fun j' hj' ↦ ?_, h.jobEvents, h.outbox⟩
  obtain rfl := Option.some.inj hj'
  rw [hj]
  exact Option.some_ne_none _

/-- The statement inserts into no table but its own rows at the end. -/
theorem Inserted.ran {a : Submission π} {events : List EventType} {outbox : List (OutboxRow π)}
    (h : Inserted s tid tx a events outbox) (hto : RanTo s tid tx' ev out s') (pc : TxPc π)
    {events' : List EventType}
    (hev : ev.toList = events'.map fun e ↦ ⟨a.jobId, e, 0, .obj [], tx.now⟩) :
    Inserted s' tid (tx.goto pc) a (events ++ events') (outbox ++ out.toList) where
  call := h.call
  lock := h.lock
  version := h.version
  absent := (job?_of_jobs hto.jobs _).trans h.absent
  keyFree := (jobByKey?_of_jobs hto.jobs _).trans h.keyFree
  jobEvents := by
    rw [hto.jobEvents, SerialTable.ownedBy_insertOwned_self, h.jobEvents, hev, List.map_append]
    rfl
  outbox := by rw [hto.outbox, SerialTable.ownedBy_insertOwned_self, h.outbox]

/-- After its update a transaction only adds rows of its job. -/
theorem Written.ran {w : Write} {row : JobRow π} {next : JobState} {events : List EventRow}
    {outbox : List (OutboxRow π)} (h : Written s tid tx w row next events outbox)
    (hto : RanTo s tid tx' ev out s') (pc : TxPc π) :
    Written s' tid (tx.goto pc) w row next (events ++ ev.toList) (outbox ++ out.toList) where
  lock := h.lock
  version := h.version
  held := (job?_of_jobs hto.jobs _).trans h.held
  legal := h.legal
  token := h.token
  jobEvents := by rw [hto.jobEvents, SerialTable.ownedBy_insertOwned_self, h.jobEvents]
  outbox := by rw [hto.outbox, SerialTable.ownedBy_insertOwned_self, h.outbox]

/-- **A statement leads from what holds at one control point to what holds at the next.** -/
theorem Ran.local {pc : TxPc π} (hran : Ran s tid tx pc tx' ev out)
    (hto : RanTo s tid tx' ev out s') (h : Local s tid tx pc) : Local s' tid tx' tx'.pc := by
  have hjob := job?_of_jobs hto.jobs
  have hkey := jobByKey?_of_jobs hto.jobs
  -- A statement that inserts no rows is a frame for its own transaction as well.
  have hframe : ev = none → out = none → Frame s s' tid tx := by
    rintro rfl rfl
    exact .of_jobs hto.jobs (by rw [hto.jobEvents]; rfl) (by rw [hto.outbox]; rfl)
  cases hran with
  | keyTaken a hk =>
    have hf := hframe rfl rfl
    rw [seen_of_none h.2.version] at hk
    obtain ⟨j, hj⟩ := Option.ne_none_iff_exists'.1 hk
    exact ⟨h.1, (h.2.frame hf).goto _, j, (hkey _).trans hj⟩
  | idTaken a hk hid => exact (h.2.frame (hframe rfl rfl)).goto _
  | inserted a hk hid hfree =>
    have hf := hframe rfl rfl
    rw [seen_of_none h.2.version] at hk hid
    exact ⟨h.1, rfl, rfl, (hjob _).trans hid, (hkey _).trans hk, hf.jobEvents.trans h.2.jobEvents,
      hf.outbox.trans h.2.outbox⟩
  | existing a =>
    obtain ⟨hcall, hclean, j, hj⟩ := h
    rw [seen_of_none hclean.version, hj]
    exact .existing hcall ((hclean.frame (hframe rfl rfl)).goto _) ((hkey _).trans hj)
  | submitted a => exact Inserted.ran h hto _ rfl
  | enqueued a => exact Inserted.ran h hto _ rfl
  | posted a => exact .created (Inserted.ran h hto _ rfl)
  | noJob jobId subject hj => exact .nothing h.1 ((h.2.frame (hframe rfl rfl)).goto _)
  | payload jobId subject hj =>
    have hf := hframe rfl rfl
    rw [seen_of_none h.2.version] at hj
    refine ⟨?_, fun subject' payload' heq ↦ ?_, (h.2.frame hf).goto _⟩
    · show tx.call.Writes _ _
      rw [h.1]
      exact .replay jobId subject _
    · obtain ⟨rfl, rfl⟩ := Prod.mk.inj (Option.some.inj heq)
      exact ⟨_, (hjob _).trans hj, rfl⟩
  | missing w again hj => exact (h.2.2.frame (hframe rfl rfl)).goto _
  | refused w again hj hfree ht =>
    rw [seen_of_none h.2.2.version] at hj
    exact ((h.2.2.frame (hframe rfl rfl)).hold ((hjob _).trans hj)).goto _
  | locked w again hj hfree ht =>
    have hf := hframe rfl rfl
    rw [seen_of_none h.2.2.version] at hj
    exact ⟨h.1, h.2.1.frame hf, ((h.2.2.frame hf).hold ((hjob _).trans hj)).goto _, rfl, _,
      (hjob _).trans hj, rfl, ht⟩
  | stale w again lrow next hstale => exact (h.2.2.1.frame (hframe rfl rfl)).goto _
  | @updated w again lrow next row hj hfree ht =>
    have hf := hframe rfl rfl
    obtain ⟨hcall, hread, hclean, -, row', hrow', rfl, hnext⟩ := h
    rw [seen_of_none hclean.version] at hj
    obtain rfl := Option.some.inj (hj.symm.trans hrow')
    exact ⟨hcall, hread.frame hf, row, rfl, rfl, (hjob _).trans hj, hnext, ht,
      hf.jobEvents.trans hclean.jobEvents, hf.outbox.trans hclean.outbox⟩
  | appended w again next =>
    obtain ⟨hcall, hread, row, hw⟩ := h
    have hw' := fun pc ↦ hw.ran hto pc
    generalize hc : tx.call = c at hcall
    rcases hcall with _ | ⟨jobId, subject, payload⟩
    · exact Ready.recorded hc (hw' _)
    · obtain ⟨row', hrow', rfl⟩ := hread subject payload rfl
      obtain rfl := Option.some.inj (hrow'.symm.trans hw.held)
      exact ⟨hc, row', rfl, hw' _⟩
  | reposted jobId subject payload next =>
    obtain ⟨hcall, row, rfl, hw⟩ := h
    exact .replayed hcall (hw.ran hto _)

theorem Ran.status {pc : TxPc π} (hran : Ran s tid tx pc tx' ev out) : tx'.status = tx.status := by
  cases hran <;> rfl

/-- A row is locked that no other transaction has locked. -/
theorem Ran.lock (hs : s.Isolated) (hx : s.active? tid = some tx)
    (hran : Ran s tid tx tx.pc tx' ev out) {j : Uuid} (hj : tx'.lock = some j) {t : ℕ} {x : Tx π}
    (hne : t ≠ tid) (hact : s.active? t = some x) : x.lock ≠ some j := by
  have hold : tx.lock = some j → x.lock ≠ some j := fun hl hl' ↦
    hne (hs.apart t tid x tx j hact hx hl' hl)
  have hloc := hs.at_pc tid tx hx
  generalize tx.pc = pc at hran hloc
  cases hran with
  | inserted a hk hid hfree =>
    obtain rfl : a.jobId = j := Option.some.inj hj
    rw [seen_of_none hloc.2.version] at hid
    intro hl
    rcases (hs.at_pc t x hact).lock hl with hex | ⟨row, hv⟩
    · exact hex hid
    · exact (hfree t x hne hact _ row hv).2 rfl
  | refused w again h hfree ht | locked w again h hfree ht | updated w again lrow next h hfree ht =>
    obtain rfl : w.jobId = j := Option.some.inj hj
    exact hfree t x hne hact
  | _ => exact hold hj

/-- A key is inserted that no other transaction has inserted. -/
theorem Ran.fresh (hs : s.Isolated) (hx : s.active? tid = some tx)
    (hran : Ran s tid tx tx.pc tx' ev out) {j j' : Uuid} {row row' : JobRow π}
    (hv : tx'.version = some (j, row)) (hnone : s.db.job? j = none) {t : ℕ} {x : Tx π}
    (hne : t ≠ tid) (hact : s.active? t = some x) (hv' : x.version = some (j', row'))
    (hnone' : s.db.job? j' = none) : row.idempotencyKey ≠ row'.idempotencyKey := by
  have hold : tx.version = some (j, row) → row.idempotencyKey ≠ row'.idempotencyKey :=
    fun hv₀ heq ↦ hne (hs.fresh t tid x tx j' j row' row hact hx hv' hv₀ hnone' hnone heq.symm)
  have hloc := hs.at_pc tid tx hx
  generalize tx.pc = pc at hran hloc
  cases hran with
  | inserted a hk hid hfree =>
    obtain ⟨-, rfl⟩ := Prod.mk.inj (Option.some.inj hv)
    exact ((hfree t x hne hact j' row' hv').1).symm
  | updated w again lrow next h hfree ht =>
    obtain ⟨-, -, hclean, -⟩ := hloc
    obtain ⟨rfl, -⟩ := Prod.mk.inj (Option.some.inj hv)
    rw [seen_of_none hclean.version, hnone] at h
    exact nomatch h
  | _ => exact hold hv

/-- After a statement, the open transactions are the others and the one that ran. -/
theorem active?_set {t : ℕ} {x : Tx π} (hl : s'.txs = s.txs.set tid tx')
    (h : s'.active? t = some x) : (t ≠ tid ∧ s.active? t = some x) ∨ (t = tid ∧ x = tx') := by
  obtain ⟨hget, hact⟩ := active?_eq_some.1 h
  rw [hl] at hget
  rcases List.getElem?_set_eq_some hget with ⟨rfl, rfl⟩ | ⟨hne, hold⟩
  · exact .inr ⟨rfl, rfl⟩
  · exact .inl ⟨Ne.symm hne, active?_eq_some.2 ⟨hold, hact⟩⟩

/-- Rows inserted by an open transaction come after everything. -/
theorem insertOwned_after {α : Type} {t : SerialTable (ℕ × α)} {c : ℕ → Bool} {p : α → Uuid}
    {o : Option α} {n : ℕ} (hc : c tid = false)
    (h : ∀ r ∈ t.rows, ∀ r' ∈ t.rows, c r.2.1 = true → r'.2.1 = n → p r.2.2 = p r'.2.2 →
      r.1 < r'.1)
    (r : ℕ × ℕ × α) (hr : r ∈ (t.insertOwned tid o).rows) (r' : ℕ × ℕ × α)
    (hr' : r' ∈ (t.insertOwned tid o).rows) (hvis : c r.2.1 = true) (hown : r'.2.1 = n)
    (hp : p r.2.2 = p r'.2.2) : r.1 < r'.1 := by
  rcases SerialTable.mem_insertOwned hr with hr | ⟨htag, -⟩
  · rcases SerialTable.mem_insertOwned hr' with hr' | ⟨-, hlt⟩
    · exact h r hr r' hr' hvis hown hp
    · exact hlt r hr
  · rw [htag, hc] at hvis
    exact nomatch hvis

/-- **A statement** keeps the transactions isolated. -/
theorem Isolated.run (hs : s.Isolated) (hx : s.active? tid = some tx)
    (hran : Ran s tid tx tx.pc tx' ev out) (hto : RanTo s tid tx' ev out s') : s'.Isolated := by
  have hjob := job?_of_jobs hto.jobs
  have hstatus : tx'.status = .active := hran.status.trans (active?_eq_some.1 hx).2
  have hcom : s'.committed = s.committed := by
    funext t
    rw [committed, hto.txs]
    exact committed_set hx (by rw [hstatus]; decide) _ rfl t
  have hact : ∀ {t x}, s'.active? t = some x → (t ≠ tid ∧ s.active? t = some x) ∨
      (t = tid ∧ x = tx') := active?_set hto.txs
  have hlen : s'.txs.length = s.txs.length := by rw [hto.txs, List.length_set]
  have htid : tid < s.txs.length := List.lt_length_of_getElem? (active?_eq_some.1 hx).1
  refine ⟨?_, ?_, ?_, ?_, ?_, ?_, ?_, ?_⟩
  · intro j j' row row' hj hj'
    exact hs.keys j j' row row' (hjob j ▸ hj) (hjob j' ▸ hj')
  · intro t t' x x' j hx₁ hx₁' hl hl'
    rcases hact hx₁ with ⟨hne, h⟩ | ⟨rfl, rfl⟩ <;> rcases hact hx₁' with ⟨hne', h'⟩ | ⟨rfl, rfl⟩
    · exact hs.apart t t' x x' j h h' hl hl'
    · exact absurd hl (hran.lock hs hx hl' hne h)
    · exact absurd hl' (hran.lock hs hx hl hne' h')
    · rfl
  · intro t t' x x' j j' row row' hx₁ hx₁' hv hv' hn hn' heq
    rw [hjob] at hn hn'
    rcases hact hx₁ with ⟨hne, h⟩ | ⟨rfl, rfl⟩ <;> rcases hact hx₁' with ⟨hne', h'⟩ | ⟨rfl, rfl⟩
    · exact hs.fresh t t' x x' j j' row row' h h' hv hv' hn hn' heq
    · exact absurd heq.symm (hran.fresh hs hx hv' hn' hne h hv hn)
    · exact absurd heq (hran.fresh hs hx hv hn hne' h' hv' hn')
    · rfl
  · intro t x hx₁
    rcases hact hx₁ with ⟨hne, h⟩ | ⟨rfl, rfl⟩
    · refine (hs.at_pc t x h).frame (.of_jobs hto.jobs ?_ ?_)
      · rw [hto.jobEvents, SerialTable.ownedBy_insertOwned_ne _ (Ne.symm hne)]
      · rw [hto.outbox, SerialTable.ownedBy_insertOwned_ne _ (Ne.symm hne)]
    · exact hran.local hto (hs.at_pc t tx hx)
  · intro t x hx₁
    have hold : ∀ r ∈ s.jobEvents.rows, ∀ r' ∈ s.jobEvents.rows, s.committed r.2.1 = true →
        r'.2.1 = t → r.2.2.jobId = r'.2.2.jobId → r.1 < r'.1 := by
      rcases hact hx₁ with ⟨-, h⟩ | ⟨rfl, -⟩
      · exact hs.eventsAfter t x h
      · exact hs.eventsAfter t tx hx
    rw [hto.jobEvents, hcom]
    exact insertOwned_after (p := EventRow.jobId) (committed_eq_false hx) hold
  · intro t x hx₁
    have hold : ∀ r ∈ s.outbox.rows, ∀ r' ∈ s.outbox.rows, s.committed r.2.1 = true →
        r'.2.1 = t → r.2.2.jobId = r'.2.2.jobId → r.1 < r'.1 := by
      rcases hact hx₁ with ⟨-, h⟩ | ⟨rfl, -⟩
      · exact hs.outboxAfter t x h
      · exact hs.outboxAfter t tx hx
    rw [hto.outbox, hcom]
    exact insertOwned_after (p := OutboxRow.jobId) (committed_eq_false hx) hold
  · rw [hto.jobEvents, hlen]
    intro r hr
    rcases SerialTable.mem_insertOwned hr with hr | ⟨htag, -⟩
    · exact hs.eventTags r hr
    · exact htag ▸ htid
  · rw [hto.outbox, hlen]
    intro r hr
    rcases SerialTable.mem_insertOwned hr with hr | ⟨htag, -⟩
    · exact hs.outboxTags r hr
    · exact htag ▸ htid

/-! ### The end of a transaction -/

/-- **A rollback or a lost connection** keeps the others isolated. -/
theorem Isolated.drop (hs : s.Isolated) (hx : s.active? tid = some tx) {status : TxStatus}
    (hna : status ≠ .active) (hnc : status ≠ .committed) :
    (s.setTx tid (tx.ended status)).Isolated := by
  have hcom : (s.setTx tid (tx.ended status)).committed = s.committed :=
    funext fun t ↦ committed_set hx (show (tx.ended status).status ≠ _ from hnc) _ rfl t
  have hact : ∀ {t x}, (s.setTx tid (tx.ended status)).active? t = some x →
      s.active? t = some x := by
    intro t x h
    rcases active?_set rfl h with ⟨-, h⟩ | ⟨-, rfl⟩
    · exact h
    · exact absurd (active?_eq_some.1 h).2 hna
  have hlen : (s.setTx tid (tx.ended status)).txs.length = s.txs.length := List.length_set
  refine ⟨hs.keys, ?_, ?_, ?_, ?_, ?_, ?_, ?_⟩
  · exact fun t t' x x' j h h' ↦ hs.apart t t' x x' j (hact h) (hact h')
  · exact fun t t' x x' j j' row row' h h' ↦ hs.fresh t t' x x' j j' row row' (hact h) (hact h')
  · exact fun t x h ↦ (hs.at_pc t x (hact h)).frame (.of_jobs rfl rfl rfl)
  · rw [hcom]
    exact fun t x h ↦ hs.eventsAfter t x (hact h)
  · rw [hcom]
    exact fun t x h ↦ hs.outboxAfter t x (hact h)
  · rw [hlen]
    exact hs.eventTags
  · rw [hlen]
    exact hs.outboxTags

theorem committed_commit (hx : s.active? tid = some tx) (t : ℕ) :
    (s.commit tid tx).committed t = (s.committed t || decide (t = tid)) := by
  rw [committed, commit]
  by_cases ht : tid = t
  · subst ht
    rw [List.getElem?_set_self (List.lt_length_of_getElem? (active?_eq_some.1 hx).1)]
    simp [Tx.ended]
  · rw [List.getElem?_set_ne ht, committed]
    simp [Ne.symm ht]

/-- **A commit adds what the transaction has written**, and nothing else. -/
theorem Isolated.adds_commit (hs : s.Isolated) (hx : s.active? tid = some tx) :
    s.db.Adds (s.commit tid tx).db tx.version (s.jobEvents.ownedBy tid) (s.outbox.ownedBy tid) where
  job? j := by
    show (s.seen tx).jobs.lookup j = _
    rw [seen]
    cases tx.version with
    | none => rfl
    | some v => exact Database.lookup_insert_eq ..
  eventRows j := by
    rw [Database.eventRows, db, funext (committed_commit hx)]
    refine SerialTable.map_select_visible_or _ fun r hr r' hr' hc ht hp hp' ↦ ?_
    exact hs.eventsAfter tid tx hx r hr r' hr' hc ht
      ((of_decide_eq_true hp).trans (of_decide_eq_true hp').symm)
  outboxRows j := by
    rw [Database.outboxRows, db, funext (committed_commit hx)]
    refine SerialTable.map_select_visible_or _ fun r hr r' hr' hc ht hp hp' ↦ ?_
    exact hs.outboxAfter tid tx hx r hr r' hr' hc ht
      ((of_decide_eq_true hp).trans (of_decide_eq_true hp').symm)

/-- A row after a commit was there before, or is what was written. -/
theorem Isolated.job?_commit (hs : s.Isolated) (hx : s.active? tid = some tx) (j : Uuid) :
    ((s.commit tid tx).db.job? j = s.db.job? j ∧ ∀ row, tx.version ≠ some (j, row)) ∨
    ∃ row, tx.version = some (j, row) ∧ (s.commit tid tx).db.job? j = some row := by
  rw [(hs.adds_commit hx).job? j]
  cases hv : tx.version with
  | none => exact .inl ⟨rfl, fun _ h ↦ nomatch h⟩
  | some v =>
    obtain ⟨j₁, row⟩ := v
    by_cases hj : j = j₁
    · subst hj
      exact .inr ⟨row, rfl, by simp [Option.filter_some]⟩
    · refine .inl ⟨by simp [Option.filter_some, hj], fun row' h ↦ hj ?_⟩
      exact (Prod.mk.inj (Option.some.inj h)).1.symm

/-- A row that was there stays, with its key and its payload. -/
theorem Isolated.kept_commit (hs : s.Isolated) (hx : s.active? tid = some tx) {j : Uuid}
    {row : JobRow π} (hj : s.db.job? j = some row) :
    ∃ row', (s.commit tid tx).db.job? j = some row' ∧
      row'.idempotencyKey = row.idempotencyKey ∧ row'.payload = row.payload := by
  rcases hs.job?_commit hx j with ⟨hsame, -⟩ | ⟨row', hv, hj'⟩
  · exact ⟨row, hsame.trans hj, rfl, rfl⟩
  · rcases ((hs.at_pc tid tx hx).version hv).2 with ⟨hnone, -⟩ | ⟨row₀, hrow₀, hkey, hp⟩
    · exact nomatch hnone.symm.trans hj
    · obtain rfl := Option.some.inj (hrow₀.symm.trans hj)
      exact ⟨row', hj', hkey, hp⟩

/-- A key after a commit was there before, with the same job, or was inserted by it. -/
theorem Isolated.key_commit (hs : s.Isolated) (hx : s.active? tid = some tx) {j : Uuid}
    {row : JobRow π} (hj : (s.commit tid tx).db.job? j = some row) :
    (∃ row₀, s.db.job? j = some row₀ ∧ row₀.idempotencyKey = row.idempotencyKey) ∨
    (tx.version = some (j, row) ∧ s.db.job? j = none ∧
      s.db.jobByKey? row.idempotencyKey = none) := by
  rcases hs.job?_commit hx j with ⟨hsame, -⟩ | ⟨row', hv, hj'⟩
  · exact .inl ⟨row, hsame ▸ hj, rfl⟩
  · obtain rfl := Option.some.inj (hj'.symm.trans hj)
    rcases ((hs.at_pc tid tx hx).version hv).2 with ⟨hnone, hfree⟩ | ⟨row₀, hrow₀, hkey, -⟩
    · exact .inr ⟨hv, hnone, hfree⟩
    · exact .inl ⟨row₀, hrow₀, hkey.symm⟩

theorem Isolated.keys_commit (hs : s.Isolated) (hx : s.active? tid = some tx) :
    (s.commit tid tx).db.KeysUnique := by
  intro j j' row row' hj hj' heq
  rcases hs.key_commit hx hj with ⟨row₀, hrow₀, hkey⟩ | ⟨hv, -, hfree⟩ <;>
  rcases hs.key_commit hx hj' with ⟨row₀', hrow₀', hkey'⟩ | ⟨hv', -, hfree'⟩
  · exact hs.keys j j' row₀ row₀' hrow₀ hrow₀' (hkey.trans (heq.trans hkey'.symm))
  · exact absurd (hkey.trans heq) (Database.jobByKey?_eq_none.1 hfree' j row₀ hrow₀)
  · exact absurd (hkey'.trans heq.symm) (Database.jobByKey?_eq_none.1 hfree j' row₀' hrow₀')
  · exact (Prod.mk.inj (Option.some.inj (hv.symm.trans hv'))).1

/-- A commit is a frame for everybody else. -/
theorem Isolated.frame_commit (hs : s.Isolated) (hx : s.active? tid = some tx) {t : ℕ} {x : Tx π}
    (hne : t ≠ tid) (hact : s.active? t = some x) : Frame s (s.commit tid tx) t x where
  jobEvents := rfl
  outbox := rfl
  held j hl := by
    rcases hs.job?_commit hx j with ⟨hsame, -⟩ | ⟨row, hv, -⟩
    · exact hsame
    · have hlock := ((hs.at_pc tid tx hx).version hv).1
      exact absurd (hs.apart t tid x tx j hact hx hl hlock) hne
  keyFree j row hv hnone hfree := by
    refine Database.jobByKey?_eq_none.2 fun j' row' hj' heq ↦ ?_
    rcases hs.key_commit hx hj' with ⟨row₀, hrow₀, hkey⟩ | ⟨hv', hnone', -⟩
    · exact Database.jobByKey?_eq_none.1 hfree j' row₀ hrow₀ (hkey.trans heq)
    · exact hne (hs.fresh t tid x tx j j' row row' hact hx hv hv' hnone hnone' heq.symm)
  keyFound key j hj := by
    obtain ⟨row, hrow, hkey⟩ := hs.keys.jobByKey?_eq_some.1 hj
    obtain ⟨row', hrow', hkey', -⟩ := hs.kept_commit hx hrow
    exact (hs.keys_commit hx).jobByKey?_eq_some.2 ⟨row', hrow', hkey'.trans hkey⟩
  payload j row hj := by
    obtain ⟨row', hrow', -, hp⟩ := hs.kept_commit hx hj
    exact ⟨row', hrow', hp⟩

/-- **A commit** keeps the others isolated. -/
theorem Isolated.commit (hs : s.Isolated) (hx : s.active? tid = some tx) :
    (s.commit tid tx).Isolated := by
  have hact : ∀ {t x}, (s.commit tid tx).active? t = some x → t ≠ tid ∧ s.active? t = some x := by
    intro t x h
    rcases active?_set rfl h with h | ⟨-, rfl⟩
    · exact h
    · exact nomatch (active?_eq_some.1 h).2
  have hlen : (s.commit tid tx).txs.length = s.txs.length := List.length_set
  refine ⟨hs.keys_commit hx, ?_, ?_, ?_, ?_, ?_, ?_, ?_⟩
  · exact fun t t' x x' j h h' ↦ hs.apart t t' x x' j (hact h).2 (hact h').2
  · intro t t' x x' j j' row row' h h' hv hv' hn hn'
    have hold : ∀ {j}, (s.commit tid tx).db.job? j = none → s.db.job? j = none := by
      intro j hn
      cases hj : s.db.job? j with
      | none => rfl
      | some row =>
        obtain ⟨row', hrow', -⟩ := hs.kept_commit hx hj
        exact nomatch hn.symm.trans hrow'
    exact hs.fresh t t' x x' j j' row row' (hact h).2 (hact h').2 hv hv' (hold hn) (hold hn')
  · exact fun t x h ↦ (hs.at_pc t x (hact h).2).frame (hs.frame_commit hx (hact h).1 (hact h).2)
  · intro t x h r hr r' hr' hc ht hjob
    obtain ⟨hne, h⟩ := hact h
    rw [committed_commit hx, Bool.or_eq_true_iff, decide_eq_true_eq] at hc
    rcases hc with hc | hc
    · exact hs.eventsAfter t x h r hr r' hr' hc ht hjob
    · -- Rows of two open transactions are for different jobs.
      have hmine := (hs.at_pc tid tx hx).mine.1 r.2.2 (SerialTable.mem_ownedBy.2 ⟨r.1, hc ▸ hr⟩)
      have hmine' := (hs.at_pc t x h).mine.1 r'.2.2 (SerialTable.mem_ownedBy.2 ⟨r'.1, ht ▸ hr'⟩)
      rw [← hjob] at hmine'
      exact absurd (hs.apart t tid x tx _ h hx hmine' hmine) hne
  · intro t x h r hr r' hr' hc ht hjob
    obtain ⟨hne, h⟩ := hact h
    rw [committed_commit hx, Bool.or_eq_true_iff, decide_eq_true_eq] at hc
    rcases hc with hc | hc
    · exact hs.outboxAfter t x h r hr r' hr' hc ht hjob
    · have hmine := (hs.at_pc tid tx hx).mine.2 r.2.2 (SerialTable.mem_ownedBy.2 ⟨r.1, hc ▸ hr⟩)
      have hmine' := (hs.at_pc t x h).mine.2 r'.2.2 (SerialTable.mem_ownedBy.2 ⟨r'.1, ht ▸ hr'⟩)
      rw [← hjob] at hmine'
      exact absurd (hs.apart t tid x tx _ h hx hmine' hmine) hne
  · rw [hlen]
    exact hs.eventTags
  · rw [hlen]
    exact hs.outboxTags

theorem Isolated.step {a : ServerStep π} (hs : s.Isolated) (h : s.step a = some s') :
    s'.Isolated := by
  rcases step_cases h with ⟨now, c, rfl⟩ | ⟨tid, tx, tx', ev, out, hx, hran, hto⟩ |
    ⟨tid, tx, r, hx, -, rfl⟩ | ⟨tid, tx, status, hx, rfl, ⟨rfl, -⟩ | rfl⟩
  · exact hs.begin now c
  · exact hs.run hx hran hto
  · exact hs.commit hx
  · exact hs.drop hx (by decide) (by decide)
  · exact hs.drop hx (by decide) (by decide)

/-- In every reachable state the transactions are isolated. -/
theorem isolated_of_reachable {G : Server π → ServerStep π → Prop} (h : system.Reachable G s) :
    s.Isolated := by
  refine h.induct (I := Isolated) (fun s hs ↦ ?_) fun s a s' _ ih _ h ↦ ih.step h
  obtain rfl : s = empty := hs
  have hnone : ∀ (t : ℕ) (x : Tx π), (empty : Server π).active? t ≠ some x := by
    intro t x h
    exact nomatch (active?_eq_some.1 h).1
  refine ⟨fun j j' row row' h ↦ (nomatch h), ?_, ?_, ?_, ?_, ?_, ?_, ?_⟩
  · exact fun t t' x x' j h ↦ absurd h (hnone t x)
  · exact fun t t' x x' j j' row row' h ↦ absurd h (hnone t x)
  · exact fun t x h ↦ absurd h (hnone t x)
  · exact fun t x h ↦ absurd h (hnone t x)
  · exact fun t x h ↦ absurd h (hnone t x)
  · exact fun r hr ↦ absurd hr List.not_mem_nil
  · exact fun r hr ↦ absurd hr List.not_mem_nil

/-! ### What stays of the outbox -/

theorem Ran.unpublished {pc : TxPc π} (hran : Ran s tid tx pc tx' ev out) (r : OutboxRow π)
    (h : out = some r) : r.publishedAt = none := by
  cases hran with
  | posted a | reposted jobId subject payload next =>
    obtain rfl := Option.some.inj h
    rfl
  | _ => exact nomatch h

/-- **A step of a transaction keeps every row**, inserts unpublished rows only, and undoes no
commit. -/
theorem outbox_step {a : ServerStep π} (h : s.step a = some s') :
    (∀ r ∈ s.outbox.rows, r ∈ s'.outbox.rows) ∧
    (∀ r ∈ s'.outbox.rows, r ∈ s.outbox.rows ∨ r.2.2.publishedAt = none) ∧
    ∀ t, s.committed t = true → s'.committed t = true := by
  rcases step_cases h with ⟨now, c, rfl⟩ | ⟨tid, tx, tx', ev, out, hx, hran, hto⟩ |
    ⟨tid, tx, r, hx, -, rfl⟩ | ⟨tid, tx, status, hx, rfl, hend⟩
  · refine ⟨fun r hr ↦ hr, fun r hr ↦ .inl hr, fun t ht ↦ ?_⟩
    exact (committed_begin s rfl t).trans ht
  · have hstatus : tx'.status ≠ .committed := by
      rw [hran.status, (active?_eq_some.1 hx).2]
      decide
    refine ⟨?_, ?_, fun t ht ↦ (committed_set hx hstatus _ hto.txs t).trans ht⟩ <;> rw [hto.outbox]
    · rcases out with _ | o
      · exact fun r hr ↦ hr
      · exact fun r hr ↦ List.mem_append_left _ hr
    · rcases out with _ | o
      · exact fun r hr ↦ .inl hr
      · intro r hr
        rcases List.mem_append.1 hr with hr | hr
        · exact .inl hr
        · rw [List.mem_singleton.1 hr]
          exact .inr (hran.unpublished o rfl)
  · refine ⟨fun r hr ↦ hr, fun r hr ↦ .inl hr, fun t ht ↦ ?_⟩
    rw [committed_commit hx, ht, Bool.true_or]
  · have hstatus : (tx.ended status).status ≠ .committed := by
      rcases hend with ⟨rfl, -⟩ | rfl
      · exact nofun
      · exact nofun
    exact ⟨fun r hr ↦ hr, fun r hr ↦ .inl hr,
      fun t ht ↦ (committed_set hx hstatus _ rfl t).trans ht⟩

end Steps

end Server

end Orbiter
