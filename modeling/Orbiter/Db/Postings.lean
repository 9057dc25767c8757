import Orbiter.Db.Projection

/-!
# Postings

A job is put up for execution by its `enqueued` event and by every `replayed` event. A transaction
that writes one of these inserts one outbox row for the same job, with the payload stored with it,
and no other transaction inserts one.

* `postings` — how many of the events of a log put the job up;
* `RepoCall.isMade` — the calls the services make: a recorded event is never one of the two, because
  the repository writes those itself, in the transactions that insert the row as well;
* `RepoCall.exec_posts` — one call adds as many outbox rows of a job as it adds postings;
* `Database.Posted` — so each job has as many outbox rows as postings, and every call keeps this;
* `RepoCall.exec_payload` — every outbox row carries the payload stored with its job.

The statement is about a job's own rows, so it does not matter in which order the rows of different
jobs become visible.
-/

namespace Orbiter

variable {π : Type}

/-- The events `handle` and the dead-letter listener record. -/
def EventType.isRecorded : EventType → Bool
  | started | completed | requeued | failed | deadLettered => true
  | submitted | enqueued | replayed => false

/-- A call as the services make it. -/
def RepoCall.isMade : RepoCall π → Bool
  | recordEvent w => w.event.isRecorded
  | submitJob _ _ _ _ _ | replayJob _ _ => true

/-- How often a log puts its job up for execution. -/
def postings (log : List EventType) : ℕ := log.count .enqueued + log.count .replayed

@[simp] theorem postings_append (l l' : List EventType) :
    postings (l ++ l') = postings l + postings l' := by
  simp only [postings, List.count_append]
  omega

/-- The events a worker or the listener records put no job up. -/
theorem postings_eq_zero {e : EventType} (h : e.isRecorded = true) : postings [e] = 0 := by
  cases e <;> first
    | rfl
    | exact absurd h (by decide)

/-- **One transaction**: neither a posting nor a row, or one of each, for the same job and with that
job's payload. -/
theorem RepoCall.exec_posts {db db' : Database π} {now : ℕ} {c : RepoCall π} {r : RepoResult}
    (hm : c.isMade = true) (h : c.exec db now = .ok (r, db')) :
    (db'.outbox = db.outbox ∧ ∀ j, postings (db'.log j) = postings (db.log j)) ∨
    ∃ (j : Uuid) (subject : String) (m : Message π) (row : JobRow π),
      db'.outbox = db.outbox.insert ⟨j, subject, m, now, none⟩ ∧ m.jobId = j ∧
      db'.job? j = some row ∧ row.payload = m.payload ∧
      ∀ j', postings (db'.log j') = postings (db.log j') + if j = j' then 1 else 0 := by
  rcases Ledger.exec_cases (s := ⟨db, []⟩) h with ⟨rfl, -⟩ |
    ⟨jobId, key, payload, subject, carrier, -, -, rfl, -⟩ |
    ⟨w, row, next, -, -, -, -, ⟨rfl, rfl⟩ | ⟨subject, -, hev, rfl⟩⟩
  · exact .inl ⟨rfl, fun _ ↦ rfl⟩
  · refine .inr ⟨jobId, subject, ⟨jobId, payload, some carrier⟩, _, rfl, rfl,
      Database.job?_create_self .., rfl, fun j' ↦ ?_⟩
    by_cases hj : jobId = j'
    · subst hj
      rw [Database.log_create_self, postings_append, if_pos rfl]
      rfl
    · rw [Database.log_create_ne _ _ _ _ _ _ (Ne.symm hj), if_neg hj]
      rfl
  · refine .inl ⟨rfl, fun j ↦ ?_⟩
    by_cases hj : j = w.jobId
    · subst hj
      rw [Database.log_accept_self, postings_append, postings_eq_zero hm]
      rfl
    · rw [Database.log_accept_ne _ _ _ _ hj]
  · refine .inr ⟨w.jobId, subject, ⟨w.jobId, row.payload, none⟩, _, rfl, rfl,
      Database.job?_accept_self .., rfl, fun j' ↦ ?_⟩
    rw [Database.log_enqueueReplay]
    by_cases hj : w.jobId = j'
    · subst hj
      rw [Database.log_accept_self, postings_append, hev, if_pos rfl]
      rfl
    · rw [Database.log_accept_ne _ _ _ _ (Ne.symm hj), if_neg hj]
      rfl

/-- Every job has as many outbox rows as postings. -/
def Database.Posted (db : Database π) : Prop :=
  ∀ j, (db.outboxRows j).length = postings (db.log j)

/-- Every call the services make keeps rows and postings in step. -/
theorem Database.Posted.exec {db db' : Database π} {now : ℕ} {c : RepoCall π} {r : RepoResult}
    (hp : db.Posted) (hm : c.isMade = true) (h : c.exec db now = .ok (r, db')) : db'.Posted := by
  intro j
  rcases RepoCall.exec_posts hm h with ⟨hout, hlog⟩ | ⟨j₀, subject, m, row, hout, -, -, -, hlog⟩
  · rw [hlog j, ← hp j, outboxRows, hout, outboxRows]
  · rw [hlog j, ← hp j, outboxRows, hout, SerialTable.select_insert, List.length_append, outboxRows]
    by_cases hj : j₀ = j <;> simp [hj]

/-- A job keeps its payload. -/
theorem RepoCall.exec_payload {db db' : Database π} {now : ℕ} {c : RepoCall π}
    {r : RepoResult} (h : c.exec db now = .ok (r, db')) {j : Uuid} {row : JobRow π}
    (hj : db.job? j = some row) : ∃ row', db'.job? j = some row' ∧ row'.payload = row.payload := by
  rcases Ledger.exec_cases (s := ⟨db, []⟩) h with ⟨rfl, -⟩ |
    ⟨jobId, key, payload, subject, carrier, -, habs, rfl, -⟩ |
    ⟨w, row₀, next, hrow, -, -, -, hdb⟩
  · exact ⟨row, hj, rfl⟩
  · have hne : j ≠ jobId := by
      rintro rfl
      rw [habs] at hj
      exact absurd hj (by simp)
    exact ⟨row, (Database.job?_create_ne _ _ _ _ _ _ hne).trans hj, rfl⟩
  · have hjob : db'.job? j = (db.accept now w row₀ next).job? j := by
      rcases hdb with ⟨-, rfl⟩ | ⟨subject, -, -, rfl⟩ <;> rfl
    by_cases hne : j = w.jobId
    · subst hne
      obtain rfl := Option.some.inj (hj.symm.trans hrow)
      exact ⟨_, hjob.trans (Database.job?_accept_self ..), rfl⟩
    · exact ⟨row, hjob.trans ((Database.job?_accept_ne _ _ _ _ hne).trans hj), rfl⟩

end Orbiter
