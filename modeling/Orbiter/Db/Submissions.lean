import Orbiter.Db.Serializable

/-!
# Submissions are idempotent

However many times a key is submitted, by however many clients at once, one submission creates the
job and the others are told its id. In a serial run this is an induction: the first submission of a
key creates its job and all later ones find it, and whatever happens to the job afterwards, its key,
its payload, its first two events and its first message stay (`Submitted`). Every interleaving of
the statements comes to what a serial run comes to, so the same holds of it.

## The steps

* `CreatedBy` — a job and the one submission that created it: its key, payload, message, and the
  time. `CreatedBy.keep` says what may happen to the job without touching any of this;
* `Submitted.exec` — one call keeps the record, by the three kinds of call: one that changes nothing
  (`idle`), a submission that creates (`create`), a write (`write`);
* `Returned`, `CreatedOnce` — the same in the terms of the server: a transaction that has returned
  to its client, and a job with the one committed submission that created it;
* `submit_idempotent` — unique keys, one creating submission for each job, and every submission that
  returned was told the id of the job of its key. It is about every reachable state of the server,
  so submissions that die on the way, that raise and that wait for each other are all in it.
-/

namespace Orbiter

variable {π : Type}

/-- The call created a job under this key. -/
def creates (key : String) (e : SerialEntry π) : Bool :=
  match e.1.2, e.2 with
  | .submitJob _ key' _ _ _, .ok (.submitted _ true) => key' = key
  | _, _ => false

/-- The message of a submission, and not of a replay: it carries a trace context. -/
def OutboxRow.isSubmission (r : OutboxRow π) : Bool := r.payload.traceparent.isSome

/-- What is on record of a job: who created it, with what, and that this was done once. -/
structure CreatedBy (l : List (SerialEntry π)) (db : Database π) (j : Uuid) (row : JobRow π)
    (now : ℕ) (a : Submission π) : Prop where
  jobId : a.jobId = j
  key : a.idempotencyKey = row.idempotencyKey
  payload : a.payload = row.payload
  once : l.filter (creates row.idempotencyKey) = [((now, a.call), .ok (.submitted (some j) true))]
  submitted : (db.log j).count .submitted = 1
  enqueued : (db.log j).count .enqueued = 1
  message : ((db.outboxRows j).map Prod.snd).filter OutboxRow.isSubmission =
    [⟨a.jobId, a.subject, ⟨a.jobId, a.payload, some a.carrier⟩, now, none⟩]

/-- Calls run one at a time, and what they leave. -/
structure Submitted (l : List (SerialEntry π)) (db : Database π) : Prop where
  keys : db.KeysUnique
  /-- A submission returns the job of its key. -/
  returned : ∀ (now : ℕ) (a : Submission π) (r : Option Uuid) (created : Bool),
    ((now, a.call), .ok (.submitted r created)) ∈ l →
      ∃ j row, r = some j ∧ db.job? j = some row ∧ row.idempotencyKey = a.idempotencyKey
  created : ∀ j row, db.job? j = some row → ∃ now a, CreatedBy l db j row now a
  absent : ∀ j, db.job? j = none → db.eventRows j = [] ∧ db.outboxRows j = []
  /-- A row begins past `submitted` and does not go back. -/
  state : ∀ j row, db.job? j = some row → row.state ≠ .submitted

/-! ### One call -/

/-- Calls that are no submissions. -/
def RepoCall.isSubmission : RepoCall π → Bool
  | .submitJob _ _ _ _ _ => true
  | .recordEvent _ | .replayJob _ _ => false

/-- **One call**: it finds the job of its key, or creates it, or finds nothing to replay, or writes
one event to one job. -/
theorem serialExec_cases {db db' : Database π} {now : ℕ} {c : RepoCall π} {r : SqlResult}
    (h : serialExec db (now, c) = .ok (r, db')) :
    (∃ (a : Submission π) (j : Uuid), c = a.call ∧ r = .submitted (some j) false ∧
      db.jobByKey? a.idempotencyKey = some j ∧ db' = db) ∨
    (∃ a : Submission π, c = a.call ∧ r = .submitted (some a.jobId) true ∧
      db.jobByKey? a.idempotencyKey = none ∧ db.job? a.jobId = none ∧
      db' = db.create now a.jobId a.idempotencyKey a.payload a.subject a.carrier) ∨
    (c.isSubmission = false ∧ db' = db) ∨
    (c.isSubmission = false ∧ ∃ (w : Write) (row : JobRow π) (next : JobState)
      (out : List (OutboxRow π)), db.job? w.jobId = some row ∧
        transitions row.state w.event = some next ∧
        db.Adds db' (some (w.jobId, Database.acceptRow row now w next)) [w.eventRow now] out ∧
        ∀ o ∈ out, o.jobId = w.jobId ∧ o.isSubmission = false) := by
  rw [serialExec] at h
  cases hx : c.exec db now with
  | error e => exact absurd h (by simp [hx, Except.map])
  | ok p =>
    obtain ⟨r₀, db₁⟩ := p
    simp only [hx, Except.map, Except.ok.injEq, Prod.mk.injEq] at h
    obtain ⟨rfl, rfl⟩ := h
    cases c with
    | submitJob jobId key payload subject carrier =>
      rw [RepoCall.exec] at hx
      cases hsub : db.submitJob now jobId key payload subject carrier with
      | error e => exact absurd hx (by simp [hsub, Except.map])
      | ok q =>
        obtain ⟨⟨j, created⟩, db₂⟩ := q
        simp only [hsub, Except.map, Except.ok.injEq, Prod.mk.injEq] at hx
        obtain ⟨rfl, rfl⟩ := hx
        rcases Database.submitJob_eq_ok hsub with ⟨rfl, hk, rfl⟩ | ⟨rfl, rfl, hk, hj, rfl⟩
        · exact .inl ⟨⟨jobId, key, payload, subject, carrier⟩, j, rfl, rfl, hk, rfl⟩
        · exact .inr (.inl ⟨⟨j, key, payload, subject, carrier⟩, rfl, rfl, hk, hj, rfl⟩)
    | recordEvent w =>
      rcases Ledger.exec_cases (s := ⟨db, []⟩) hx with ⟨heq, -⟩ | ⟨_, _, _, _, _, hc, -⟩ |
        ⟨w', row, next, hrow, hnext, -, -, ⟨-, rfl⟩ | ⟨subject, hc, -⟩⟩
      · exact .inr (.inr (.inl ⟨rfl, heq⟩))
      · contradiction
      · exact .inr (.inr (.inr ⟨rfl, w', row, next, [], hrow, hnext, Database.adds_accept ..,
          by simp⟩))
      · contradiction
    | replayJob jobId subject =>
      rcases Ledger.exec_cases (s := ⟨db, []⟩) hx with ⟨heq, -⟩ | ⟨_, _, _, _, _, hc, -⟩ |
        ⟨w', row, next, hrow, hnext, -, -, ⟨hc, -⟩ | ⟨subject', -, -, rfl⟩⟩
      · exact .inr (.inr (.inl ⟨rfl, heq⟩))
      · contradiction
      · contradiction
      · exact .inr (.inr (.inr ⟨rfl, w', row, next, _, hrow, hnext,
          (Database.adds_accept ..).enqueueReplay .., by simp [OutboxRow.isSubmission]⟩))

/-- A submission creates under its own key, and only if it says so. -/
@[simp] theorem creates_call (key : String) (now : ℕ) (a : Submission π) (r : Option Uuid)
    (created : Bool) : creates key ((now, a.call), .ok (.submitted r created)) =
      (created && decide (a.idempotencyKey = key)) := by
  cases created <;> rfl

/-- What creates under a key is a submission of that key. -/
theorem exists_of_creates {key : String} {e : SerialEntry π} (h : creates key e = true) :
    ∃ (now : ℕ) (a : Submission π) (r : Option Uuid),
      e = ((now, a.call), .ok (.submitted r true)) ∧ a.idempotencyKey = key := by
  obtain ⟨⟨now, c⟩, exit⟩ := e
  rw [creates] at h
  split at h
  · next jobId key' payload subject carrier r hc hr =>
    obtain rfl : c = _ := hc
    obtain rfl : exit = _ := hr
    exact ⟨now, ⟨jobId, key', payload, subject, carrier⟩, r, rfl, of_decide_eq_true h⟩
  · exact absurd h Bool.false_ne_true

theorem creates_of_not_submission {c : RepoCall π} (h : c.isSubmission = false) (key : String)
    (now : ℕ) (exit : Except DbError SqlResult) : creates key ((now, c), exit) = false := by
  match c with
  | .submitJob jobId key' payload subject carrier => exact nomatch h
  | .recordEvent w => rfl
  | .replayJob jobId subject => rfl

/-! ### What a call leaves of the record -/

section Keep

variable {l : List (SerialEntry π)} {db db' : Database π} {e : SerialEntry π} {j : Uuid}
  {row row' : JobRow π} {now : ℕ} {a : Submission π}

theorem Database.log_eq (db : Database π) (j : Uuid) :
    db.log j = ((db.eventRows j).map Prod.snd).map EventRow.event := by
  rw [Database.log, List.map_map]
  rfl

/-- A call that does not create adds no creating submission. -/
theorem filter_creates_concat {key : String} (h : creates key e = false) :
    (l ++ [e]).filter (creates key) = l.filter (creates key) := by
  rw [List.filter_append, List.filter_cons_of_neg (by rw [h]; exact Bool.false_ne_true),
    List.filter_nil, List.append_nil]

/-- What is on record of a job is kept by a call that creates no job under its key, and appends
neither its first events nor a message of a submission. -/
theorem CreatedBy.keep (h : CreatedBy l db j row now a)
    (hkey : row'.idempotencyKey = row.idempotencyKey) (hpayload : row'.payload = row.payload)
    (hnew : creates row.idempotencyKey e = false) (events : List EventRow)
    (out : List (OutboxRow π))
    (hev : (db'.eventRows j).map Prod.snd = (db.eventRows j).map Prod.snd ++ events)
    (hout : (db'.outboxRows j).map Prod.snd = (db.outboxRows j).map Prod.snd ++ out)
    (hlater : ∀ x ∈ events, x.event ≠ .submitted ∧ x.event ≠ .enqueued)
    (hreplay : ∀ o ∈ out, o.isSubmission = false) :
    CreatedBy (l ++ [e]) db' j row' now a where
  jobId := h.jobId
  key := h.key.trans hkey.symm
  payload := h.payload.trans hpayload.symm
  once := by rw [hkey, filter_creates_concat hnew, h.once]
  submitted := by
    rw [Database.log_eq, hev, List.map_append, List.count_append, ← Database.log_eq, h.submitted,
      List.count_eq_zero.2]
    intro hmem
    obtain ⟨x, hx, heq⟩ := List.mem_map.1 hmem
    exact (hlater x hx).1 heq
  enqueued := by
    rw [Database.log_eq, hev, List.map_append, List.count_append, ← Database.log_eq, h.enqueued,
      List.count_eq_zero.2]
    intro hmem
    obtain ⟨x, hx, heq⟩ := List.mem_map.1 hmem
    exact (hlater x hx).2 heq
  message := by
    rw [hout, List.filter_append, h.message, List.filter_eq_nil_iff.2, List.append_nil]
    intro o ho
    rw [hreplay o ho]
    exact Bool.false_ne_true

/-- A call that changes nothing at the job. -/
theorem CreatedBy.same (h : CreatedBy l db j row now a)
    (hnew : creates row.idempotencyKey e = false)
    (hev : (db'.eventRows j).map Prod.snd = (db.eventRows j).map Prod.snd)
    (hout : (db'.outboxRows j).map Prod.snd = (db.outboxRows j).map Prod.snd) :
    CreatedBy (l ++ [e]) db' j row now a :=
  h.keep rfl rfl hnew [] [] (by rw [hev, List.append_nil]) (by rw [hout, List.append_nil])
    (fun _ hx ↦ absurd hx List.not_mem_nil)
    fun _ ho ↦ absurd ho List.not_mem_nil

end Keep

namespace Submitted

variable {l : List (SerialEntry π)} {db db' : Database π} {e : SerialEntry π}

/-- A call that changes nothing, and returns no job but the one of its key. -/
theorem idle (h : Submitted l db) (hnew : ∀ key, creates key e = false)
    (hret : ∀ (now : ℕ) (a : Submission π) (r : Option Uuid) (created : Bool),
      e = ((now, a.call), .ok (.submitted r created)) →
        ∃ j row, r = some j ∧ db.job? j = some row ∧ row.idempotencyKey = a.idempotencyKey) :
    Submitted (l ++ [e]) db where
  keys := h.keys
  returned now a r created hmem := by
    rcases List.mem_append.1 hmem with hold | hlast
    · exact h.returned now a r created hold
    · exact hret now a r created (List.mem_singleton.1 hlast).symm
  created j row hrow := by
    obtain ⟨now, a, ha⟩ := h.created j row hrow
    exact ⟨now, a, ha.same (hnew _) rfl rfl⟩
  absent := h.absent
  state := h.state

/-- The record of a new job: its key was free, so no earlier call returned a job under it. -/
theorem createdBy (h : Submitted l db) (now : ℕ) {a : Submission π}
    (hfree : ∀ j row, db.job? j = some row → row.idempotencyKey ≠ a.idempotencyKey)
    (hid : db.job? a.jobId = none) :
    CreatedBy (l ++ [((now, a.call), .ok (.submitted (some a.jobId) true))])
      (db.create now a.jobId a.idempotencyKey a.payload a.subject a.carrier) a.jobId
      (Database.newRow now a.idempotencyKey a.payload) now a := by
  obtain ⟨hnoEvents, hnoMessages⟩ := h.absent a.jobId hid
  have hadds := Database.adds_create db now a.jobId a.idempotencyKey a.payload a.subject a.carrier
  have hlog : (db.create now a.jobId a.idempotencyKey a.payload a.subject a.carrier).log a.jobId =
      [.submitted, .enqueued] := by
    rw [Database.log_create_self, Database.log, hnoEvents]
    rfl
  refine ⟨rfl, rfl, rfl, ?_, by rw [hlog]; decide, by rw [hlog]; decide, ?_⟩
  · rw [List.filter_append, List.filter_eq_nil_iff.2, List.nil_append,
      List.filter_cons_of_pos (by simp [Database.newRow]), List.filter_nil]
    intro x hx hc
    obtain ⟨now₀, a₀, r, rfl, hk₀⟩ := exists_of_creates hc
    obtain ⟨j, row, -, hj, hk⟩ := h.returned now₀ a₀ r true hx
    exact hfree j row hj (hk.trans hk₀)
  · rw [hadds.outboxRows, hnoMessages]
    simp [OutboxRow.isSubmission]

/-- **A new job.** -/
theorem create (h : Submitted l db) {now : ℕ} {a : Submission π}
    (hkey : db.jobByKey? a.idempotencyKey = none) (hid : db.job? a.jobId = none) :
    Submitted (l ++ [((now, a.call), .ok (.submitted (some a.jobId) true))])
      (db.create now a.jobId a.idempotencyKey a.payload a.subject a.carrier) := by
  have hfree := Database.jobByKey?_eq_none.1 hkey
  have hnew := h.createdBy now hfree hid
  have hadds := Database.adds_create db now a.jobId a.idempotencyKey a.payload a.subject a.carrier
  generalize db.create now a.jobId a.idempotencyKey a.payload a.subject a.carrier = db'
    at hadds hnew
  have hold : ∀ {j row}, db.job? j = some row → j ≠ a.jobId := by
    rintro j row hj rfl
    exact absurd (hid.symm.trans hj) (by simp)
  constructor
  case keys =>
    intro j j' row row' hj hj' heq
    rcases hadds.job?_cases hj with ⟨-, hj⟩ | ⟨rfl, rfl⟩ <;>
    rcases hadds.job?_cases hj' with ⟨-, hj'⟩ | ⟨rfl, rfl⟩
    · exact h.keys j j' row row' hj hj' heq
    · exact absurd heq (hfree j row hj)
    · exact absurd heq.symm (hfree j' row' hj')
    · exact Eq.refl a.jobId
  case returned =>
    intro now' a' r created hmem
    rcases List.mem_append.1 hmem with hbefore | hlast
    · obtain ⟨j, row, hr, hj, hk⟩ := h.returned now' a' r created hbefore
      exact ⟨j, row, hr, (hadds.job?_ne (hold hj)).trans hj, hk⟩
    · have heq := List.mem_singleton.1 hlast
      simp only [Prod.mk.injEq, Submission.call, RepoCall.submitJob.injEq, Except.ok.injEq,
        SqlResult.submitted.injEq] at heq
      obtain ⟨⟨-, -, hk, -⟩, rfl, -⟩ := heq
      exact ⟨a.jobId, _, rfl, hadds.job?_self, hk.symm⟩
  case created =>
    intro j row hj
    rcases hadds.job?_cases hj with ⟨hne, hj⟩ | ⟨rfl, rfl⟩
    · obtain ⟨now₀, a₀, h₀⟩ := h.created j row hj
      obtain ⟨hevents, houtbox⟩ := hadds.rows_of_ne (by simp) (by simp) hne
      exact ⟨now₀, a₀, h₀.same (by simpa using (hfree j row hj).symm) hevents houtbox⟩
    · exact ⟨now, a, hnew⟩
  case absent => exact fun j hj ↦ hadds.absent (by simp) (by simp) h.absent hj
  case state =>
    intro j row hj
    rcases hadds.job?_cases hj with ⟨-, hj⟩ | ⟨-, rfl⟩
    · exact h.state j row hj
    · show JobState.queued ≠ .submitted
      decide

/-- **A later event** of a job changes neither its key nor its payload, and is no first event. -/
theorem write (h : Submitted l db) (hsub : e.1.2.isSubmission = false) {w : Write} {row : JobRow π}
    {next : JobState} {now : ℕ} {out : List (OutboxRow π)} (hrow : db.job? w.jobId = some row)
    (hnext : transitions row.state w.event = some next)
    (hadds : db.Adds db' (some (w.jobId, Database.acceptRow row now w next)) [w.eventRow now] out)
    (hout : ∀ o ∈ out, o.jobId = w.jobId ∧ o.isSubmission = false) :
    Submitted (l ++ [e]) db' := by
  have hpast := past_submitted (h.state _ _ hrow) hnext
  -- The rows are the old ones, one of them in another state.
  have hback : ∀ {j row'}, db'.job? j = some row' → ∃ row₀, db.job? j = some row₀ ∧
      row'.idempotencyKey = row₀.idempotencyKey ∧ row'.payload = row₀.payload ∧
      row'.state ≠ .submitted := by
    intro j row' hj
    rcases hadds.job?_cases hj with ⟨-, hj⟩ | ⟨rfl, rfl⟩
    · exact ⟨row', hj, rfl, rfl, h.state j row' hj⟩
    · exact ⟨row, hrow, rfl, rfl, hpast.2.2⟩
  have hkept : ∀ {j row₀}, db.job? j = some row₀ → ∃ row', db'.job? j = some row' ∧
      row'.idempotencyKey = row₀.idempotencyKey := by
    intro j row₀ hj
    by_cases hne : j = w.jobId
    · subst hne
      obtain rfl := Option.some.inj (hrow.symm.trans hj)
      exact ⟨_, hadds.job?_self, rfl⟩
    · exact ⟨row₀, (hadds.job?_ne hne).trans hj, rfl⟩
  constructor
  case keys =>
    intro j j' row₁ row₂ hj hj' heq
    obtain ⟨row₁', hj₁, hk₁, -⟩ := hback hj
    obtain ⟨row₂', hj₂, hk₂, -⟩ := hback hj'
    exact h.keys j j' row₁' row₂' hj₁ hj₂ (by rw [← hk₁, ← hk₂, heq])
  case returned =>
    intro now' a r created hmem
    rcases List.mem_append.1 hmem with hbefore | hlast
    · obtain ⟨j, row₀, hr, hj, hk⟩ := h.returned now' a r created hbefore
      obtain ⟨row', hj', hk'⟩ := hkept hj
      exact ⟨j, row', hr, hj', hk'.trans hk⟩
    · rw [← List.mem_singleton.1 hlast] at hsub
      exact nomatch hsub
  case created =>
    intro j row' hj
    obtain ⟨row₀, hj₀, hk, hp, -⟩ := hback hj
    obtain ⟨now₀, a₀, h₀⟩ := h.created j row₀ hj₀
    have hnew := creates_of_not_submission hsub row₀.idempotencyKey e.1.1 e.2
    refine ⟨now₀, a₀, h₀.keep hk hp hnew _ _ (hadds.eventRows j) (hadds.outboxRows j) ?_ ?_⟩
    · intro x hx
      obtain rfl := List.mem_singleton.1 (List.mem_filter.1 hx).1
      exact ⟨hpast.1, hpast.2.1⟩
    · exact fun o ho ↦ (hout o (List.mem_filter.1 ho).1).2
  case absent =>
    exact fun j hj ↦ hadds.absent (by simp [Write.eventRow]) (fun o ho ↦ (hout o ho).1) h.absent hj
  case state =>
    intro j row' hj
    obtain ⟨-, -, -, -, hst⟩ := hback hj
    exact hst

/-- **One call of a serial run.** -/
theorem exec (h : Submitted l db) {i : ℕ × RepoCall π} {r : SqlResult}
    (hx : serialExec db i = .ok (r, db')) : Submitted (l ++ [(i, .ok r)]) db' := by
  obtain ⟨now, c⟩ := i
  rcases serialExec_cases hx with ⟨a, j, rfl, rfl, hk, rfl⟩ | ⟨a, rfl, rfl, hk, hid, rfl⟩ |
    ⟨hc, rfl⟩ | ⟨hc, w, row, next, out, hrow, hnext, hadds, hout⟩
  · refine h.idle (fun key ↦ by simp) fun now' a' r created heq ↦ ?_
    simp only [Prod.mk.injEq, Submission.call, RepoCall.submitJob.injEq, Except.ok.injEq,
      SqlResult.submitted.injEq] at heq
    obtain ⟨⟨-, -, hkey, -⟩, rfl, -⟩ := heq
    obtain ⟨row, hrow, hrowKey⟩ := Database.exists_of_jobByKey? hk
    exact ⟨j, row, rfl, hrow, hrowKey.trans hkey⟩
  · exact h.create hk hid
  · refine h.idle (fun key ↦ creates_of_not_submission hc key now _) fun now' a r created heq ↦ ?_
    obtain rfl : c = a.call := congrArg (fun x ↦ x.1.2) heq
    contradiction
  · exact h.write hc hrow hnext hadds hout

/-- **Every serial run from an empty database keeps the record.** -/
theorem of_run (h : SerialRun serialExec .empty l db) : Submitted l db := by
  have hnone : ∀ {j : Uuid} {row : JobRow π}, Database.empty.job? j ≠ some row := nofun
  have h₀ : Submitted ([] : List (SerialEntry π)) Database.empty :=
    ⟨fun _ _ _ _ hj _ ↦ absurd hj hnone, fun _ _ _ _ h ↦ absurd h List.not_mem_nil,
      fun _ _ hj ↦ absurd hj hnone, fun _ _ ↦ ⟨rfl, rfl⟩, fun _ _ hj ↦ absurd hj hnone⟩
  refine h.invariant (P := Submitted) (fun pre db i r db' hpre hx ↦ hpre.exec hx) ?_ _ h₀
  exact fun pre db i e hpre _ ↦ hpre.idle (fun key ↦ by simp [creates]) nofun

end Submitted

/-! ### Every interleaving -/

namespace Server

variable {s s' : Server π}

/-- A committed submission, and what it returned. -/
structure Returned (s : Server π) (t : ℕ) (tx : Tx π) (a : Submission π) (r : Option Uuid)
    (created : Bool) : Prop where
  get : s.txs[t]? = some tx
  committed : tx.status = .committed
  call : tx.call = a.call
  result : tx.pc = .finished (.ok (.submitted r created))

/-- What there is of a job: one committed call created it and returned `created = True`, and the
row, the first two events and the message of the submission are that call's. -/
structure CreatedOnce (s : Server π) (j : Uuid) (row : JobRow π) : Prop where
  creator : ∃ t tx a, s.Returned t tx a (some j) true ∧ a.jobId = j ∧
    a.idempotencyKey = row.idempotencyKey ∧ a.payload = row.payload ∧
    ((s.db.outboxRows j).map Prod.snd).filter OutboxRow.isSubmission =
      [⟨j, a.subject, ⟨j, a.payload, some a.carrier⟩, tx.now, none⟩] ∧
    ∀ t' tx' a' r', s.Returned t' tx' a' r' true →
      a'.idempotencyKey = row.idempotencyKey → t' = t
  submitted : (s.db.log j).count .submitted = 1
  enqueued : (s.db.log j).count .enqueued = 1

/-- A row that is there stays, with its key and its payload. -/
theorem kept_of_leads (h : system.Reachable TransitionSystem.anyStep s)
    (hl : system.Leads TransitionSystem.anyStep s s') {j : Uuid} {row : JobRow π}
    (hj : s.db.job? j = some row) : ∃ row', s'.db.job? j = some row' ∧
      row'.idempotencyKey = row.idempotencyKey ∧ row'.payload = row.payload := by
  refine hl.stable (P := fun s' : Server π ↦ ∃ row', s'.db.job? j = some row' ∧
    row'.idempotencyKey = row.idempotencyKey ∧ row'.payload = row.payload)
    (fun s₁ a s₂ hr ⟨row₁, hj₁, hkey, hp⟩ _ (hstep : s₁.step a = some s₂) ↦ ?_) h
    ⟨row, hj, rfl, rfl⟩
  rcases step_cases hstep with ⟨now, c, rfl⟩ | ⟨tid, tx, tx', ev, out, -, -, hto⟩ |
    ⟨tid, tx, r, hx, -, rfl⟩ | ⟨tid, tx, status, -, rfl, -⟩
  · exact ⟨row₁, hj₁, hkey, hp⟩
  · exact ⟨row₁, (job?_of_jobs hto.jobs j).trans hj₁, hkey, hp⟩
  · obtain ⟨row₂, hj₂, hkey₂, hp₂⟩ := (isolated_of_reachable hr).kept_commit hx hj₁
    exact ⟨row₂, hj₂, hkey₂.trans hkey, hp₂.trans hp⟩
  · exact ⟨row₁, hj₁, hkey, hp⟩

/-- **The committed submissions are the entries of the serial order** that returned a job. -/
theorem Linearized.mem_iff_returned {order : List (ℕ × SerialEntry π)} (ho : s.Linearized order)
    {t now : ℕ} {a : Submission π} {r : Option Uuid} {created : Bool} :
    (t, ((now, a.call), .ok (.submitted r created))) ∈ order ↔
      ∃ tx, s.Returned t tx a r created ∧ tx.now = now := by
  constructor
  · intro hmem
    obtain ⟨tx, exit, hget, ⟨hpc, hplace⟩, heq⟩ := ho.outcome _ hmem
    obtain ⟨hinput, rfl⟩ := Prod.mk.inj heq
    obtain ⟨rfl, hcall⟩ := Prod.mk.inj hinput
    have hcom : tx.status = .committed := hplace.resolve_right nofun
    exact ⟨tx, ⟨hget, hcom, hcall.symm, hpc⟩, rfl⟩
  · rintro ⟨tx, h, rfl⟩
    obtain ⟨⟨t₀, e⟩, hx, rfl⟩ := List.mem_map.1 (ho.all t tx _ h.get ⟨h.result, .inl h.committed⟩)
    obtain ⟨tx₀, exit, hget, ⟨hpc, -⟩, rfl⟩ := ho.outcome _ hx
    obtain rfl := Option.some.inj (hget.symm.trans h.get)
    obtain rfl := TxPc.finished.inj (hpc.symm.trans h.result)
    rwa [h.call] at hx

/-- Of each job the serial order has one creator. -/
theorem Linearized.createdOnce {order : List (ℕ × SerialEntry π)} (ho : s.Linearized order)
    {db₀ : Database π} (hsub : Submitted (order.map Prod.snd) db₀) (hag : db₀.Agree s.db) {j : Uuid}
    {row : JobRow π} (hj : s.db.job? j = some row) : s.CreatedOnce j row := by
  obtain ⟨now, a, h⟩ := hsub.created j row ((hag.job? j).trans hj)
  have hlog : s.db.log j = db₀.log j := by
    rw [Database.log_eq, Database.log_eq, hag.eventRows]
  have honce := h.once
  have hmem : ((now, a.call), .ok (.submitted (some j) true)) ∈ order.map Prod.snd := by
    refine List.mem_of_mem_filter (p := creates row.idempotencyKey) ?_
    rw [honce]
    exact List.mem_singleton_self _
  obtain ⟨⟨t, e⟩, hx, rfl⟩ := List.mem_map.1 hmem
  obtain ⟨tx, hret, rfl⟩ := ho.mem_iff_returned.1 hx
  refine ⟨⟨t, tx, a, hret, h.jobId, h.key, h.payload, ?_, ?_⟩, ?_, ?_⟩
  · rw [← hag.outboxRows, h.message, h.jobId]
  · -- Two creators would be two entries of the order, and there is one.
    intro t' tx' a' r' hret' hkey'
    have hx' := ho.mem_iff_returned.2 ⟨tx', hret', rfl⟩
    rw [List.filter_map] at honce
    have hc : ∀ {x : ℕ × SerialEntry π}, x ∈ order → creates row.idempotencyKey x.2 = true →
        x ∈ order.filter (creates row.idempotencyKey ∘ Prod.snd) :=
      fun hx hc ↦ List.mem_filter.2 ⟨hx, hc⟩
    obtain ⟨y, hy⟩ := List.length_eq_one_iff.1
      ((List.length_map (f := Prod.snd)).symm.trans (congrArg List.length honce))
    have h₁ := hc hx (by simp [h.key])
    have h₂ := hc hx' (by simp [hkey'])
    rw [hy, List.mem_singleton] at h₁ h₂
    exact congrArg Prod.fst (h₂.trans h₁.symm)
  · rw [hlog, h.submitted]
  · rw [hlog, h.enqueued]

/-- **Idempotent submission.** However the statements of any number of submissions, state changes
and replays interleave, and whichever of them roll back or die: there is one row per key, and there
never was or will be another one; all submissions of a key that return, return the job of that key;
one of them created it, and no other returns `created = True`; and the job has one `submitted`
event, one `enqueued` event and one message of a submission, with the payload and the subject of the
call that created it. -/
theorem submit_idempotent (h : system.Reachable TransitionSystem.anyStep s) :
    s.db.KeysUnique ∧
    (∀ s' j j' row row', system.Leads TransitionSystem.anyStep s s' → s.db.job? j = some row →
      s'.db.job? j' = some row' → row'.idempotencyKey = row.idempotencyKey → j' = j) ∧
    (∀ t tx a r created, s.Returned t tx a r created → ∃ j row, r = some j ∧
      s.db.job? j = some row ∧ row.idempotencyKey = a.idempotencyKey) ∧
    (∀ t t' tx tx' a a' r r' created created', s.Returned t tx a r created →
      s.Returned t' tx' a' r' created' → a.idempotencyKey = a'.idempotencyKey → r = r') ∧
    ∀ j row, s.db.job? j = some row → s.CreatedOnce j row := by
  obtain ⟨order, ho⟩ := linearized_of_reachable h
  obtain ⟨db₀, hrun, hag⟩ := ho.run
  have hsub := Submitted.of_run hrun
  have hkeys := (isolated_of_reachable h).keys
  have hreturned : ∀ t tx a r created, s.Returned t tx a r created → ∃ j row, r = some j ∧
      s.db.job? j = some row ∧ row.idempotencyKey = a.idempotencyKey := by
    intro t tx a r created hret
    have hmem := ho.mem_iff_returned.2 ⟨tx, hret, rfl⟩
    obtain ⟨j, row, hr, hj, hkey⟩ :=
      hsub.returned tx.now a r created (List.mem_map.2 ⟨_, hmem, rfl⟩)
    exact ⟨j, row, hr, (hag.job? j).symm.trans hj, hkey⟩
  refine ⟨hkeys, ?_, hreturned, ?_, fun j row hj ↦ ho.createdOnce hsub hag hj⟩
  · intro s' j j' row row' hl hj hj' hkey
    obtain ⟨row₁, hj₁, hkey₁, -⟩ := kept_of_leads h hl hj
    exact (isolated_of_reachable (h.leads hl)).keys j' j row' row₁ hj' hj₁ (hkey.trans hkey₁.symm)
  · intro t t' tx tx' a a' r r' created created' hret hret' hkey
    obtain ⟨j, row, rfl, hj, hk⟩ := hreturned t tx a r created hret
    obtain ⟨j', row', rfl, hj', hk'⟩ := hreturned t' tx' a' r' created' hret'
    rw [hkeys j j' row row' hj hj' (hk.trans (hkey.trans hk'.symm))]

/-- The first of two overlapping submissions dies before its commit, and the second creates the
job. -/
def firstSubmissionDies : List (ServerStep Unit) :=
  [.begin 0 (.submitJob ⟨0⟩ "k" () "orbiter.jobs" []),
    .begin 1 (.submitJob ⟨1⟩ "k" () "orbiter.jobs" []), .begin 2 (.submitJob ⟨2⟩ "k" () "other" []),
    .run 0, .run 0, .die 0, .run 1, .run 1, .run 1, .run 1, .finish 1, .run 2, .run 2, .finish 2]

/-- The first submission dies before its second event, the second one creates the job, the third
finds it. -/
theorem submit_idempotent_firstSubmissionDies : ∃ s : Server Unit,
    system.Reachable TransitionSystem.anyStep s ∧
    s.txs.map (fun tx ↦ (tx.pc, tx.status)) =
      [(.insertEnqueued ⟨⟨0⟩, "k", (), "orbiter.jobs", []⟩, .dead),
        (.finished (.ok (.submitted (some ⟨1⟩) true)), .committed),
        (.finished (.ok (.submitted (some ⟨1⟩) false)), .committed)] ∧
    ∃ row, s.db.job? ⟨1⟩ = some row ∧ s.CreatedOnce ⟨1⟩ row := by
  have hrun : ∃ s : Server Unit, system.exec empty firstSubmissionDies = some s ∧
      s.txs.map (fun tx ↦ (tx.pc, tx.status)) =
        [(.insertEnqueued ⟨⟨0⟩, "k", (), "orbiter.jobs", []⟩, .dead),
          (.finished (.ok (.submitted (some ⟨1⟩) true)), .committed),
          (.finished (.ok (.submitted (some ⟨1⟩) false)), .committed)] ∧
      ∃ row, s.db.job? ⟨1⟩ = some row :=
    ⟨_, rfl, rfl, _, rfl⟩
  obtain ⟨s, hexec, htxs, row, hrow⟩ := hrun
  have hr : system.Reachable TransitionSystem.anyStep s :=
    ⟨_, rfl, TransitionSystem.leads_of_exec hexec⟩
  exact ⟨s, hr, htxs, row, hrow, (submit_idempotent hr).2.2.2.2 ⟨1⟩ row hrow⟩

end Server

end Orbiter
