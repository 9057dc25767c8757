import Mathlib.Order.Lattice.Nat
import Orbiter.Fleet.Settled

/-!
# The outbox

A transaction inserts at most one outbox row, for a job that then exists and with that job's payload
in it. Rows are never deleted, and a relay changes nothing in them but their mark. The rows of a job
therefore tell how often it was put up for execution.

* `outbox_cases` — what a step does to the table: nothing, one new row at the end, or marks.
  `mem_outbox_step` and `mem_outbox_cases` read it in both directions;
* `Outboxed` — the invariant: every job has a row, and a row is of a job that exists and carries its
  payload;
* `Obsolete` — a row is obsolete when its job is settled or has a newer row. **An obsolete row stays
  obsolete** (`Obsolete.step`), because the one event that revives a settled job comes with a new
  row.

The last is what lets the delivery of an old message be ignored: there is nothing it could still be
needed for. Ids are drawn when a transaction commits here, and of one job they are in this order on
the server as well, since its transactions hold the job's row from before the insertion.
-/

namespace Orbiter

open Worker

namespace World

/-- **One transaction, at most one outbox row**, for a job that then exists. -/
theorem outbox_transact (s : World) (who : Writer) (c : RepoCall SubmitRequest) :
    (s.transact who c).db.outbox = s.db.outbox ∨
    ∃ (j : Uuid) (subject : String) (m : Message SubmitRequest) (row : JobRow SubmitRequest),
      m.jobId = j ∧ (s.db.job? j = none ∨ c = .replayJob j subject) ∧
      (s.transact who c).db.job? j = some row ∧ row.payload = m.payload ∧
      (s.transact who c).db.outbox = s.db.outbox.insert ⟨j, subject, m, s.now, none⟩ := by
  rw [transact]
  cases hx : c.exec s.db s.now with
  | error e => exact .inl rfl
  | ok p =>
    obtain ⟨r, db'⟩ := p
    rcases Ledger.exec_cases (s := s.ledger) hx with ⟨rfl, -⟩ |
      ⟨jobId, key, payload, subject, carrier, -, habs, rfl, -⟩ |
      ⟨w, row, next, -, -, -, -, ⟨-, rfl⟩ | ⟨subject, hc, -, rfl⟩⟩
    · exact .inl rfl
    · exact .inr ⟨jobId, subject, ⟨jobId, payload, some carrier⟩, _, rfl, .inl habs,
        Database.job?_create_self .., rfl, rfl⟩
    · exact .inl rfl
    · exact .inr ⟨w.jobId, subject, ⟨w.jobId, row.payload, none⟩, _, rfl, .inr hc,
        Database.job?_accept_self .., rfl, rfl⟩

/-- A transaction that revives a settled job inserts a row for it. -/
theorem outbox_of_revived {s : World} {who : Writer} {c : RepoCall SubmitRequest}
    (hc : ∀ w, c = .recordEvent w → w.event ≠ .replayed) {j : Uuid} {row : JobRow SubmitRequest}
    (hj : s.db.job? j = some row) (hs : row.state.isSettled = true) :
    (∃ row', (s.transact who c).db.job? j = some row' ∧ row'.state.isSettled = true) ∨
    ∃ r, (s.db.outbox.last + 1, r) ∈ (s.transact who c).db.outbox.rows ∧ r.jobId = j := by
  rw [transact]
  cases hx : c.exec s.db s.now with
  | error e => exact .inl ⟨row, hj, hs⟩
  | ok p =>
    obtain ⟨r, db'⟩ := p
    rcases Ledger.exec_cases (s := s.ledger) hx with ⟨rfl, -⟩ |
      ⟨jobId, key, payload, subject, carrier, -, habs, rfl, -⟩ |
      ⟨w, row', next, hrow, hnext, -, -, ⟨rfl, rfl⟩ | ⟨subject, -, -, rfl⟩⟩
    · exact .inl ⟨row, hj, hs⟩
    · by_cases hne : j = jobId
      · rw [hne] at hj
        exact absurd (habs.symm.trans hj) (by simp)
      · exact .inl ⟨row, (Database.job?_create_ne _ _ _ _ _ _ hne).trans hj, hs⟩
    · by_cases hne : j = w.jobId
      · rw [hne] at hj
        obtain rfl := Option.some.inj (hj.symm.trans hrow)
        exact absurd (deadLetter_of_settled_transitions hs hnext).2 (hc w rfl)
      · exact .inl ⟨row, (Database.job?_accept_ne _ _ _ _ hne).trans hj, hs⟩
    · by_cases hne : j = w.jobId
      · subst hne
        exact .inr ⟨_, List.mem_append_right _ (List.mem_singleton_self _), rfl⟩
      · exact .inl ⟨row, (Database.job?_accept_ne _ _ _ _ hne).trans hj, hs⟩

/-- A transaction that creates a job inserts a row for it. -/
theorem outbox_of_created {s : World} {who : Writer} {c : RepoCall SubmitRequest} {j : Uuid}
    {row : JobRow SubmitRequest} (habs : s.db.job? j = none)
    (hj : (s.transact who c).db.job? j = some row) :
    ∃ r, (s.db.outbox.last + 1, r) ∈ (s.transact who c).db.outbox.rows ∧ r.jobId = j := by
  rw [transact] at hj ⊢
  cases hx : c.exec s.db s.now with
  | error e =>
    rw [hx, habs] at hj
    exact absurd hj (by simp)
  | ok p =>
    obtain ⟨r, db'⟩ := p
    rw [hx] at hj
    dsimp only at hj
    rcases Ledger.exec_cases (s := s.ledger) hx with ⟨rfl, -⟩ |
      ⟨jobId, key, payload, subject, carrier, -, -, rfl, -⟩ |
      ⟨w, row', next, hrow, -, -, -, hdb⟩
    · exact absurd (habs.symm.trans hj) (by simp)
    · by_cases hne : j = jobId
      · subst hne
        exact ⟨_, List.mem_append_right _ (List.mem_singleton_self _), rfl⟩
      · rw [Database.job?_create_ne _ _ _ _ _ _ hne] at hj
        exact absurd (habs.symm.trans hj) (by simp)
    · have hold : db'.job? = (s.db.accept s.now w row' next).job? := by
        rcases hdb with ⟨-, rfl⟩ | ⟨subject, -, -, rfl⟩ <;> rfl
      by_cases hne : j = w.jobId
      · rw [hne] at habs
        exact absurd (habs.symm.trans hrow) (by simp)
      · rw [hold, Database.job?_accept_ne _ _ _ _ hne] at hj
        exact absurd (habs.symm.trans hj) (by simp)

end World

namespace Fleet

variable {cfg : Settings} {G : Fleet → FleetStep → Prop} {f f' : Fleet} {a : FleetStep}

/-- A job once submitted stays, with its payload. -/
theorem payload_step (h : f.step cfg a = some f') {j : Uuid} {row : JobRow SubmitRequest}
    (hj : f.world.db.job? j = some row) :
    ∃ row', f'.world.db.job? j = some row' ∧ row'.payload = row.payload := by
  rcases jobStep h j with ⟨hjob, -, -⟩ | ⟨who, key, payload, id, id', habs, -, -, -⟩ |
    ⟨who, w, row₀, next, id, -, -, hrow, -, -, hjob, -, -⟩
  · exact ⟨row, hjob.trans hj, rfl⟩
  · rw [habs] at hj
    exact absurd hj (by simp)
  · obtain rfl := Option.some.inj (hrow.symm.trans hj)
    exact ⟨_, hjob, rfl⟩

/-- A step that is one transaction. -/
theorem outbox_of_transact (f : Fleet) (who : Writer) (c : RepoCall SubmitRequest)
    (hc : ∀ j subject, c = .replayJob j subject → a = .replay j) :
    (f.world.transact who c).db.outbox = f.world.db.outbox ∨
    ∃ (j : Uuid) (subject : String) (m : Message SubmitRequest) (row : JobRow SubmitRequest),
      m.jobId = j ∧ (f.world.db.job? j = none ∨ a = .replay j) ∧
      (f.world.transact who c).db.job? j = some row ∧ row.payload = m.payload ∧
      (f.world.transact who c).db.outbox =
        f.world.db.outbox.insert ⟨j, subject, m, f.world.now, none⟩ := by
  rcases World.outbox_transact f.world who c with hsame | ⟨j, subject, m, row, hm, hnew, hrest⟩
  · exact .inl hsame
  · exact .inr ⟨j, subject, m, row, hm, hnew.imp_right (hc j subject), hrest⟩

/-- **What a step does to the outbox**: nothing, a mark, or one new row. -/
theorem outbox_cases (h : f.step cfg a = some f') :
    f'.world.db.outbox = f.world.db.outbox ∨
    (∃ ids, a = .publish ids ∧ f'.world = f.world.markPublished ids) ∨
    ∃ (j : Uuid) (subject : String) (m : Message SubmitRequest) (row : JobRow SubmitRequest),
      m.jobId = j ∧ (f.world.db.job? j = none ∨ a = .replay j) ∧
      f'.world.db.job? j = some row ∧ row.payload = m.payload ∧
      f'.world.db.outbox = f.world.db.outbox.insert ⟨j, subject, m, f.world.now, none⟩ := by
  cases a with
  | submit jobId key payload carrier =>
    obtain rfl := Option.some.inj h
    exact (outbox_of_transact f .submitter (.submitJob jobId key payload cfg.subjectJobs carrier)
      fun _ _ hc ↦ absurd hc (by simp)).imp_right .inr
  | replay jobId =>
    obtain rfl := Option.some.inj h
    refine (outbox_of_transact f .operator (.replayJob jobId cfg.subjectJobs) ?_).imp_right .inr
    intro j subject hc
    rw [(RepoCall.replayJob.inj hc).1]
  | deadLetter jobId streamSeq deliveries =>
    obtain rfl := Option.some.inj h
    exact (outbox_of_transact f .listener
      (.recordEvent (deadLetterWrite jobId streamSeq deliveries))
      fun _ _ hc ↦ absurd hc (by simp)).imp_right .inr
  | handle pid ans =>
    obtain ⟨hc, c, pc, -, -, -, rfl⟩ := stepHandle_eq_some h
    dsimp only
    rw [World.serve]
    split
    · cases c with
      | recordEvent w =>
        exact (outbox_of_transact f (.handle pid) (.recordEvent w)
          fun _ _ hc ↦ absurd hc (by simp)).imp_right .inr
      | kv | execute | ack | nak | term => exact .inl rfl
    · exact .inl rfl
  | publish ids =>
    obtain rfl := Option.some.inj h
    exact .inr (.inl ⟨ids, rfl, rfl⟩)
  | start | die | tick | vanish =>
    obtain rfl := Option.some.inj h
    exact .inl rfl

/-- Rows are never deleted, nor changed but for their mark, which stays. -/
theorem mem_outbox_step (h : f.step cfg a = some f') {id : ℕ} {r : OutboxRow SubmitRequest}
    (hr : (id, r) ∈ f.world.db.outbox.rows) :
    ∃ r', (id, r') ∈ f'.world.db.outbox.rows ∧ r'.jobId = r.jobId ∧ r'.subject = r.subject ∧
      r'.payload = r.payload ∧ (r.publishedAt ≠ none → r'.publishedAt ≠ none) := by
  rcases outbox_cases h with hsame | ⟨ids, -, hw⟩ | ⟨j, subject, m, row, -, -, -, -, hnew⟩
  · exact ⟨r, hsame ▸ hr, rfl, rfl, rfl, fun hpub ↦ hpub⟩
  · rw [hw]
    refine ⟨_, List.mem_map.2 ⟨(id, r), hr, rfl⟩, ?_⟩
    dsimp only
    split
    · exact ⟨rfl, rfl, rfl, fun _ ↦ Option.some_ne_none _⟩
    · exact ⟨rfl, rfl, rfl, fun hpub ↦ hpub⟩
  · exact ⟨r, by rw [hnew]; exact List.mem_append_left _ hr, rfl, rfl, rfl, fun hpub ↦ hpub⟩

/-- A relay marks the rows it names. -/
theorem mem_outbox_publish {ids : List ℕ} (h : f.step cfg (.publish ids) = some f') {id : ℕ}
    {r : OutboxRow SubmitRequest} (hr : (id, r) ∈ f.world.db.outbox.rows) (hid : id ∈ ids) :
    ∃ r', (id, r') ∈ f'.world.db.outbox.rows ∧ r'.publishedAt ≠ none := by
  obtain rfl := Option.some.inj h
  refine ⟨_, List.mem_map.2 ⟨(id, r), hr, rfl⟩, ?_⟩
  dsimp only
  rw [if_pos hid]
  exact Option.some_ne_none _

/-- A row was there before, or is new and unpublished; and it is marked by a relay only. -/
theorem mem_outbox_cases (h : f.step cfg a = some f') {id : ℕ} {r' : OutboxRow SubmitRequest}
    (hr' : (id, r') ∈ f'.world.db.outbox.rows) :
    (∃ r, (id, r) ∈ f.world.db.outbox.rows ∧ r'.jobId = r.jobId ∧ r'.subject = r.subject ∧
      r'.payload = r.payload ∧
      (r'.publishedAt = r.publishedAt ∨ ∃ ids, a = .publish ids ∧ id ∈ ids)) ∨
    (id = f.world.db.outbox.last + 1 ∧ r'.publishedAt = none ∧ r'.payload.jobId = r'.jobId ∧
      (f.world.db.job? r'.jobId = none ∨ a = .replay r'.jobId) ∧
      ∃ row, f'.world.db.job? r'.jobId = some row ∧ row.payload = r'.payload.payload) := by
  rcases outbox_cases h with hsame | ⟨ids, ha, hw⟩ | ⟨j, subject, m, row, hm, ho, hjob, hp, hnew⟩
  · exact .inl ⟨r', hsame ▸ hr', rfl, rfl, rfl, .inl rfl⟩
  · rw [hw] at hr'
    obtain ⟨⟨id₀, r⟩, hr, heq⟩ := List.mem_map.1 hr'
    obtain ⟨rfl, rfl⟩ := Prod.mk.inj heq
    refine .inl ⟨r, hr, ?_⟩
    dsimp only
    split
    · next hmem => exact ⟨rfl, rfl, rfl, .inr ⟨ids, ha, hmem⟩⟩
    · exact ⟨rfl, rfl, rfl, .inl rfl⟩
  · rw [hnew] at hr'
    rcases List.mem_append.1 hr' with hold | hlast
    · exact .inl ⟨r', hold, rfl, rfl, rfl, .inl rfl⟩
    · obtain ⟨rfl, rfl⟩ := Prod.mk.inj (List.mem_singleton.1 hlast)
      exact .inr ⟨rfl, rfl, hm, ho, row, hjob, hp⟩

/-! ### The rows of a job -/

/-- The outbox rows and the jobs belong together. -/
structure Outboxed (f : Fleet) : Prop where
  /-- A row is about an existing job and carries its payload. -/
  job : ∀ (id : ℕ) (r : OutboxRow SubmitRequest), (id, r) ∈ f.world.db.outbox.rows →
    r.payload.jobId = r.jobId ∧
    ∃ row, f.world.db.job? r.jobId = some row ∧ row.payload = r.payload.payload
  /-- A job has a row. -/
  row : ∀ (j : Uuid) (row : JobRow SubmitRequest), f.world.db.job? j = some row →
    ∃ id r, (id, r) ∈ f.world.db.outbox.rows ∧ r.jobId = j

/-- A new job comes with a row. -/
theorem outbox_of_created (h : f.step cfg a = some f') {j : Uuid}
    (habs : f.world.db.job? j = none) {row : JobRow SubmitRequest}
    (hj : f'.world.db.job? j = some row) :
    ∃ id r, (id, r) ∈ f'.world.db.outbox.rows ∧ r.jobId = j := by
  have hsame : f'.world.db.job? j ≠ f.world.db.job? j := by rw [hj, habs]; simp
  cases a with
  | submit | replay | deadLetter =>
    obtain rfl := Option.some.inj h
    exact ⟨_, World.outbox_of_created habs hj⟩
  | handle pid ans =>
    obtain ⟨hc, c, pc, -, -, -, rfl⟩ := stepHandle_eq_some h
    dsimp only at hj hsame ⊢
    rw [World.serve] at hj hsame ⊢
    split at hj
    · next heff =>
      rw [if_pos heff] at hsame ⊢
      cases c with
      | recordEvent w => exact ⟨_, World.outbox_of_created habs hj⟩
      | kv | execute | ack | nak | term => exact absurd rfl hsame
    · next heff =>
      rw [if_neg heff] at hsame
      exact absurd rfl hsame
  | publish | start | die | tick | vanish =>
    obtain rfl := Option.some.inj h
    exact absurd rfl hsame

/-- **Every step keeps each job in the outbox.** -/
theorem Outboxed.step (hf : f.Outboxed) (h : f.step cfg a = some f') : f'.Outboxed where
  job id r' hr' := by
    rcases mem_outbox_cases h hr' with ⟨r, hr, hj, -, hp, -⟩ | ⟨-, -, hm, -, hrow⟩
    · obtain ⟨hm, row, hrow, hpay⟩ := hf.job id r hr
      obtain ⟨row', hrow', hpay'⟩ := payload_step h hrow
      rw [hj, hp]
      exact ⟨hm, row', hrow', hpay'.trans hpay⟩
    · exact ⟨hm, hrow⟩
  row j row' hj' := by
    cases hj : f.world.db.job? j with
    | none => exact outbox_of_created h hj hj'
    | some row =>
      obtain ⟨id, r, hr, hjob⟩ := hf.row j row hj
      obtain ⟨r', hr', hjob', -⟩ := mem_outbox_step h hr
      exact ⟨id, r', hr', hjob'.trans hjob⟩

/-- Every job is in the outbox, in every reachable state. -/
theorem outboxed_of_reachable (h : (system cfg).Reachable G f) : f.Outboxed := by
  refine h.induct (I := Outboxed) (fun f hf ↦ ?_) fun f a f' _ ih _ hs ↦ ih.step hs
  rw [hf]
  exact ⟨fun id r hr ↦ absurd hr (by simp [World.empty, Database.empty]),
    fun j row hj ↦ absurd hj (by simp [World.empty])⟩

/-- The newest row of a job. -/
theorem Outboxed.exists_newest (hf : f.Outboxed) {j : Uuid} {row : JobRow SubmitRequest}
    (hj : f.world.db.job? j = some row) :
    ∃ id r, (id, r) ∈ f.world.db.outbox.rows ∧ r.jobId = j ∧
      ∀ id' r', (id', r') ∈ f.world.db.outbox.rows → r'.jobId = j → id' ≤ id := by
  let ids : Set ℕ := {id | ∃ r, (id, r) ∈ f.world.db.outbox.rows ∧ r.jobId = j}
  have hne : ids.Nonempty := by
    obtain ⟨id, r, hr, hjob⟩ := hf.row j row hj
    exact ⟨id, r, hr, hjob⟩
  have hbdd : BddAbove ids := by
    refine ⟨f.world.db.outbox.last, ?_⟩
    rintro id ⟨r, hr, -⟩
    exact f.world.db.outbox.le_last _ hr
  obtain ⟨r, hr, hjob⟩ := Nat.sSup_mem hne hbdd
  exact ⟨sSup ids, r, hr, hjob, fun id' r' hr' hjob' ↦ le_csSup hbdd ⟨r', hr', hjob'⟩⟩

/-- The job of a row is settled, or the row is not its newest. -/
def Obsolete (f : Fleet) (j : Uuid) (id : ℕ) : Prop :=
  (∃ row, f.world.db.job? j = some row ∧ row.state.isSettled = true) ∨
    ∃ id' r, (id', r) ∈ f.world.db.outbox.rows ∧ r.jobId = j ∧ id < id'

/-- **Settled until a new row.** -/
theorem settled_step (h : f.step cfg a = some f') {j : Uuid} {row : JobRow SubmitRequest}
    (hj : f.world.db.job? j = some row) (hs : row.state.isSettled = true) :
    (∃ row', f'.world.db.job? j = some row' ∧ row'.state.isSettled = true) ∨
    ∃ r, (f.world.db.outbox.last + 1, r) ∈ f'.world.db.outbox.rows ∧ r.jobId = j := by
  cases a with
  | submit | replay =>
    obtain rfl := Option.some.inj h
    exact World.outbox_of_revived (by simp) hj hs
  | deadLetter jobId streamSeq deliveries =>
    obtain rfl := Option.some.inj h
    refine World.outbox_of_revived (fun w hw ↦ ?_) hj hs
    obtain rfl := RepoCall.recordEvent.inj hw
    exact (by decide : EventType.deadLettered ≠ .replayed)
  | handle pid ans =>
    obtain ⟨hc, c, pc, -, hcall, -, rfl⟩ := stepHandle_eq_some h
    dsimp only
    rw [World.serve]
    split
    · cases c with
      | recordEvent w =>
        refine World.outbox_of_revived (fun w' hw ↦ ?_) hj hs
        obtain rfl := RepoCall.recordEvent.inj hw
        obtain ⟨-, l, ⟨-, rfl⟩ | ⟨result, -, rfl⟩ | ⟨message, -, rfl⟩ | ⟨message, -, rfl⟩⟩ :=
          HandleCall.recordEvent_of_call? hcall <;>
          simp [startedWrite, completedWrite, requeuedWrite, failedWrite]
      | kv | execute | ack | nak | term => exact .inl ⟨row, hj, hs⟩
    · exact .inl ⟨row, hj, hs⟩
  | publish | start | die | tick | vanish =>
    obtain rfl := Option.some.inj h
    exact .inl ⟨row, hj, hs⟩

/-- **Once obsolete, always obsolete.** -/
theorem Obsolete.step {j : Uuid} {id : ℕ} (ho : f.Obsolete j id)
    (hle : id ≤ f.world.db.outbox.last) (h : f.step cfg a = some f') : f'.Obsolete j id := by
  rcases ho with ⟨row, hj, hs⟩ | ⟨id', r, hr, hjob, hlt⟩
  · rcases settled_step h hj hs with hset | ⟨r, hr, hjob⟩
    · exact .inl hset
    · exact .inr ⟨_, r, hr, hjob, Nat.lt_succ_of_le hle⟩
  · obtain ⟨r', hr', hjob', -⟩ := mem_outbox_step h hr
    exact .inr ⟨id', r', hr', hjob'.trans hjob, hlt⟩

end Fleet

end Orbiter
