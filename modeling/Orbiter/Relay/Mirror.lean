import Orbiter.Db.Postings
import Orbiter.Foundation.Records
import Orbiter.Worker.Handle

/-!
# The outbox mirrors the log

Each posting of a job comes with one outbox row; nothing else inserts one and nothing deletes one. A
relay marks only rows that it holds locked, and a locked row is unpublished, so a mark is made once.

## Granularity

A step here is a transaction: a call of the repository that commits, is refused or rolled back, or
one of the two ends of a relay's transaction, which locks a batch of unpublished rows and later
commits its mark or rolls back. They come in any order, with any arguments, and the payload is any
JSON value. Serial ids are drawn when a call commits, so the rows of the outbox appear in the order
of their ids. On the server they need not: ids are drawn at the insertion, and a transaction with a
smaller id may commit later. Nothing here speaks about the order of the rows of different jobs; what
is said of each job, its rows, its log and its payload, is said in numbers of its own. The
statements one by one are the subject of `Relay.Transactions`, whose relays run beside `Server`, and
`Server.serializable` is the theorem that reduces the calls of the repository to serial ones.

## Main results

* `Mirrored` — the invariant: as many rows as postings, the payload of the job in each of them, and
  locked rows unpublished and locked once. One lemma for each clause;
* `kept_of_leads` — a row stays as it is but for its mark, which is made once;
* `outbox_mirrors_log` — **both together**: in every reachable state the outbox of a job has one row
  for each of its `enqueued` and `replayed` events, and from then on keeps them.
-/

namespace Orbiter

/-- The database, and the ids each relay transaction holds locked, `none` once it is over. -/
structure RelayedDatabase where
  db : Database Json
  batches : List (Option (List ℕ))

inductive RelayedStep
  /-- A call of the repository, at some time; `committed` tells whether it came to its commit. -/
  | call (now : ℕ) (c : RepoCall Json) (committed : Bool)
  /-- A relay begins: it selects and locks. -/
  | select (limit : ℕ)
  /-- Relay number `rid` marks its batch and commits. -/
  | commit (rid now : ℕ)
  | rollback (rid : ℕ)

namespace RelayedDatabase

/-- The ids some relay holds locked. -/
def lockedIds (s : RelayedDatabase) : List ℕ := s.batches.flatMap fun batch ↦ batch.getD []

/-- `WHERE published_at IS NULL ORDER BY id LIMIT $1 FOR UPDATE SKIP LOCKED`. -/
def selectUnpublished (s : RelayedDatabase) (limit : ℕ) : List ℕ :=
  ((s.db.outbox.rows.filter fun r ↦
    r.2.publishedAt.isNone && !s.lockedIds.contains r.1).take limit).map Prod.fst

/-- `UPDATE outbox SET published_at = now() WHERE id = ANY($1)`. -/
def mark (db : Database Json) (now : ℕ) (ids : List ℕ) : Database Json :=
  { db with outbox := db.outbox.modify fun id r ↦
      if id ∈ ids then { r with publishedAt := some now } else r }

/-- One transaction of the repository; one that raises changes nothing. -/
def transact (s : RelayedDatabase) (now : ℕ) (c : RepoCall Json) : RelayedDatabase :=
  match c.exec s.db now with
  | .error _ => s
  | .ok (_, db) => { s with db := db }

/-- The step function. -/
def step (s : RelayedDatabase) : RelayedStep → Option RelayedDatabase
  | .call now c committed =>
    if c.isMade then some (if committed then s.transact now c else s) else none
  | .select limit => some { s with batches := s.batches ++ [some (s.selectUnpublished limit)] }
  | .commit rid now =>
    match s.batches[rid]? with
    | some (some ids) => some ⟨mark s.db now ids, s.batches.set rid none⟩
    | _ => none
  | .rollback rid => some { s with batches := s.batches.set rid none }

/-- All runs from the schema just applied. -/
def system : TransitionSystem RelayedDatabase RelayedStep where
  init s := s = ⟨.empty, []⟩
  step := step

/-- What a step does to the database: nothing, a transaction of the repository, or a mark. -/
theorem step_cases {s s' : RelayedDatabase} {a : RelayedStep} (h : s.step a = some s') :
    s'.db = s.db ∨
    (∃ (now : ℕ) (c : RepoCall Json) (r : RepoResult), c.isMade = true ∧
      c.exec s.db now = .ok (r, s'.db) ∧ s'.batches = s.batches) ∨
    ∃ rid now ids, s.batches[rid]? = some (some ids) ∧ s'.db = mark s.db now ids ∧
      s'.batches = s.batches.set rid none := by
  cases a with
  | call now c committed =>
    rw [step] at h
    split at h
    · next hmade =>
      obtain rfl := Option.some.inj h
      split
      · rw [transact]
        cases hx : c.exec s.db now with
        | error e => exact .inl rfl
        | ok p => exact .inr (.inl ⟨now, c, p.1, hmade, hx, rfl⟩)
      · exact .inl rfl
    · exact absurd h (by simp)
  | select limit | rollback rid =>
    obtain rfl := Option.some.inj h
    exact .inl rfl
  | commit rid now =>
    rw [step] at h
    split at h
    · next ids hget =>
      obtain rfl := Option.some.inj h
      exact .inr (.inr ⟨rid, now, ids, hget, rfl, rfl⟩)
    · exact absurd h (by simp)

end RelayedDatabase

/-! ### Rows and marks -/

/-- The same row, or the row with the mark it did not have. -/
def OutboxRow.Kept (r r' : OutboxRow Json) : Prop :=
  r' = r ∨ (r.publishedAt = none ∧ ∃ t, r' = { r with publishedAt := some t })

theorem OutboxRow.Kept.trans {r r' r'' : OutboxRow Json} (h : r.Kept r') (h' : r'.Kept r'') :
    r.Kept r'' := by
  rcases h with rfl | ⟨hnone, t, rfl⟩
  · exact h'
  · rcases h' with rfl | ⟨hnone', -⟩
    · exact .inr ⟨hnone, t, rfl⟩
    · exact absurd hnone' (by simp)

namespace RelayedDatabase

variable {s s' : RelayedDatabase} {a : RelayedStep}

/-- The outbox, the log and the locks belong together. -/
structure Mirrored (s : RelayedDatabase) : Prop where
  count : ∀ j, (s.db.outboxRows j).length = postings (s.db.log j)
  row : ∀ {id : ℕ} {r : OutboxRow Json}, (id, r) ∈ s.db.outbox.rows → r.payload.jobId = r.jobId ∧
    ∃ row, s.db.job? r.jobId = some row ∧ row.payload = r.payload.payload
  /-- A locked row is unpublished. -/
  locked : ∀ {rid : ℕ} {ids : List ℕ}, s.batches[rid]? = some (some ids) → ∀ {id : ℕ}
    {r : OutboxRow Json}, id ∈ ids → (id, r) ∈ s.db.outbox.rows → r.publishedAt = none
  /-- No row is locked twice. -/
  apart : ∀ {rid rid' : ℕ} {ids ids' : List ℕ}, s.batches[rid]? = some (some ids) →
    s.batches[rid']? = some (some ids') → rid ≠ rid' → ∀ id ∈ ids, id ∉ ids'

theorem outboxRows_mark (db : Database Json) (now : ℕ) (ids : List ℕ) (j : Uuid) :
    ((mark db now ids).outboxRows j).length = (db.outboxRows j).length := by
  dsimp only [mark, Database.outboxRows]
  refine SerialTable.length_select_modify _ fun id r ↦ ?_
  split <;> rfl

/-- A row after a mark is an old one, marked if it is in the batch. -/
theorem mem_mark {db : Database Json} {now : ℕ} {ids : List ℕ} {id : ℕ} {r' : OutboxRow Json}
    (h : (id, r') ∈ (mark db now ids).outbox.rows) :
    ∃ r, (id, r) ∈ db.outbox.rows ∧
      r' = if id ∈ ids then { r with publishedAt := some now } else r := by
  obtain ⟨⟨id', r⟩, hr, heq⟩ := List.mem_map.1 h
  obtain ⟨rfl, rfl⟩ := Prod.mk.inj heq
  exact ⟨r, hr, rfl⟩

/-- A batch was locked before, by a relay that is not the one to commit, or is locked just now. -/
theorem batches_cases (h : s.step a = some s') {rid : ℕ} {ids : List ℕ}
    (hget : s'.batches[rid]? = some (some ids)) :
    (s.batches[rid]? = some (some ids) ∧ ∀ now, a ≠ .commit rid now) ∨
    ∃ limit, a = .select limit ∧ rid = s.batches.length ∧ ids = s.selectUnpublished limit := by
  cases a with
  | call now c committed =>
    rw [step] at h
    split at h
    · obtain rfl := Option.some.inj h
      have hsame : (if committed then s.transact now c else s).batches = s.batches := by
        split
        · rw [transact]
          split <;> rfl
        · rfl
      exact .inl ⟨hsame ▸ hget, by simp⟩
    · exact absurd h (by simp)
  | select limit =>
    obtain rfl := Option.some.inj h
    rcases List.getElem?_concat_eq_some hget with hold | ⟨-, hrid, hids⟩
    · exact .inl ⟨hold, by simp⟩
    · exact .inr ⟨limit, rfl, hrid, Option.some.inj hids⟩
  | rollback rid' =>
    obtain rfl := Option.some.inj h
    rcases List.getElem?_set_eq_some hget with ⟨-, hids⟩ | ⟨-, hold⟩
    · exact absurd hids (by simp)
    · exact .inl ⟨hold, by simp⟩
  | commit rid' now =>
    rw [step] at h
    split at h
    · obtain rfl := Option.some.inj h
      rcases List.getElem?_set_eq_some hget with ⟨-, hids⟩ | ⟨hne, hold⟩
      · exact absurd hids (by simp)
      · exact .inl ⟨hold, by simpa using hne⟩
    · exact absurd h (by simp)

/-- A row is locked when it is in the batch of a relay that has not ended. -/
theorem mem_lockedIds {id : ℕ} : id ∈ s.lockedIds ↔
    ∃ (rid : ℕ) (ids : List ℕ), s.batches[rid]? = some (some ids) ∧ id ∈ ids := by
  rw [lockedIds, List.mem_flatMap]
  constructor
  · rintro ⟨_ | ids, hmem, hid⟩
    · exact absurd hid (by simp)
    · obtain ⟨rid, hget⟩ := List.mem_iff_getElem?.1 hmem
      exact ⟨rid, ids, hget, hid⟩
  · rintro ⟨rid, ids, hget, hid⟩
    exact ⟨some ids, List.mem_of_getElem? hget, hid⟩

/-- What is selected is unpublished, on record, and locked by nobody. -/
theorem mem_selectUnpublished {limit id : ℕ} (h : id ∈ s.selectUnpublished limit) :
    ∃ r, (id, r) ∈ s.db.outbox.rows ∧ r.publishedAt = none ∧ id ∉ s.lockedIds := by
  obtain ⟨⟨id', r⟩, hr, rfl⟩ := List.mem_map.1 h
  obtain ⟨hr, hsel⟩ := List.mem_filter.1 (List.mem_of_mem_take hr)
  simp only [Bool.and_eq_true, Option.isNone_iff_eq_none, Bool.not_eq_true',
    List.contains_eq_mem, decide_eq_false_iff_not] at hsel
  exact ⟨r, hr, hsel.1, hsel.2⟩

namespace Mirrored

theorem count_step (hs : s.Mirrored) (h : s.step a = some s') (j : Uuid) :
    (s'.db.outboxRows j).length = postings (s'.db.log j) := by
  rcases step_cases h with hsame | ⟨now, c, r, hmade, hx, -⟩ | ⟨rid, now, ids, -, hdb, -⟩
  · rw [hsame]
    exact hs.count j
  · exact Database.Posted.exec hs.count hmade hx j
  · rw [hdb, outboxRows_mark]
    exact hs.count j

/-- Every step keeps the payload of its job in each row. -/
theorem row_step (hs : s.Mirrored) (h : s.step a = some s') {id : ℕ} {r : OutboxRow Json}
    (hr : (id, r) ∈ s'.db.outbox.rows) : r.payload.jobId = r.jobId ∧
      ∃ row, s'.db.job? r.jobId = some row ∧ row.payload = r.payload.payload := by
  rcases step_cases h with hsame | ⟨now, c, res, hmade, hx, -⟩ | ⟨rid, now, ids, -, hdb, -⟩
  · rw [hsame] at hr ⊢
    exact hs.row hr
  · have hold : (id, r) ∈ s.db.outbox.rows → r.payload.jobId = r.jobId ∧
        ∃ row, s'.db.job? r.jobId = some row ∧ row.payload = r.payload.payload := by
      intro hr
      obtain ⟨hid, row, hrow, hp⟩ := hs.row hr
      obtain ⟨row', hrow', hp'⟩ := RepoCall.exec_payload hx hrow
      exact ⟨hid, row', hrow', hp'.trans hp⟩
    rcases RepoCall.exec_posts hmade hx with ⟨hout, -⟩ | ⟨j, subject, m, row, hout, hm, hrow, hp, -⟩
    · exact hold (hout ▸ hr)
    · rw [hout, SerialTable.rows_insert] at hr
      rcases List.mem_append.1 hr with hr | hr
      · exact hold hr
      · obtain ⟨-, rfl⟩ := Prod.mk.inj (List.mem_singleton.1 hr)
        exact ⟨hm, row, hrow, hp⟩
  · rw [hdb] at hr ⊢
    obtain ⟨r₀, hr₀, rfl⟩ := mem_mark hr
    obtain ⟨hid, row, hrow, hp⟩ := hs.row hr₀
    split
    · exact ⟨hid, row, hrow, hp⟩
    · exact ⟨hid, row, hrow, hp⟩

theorem locked_step (hs : s.Mirrored) (h : s.step a = some s') {rid : ℕ} {ids : List ℕ}
    (hget : s'.batches[rid]? = some (some ids)) {id : ℕ} {r : OutboxRow Json} (hid : id ∈ ids)
    (hr : (id, r) ∈ s'.db.outbox.rows) : r.publishedAt = none := by
  rcases batches_cases h hget with ⟨hold, hne⟩ | ⟨limit, rfl, -, rfl⟩
  · rcases step_cases h with hsame | ⟨now, c, res, hmade, hx, -⟩ | ⟨rid', now, ids', hget', hdb, hb⟩
    · exact hs.locked hold hid (hsame ▸ hr)
    · rcases RepoCall.exec_posts hmade hx with ⟨hout, -⟩ | ⟨j, subject, m, row, hout, -⟩
      · exact hs.locked hold hid (hout ▸ hr)
      · rw [hout, SerialTable.rows_insert] at hr
        rcases List.mem_append.1 hr with hr | hr
        · exact hs.locked hold hid hr
        · obtain ⟨-, rfl⟩ := Prod.mk.inj (List.mem_singleton.1 hr)
          rfl
    · rw [hdb] at hr
      obtain ⟨r₀, hr₀, rfl⟩ := mem_mark hr
      have hrid : rid ≠ rid' := by
        rintro rfl
        rw [hb, List.getElem?_set_self (List.lt_length_of_getElem? hold)] at hget
        exact absurd hget (by simp)
      rw [if_neg (hs.apart hold hget' hrid id hid)]
      exact hs.locked hold hid hr₀
  · obtain rfl := Option.some.inj h
    obtain ⟨r₀, hr₀, hnone, -⟩ := mem_selectUnpublished hid
    obtain ⟨-, rfl⟩ := Prod.mk.inj (s.db.outbox.eq_of_mem_rows hr hr₀ rfl)
    exact hnone

/-- Every step keeps the batches of the relays apart. -/
theorem apart_step (hs : s.Mirrored) (h : s.step a = some s') {rid rid' : ℕ} {ids ids' : List ℕ}
    (hget : s'.batches[rid]? = some (some ids)) (hget' : s'.batches[rid']? = some (some ids'))
    (hne : rid ≠ rid') : ∀ id ∈ ids, id ∉ ids' := by
  intro id hid hid'
  rcases batches_cases h hget with ⟨hold, -⟩ | ⟨limit, rfl, hrid, rfl⟩
  · rcases batches_cases h hget' with ⟨hold', -⟩ | ⟨limit, -, -, rfl⟩
    · exact hs.apart hold hold' hne id hid hid'
    · obtain ⟨r, -, -, hfree⟩ := mem_selectUnpublished hid'
      exact hfree (mem_lockedIds.2 ⟨rid, ids, hold, hid⟩)
  · rcases batches_cases h hget' with ⟨hold', -⟩ | ⟨limit, -, hrid', -⟩
    · obtain ⟨r, -, -, hfree⟩ := mem_selectUnpublished hid
      exact hfree (mem_lockedIds.2 ⟨rid', ids', hold', hid'⟩)
    · exact hne (hrid.trans hrid'.symm)

/-- **Every transaction keeps the outbox a mirror of the log.** -/
theorem step (hs : s.Mirrored) (h : s.step a = some s') : s'.Mirrored where
  count := hs.count_step h
  row := hs.row_step h
  locked := hs.locked_step h
  apart := hs.apart_step h

/-- The outbox mirrors the log in every reachable state. -/
theorem of_reachable (h : system.Reachable TransitionSystem.anyStep s) : s.Mirrored := by
  refine h.induct (fun s hs ↦ ?_) fun _ _ _ _ ih _ hstep ↦ ih.step hstep
  obtain rfl : s = ⟨.empty, []⟩ := hs
  exact ⟨fun _ ↦ rfl, fun h ↦ absurd h List.not_mem_nil, fun h ↦ absurd h (by simp),
    fun h ↦ absurd h (by simp)⟩

/-- **One step keeps every row**, and marks only what was not marked. -/
theorem kept_step (hs : s.Mirrored) (h : s.step a = some s') {id : ℕ} {r : OutboxRow Json}
    (hr : (id, r) ∈ s.db.outbox.rows) : ∃ r', (id, r') ∈ s'.db.outbox.rows ∧ r.Kept r' := by
  rcases step_cases h with hsame | ⟨now, c, res, hmade, hx, -⟩ | ⟨rid, now, ids, hget, hdb, -⟩
  · rw [hsame]
    exact ⟨r, hr, .inl rfl⟩
  · rcases RepoCall.exec_posts hmade hx with ⟨hout, -⟩ | ⟨j, subject, m, row, hout, -⟩
    · rw [hout]
      exact ⟨r, hr, .inl rfl⟩
    · rw [hout, SerialTable.rows_insert]
      exact ⟨r, List.mem_append_left _ hr, .inl rfl⟩
  · have hmem : (id, if id ∈ ids then { r with publishedAt := some now } else r) ∈
        s'.db.outbox.rows := by
      rw [hdb]
      exact List.mem_map.2 ⟨(id, r), hr, rfl⟩
    refine ⟨_, hmem, ?_⟩
    split
    · next hid => exact .inr ⟨hs.locked hget hid hr, now, rfl⟩
    · exact .inl rfl

end Mirrored

/-- A run keeps every row. -/
theorem kept_of_leads (hs : system.Reachable TransitionSystem.anyStep s)
    (h : system.Leads TransitionSystem.anyStep s s') {id : ℕ} {r : OutboxRow Json}
    (hr : (id, r) ∈ s.db.outbox.rows) : ∃ r', (id, r') ∈ s'.db.outbox.rows ∧ r.Kept r' := by
  refine h.stable (P := fun s' ↦ ∃ r', (id, r') ∈ s'.db.outbox.rows ∧ r.Kept r') ?_ hs
    ⟨r, hr, .inl rfl⟩
  rintro s₁ a s₂ hs₁ ⟨r₁, hr₁, hkept⟩ - hstep
  obtain ⟨r₂, hr₂, hkept'⟩ := (Mirrored.of_reachable hs₁).kept_step hstep hr₁
  exact ⟨r₂, hr₂, hkept.trans hkept'⟩

/-- **The outbox mirrors the log.** However the transactions of the repository and of the relays
fall, every job has as many outbox rows as its log has `enqueued` and `replayed` events; every row
is read by `process` as the job it is for and the payload stored with that job; and a row stays,
under its id and with its contents, but for a mark that is set once. -/
theorem outbox_mirrors_log (hs : system.Reachable TransitionSystem.anyStep s) :
    (∀ j, (s.db.outboxRows j).length =
      (s.db.log j).count .enqueued + (s.db.log j).count .replayed) ∧
    (∀ id r, (id, r) ∈ s.db.outbox.rows → ∃ row, s.db.job? r.jobId = some row ∧
      Worker.decode r.payload.toJson = some (r.jobId, row.payload)) ∧
    (∀ s', system.Leads TransitionSystem.anyStep s s' → ∀ id r, (id, r) ∈ s.db.outbox.rows →
      ∃ r', (id, r') ∈ s'.db.outbox.rows ∧
        (r' = r ∨ (r.publishedAt = none ∧ ∃ t, r' = { r with publishedAt := some t }))) := by
  have hm := Mirrored.of_reachable hs
  refine ⟨hm.count, fun id r hr ↦ ?_, fun s' hl id r hr ↦ kept_of_leads hs hl hr⟩
  obtain ⟨hid, row, hrow, hp⟩ := hm.row hr
  exact ⟨row, hrow, by rw [Worker.decode_toJson, hid, hp]⟩

/-- A job is submitted, relayed, started, requeued and quarantined, while another relay comes to
nothing; of two replays the second is refused. -/
def submittedAndReplayed : List RelayedStep :=
  let record (event : EventType) : RelayedStep :=
    .call 1 (.recordEvent { jobId := ⟨7⟩, event }) true
  [.call 0 (.submitJob ⟨7⟩ "k" (.int 5) "orbiter.jobs" []) true, .select 10, .select 10,
    .rollback 1, .commit 0 1, record .started, record .requeued, record .deadLettered,
    .call 2 (.replayJob ⟨7⟩ "orbiter.jobs") false, .call 2 (.replayJob ⟨7⟩ "orbiter.jobs") true,
    .call 2 (.replayJob ⟨7⟩ "orbiter.jobs") true, .select 10]

/-- A job is submitted, published, dead-lettered and replayed: two rows, one of them published. -/
theorem outbox_mirrors_log_replayed : ∃ s, system.Reachable TransitionSystem.anyStep s ∧
    (s.db.outboxRows ⟨7⟩).map (fun r ↦ (r.1, r.2.publishedAt)) = [(1, some 1), (2, none)] ∧
    (s.db.outboxRows ⟨7⟩).length =
      (s.db.log ⟨7⟩).count .enqueued + (s.db.log ⟨7⟩).count .replayed := by
  have hrun : (system.exec ⟨.empty, []⟩ submittedAndReplayed).any (fun s ↦
      decide ((s.db.outboxRows ⟨7⟩).map (fun r ↦ (r.1, r.2.publishedAt)) =
        [(1, some 1), (2, none)])) = true := by
    rfl
  obtain ⟨s, hl, hrows⟩ := TransitionSystem.exists_leads_of_exec hrun
  have hs : system.Reachable TransitionSystem.anyStep s := ⟨_, rfl, hl⟩
  exact ⟨s, hs, of_decide_eq_true hrows, (outbox_mirrors_log hs).1 ⟨7⟩⟩

end RelayedDatabase

end Orbiter
