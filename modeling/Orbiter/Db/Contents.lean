import Orbiter.Db.Projection

/-!
# The contents of a database

Two databases **agree** when they hold the same rows of `jobs`, and for each job the same events and
the same outbox rows in the order of their ids. Nothing is said of the ids themselves, which a
transaction draws and a rollback does not give back: a database reached by interleaved transactions
has gaps that a serial run does not have, and its rows of different jobs stand in another order.

* `Agree` — the relation, with its closure properties; what the repository selects is the same in
  databases that agree;
* `KeysUnique` — no idempotency key twice, the unique column of `jobs`;
* `Adds` — what a transaction adds: at most one row of `jobs`, and some events and outbox rows, in
  this order. `adds_create`, `adds_accept` and `Adds.enqueueReplay` are the three transactions;
* `Agree.adds` — **the same additions to databases that agree make databases that agree**. This is
  the step of the serializability proof: the committed contents and the serial run's take the same
  addition, each at its own ids.
-/

namespace Orbiter

namespace Database

variable {π : Type}

/-- The same contents, up to the ids of events and outbox rows. -/
structure Agree (db db' : Database π) : Prop where
  job? : ∀ j, db.job? j = db'.job? j
  eventRows : ∀ j, (db.eventRows j).map Prod.snd = (db'.eventRows j).map Prod.snd
  outboxRows : ∀ j, (db.outboxRows j).map Prod.snd = (db'.outboxRows j).map Prod.snd

theorem Agree.refl (db : Database π) : db.Agree db := ⟨fun _ ↦ rfl, fun _ ↦ rfl, fun _ ↦ rfl⟩

theorem Agree.trans {db db' db'' : Database π} (h : db.Agree db') (h' : db'.Agree db'') :
    db.Agree db'' where
  job? j := (h.job? j).trans (h'.job? j)
  eventRows j := (h.eventRows j).trans (h'.eventRows j)
  outboxRows j := (h.outboxRows j).trans (h'.outboxRows j)

/-- A key that is free in one is free in the other. -/
theorem Agree.jobByKey?_eq_none {db db' : Database π} (h : db.Agree db') {key : String} :
    db.jobByKey? key = none ↔ db'.jobByKey? key = none := by
  rw [Database.jobByKey?_eq_none, Database.jobByKey?_eq_none]
  simp only [h.job?]

/-- No key is used twice. -/
def KeysUnique (db : Database π) : Prop :=
  ∀ j j' row row', db.job? j = some row → db.job? j' = some row' →
    row.idempotencyKey = row'.idempotencyKey → j = j'

/-- With unique keys, the job found by a key is the one that has it. -/
theorem KeysUnique.jobByKey?_eq_some {db : Database π} (h : db.KeysUnique) {key : String}
    {j : Uuid} : db.jobByKey? key = some j ↔
      ∃ row, db.job? j = some row ∧ row.idempotencyKey = key := by
  refine ⟨exists_of_jobByKey?, ?_⟩
  rintro ⟨row, hj, hkey⟩
  cases hk : db.jobByKey? key with
  | none => exact absurd hkey (Database.jobByKey?_eq_none.1 hk j row hj)
  | some j' =>
    obtain ⟨row', hj', hkey'⟩ := exists_of_jobByKey? hk
    rw [h j j' row row' hj hj' (hkey.trans hkey'.symm)]

theorem Agree.keysUnique {db db' : Database π} (h : db.Agree db') (hu : db'.KeysUnique) :
    db.KeysUnique := by
  intro j j' row row' hj hj'
  exact hu j j' row row' (h.job? j ▸ hj) (h.job? j' ▸ hj')

/-- `db'` is `db` with one row written, if any, and these events and outbox rows appended. -/
structure Adds (db db' : Database π) (version : Option (Uuid × JobRow π)) (events : List EventRow)
    (outbox : List (OutboxRow π)) : Prop where
  job? : ∀ j, db'.job? j = ((version.filter fun v ↦ j = v.1).map Prod.snd).or (db.job? j)
  eventRows : ∀ j, (db'.eventRows j).map Prod.snd =
    (db.eventRows j).map Prod.snd ++ events.filter fun e ↦ e.jobId = j
  outboxRows : ∀ j, (db'.outboxRows j).map Prod.snd =
    (db.outboxRows j).map Prod.snd ++ outbox.filter fun r ↦ r.jobId = j

/-- **The same additions keep agreement.** -/
theorem Agree.adds {db₀ db₀' db db' : Database π} {version : Option (Uuid × JobRow π)}
    {events : List EventRow} {outbox : List (OutboxRow π)} (h : db₀.Agree db)
    (h₀ : Adds db₀ db₀' version events outbox) (h₁ : Adds db db' version events outbox) :
    db₀'.Agree db' where
  job? j := by rw [h₀.job?, h₁.job?, h.job?]
  eventRows j := by rw [h₀.eventRows, h₁.eventRows, h.eventRows]
  outboxRows j := by rw [h₀.outboxRows, h₁.outboxRows, h.outboxRows]

section OneJob

variable {db db' : Database π} {j₀ j : Uuid} {row : JobRow π} {events : List EventRow}
  {outbox : List (OutboxRow π)}

theorem Adds.job?_self (h : Adds db db' (some (j, row)) events outbox) : db'.job? j = some row := by
  rw [h.job?, Option.filter_some, if_pos (decide_eq_true rfl), Option.map_some, Option.some_or]

theorem Adds.job?_ne (h : Adds db db' (some (j₀, row)) events outbox) (hj : j ≠ j₀) :
    db'.job? j = db.job? j := by
  rw [h.job?, Option.filter_some, if_neg (by simpa using hj), Option.map_none, Option.none_or]

/-- A row was there before, or is the one written. -/
theorem Adds.job?_cases (h : Adds db db' (some (j₀, row)) events outbox) {row' : JobRow π}
    (hj : db'.job? j = some row') :
    (j ≠ j₀ ∧ db.job? j = some row') ∨ (j = j₀ ∧ row' = row) := by
  by_cases hne : j = j₀
  · subst hne
    exact .inr ⟨rfl, Option.some.inj (hj.symm.trans h.job?_self)⟩
  · exact .inl ⟨hne, (h.job?_ne hne).symm.trans hj⟩

/-- What is added for one job shows at no other. -/
theorem Adds.rows_of_ne {version : Option (Uuid × JobRow π)} (h : Adds db db' version events outbox)
    (hev : ∀ e ∈ events, e.jobId = j₀) (hout : ∀ r ∈ outbox, r.jobId = j₀) (hj : j ≠ j₀) :
    (db'.eventRows j).map Prod.snd = (db.eventRows j).map Prod.snd ∧
      (db'.outboxRows j).map Prod.snd = (db.outboxRows j).map Prod.snd := by
  rw [h.eventRows, h.outboxRows, List.filter_eq_nil_iff.2, List.filter_eq_nil_iff.2,
    List.append_nil, List.append_nil]
  · exact ⟨rfl, rfl⟩
  · intro r hr
    rw [hout r hr]
    simpa using hj.symm
  · intro e he
    rw [hev e he]
    simpa using hj.symm

/-- A job that is still not there still has nothing. -/
theorem Adds.absent (h : Adds db db' (some (j₀, row)) events outbox)
    (hev : ∀ e ∈ events, e.jobId = j₀) (hout : ∀ r ∈ outbox, r.jobId = j₀)
    (habs : ∀ j, db.job? j = none → db.eventRows j = [] ∧ db.outboxRows j = [])
    (hj : db'.job? j = none) : db'.eventRows j = [] ∧ db'.outboxRows j = [] := by
  have hne : j ≠ j₀ := by
    rintro rfl
    exact nomatch hj.symm.trans h.job?_self
  obtain ⟨hnoEvents, hnoMessages⟩ := habs j ((h.job?_ne hne).symm.trans hj)
  obtain ⟨hevents, houtbox⟩ := h.rows_of_ne hev hout hne
  rw [hnoEvents, List.map_nil, List.map_eq_nil_iff] at hevents
  rw [hnoMessages, List.map_nil, List.map_eq_nil_iff] at houtbox
  exact ⟨hevents, houtbox⟩

end OneJob

/-! ### What the transactions add -/

theorem Adds.nothing (db : Database π) : Adds db db none [] [] :=
  ⟨fun _ ↦ rfl, fun _ ↦ (List.append_nil _).symm, fun _ ↦ (List.append_nil _).symm⟩

theorem lookup_insert_eq (jobs : AList fun _ : Uuid ↦ JobRow π) (j₀ : Uuid) (row : JobRow π)
    (j : Uuid) : (jobs.insert j₀ row).lookup j =
      (((some (j₀, row)).filter fun v ↦ j = v.1).map Prod.snd).or (jobs.lookup j) := by
  by_cases hj : j = j₀
  · subst hj
    simp [AList.lookup_insert, Option.filter_some]
  · simp [AList.lookup_insert_ne hj, Option.filter_some, hj]

theorem map_snd_select_insert {α : Type} (t : SerialTable α) (a : α) (p : α → Bool) :
    ((t.insert a).select p).map Prod.snd = (t.select p).map Prod.snd ++ [a].filter p := by
  rw [SerialTable.select_insert, List.map_append]
  cases h : p a <;> simp [h]

/-- What a submission adds: the job, its first two events and its message. -/
theorem adds_create (db : Database π) (now : ℕ) (jobId : Uuid) (key : String) (payload : π)
    (subject : String) (carrier : Carrier) :
    Adds db (db.create now jobId key payload subject carrier)
      (some (jobId, newRow now key payload))
      [⟨jobId, .submitted, 0, .obj [], now⟩, ⟨jobId, .enqueued, 0, .obj [], now⟩]
      [⟨jobId, subject, ⟨jobId, payload, some carrier⟩, now, none⟩] where
  job? j := lookup_insert_eq db.jobs jobId _ j
  eventRows j := by
    rw [Database.eventRows, create, map_snd_select_insert, map_snd_select_insert, List.append_assoc,
      ← List.filter_append]
    rfl
  outboxRows _ := map_snd_select_insert ..

/-- What an accepted write adds: the new version of the row, and one event. -/
theorem adds_accept (db : Database π) (now : ℕ) (w : Write) (row : JobRow π) (next : JobState) :
    Adds db (db.accept now w row next) (some (w.jobId, acceptRow row now w next))
      [⟨w.jobId, w.event, w.attempt, w.detail.getD (.obj []), now⟩] [] where
  job? j := lookup_insert_eq db.jobs w.jobId _ j
  eventRows _ := map_snd_select_insert ..
  outboxRows _ := (List.append_nil _).symm

/-- A replay adds an outbox row to what its write has added. -/
theorem Adds.enqueueReplay {db db' : Database π} {version : Option (Uuid × JobRow π)}
    {events : List EventRow} (h : Adds db db' version events []) (now : ℕ) (jobId : Uuid)
    (subject : String) (payload : π) :
    Adds db (db'.enqueueReplay now jobId subject payload) version events
      [⟨jobId, subject, ⟨jobId, payload, none⟩, now, none⟩] where
  job? := h.job?
  eventRows := h.eventRows
  outboxRows j := by
    have hout := h.outboxRows j
    rw [List.filter_nil, List.append_nil] at hout
    rw [← hout]
    exact map_snd_select_insert ..

end Database

end Orbiter
