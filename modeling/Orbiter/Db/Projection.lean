import Mathlib.Order.Bounds.Basic
import Orbiter.Db.Repo
import Orbiter.Foundation.TransitionSystem

/-!
# The jobs table is a projection of what was accepted

A *ledger* is the database together with the list of all writes the repository ever accepted, in
commit order. The list is a record for reasoning only: no transaction reads it. Any sequence of
`submit_job`, `record_event` and `replay_job` transactions, with any arguments and any outcome,
moves a ledger along (`Ledger.system`).

## Main results

* `Projects` — a row shows exactly what the accepted writes of its job amount to: its state is the
  replay of its log, its attempts are the largest attempt written, its token the newest one, and its
  log is the writes in their order;
* `Consistent` — every row projects, what has no row has no events and no writes, and each log is
  the writes of its job;
* `consistent_of_reachable` — **every transaction keeps this**, whatever it is called with. The
  three maintain table and log by separate statements, and `submit_job` writes the `queued`
  projection and the first two events by hand, so there is a case for each;
* `projects_of_reachable` — what it says of one row.

Refused writes are a part of it: a transaction that raises leaves the ledger as it was, and the
invariant has nothing to account for.
-/

namespace Orbiter

variable {π : Type}

/-- The calls of the repository that write. -/
inductive RepoCall (π : Type)
  | submitJob (jobId : Uuid) (idempotencyKey : String) (payload : π) (subject : String)
      (carrier : Carrier)
  | recordEvent (w : Write)
  | replayJob (jobId : Uuid) (subject : String)

/-- What they return. -/
inductive RepoResult
  | submitted (jobId : Uuid) (created : Bool)
  | recorded (state : JobState)
  | replayed (state : Option JobState)
  deriving DecidableEq

/-- One call as one transaction. -/
def RepoCall.exec (db : Database π) (now : ℕ) : RepoCall π →
    Except DbError (RepoResult × Database π)
  | .submitJob jobId key payload subject carrier =>
    (db.submitJob now jobId key payload subject carrier).map fun p ↦
      (.submitted p.1.1 p.1.2, p.2)
  | .recordEvent w => (db.recordEvent now w).map fun p ↦ (.recorded p.1, p.2)
  | .replayJob jobId subject => (db.replayJob now jobId subject).map fun p ↦ (.replayed p.1, p.2)

/-- The first two events of every job. -/
def submitWrites (jobId : Uuid) : List Write :=
  [{ jobId, event := .submitted }, { jobId, event := .enqueued }]

/-- The writes a successful call made. -/
def RepoCall.writes : RepoCall π → RepoResult → List Write
  | .submitJob jobId _ _ _ _, .submitted _ true => submitWrites jobId
  | .recordEvent w, _ => [w]
  | .replayJob jobId _, .replayed (some _) => [Database.replayWrite jobId]
  | _, _ => []

/-- The database and the accepted writes. -/
structure Ledger (π : Type) where
  db : Database π
  history : List Write

namespace Ledger

/-- The accepted writes of one job, in commit order. -/
def writesOf (s : Ledger π) (j : Uuid) : List Write := s.history.filter (·.jobId = j)

/-- One transaction; a raise changes nothing. -/
def step (s : Ledger π) (a : ℕ × RepoCall π) : Option (Ledger π) :=
  match a.2.exec s.db a.1 with
  | .error _ => some s
  | .ok (r, db') => some ⟨db', s.history ++ a.2.writes r⟩

variable (π) in
/-- All sequences of transactions from the empty schema. -/
def system : TransitionSystem (Ledger π) (ℕ × RepoCall π) where
  init s := s = ⟨.empty, []⟩
  step := step

/-! ### The invariant -/

/-- A row shows what the accepted writes of its job amount to. -/
structure Projects (s : Ledger π) (j : Uuid) (row : JobRow π) : Prop where
  /-- Folding the log gives the state. -/
  state : replay (s.db.log j) = .ok row.state
  /-- The log starts with the submission. -/
  submission : [EventType.submitted, .enqueued] <+: s.db.log j
  /-- The attempts are the largest attempt of an event. -/
  attempts : IsGreatest {a | ∃ e ∈ s.db.eventRows j, e.2.attempt = a} row.attempts
  /-- The fencing token is the largest token accepted, or zero. -/
  fenceToken : IsGreatest (insert 0 {t | ∃ w ∈ s.writesOf j, w.fenceToken = some t}) row.fenceToken
  /-- The result is the last one accepted, if any. -/
  result : row.result = ((s.writesOf j).filterMap Write.result).getLast?

/-- Table, log and history tell one story. -/
structure Consistent (s : Ledger π) : Prop where
  projects : ∀ j row, s.db.job? j = some row → s.Projects j row
  /-- What does not exist has no past. -/
  absent : ∀ j, s.db.job? j = none → s.db.eventRows j = [] ∧ s.writesOf j = []
  /-- The log is the history. -/
  log_eq : ∀ j, s.db.log j = (s.writesOf j).map Write.event
  /-- While the last accepted write of a job carries a token, that token is the row's. -/
  last_token : ∀ j row w t, s.db.job? j = some row → (s.writesOf j).getLast? = some w →
    w.fenceToken = some t → row.fenceToken = t

/-- A projection depends on the job's own events and writes only. -/
theorem Projects.of_eq {s s' : Ledger π} {j : Uuid} {row : JobRow π} (h : s.Projects j row)
    (hrows : s'.db.eventRows j = s.db.eventRows j) (hw : s'.writesOf j = s.writesOf j) :
    s'.Projects j row := by
  have hlog : s'.db.log j = s.db.log j := by rw [Database.log, hrows, ← Database.log]
  obtain ⟨h₁, h₂, h₃, h₄, h₅⟩ := h
  exact ⟨hlog ▸ h₁, hlog ▸ h₂, hrows ▸ h₃, hw ▸ h₄, hw ▸ h₅⟩

/-- The writes of a job grow by those of the new writes that are its own. -/
theorem writesOf_append (db db' : Database π) (h : List Write) (ws : List Write) (j : Uuid) :
    (⟨db', h ++ ws⟩ : Ledger π).writesOf j =
      (⟨db, h⟩ : Ledger π).writesOf j ++ ws.filter (·.jobId = j) :=
  List.filter_append ..

/-- There is nothing to project in an empty database. -/
theorem Consistent.empty : (⟨.empty, []⟩ : Ledger π).Consistent where
  projects j row h := absurd h (by simp)
  absent j _ := ⟨rfl, rfl⟩
  log_eq j := rfl
  last_token j row w t h := absurd h (by simp)

/-! ### A submission -/

section Create

variable {s : Ledger π} (hs : s.Consistent) (now : ℕ) {jobId : Uuid} (key : String) (payload : π)
  (subject : String) (carrier : Carrier) (hj : s.db.job? jobId = none)

/-- The ledger after a submission that creates its job. -/
def create (s : Ledger π) (now : ℕ) (jobId : Uuid) (key : String) (payload : π) (subject : String)
    (carrier : Carrier) : Ledger π :=
  ⟨s.db.create now jobId key payload subject carrier, s.history ++ submitWrites jobId⟩

@[simp] theorem writesOf_create_self :
    (s.create now jobId key payload subject carrier).writesOf jobId =
      s.writesOf jobId ++ submitWrites jobId := by
  rw [create, writesOf_append s.db]
  simp [submitWrites]

@[simp] theorem writesOf_create_ne {j : Uuid} (hne : j ≠ jobId) :
    (s.create now jobId key payload subject carrier).writesOf j = s.writesOf j := by
  rw [create, writesOf_append s.db]
  simp [submitWrites, hne.symm]

include hs hj in
/-- A new row projects the two writes a submission stands for. -/
theorem projects_create : (s.create now jobId key payload subject carrier).Projects jobId
    (Database.newRow now key payload) := by
  obtain ⟨hrows, hwrites⟩ := hs.absent jobId hj
  have hlog : (s.create now jobId key payload subject carrier).db.log jobId =
      [.submitted, .enqueued] := by
    simp [create, Database.log, hrows]
  refine ⟨?_, ?_, ?_, ?_, ?_⟩
  · rw [hlog]; rfl
  · exact hlog ▸ List.prefix_rfl
  · simp [create, hrows, Database.newRow, IsGreatest, upperBounds]
  · simp [hwrites, submitWrites, Database.newRow, IsGreatest, upperBounds]
  · simp [hwrites, submitWrites, Database.newRow]

include hs hj in
/-- A submission that creates its job keeps the ledger consistent. -/
theorem Consistent.create : (s.create now jobId key payload subject carrier).Consistent where
  projects j row h := by
    by_cases hne : j = jobId
    · subst hne
      rw [Ledger.create, Database.job?_create_self] at h
      obtain rfl := Option.some.inj h
      exact projects_create hs now key payload subject carrier hj
    · rw [Ledger.create, Database.job?_create_ne _ _ _ _ _ _ hne] at h
      exact (hs.projects j row h).of_eq (by simp [Ledger.create, hne]) (by simp [hne])
  absent j h := by
    have hne : j ≠ jobId := by
      rintro rfl
      simp [Ledger.create] at h
    rw [Ledger.create, Database.job?_create_ne _ _ _ _ _ _ hne] at h
    obtain ⟨hr, hw⟩ := hs.absent j h
    exact ⟨by simpa [Ledger.create, hne] using hr, by simpa [hne] using hw⟩
  log_eq j := by
    by_cases hne : j = jobId
    · subst hne
      rw [writesOf_create_self, List.map_append, ← hs.log_eq]
      simp [Ledger.create, submitWrites]
    · rw [writesOf_create_ne _ _ _ _ _ hne, ← hs.log_eq]
      simp [Ledger.create, hne]
  last_token j row w t h hw ht := by
    by_cases hne : j = jobId
    · subst hne
      rw [writesOf_create_self, submitWrites] at hw
      simp only [List.getLast?_append, List.getLast?_cons_cons, List.getLast?_singleton,
        Option.some_or, Option.some.injEq] at hw
      subst hw
      exact absurd ht (by simp)
    · rw [Ledger.create, Database.job?_create_ne _ _ _ _ _ _ hne] at h
      rw [writesOf_create_ne _ _ _ _ _ hne] at hw
      exact hs.last_token j row w t h hw ht

end Create

/-! ### An accepted write -/

section Accept

variable {s : Ledger π} (hs : s.Consistent) (now : ℕ) {w : Write} {row : JobRow π} {next : JobState}

/-- The ledger after an accepted write. -/
def accept (s : Ledger π) (now : ℕ) (w : Write) (row : JobRow π) (next : JobState) : Ledger π :=
  ⟨s.db.accept now w row next, s.history ++ [w]⟩

@[simp] theorem writesOf_accept_self :
    (s.accept now w row next).writesOf w.jobId = s.writesOf w.jobId ++ [w] := by
  rw [accept, writesOf_append s.db]
  simp

@[simp] theorem writesOf_accept_ne {j : Uuid} (hne : j ≠ w.jobId) :
    (s.accept now w row next).writesOf j = s.writesOf j := by
  rw [accept, writesOf_append s.db]
  simp [hne.symm]

include hs in
/-- The row an accepted write leaves projects the writes with this one at the end. -/
theorem projects_accept (hj : s.db.job? w.jobId = some row)
    (ha : transitions row.state w.event = some next)
    (ht : row.fenceToken ≤ w.fenceToken.getD row.fenceToken) :
    (s.accept now w row next).Projects w.jobId (Database.acceptRow row now w next) := by
  obtain ⟨h₁, h₂, h₃, h₄, h₅⟩ := hs.projects w.jobId row hj
  have hlog : (s.accept now w row next).db.log w.jobId = s.db.log w.jobId ++ [w.event] := by
    simp [accept]
  refine ⟨?_, ?_, ?_, ?_, ?_⟩
  · rw [hlog]
    exact replay_concat h₁ (apply_some_eq_ok.2 ha)
  · rw [hlog]
    exact h₂.trans (List.prefix_append _ _)
  · have hset : {a | ∃ e ∈ (s.accept now w row next).db.eventRows w.jobId, e.2.attempt = a} =
        insert w.attempt {a | ∃ e ∈ s.db.eventRows w.jobId, e.2.attempt = a} := by
      ext a
      simp [accept, or_comm, or_and_right, exists_or, eq_comm]
    rw [hset, Database.acceptRow, max_comm]
    exact h₃.insert w.attempt
  · rw [writesOf_accept_self]
    cases htok : w.fenceToken with
    | none =>
      have hset : {t | ∃ w' ∈ s.writesOf w.jobId ++ [w], w'.fenceToken = some t} =
          {t | ∃ w' ∈ s.writesOf w.jobId, w'.fenceToken = some t} := by
        ext t
        simp only [List.mem_append, List.mem_singleton, Set.mem_ofPred_eq]
        constructor
        · rintro ⟨w', hw' | rfl, ht'⟩
          · exact ⟨w', hw', ht'⟩
          · exact absurd ht' (by simp [htok])
        · rintro ⟨w', hw', ht'⟩
          exact ⟨w', .inl hw', ht'⟩
      rw [hset, Database.acceptRow, htok]
      exact h₄
    | some tok =>
      have hset : insert 0 {t | ∃ w' ∈ s.writesOf w.jobId ++ [w], w'.fenceToken = some t} =
          insert tok (insert 0 {t | ∃ w' ∈ s.writesOf w.jobId, w'.fenceToken = some t}) := by
        ext t
        simp only [List.mem_append, List.mem_singleton, Set.mem_ofPred_eq, Set.mem_insert_iff,
          or_and_right, exists_or, exists_eq_left, htok, Option.some.injEq, eq_comm (a := tok)]
        rw [← or_assoc, or_comm]
      have hmax := h₄.insert tok
      rw [htok, Option.getD_some] at ht
      rw [max_eq_left ht] at hmax
      rw [hset, Database.acceptRow, htok, Option.getD_some]
      exact hmax
  · rw [writesOf_accept_self, List.filterMap_append, List.getLast?_append, ← h₅,
      Database.acceptRow]
    cases hr : w.result <;> simp [hr]

include hs in
/-- An accepted write keeps the ledger consistent. -/
theorem Consistent.accept (hj : s.db.job? w.jobId = some row)
    (ha : transitions row.state w.event = some next)
    (ht : row.fenceToken ≤ w.fenceToken.getD row.fenceToken) :
    (s.accept now w row next).Consistent where
  projects j row' h := by
    by_cases hne : j = w.jobId
    · subst hne
      rw [Ledger.accept, Database.job?_accept_self] at h
      obtain rfl := Option.some.inj h
      exact projects_accept hs now hj ha ht
    · rw [Ledger.accept, Database.job?_accept_ne _ _ _ _ hne] at h
      exact (hs.projects j row' h).of_eq (by simp [Ledger.accept, hne]) (by simp [hne])
  absent j h := by
    have hne : j ≠ w.jobId := by
      rintro rfl
      simp [Ledger.accept] at h
    rw [Ledger.accept, Database.job?_accept_ne _ _ _ _ hne] at h
    obtain ⟨hr, hw⟩ := hs.absent j h
    exact ⟨by simpa [Ledger.accept, hne] using hr, by simpa [hne] using hw⟩
  log_eq j := by
    by_cases hne : j = w.jobId
    · subst hne
      rw [writesOf_accept_self, List.map_append, ← hs.log_eq]
      simp [Ledger.accept]
    · rw [writesOf_accept_ne _ hne, ← hs.log_eq]
      simp [Ledger.accept, hne]
  last_token j row' w' t h hw htok := by
    by_cases hne : j = w.jobId
    · subst hne
      rw [writesOf_accept_self, List.getLast?_concat, Option.some.injEq] at hw
      subst hw
      rw [Ledger.accept, Database.job?_accept_self] at h
      obtain rfl := Option.some.inj h
      rw [Database.acceptRow, htok, Option.getD_some]
    · rw [Ledger.accept, Database.job?_accept_ne _ _ _ _ hne] at h
      rw [writesOf_accept_ne _ hne] at hw
      exact hs.last_token j row' w' t h hw htok

end Accept

/-- The outbox plays no part. -/
theorem Consistent.enqueueReplay {s : Ledger π} (hs : s.Consistent) (now : ℕ) (j : Uuid)
    (subject : String) (payload : π) :
    (⟨s.db.enqueueReplay now j subject payload, s.history⟩ : Ledger π).Consistent :=
  ⟨fun _ _ h ↦ (hs.projects _ _ h).of_eq rfl rfl, hs.absent, hs.log_eq, hs.last_token⟩

/-! ### Every transaction -/

/-- What a successful call does to the ledger: nothing, a creation, or one accepted write, after
which a replay adds its outbox row. -/
theorem exec_cases {s : Ledger π} {now : ℕ} {c : RepoCall π} {r : RepoResult} {db' : Database π}
    (h : c.exec s.db now = .ok (r, db')) :
    (db' = s.db ∧ c.writes r = []) ∨
    (∃ jobId key payload subject carrier, c = .submitJob jobId key payload subject carrier ∧
      s.db.job? jobId = none ∧ db' = s.db.create now jobId key payload subject carrier ∧
      c.writes r = submitWrites jobId) ∨
    (∃ w row next, s.db.job? w.jobId = some row ∧ transitions row.state w.event = some next ∧
      row.fenceToken ≤ w.fenceToken.getD row.fenceToken ∧ c.writes r = [w] ∧
      ((c = .recordEvent w ∧ db' = s.db.accept now w row next) ∨
        ∃ subject, c = .replayJob w.jobId subject ∧ w.event = .replayed ∧
          db' = (s.db.accept now w row next).enqueueReplay now w.jobId subject row.payload)) := by
  cases c with
  | submitJob jobId key payload subject carrier =>
    rw [RepoCall.exec] at h
    cases hx : s.db.submitJob now jobId key payload subject carrier with
    | error e => simp [hx, Except.map] at h
    | ok p =>
      obtain ⟨⟨j, created⟩, db₁⟩ := p
      simp only [hx, Except.map, Except.ok.injEq, Prod.mk.injEq] at h
      obtain ⟨rfl, rfl⟩ := h
      rcases Database.submitJob_eq_ok hx with ⟨rfl, -, rfl⟩ | ⟨rfl, rfl, -, hj, rfl⟩
      · exact .inl ⟨rfl, rfl⟩
      · exact .inr (.inl ⟨j, key, payload, subject, carrier, rfl, hj, rfl, rfl⟩)
  | recordEvent w =>
    rw [RepoCall.exec] at h
    cases hx : s.db.recordEvent now w with
    | error e => simp [hx, Except.map] at h
    | ok p =>
      obtain ⟨state, db₁⟩ := p
      simp only [hx, Except.map, Except.ok.injEq, Prod.mk.injEq] at h
      obtain ⟨rfl, rfl⟩ := h
      obtain ⟨row, hj, ha, ht, rfl⟩ := Database.applyEvent_eq_ok.1 hx
      exact .inr (.inr ⟨w, row, state, hj, ha, ht, rfl, .inl ⟨rfl, rfl⟩⟩)
  | replayJob jobId subject =>
    rw [RepoCall.exec] at h
    cases hx : s.db.replayJob now jobId subject with
    | error e => simp [hx, Except.map] at h
    | ok p =>
      obtain ⟨state, db₁⟩ := p
      simp only [hx, Except.map, Except.ok.injEq, Prod.mk.injEq] at h
      obtain ⟨rfl, rfl⟩ := h
      rcases Database.replayJob_eq_ok hx with ⟨rfl, -, rfl⟩ | ⟨row, next, db₂, rfl, hj, hap, rfl⟩
      · exact .inl ⟨rfl, rfl⟩
      · obtain ⟨row', hj', ha, ht, rfl⟩ := Database.applyEvent_eq_ok.1 hap
        obtain rfl := Option.some.inj (hj.symm.trans hj')
        exact .inr (.inr ⟨Database.replayWrite jobId, row, next, hj, ha, ht, rfl,
          .inr ⟨subject, rfl, rfl, rfl⟩⟩)

/-- **One step.** Every transaction, successful or raising, keeps the ledger consistent. -/
theorem Consistent.step {s s' : Ledger π} {a : ℕ × RepoCall π} (hs : s.Consistent)
    (h : s.step a = some s') : s'.Consistent := by
  rw [Ledger.step] at h
  cases hx : a.2.exec s.db a.1 with
  | error e =>
    simp only [hx, Option.some.injEq] at h
    exact h ▸ hs
  | ok p =>
    obtain ⟨r, db'⟩ := p
    simp only [hx, Option.some.injEq] at h
    subst h
    rcases exec_cases hx with ⟨rfl, hw⟩ |
      ⟨jobId, key, payload, subject, carrier, -, hj, rfl, hw⟩ |
      ⟨w, row, next, hj, ha, ht, hw, ⟨-, rfl⟩ | ⟨subject, -, -, rfl⟩⟩
    · rw [hw, List.append_nil]
      exact hs
    · rw [hw]
      exact hs.create a.1 key payload subject carrier hj
    · rw [hw]
      exact hs.accept a.1 hj ha ht
    · rw [hw]
      exact (hs.accept a.1 hj ha ht).enqueueReplay a.1 w.jobId subject row.payload

/-- **Every run.** -/
theorem consistent_of_reachable {s : Ledger π}
    (h : (system π).Reachable TransitionSystem.anyStep s) : s.Consistent :=
  h.induct (fun _ h₀ ↦ h₀ ▸ .empty) fun _ _ _ _ hs _ hstep ↦ hs.step hstep

/-- **The jobs table is a projection of the audit trail.** In every state reached from the empty
schema by transactions of any kind and outcome, every row agrees with what was accepted for its
job. -/
theorem projects_of_reachable {s : Ledger π}
    (h : (system π).Reachable TransitionSystem.anyStep s) {j : Uuid} {row : JobRow π}
    (hj : s.db.job? j = some row) : s.Projects j row :=
  (consistent_of_reachable h).projects j row hj

/-- The projection of a job that was submitted, started under token 7 and refused a stale write. -/
theorem projects_of_started : ∃ (s : Ledger Unit) (row : JobRow Unit),
    (system Unit).Reachable TransitionSystem.anyStep s ∧ s.db.job? ⟨0⟩ = some row ∧
      row.state = .running ∧ row.fenceToken = 7 ∧ s.Projects ⟨0⟩ row := by
  have hrun : ∃ s, (system Unit).exec ⟨.empty, []⟩
      [(0, .submitJob ⟨0⟩ "k" () "orbiter.jobs" []),
        (1, .recordEvent { jobId := ⟨0⟩, event := .started, attempt := 1, fenceToken := some 7 }),
        (2, .recordEvent { jobId := ⟨0⟩, event := .completed, attempt := 1, fenceToken := some 3 })]
      = some s ∧ ∃ row, s.db.job? ⟨0⟩ = some row ∧ row.state = .running ∧ row.fenceToken = 7 :=
    ⟨_, rfl, _, rfl, rfl, rfl⟩
  obtain ⟨s, hs, row, hj, hstate, htok⟩ := hrun
  have hr : (system Unit).Reachable TransitionSystem.anyStep s :=
    ⟨_, rfl, TransitionSystem.leads_of_exec hs⟩
  exact ⟨s, row, hr, hj, hstate, htok, projects_of_reachable hr hj⟩

end Ledger

end Orbiter
