import Orbiter.Db.Projection
import Orbiter.Worker.Handle

/-!
# The shared world

What the processes of the system share: the database, the key-value store, and a clock in
milliseconds. Beside them the world keeps the accepted writes with their writers, in commit order;
no step reads that record.

All changes to the jobs and their events are transactions (`World.transact`), and one transaction
does at most one thing to a job: it leaves it alone, creates it, or adds one accepted write. Every
invariant about jobs is proved from these three cases.

## Contents

* `Answer` — how a call of a worker ends: served, executed with a draw and a duration, or failed
  with or without its effect. `reply` and `effect` are the two halves of an answer, what the caller
  is told and what becomes of the world, and `serve` is the second with the answer's say in it;
* `JobStep A` — the three things a step does to a job, with the accepted write among those `A`
  admits. `jobStep_transact` and `jobStep_serve` are the two sources of them;
* `World.ledger` — the world as a ledger, so that the projection proved of the repository holds here
  (`consistent_transact`, `consistent_serve`);
* `writesBy`, `made` — what one `handle` call has written, and what one call adds to it
  (`history_serve`).

A transaction is one step here. That the transactions, statement by statement, come to the same is
`Server.serializable`; that the store's calls are single calls is the store's own promise.
-/

namespace Orbiter

/-- Who made a write. -/
inductive Writer
  | submitter
  | operator
  | listener
  /-- The `handle` call with this number. -/
  | handle (pid : ℕ)
  deriving DecidableEq

/-- Database, key-value store and clock. -/
structure World where
  db : Database SubmitRequest
  kv : InMemoryKV ℕ
  /-- Milliseconds. -/
  now : ℕ
  /-- The accepted writes, in commit order. -/
  history : List (Writer × Write)

/-- How a call is answered. -/
inductive Answer
  | served
  /-- `execute` came to its end: what the generator drew, and the time it took. -/
  | executed (draw : ℚ) (elapsedMs : ℕ)
  /-- The call raised, before or after it took effect. -/
  | failed (applied : Bool)

/-- Whether the call took effect. -/
def Answer.takesEffect : Answer → Bool
  | served | executed _ _ => true
  | failed applied => applied

/-- The write a repository call submits to `_apply_event`. -/
def RepoCall.write? {π : Type} : RepoCall π → Option Write
  | submitJob _ _ _ _ _ => none
  | recordEvent w => some w
  | replayJob jobId _ => some (Database.replayWrite jobId)

/-- The one write a call makes is the one it names. -/
theorem RepoCall.write?_of_writes {π : Type} {c : RepoCall π} {r : RepoResult} {w : Write}
    (h : c.writes r = [w]) : c.write? = some w := by
  cases c with
  | submitJob jobId key payload subject carrier =>
    rcases r with ⟨j, _ | _⟩ | _ | _ <;> simp [writes, submitWrites] at h
  | recordEvent w' =>
    rw [writes, List.cons.injEq] at h
    exact congrArg some h.1
  | replayJob jobId subject =>
    rcases r with _ | _ | (_ | state)
    · simp [writes] at h
    · simp [writes] at h
    · simp [writes] at h
    · rw [writes, List.cons.injEq] at h
      exact congrArg some h.1

namespace World

/-- Schema applied, nothing stored. -/
def empty : World := ⟨.empty, .empty, 0, []⟩

/-- The database and the accepted writes, without the writers. -/
def ledger (s : World) : Ledger SubmitRequest := ⟨s.db, s.history.map Prod.snd⟩

/-- The accepted writes of one job with their writers. -/
def writesOf (s : World) (j : Uuid) : List (Writer × Write) :=
  s.history.filter fun x ↦ x.2.jobId = j

/-- One transaction of the repository; one that raises changes nothing. -/
def transact (s : World) (who : Writer) (c : RepoCall SubmitRequest) : World :=
  match c.exec s.db s.now with
  | .error _ => s
  | .ok (r, db') => { s with db := db', history := s.history ++ (c.writes r).map fun w ↦ (who, w) }

/-- What a call of a worker does when it takes effect. -/
def effect (s : World) (who : Writer) : WorkerCall → World
  | .kv c => { s with kv := (c.perform s.kv s.now).2 }
  | .recordEvent w => s.transact who (.recordEvent w)
  | .execute _ _ | .ack | .nak _ | .term => s

/-- What the caller gets to see; `none` when the answer does not fit the call. -/
def reply (s : World) : (c : WorkerCall) → Answer → Option (Except WorkerExc c.Resp)
  | _, .failed _ => some (.error .fault)
  | .kv c, .served => some (.ok (c.perform s.kv s.now).1)
  | .recordEvent w, .served =>
    match s.db.recordEvent s.now w with
    | .error e => some (.error (.db e))
    | .ok (state, _) => some (.ok state)
  | .execute _ failureRate, .executed draw elapsedMs =>
    if 0 ≤ draw ∧ draw < 1 then some (execute failureRate draw elapsedMs) else none
  | .ack, .served | .nak _, .served | .term, .served => some (.ok ())
  | _, _ => none

/-- One call with its answer. -/
def serve (s : World) (who : Writer) (c : WorkerCall) (ans : Answer) : World :=
  if ans.takesEffect then s.effect who c else s

/-- `UPDATE outbox SET published_at = now() WHERE id = ANY($1)`. -/
def markPublished (s : World) (ids : List ℕ) : World :=
  { s with
    db := { s.db with
      outbox := s.db.outbox.modify fun id r ↦
        if id ∈ ids then { r with publishedAt := some s.now } else r } }

/-- Time passes. -/
def later (s : World) (ms : ℕ) : World := { s with now := s.now + ms }

/-! ### What a transaction does to a job -/

/-- What one step of the world does to one job. `A` says which writes, of which writers, the step
may make. -/
inductive JobStep (A : Writer → Write → Prop) (s s' : World) (j : Uuid) : Prop
  | unchanged (hjob : s'.db.job? j = s.db.job? j) (hrows : s'.db.eventRows j = s.db.eventRows j)
      (hwrites : s'.writesOf j = s.writesOf j)
  | created (who : Writer) (key : String) (payload : SubmitRequest) (id id' : ℕ)
      (habsent : s.db.job? j = none)
      (hjob : s'.db.job? j = some (Database.newRow s.now key payload))
      (hrows : s'.db.eventRows j = s.db.eventRows j ++
        [(id, ⟨j, .submitted, 0, .obj [], s.now⟩), (id', ⟨j, .enqueued, 0, .obj [], s.now⟩)])
      (hwrites : s'.writesOf j = s.writesOf j ++ (submitWrites j).map fun w ↦ (who, w))
  | accepted (who : Writer) (w : Write) (row : JobRow SubmitRequest) (next : JobState) (id : ℕ)
      (hmade : A who w) (hid : w.jobId = j) (hrow : s.db.job? j = some row)
      (hnext : transitions row.state w.event = some next)
      (htoken : row.fenceToken ≤ w.fenceToken.getD row.fenceToken)
      (hjob : s'.db.job? j = some (Database.acceptRow row s.now w next))
      (hrows : s'.db.eventRows j = s.db.eventRows j ++
        [(id, ⟨j, w.event, w.attempt, w.detail.getD (.obj []), s.now⟩)])
      (hwrites : s'.writesOf j = s.writesOf j ++ [(who, w)])

theorem JobStep.refl (A : Writer → Write → Prop) (s : World) (j : Uuid) : JobStep A s s j :=
  .unchanged rfl rfl rfl

theorem JobStep.mono {A B : Writer → Write → Prop} (h : ∀ who w, A who w → B who w) {s s' : World}
    {j : Uuid} (hs : JobStep A s s' j) : JobStep B s s' j := by
  rcases hs with ⟨h₁, h₂, h₃⟩ | ⟨who, key, payload, id, id', h₁, h₂, h₃, h₄⟩ |
    ⟨who, w, row, next, id, hA, h₁, h₂, h₃, h₄, h₅, h₆, h₇⟩
  · exact .unchanged h₁ h₂ h₃
  · exact .created who key payload id id' h₁ h₂ h₃ h₄
  · exact .accepted who w row next id (h who w hA) h₁ h₂ h₃ h₄ h₅ h₆ h₇

/-- The writes of a job grow by those of the new writes that are its own. -/
theorem writesOf_append (s : World) (db : Database SubmitRequest) (l : List (Writer × Write))
    (j : Uuid) : (⟨db, s.kv, s.now, s.history ++ l⟩ : World).writesOf j =
      s.writesOf j ++ l.filter fun x ↦ x.2.jobId = j :=
  List.filter_append ..

/-- **One transaction, one thing.** -/
theorem jobStep_transact (s : World) (who : Writer) (c : RepoCall SubmitRequest) (j : Uuid) :
    JobStep (fun who' w ↦ who' = who ∧ c.write? = some w) s (s.transact who c) j := by
  rw [transact]
  cases hx : c.exec s.db s.now with
  | error e => exact .refl _ s j
  | ok p =>
    obtain ⟨r, db'⟩ := p
    dsimp only
    rcases Ledger.exec_cases (s := s.ledger) hx with ⟨rfl, hw⟩ |
      ⟨jobId, key, payload, subject, carrier, -, habs, rfl, hw⟩ |
      ⟨w, row, next, hrow, ha, ht, hw, hdb⟩
    · rw [hw, List.map_nil, List.append_nil]
      exact .refl _ s j
    · rw [hw]
      by_cases hne : j = jobId
      · subst hne
        refine .created who key payload _ _ habs (Database.job?_create_self ..)
          (Database.eventRows_create_self ..) ?_
        rw [writesOf_append]
        simp [submitWrites]
      · refine .unchanged (Database.job?_create_ne _ _ _ _ _ _ hne)
          (Database.eventRows_create_ne _ _ _ _ _ _ hne) ?_
        rw [writesOf_append]
        simp [submitWrites, Ne.symm hne]
    · have hjob : db'.job? = (s.db.accept s.now w row next).job? := by
        rcases hdb with ⟨-, rfl⟩ | ⟨subject, -, -, rfl⟩ <;> rfl
      have hrows : db'.eventRows = (s.db.accept s.now w row next).eventRows := by
        rcases hdb with ⟨-, rfl⟩ | ⟨subject, -, -, rfl⟩ <;> rfl
      rw [hw]
      by_cases hne : j = w.jobId
      · subst hne
        refine .accepted who w row next _ ⟨rfl, RepoCall.write?_of_writes hw⟩ rfl hrow ha ht
          (by rw [hjob]; exact Database.job?_accept_self ..)
          (by rw [hrows]; exact Database.eventRows_accept_self ..) ?_
        rw [writesOf_append]
        simp
      · refine .unchanged (by rw [hjob]; exact Database.job?_accept_ne _ _ _ _ hne)
          (by rw [hrows]; exact Database.eventRows_accept_ne _ _ _ _ hne) ?_
        rw [writesOf_append]
        simp [Ne.symm hne]

/-! ### The ledger of the world -/

/-- The ledger's writes are the world's, without their writers. -/
theorem writesOf_ledger (s : World) (j : Uuid) :
    s.ledger.writesOf j = (s.writesOf j).map Prod.snd := by
  rw [Ledger.writesOf, ledger, List.filter_map, writesOf]
  rfl

theorem consistent_empty : empty.ledger.Consistent := Ledger.Consistent.empty

/-- Every transaction keeps the ledger consistent. -/
theorem consistent_transact {s : World} (h : s.ledger.Consistent) (who : Writer)
    (c : RepoCall SubmitRequest) : (s.transact who c).ledger.Consistent := by
  refine h.step (a := (s.now, c)) ?_
  rw [Ledger.step, transact]
  cases hx : c.exec s.db s.now with
  | error e => simp [ledger, hx]
  | ok p => simp [ledger, hx, Function.comp_def]

/-- The outbox plays no part. -/
theorem consistent_markPublished {s : World} (h : s.ledger.Consistent) (ids : List ℕ) :
    (s.markPublished ids).ledger.Consistent :=
  ⟨fun _ _ hj ↦ (h.projects _ _ hj).of_eq rfl rfl, h.absent, h.log_eq, h.last_token⟩

/-- So does every call of a worker, whatever its answer. -/
theorem consistent_serve {s : World} (h : s.ledger.Consistent) (who : Writer) (c : WorkerCall)
    (ans : Answer) : (s.serve who c ans).ledger.Consistent := by
  rw [serve]
  split
  · cases c with
    | recordEvent w => exact consistent_transact h who _
    | kv _ | execute _ _ | ack | nak _ | term => exact h
  · exact h

/-! ### What stays -/

@[simp] theorem kv_transact (s : World) (who : Writer) (c : RepoCall SubmitRequest) :
    (s.transact who c).kv = s.kv := by
  rw [transact]
  split <;> rfl

@[simp] theorem now_transact (s : World) (who : Writer) (c : RepoCall SubmitRequest) :
    (s.transact who c).now = s.now := by
  rw [transact]
  split <;> rfl

@[simp] theorem now_serve (s : World) (who : Writer) (c : WorkerCall) (ans : Answer) :
    (s.serve who c ans).now = s.now := by
  rw [serve]
  split
  · cases c <;> simp [effect]
  · rfl

/-- Only `record_event` touches a job. -/
theorem jobStep_serve (s : World) (who : Writer) (c : WorkerCall) (ans : Answer) (j : Uuid) :
    JobStep (fun who' w ↦ who' = who ∧ c = .recordEvent w) s (s.serve who c ans) j := by
  rw [serve]
  split
  · cases c with
    | recordEvent w =>
      refine (jobStep_transact s who (.recordEvent w) j).mono fun who' w' h ↦ ⟨h.1, ?_⟩
      rw [Option.some.inj h.2]
    | kv _ | execute _ _ | ack | nak _ | term => exact .unchanged rfl rfl rfl
  · exact .refl _ s j

/-- A key-value call leaves the database alone. -/
theorem db_serve_kv (s : World) (who : Writer) (c : KvCall ℕ) (ans : Answer) :
    (s.serve who (.kv c) ans).db = s.db ∧ (s.serve who (.kv c) ans).history = s.history := by
  rw [serve]
  split <;> exact ⟨rfl, rfl⟩

/-- And every other call leaves the store alone. -/
theorem kv_serve (s : World) (who : Writer) {c : WorkerCall} (hc : ∀ c', c ≠ .kv c')
    (ans : Answer) : (s.serve who c ans).kv = s.kv := by
  rw [serve]
  split
  · cases c with
    | kv c' => exact absurd rfl (hc c')
    | recordEvent w => exact kv_transact ..
    | execute _ _ | ack | nak _ | term => rfl
  · rfl

/-- A store call that is served does what the store does. -/
theorem kv_serve_served (s : World) (who : Writer) (c : KvCall ℕ) :
    (s.serve who (.kv c) .served).kv = (c.perform s.kv s.now).2 := rfl

/-- A store call takes effect or leaves the store alone, as its answer says. -/
theorem kv_serve_kv (s : World) (who : Writer) (c : KvCall ℕ) (ans : Answer) :
    (s.serve who (.kv c) ans).kv = if ans.takesEffect then (c.perform s.kv s.now).2 else s.kv := by
  rw [serve]
  split <;> rfl

/-- The database after an accepted write is the one the transaction returned. -/
theorem db_serve_of_ok {s : World} {w : Write} {state : JobState} {db : Database SubmitRequest}
    (h : s.db.recordEvent s.now w = .ok (state, db)) (who : Writer) :
    (s.serve who (.recordEvent w) .served).db = db := by
  rw [serve, if_pos (by rfl), effect, transact, RepoCall.exec, h]
  rfl

/-- An accepted write finds its job, is legal, and leaves the row as the repository does. -/
theorem job?_serve_of_ok {s : World} {w : Write} {state : JobState} {db : Database SubmitRequest}
    (h : s.db.recordEvent s.now w = .ok (state, db)) (who : Writer) :
    ∃ row, s.db.job? w.jobId = some row ∧ transitions row.state w.event = some state ∧
      (s.serve who (.recordEvent w) .served).db.job? w.jobId =
        some (Database.acceptRow row s.now w state) := by
  obtain ⟨row, hrow, hnext, -, rfl⟩ := Database.applyEvent_eq_ok.1 h
  exact ⟨row, hrow, hnext, by rw [db_serve_of_ok h, Database.job?_accept_self]⟩

theorem serve_of_error {s : World} {w : Write} {e : DbError}
    (h : s.db.recordEvent s.now w = .error e) (who : Writer) (ans : Answer) :
    s.serve who (.recordEvent w) ans = s := by
  rw [serve]
  split
  · rw [effect, transact, RepoCall.exec, h]
    rfl
  · rfl

/-! ### Who wrote what -/

/-- The accepted writes of one `handle` call. -/
def writesBy (s : World) (pid : ℕ) : List Write :=
  (s.history.filter fun x ↦ x.1 = .handle pid).map Prod.snd

/-- What a call adds to them. -/
def made (s : World) (c : WorkerCall) (ans : Answer) : List Write :=
  match c with
  | .recordEvent w =>
    match ans.takesEffect, s.db.recordEvent s.now w with
    | true, .ok _ => [w]
    | _, _ => []
  | _ => []

/-- A call's writes are those recorded under its number. -/
theorem mem_writesBy {s : World} {pid : ℕ} {w : Write} :
    w ∈ s.writesBy pid ↔ (Writer.handle pid, w) ∈ s.history := by
  simp [writesBy]

theorem mem_writesOf {s : World} {j : Uuid} {x : Writer × Write} :
    x ∈ s.writesOf j ↔ x ∈ s.history ∧ x.2.jobId = j := by
  simp [writesOf]

/-- A recorded event adds its write, if it is accepted. -/
theorem history_transact_recordEvent (s : World) (who : Writer) (w : Write) :
    (s.transact who (.recordEvent w)).history = s.history ++
      (s.made (.recordEvent w) .served).map fun w ↦ (who, w) := by
  rw [transact, RepoCall.exec, made]
  cases hx : s.db.recordEvent s.now w with
  | error e => simp [Except.map, Answer.takesEffect]
  | ok p => simp [Except.map, Answer.takesEffect, RepoCall.writes]

theorem history_serve (s : World) (who : Writer) (c : WorkerCall) (ans : Answer) :
    (s.serve who c ans).history = s.history ++ (s.made c ans).map fun w ↦ (who, w) := by
  rw [serve]
  split
  · next heff =>
    cases c with
    | recordEvent w =>
      rw [effect, history_transact_recordEvent, made, made, heff]
      rfl
    | kv | execute | ack | nak | term => exact (List.append_nil _).symm
  · next heff =>
    rw [Bool.not_eq_true] at heff
    cases c with
    | recordEvent w => simp [made, heff]
    | kv | execute | ack | nak | term => exact (List.append_nil _).symm

theorem writesBy_serve_self (s : World) (pid : ℕ) (c : WorkerCall) (ans : Answer) :
    (s.serve (.handle pid) c ans).writesBy pid = s.writesBy pid ++ s.made c ans := by
  rw [writesBy, history_serve, List.filter_append, List.map_append, writesBy, List.filter_map]
  simp [Function.comp_def]

theorem writesBy_serve_ne (s : World) {pid pid' : ℕ} (hne : pid' ≠ pid) (c : WorkerCall)
    (ans : Answer) : (s.serve (.handle pid') c ans).writesBy pid = s.writesBy pid := by
  rw [writesBy, history_serve, List.filter_append, List.map_append, writesBy, List.filter_map]
  simp [Function.comp_def, hne]

/-- What is new in the history is a write of this transaction. -/
theorem mem_history_transact {s : World} {who : Writer} {c : RepoCall SubmitRequest}
    {x : Writer × Write} (h : x ∈ (s.transact who c).history) :
    x ∈ s.history ∨ (x.1 = who ∧ ∃ r, x.2 ∈ c.writes r) := by
  rw [transact] at h
  split at h
  · exact .inl h
  · next r db' _ =>
    rcases List.mem_append.1 h with h | h
    · exact .inl h
    · obtain ⟨w, hw, rfl⟩ := List.mem_map.1 h
      exact .inr ⟨rfl, r, hw⟩

/-- The transactions of others write nothing in a call's name. -/
theorem writesBy_transact_ne (s : World) {who : Writer} {pid : ℕ} (hne : who ≠ .handle pid)
    (c : RepoCall SubmitRequest) : (s.transact who c).writesBy pid = s.writesBy pid := by
  rw [transact]
  split
  · rfl
  · simp [writesBy, List.filter_map, Function.comp_def, hne]

end World

end Orbiter
