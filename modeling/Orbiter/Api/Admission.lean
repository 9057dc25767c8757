import Orbiter.Db.Server
import Orbiter.Inputs

/-!
# Bounded admission on one replica

`AdmissionController`, and the handler of `POST /jobs` around it. A replica runs its handlers on one
event loop, so a handler is interrupted at its `await`s only: asking the controller and entering the
`try` is one step, and so is leaving the `await` on `submit_job` and running the `finally`. What
happens in between is up to the server, which other replicas, workers and operators use as well.

An `await` on `submit_job` ends by its return, once the transaction has committed, or by any
exception at any moment: no connection is to be had, the connection is lost before or after the
commit, a statement is refused, the request is cancelled. A transaction left open is rolled back.

## Contents

* `AdmissionController`, `Handler`, `SubmitAnswer` — the controller with its two checks, and a
  handler: at its `await`, or ended with an answer. The texts of the answers are the source's;
* `Replica` — the controller, the handlers and the server. `step_cases` reduces its steps to four as
  far as the slots go: a handler is rejected, enters, leaves, or none of these;
* `Replica.balanced_of_reachable` — **the slots are balanced in every reachable state**: the counter
  is the number of handlers inside their `try`, between zero and the capacity. So `release` never
  finds the counter at zero;
* `admission_accounting` — with it, what a client sees: a request is rejected exactly when as many
  handlers are inside as there are slots, a rejected request touches nothing, and nothing else turns
  into a rejection later.
-/

namespace Orbiter

/-! ### The controller -/

/-- What the controller raises. -/
inductive AdmissionError
  /-- `ValueError`: capacity must be >= 1. -/
  | capacity
  /-- `RuntimeError`: release() without a matching try_acquire(). -/
  | unmatchedRelease
  deriving DecidableEq, Repr

structure AdmissionController where
  capacity : ℤ
  retryAfterS : ℤ
  inFlight : ℤ
  one_le_capacity : 1 ≤ capacity

namespace AdmissionController

/-- The constructor. -/
def init (capacity retryAfterS : ℤ) : Except AdmissionError AdmissionController :=
  if h : capacity < 1 then .error .capacity
  else .ok ⟨capacity, retryAfterS, 0, by omega⟩

def available (c : AdmissionController) : ℤ := c.capacity - c.inFlight

def tryAcquire (c : AdmissionController) : Bool × AdmissionController :=
  if c.inFlight ≥ c.capacity then (false, c)
  else (true, { c with inFlight := c.inFlight + 1 })

def release (c : AdmissionController) : Except AdmissionError AdmissionController :=
  if c.inFlight ≤ 0 then .error .unmatchedRelease
  else .ok { c with inFlight := c.inFlight - 1 }

/-- A new controller admits as many as it has capacity for. -/
theorem eq_of_init {capacity retryAfterS : ℤ} {c : AdmissionController}
    (h : init capacity retryAfterS = .ok c) : c.capacity = capacity ∧ c.inFlight = 0 := by
  rw [init] at h
  split at h
  · exact absurd h (by simp)
  · obtain rfl := Except.ok.inj h
    exact ⟨rfl, rfl⟩

end AdmissionController

/-! ### The handler -/

structure SubmitResponse where
  id : String
  state : String
  created : Bool
  deriving DecidableEq

/-- `HTTPException`. -/
structure HttpException where
  statusCode : ℕ
  detail : String
  headers : List (String × String)
  deriving DecidableEq

/-- What can end the `await` on `submit_job` in place of its return. -/
inductive SubmitFailure
  | database (e : DbError)
  /-- No connection, or a connection lost before or after the commit. -/
  | connection
  /-- `CancelledError`: the client is gone, or the replica shuts down. -/
  | cancelled

/-- How a handler ends. -/
inductive SubmitAnswer
  | response (statusCode : ℕ) (body : SubmitResponse)
  | http (e : HttpException)
  | raised (e : SubmitFailure)
  /-- The `finally` raised. -/
  | admission (e : AdmissionError)

/-- A handler of `POST /jobs`. -/
inductive Handler
  /-- Admitted, at its `await`; `tx` is the transaction it has opened. -/
  | awaiting (body : SubmitRequest) (idempotencyKey : String) (tx : Option ℕ)
  | ended (answer : SubmitAnswer)

/-- How it has ended, if it has. -/
def Handler.answer? : Handler → Option SubmitAnswer
  | awaiting _ _ _ => none
  | ended answer => some answer

/-- Admitted, and still inside its `try`. -/
def Handler.isAdmitted (h : Handler) : Bool := h.answer?.isNone

/-- The 429 of a replica at capacity. -/
def capacityExceeded (retryAfterS : ℤ) : HttpException where
  statusCode := 429
  detail := "submission capacity exceeded; retry later"
  headers := [("Retry-After", toString retryAfterS)]

/-- Answered 429. -/
def Handler.isRejected (h : Handler) : Bool :=
  match h.answer? with
  | some (.http e) => e.statusCode = 429
  | _ => false

/-- The response to a submission. `submit_job` may return a job id of `None`, and `str(None)` is a
string. -/
def accepted (jobId : Option Uuid) (created : Bool) : SubmitAnswer :=
  .response (if created then 201 else 200)
    ⟨(jobId.map Uuid.str).getD "None", "queued", created⟩

/-! ### The replica -/

/-- A replica, and the database it shares. -/
structure Replica where
  admission : AdmissionController
  server : Server SubmitRequest
  /-- Every handler there has been. -/
  handlers : List Handler

inductive ReplicaStep
  /-- A new handler asks the controller and, if admitted, calls `submit_job`. -/
  | submit (body : SubmitRequest) (idempotencyKey : String)
  /-- `submit_job` has a connection and opens its transaction. -/
  | begin (h : ℕ) (now : ℕ) (jobId : Uuid) (carrier : Carrier)
  /-- The database goes on, for this handler or for anybody else. -/
  | server (a : ServerStep SubmitRequest)
  /-- `submit_job` returns. -/
  | returns (h : ℕ)
  /-- An exception comes out of the `await`. -/
  | raises (h : ℕ) (e : SubmitFailure)

namespace Replica

/-- The handler leaves its `await`: the `finally` runs, and then what is left of the handler. -/
def leave (r : Replica) (h : ℕ) (answer : SubmitAnswer) : Replica :=
  match r.admission.release with
  | .error e => { r with handlers := r.handlers.set h (.ended (.admission e)) }
  | .ok c => { r with admission := c, handlers := r.handlers.set h (.ended answer) }

/-- What the open transaction of a handler comes to when the handler leaves it. -/
def rollback (r : Replica) : Option ℕ → Replica
  | none => r
  | some tid => { r with server := (r.server.step (.die tid)).getD r.server }

/-- What the transaction of a handler has returned. -/
def submitted? (r : Replica) (tid : ℕ) : Option (Option Uuid × Bool) :=
  match r.server.txs[tid]? with
  | some ⟨_, _, .finished (.ok (.submitted jobId created)), .committed, _, _⟩ =>
    some (jobId, created)
  | _ => none

/-- The step function. -/
def step (cfg : Settings) (r : Replica) : ReplicaStep → Option Replica
  | .submit body key =>
    match r.admission.tryAcquire with
    | (false, c) => some { r with
        admission := c
        handlers := r.handlers ++ [.ended (.http (capacityExceeded c.retryAfterS))] }
    | (true, c) => some { r with
        admission := c
        handlers := r.handlers ++ [.awaiting body key none] }
  | .begin h now jobId carrier =>
    match r.handlers[h]? with
    | some (.awaiting body key none) =>
      (r.server.step (.begin now (.submitJob jobId key body cfg.subjectJobs carrier))).map
        fun srv ↦ { r with
          server := srv
          handlers := r.handlers.set h (.awaiting body key (some r.server.txs.length)) }
    | _ => none
  | .server a => (r.server.step a).map fun srv ↦ { r with server := srv }
  | .returns h =>
    match r.handlers[h]? with
    | some (.awaiting _ _ (some tid)) =>
      (r.submitted? tid).map fun result ↦ r.leave h (accepted result.1 result.2)
    | _ => none
  | .raises h e =>
    match r.handlers[h]? with
    | some (.awaiting _ _ tx) => some ((r.rollback tx).leave h (.raised e))
    | _ => none

/-- All runs of a replica with this capacity, from any state of the database. -/
def system (cfg : Settings) (capacity retryAfterS : ℤ) : TransitionSystem Replica ReplicaStep where
  init r := ∃ c srv, AdmissionController.init capacity retryAfterS = .ok c ∧ r = ⟨c, srv, []⟩
  step := step cfg

/-! ### What a step does -/

/-- The answers, handler by handler. -/
def answers (r : Replica) : List (Option SubmitAnswer) := r.handlers.map Handler.answer?

/-- How many handlers are inside their `try`. -/
def inFlight (r : Replica) : ℕ := r.handlers.countP Handler.isAdmitted

/-- The handlers inside are those without an answer. -/
theorem inFlight_eq_countP (r : Replica) : r.inFlight = r.answers.countP Option.isNone := by
  rw [inFlight, answers, List.countP_map]
  rfl

theorem answers_set (r : Replica) (i : ℕ) (x : Handler) :
    (r.handlers.set i x).map Handler.answer? = r.answers.set i x.answer? :=
  List.map_set

/-- A handler that goes on inside its `try` answers nothing. -/
theorem answers_set_awaiting {r : Replica} {i : ℕ} {body : SubmitRequest} {key : String}
    {tx : Option ℕ} (hi : r.handlers[i]? = some (.awaiting body key tx)) (tx' : Option ℕ) :
    (r.handlers.set i (.awaiting body key tx')).map Handler.answer? = r.answers := by
  have hnone : r.answers[i]? = some none := by simp [answers, hi, Handler.answer?]
  obtain ⟨hlt, hget⟩ := List.getElem?_eq_some_iff.1 hnone
  calc (r.handlers.set i (.awaiting body key tx')).map Handler.answer?
      = r.answers.set i none := answers_set r i _
    _ = r.answers.set i r.answers[i] := by rw [hget]
    _ = r.answers := List.set_getElem_self hlt

/-- **The steps.** Somebody is turned away, somebody is let in, nobody comes or goes, or a handler
leaves its `try`. -/
theorem step_cases {cfg : Settings} {r r' : Replica} {a : ReplicaStep}
    (h : r.step cfg a = some r') :
    (∃ body key, a = .submit body key ∧ r.admission.capacity ≤ r.admission.inFlight ∧
      r' = { r with handlers := r.handlers ++
        [.ended (.http (capacityExceeded r.admission.retryAfterS))] }) ∨
    (∃ body key, a = .submit body key ∧ r.admission.inFlight < r.admission.capacity ∧
      r' = { r with
        admission := { r.admission with inFlight := r.admission.inFlight + 1 }
        handlers := r.handlers ++ [.awaiting body key none] }) ∨
    ((∀ body key, a ≠ .submit body key) ∧ r'.admission = r.admission ∧ r'.answers = r.answers) ∨
    (∃ srv i answer, (∀ body key, a ≠ .submit body key) ∧ r.answers[i]? = some none ∧
      (∀ e, answer ≠ .admission e) ∧ (∀ e, answer ≠ .http e) ∧
      r' = { r with server := srv }.leave i answer) := by
  cases a with
  | submit body key =>
    rw [step, AdmissionController.tryAcquire] at h
    by_cases hc : r.admission.inFlight ≥ r.admission.capacity
    · rw [if_pos hc] at h
      exact .inl ⟨body, key, rfl, hc, (Option.some.inj h).symm⟩
    · rw [if_neg hc] at h
      exact .inr (.inl ⟨body, key, rfl, by omega, (Option.some.inj h).symm⟩)
  | begin i now jobId carrier =>
    rw [step] at h
    split at h
    · next body key hi =>
      obtain ⟨srv, -, rfl⟩ := Option.map_eq_some_iff.1 h
      exact .inr (.inr (.inl ⟨by simp, rfl, answers_set_awaiting hi _⟩))
    · exact absurd h (by simp)
  | server b =>
    obtain ⟨srv, -, rfl⟩ := Option.map_eq_some_iff.1 h
    exact .inr (.inr (.inl ⟨by simp, rfl, rfl⟩))
  | returns i =>
    rw [step] at h
    split at h
    · next body key tid hi =>
      obtain ⟨result, -, rfl⟩ := Option.map_eq_some_iff.1 h
      exact .inr (.inr (.inr ⟨r.server, i, _, by simp, by simp [answers, hi, Handler.answer?],
        by simp [accepted], by simp [accepted], rfl⟩))
    · exact absurd h (by simp)
  | raises i e =>
    rw [step] at h
    split at h
    · next body key tx hi =>
      obtain rfl := Option.some.inj h
      refine .inr (.inr (.inr ⟨(r.rollback tx).server, i, .raised e, by simp,
        by simp [answers, hi, Handler.answer?], by simp, by simp, ?_⟩))
      cases tx <;> rfl
    · exact absurd h (by simp)

/-! ### The balance -/

/-- The counter counts, nobody has been let in beyond capacity, and no `finally` has raised. -/
structure Balanced (capacity : ℤ) (r : Replica) : Prop where
  capacity_eq : r.admission.capacity = capacity
  inFlight_eq : r.admission.inFlight = r.inFlight
  inFlight_le : r.admission.inFlight ≤ capacity
  released : ∀ e, some (.admission e) ∉ r.answers

/-- A handler inside its `try` holds a slot, so its `finally` does not raise. -/
theorem Balanced.release_eq {capacity : ℤ} {r : Replica} (h : r.Balanced capacity) {i : ℕ}
    (hi : r.answers[i]? = some none) :
    r.admission.release = .ok { r.admission with inFlight := r.admission.inFlight - 1 } := by
  have hpos : 0 < r.inFlight := by
    rw [inFlight_eq_countP]
    exact List.countP_pos_iff.2 ⟨none, List.mem_of_getElem? hi, rfl⟩
  have heq := h.inFlight_eq
  rw [AdmissionController.release, if_neg (by omega)]

/-- A handler that leaves its `try` gives its slot back. -/
theorem Balanced.leave {capacity : ℤ} {r : Replica} (h : r.Balanced capacity) {i : ℕ}
    {answer : SubmitAnswer} (hi : r.answers[i]? = some none) (ha : ∀ e, answer ≠ .admission e) :
    (r.leave i answer).Balanced capacity := by
  have hrel := h.release_eq hi
  obtain ⟨hcap, heq, hle, hno⟩ := h
  have hans : (r.leave i answer).answers = r.answers.set i (some answer) := by
    rw [Replica.leave, hrel]
    exact answers_set r i (.ended answer)
  have hadm : (r.leave i answer).admission =
      { r.admission with inFlight := r.admission.inFlight - 1 } := by
    rw [Replica.leave, hrel]
  refine ⟨by rw [hadm, hcap], ?_, by rw [hadm]; simp; omega, fun e he ↦ ?_⟩
  · obtain ⟨hlt, hget⟩ := List.getElem?_eq_some_iff.1 hi
    have hpos : 0 < r.answers.countP Option.isNone :=
      List.countP_pos_iff.2 ⟨none, List.mem_of_getElem? hi, rfl⟩
    rw [inFlight_eq_countP] at heq ⊢
    rw [hans, List.countP_set hlt, hadm, heq, hget]
    simp
    omega
  · rw [hans] at he
    rcases List.mem_or_eq_of_mem_set he with he | he
    · exact hno e he
    · exact ha e (Option.some.inj he).symm

/-- **Every step keeps the slots balanced.** -/
theorem Balanced.step {cfg : Settings} {capacity : ℤ} {r r' : Replica} {a : ReplicaStep}
    (h : r.Balanced capacity) (hs : r.step cfg a = some r') : r'.Balanced capacity := by
  obtain ⟨body, key, -, -, rfl⟩ | ⟨body, key, -, hlt, rfl⟩ | ⟨-, hadm, hans⟩ |
    ⟨srv, i, answer, -, hi, ha, -, rfl⟩ := step_cases hs
  · obtain ⟨hcap, heq, hle, hno⟩ := h
    refine ⟨hcap, ?_, hle, ?_⟩
    · simpa [inFlight, Handler.isAdmitted, Handler.answer?] using heq
    · simpa [answers, Handler.answer?] using hno
  · obtain ⟨hcap, heq, hle, hno⟩ := h
    refine ⟨hcap, ?_, by simp only; omega, ?_⟩
    · simpa [inFlight, Handler.isAdmitted, Handler.answer?] using heq
    · simpa [answers, Handler.answer?] using hno
  · obtain ⟨hcap, heq, hle, hno⟩ := h
    rw [inFlight_eq_countP] at heq
    exact ⟨by rw [hadm, hcap], by rw [hadm, heq, inFlight_eq_countP, hans], by rw [hadm]; exact hle,
      by rw [hans]; exact hno⟩
  · exact Balanced.leave (r := { r with server := srv }) ⟨h.1, h.2, h.3, h.4⟩ hi ha

/-- The slots are balanced in every reachable state. -/
theorem balanced_of_reachable {cfg : Settings} {capacity retryAfterS : ℤ}
    {G : Replica → ReplicaStep → Prop} {r : Replica}
    (h : (system cfg capacity retryAfterS).Reachable G r) : r.Balanced capacity := by
  refine h.induct ?_ fun _ _ _ _ ih _ hs ↦ ih.step hs
  rintro r ⟨c, srv, hc, rfl⟩
  have hcap := c.one_le_capacity
  obtain ⟨rfl, h0⟩ := AdmissionController.eq_of_init hc
  exact ⟨rfl, by simpa [inFlight] using h0, by simp only [h0]; omega, by simp [answers]⟩

/-- A handler was rejected when its answer is status 429. -/
theorem any_isRejected_iff {r : Replica} {i : ℕ} : r.handlers[i]?.any Handler.isRejected = true ↔
    ∃ e, r.answers[i]? = some (some (.http e)) ∧ e.statusCode = 429 := by
  rw [answers, List.getElem?_map]
  cases r.handlers[i]? with
  | none => simp
  | some x =>
    rw [Option.any_some, Option.map_some, Handler.isRejected]
    rcases x.answer? with - | (_ | e | _ | _) <;> simp

/-- A handler leaves its `try` with any answer but a 429. -/
theorem answers_leave {r : Replica} {i k : ℕ} {answer : SubmitAnswer} {e : HttpException}
    (ha : ∀ e, answer ≠ .http e) (h : (r.leave i answer).answers[k]? = some (some (.http e))) :
    r.answers[k]? = some (some (.http e)) := by
  have hset : ∃ answer', (∀ e, answer' ≠ .http e) ∧
      (r.leave i answer).answers = r.answers.set i (some answer') := by
    rw [leave]
    cases r.admission.release with
    | error x => exact ⟨.admission x, by simp, answers_set r i _⟩
    | ok c => exact ⟨answer, ha, answers_set r i _⟩
  obtain ⟨answer', ha', hans⟩ := hset
  rw [hans, List.getElem?_set] at h
  split at h
  · split at h
    · exact absurd (Option.some.inj (Option.some.inj h)) (ha' e)
    · exact absurd h (by simp)
  · exact h

/-- A 429 is the answer to a handler that starts. -/
theorem rejected_of_step {cfg : Settings} {r r' : Replica} {a : ReplicaStep}
    (hs : r.step cfg a = some r') {i : ℕ} (hi : r'.handlers[i]?.any Handler.isRejected = true) :
    r.handlers[i]?.any Handler.isRejected = true ∨
      i = r.handlers.length ∧ ∃ body key, a = .submit body key := by
  obtain ⟨body, key, ha, -, rfl⟩ | ⟨body, key, ha, -, rfl⟩ | ⟨-, -, hans⟩ |
    ⟨srv, k, answer, -, -, -, hno, rfl⟩ := step_cases hs
  · simp only [List.getElem?_append, List.getElem?_singleton] at hi
    split at hi
    · exact .inl hi
    · split at hi
      · exact .inr ⟨by omega, body, key, ha⟩
      · exact absurd hi (by simp)
  · simp only [List.getElem?_append, List.getElem?_singleton] at hi
    split at hi
    · exact .inl hi
    · split at hi
      · exact absurd hi (by simp [Handler.isRejected, Handler.answer?])
      · exact absurd hi (by simp)
  · rw [any_isRejected_iff, hans, ← any_isRejected_iff] at hi
    exact .inl hi
  · obtain ⟨e, he, hcode⟩ := any_isRejected_iff.1 hi
    have hbefore := answers_leave (r := { r with server := srv }) hno he
    exact .inl (any_isRejected_iff.2 ⟨e, hbefore, hcode⟩)

/-- A handler that starts is turned away exactly when all slots are taken, and then nothing
changes. -/
theorem Balanced.submit {cfg : Settings} {capacity : ℤ} {r : Replica} (h : r.Balanced capacity)
    (body : SubmitRequest) (key : String) : ∃ r', r.step cfg (.submit body key) = some r' ∧
      (r'.handlers[r.handlers.length]?.any Handler.isRejected = true ↔
        (r.inFlight : ℤ) = capacity) ∧
      ((r.inFlight : ℤ) = capacity → r'.admission = r.admission ∧ r'.server = r.server) := by
  obtain ⟨hcap, heq, hle, -⟩ := h
  rw [Replica.step, AdmissionController.tryAcquire]
  by_cases hc : r.admission.inFlight ≥ r.admission.capacity
  · rw [if_pos hc]
    refine ⟨_, rfl, ⟨fun _ ↦ by omega, fun _ ↦ ?_⟩, fun _ ↦ ⟨rfl, rfl⟩⟩
    simp [Handler.isRejected, Handler.answer?, capacityExceeded]
  · rw [if_neg hc]
    refine ⟨_, rfl, ⟨fun hx ↦ ?_, fun hx ↦ by omega⟩, fun hx ↦ by omega⟩
    exact absurd hx (by simp [Handler.isRejected, Handler.answer?])

/-- **Slots do not leak.** In every reachable state the counter is the number of handlers inside
their `try` and at most the capacity; a handler is answered 429 exactly if it starts with all slots
taken, and then nothing has changed; no `release` raises; and when every handler has ended, all
slots are free. -/
theorem admission_accounting {cfg : Settings} {capacity retryAfterS : ℤ} {r : Replica}
    (h : (system cfg capacity retryAfterS).Reachable TransitionSystem.anyStep r) :
    (r.admission.inFlight = r.handlers.countP Handler.isAdmitted ∧
      0 ≤ r.admission.inFlight ∧ r.admission.inFlight ≤ capacity) ∧
    (∀ body key, ∃ r', r.step cfg (.submit body key) = some r' ∧
      (r'.handlers[r.handlers.length]?.any Handler.isRejected = true ↔
        (r.handlers.countP Handler.isAdmitted : ℤ) = capacity) ∧
      ((r.handlers.countP Handler.isAdmitted : ℤ) = capacity →
        r'.admission = r.admission ∧ r'.server = r.server)) ∧
    (∀ a r' i, r.step cfg a = some r' → r'.handlers[i]?.any Handler.isRejected = true →
      r.handlers[i]?.any Handler.isRejected = true ∨
        i = r.handlers.length ∧ ∃ body key, a = .submit body key) ∧
    ((∀ x ∈ r.handlers, x.isAdmitted = true → ∃ c, r.admission.release = .ok c) ∧
      ∀ e, Handler.ended (.admission e) ∉ r.handlers) ∧
    ((∀ x ∈ r.handlers, x.isAdmitted = false) → r.admission.inFlight = 0) := by
  have hb := balanced_of_reachable h
  refine ⟨⟨hb.inFlight_eq, ?_, hb.inFlight_le⟩, hb.submit, fun a r' i hs hi ↦
    rejected_of_step hs hi, ⟨fun x hx hadm ↦ ?_, fun e he ↦ ?_⟩, fun hend ↦ ?_⟩
  · rw [hb.inFlight_eq]
    omega
  · obtain ⟨i, hi⟩ := List.getElem?_of_mem hx
    refine ⟨_, hb.release_eq (i := i) ?_⟩
    rw [answers, List.getElem?_map, hi, Option.map_some, Option.isNone_iff_eq_none.1 hadm]
  · exact hb.released e (List.mem_map.2 ⟨_, he, rfl⟩)
  · rw [hb.inFlight_eq, inFlight, List.countP_eq_zero.2 fun x hx ↦ by simp [hend x hx]]
    rfl

/-- A replica with one slot: the first request opens its transaction while the second is turned
away. -/
def oneSlotRun : List ReplicaStep :=
  [.submit (.healthy 10 ten_le_limit) "a", .begin 0 0 ⟨1⟩ [],
    .submit (.healthy 10 ten_le_limit) "b"]

/-- One slot: the first handler holds it, the second was rejected, and so is any third. -/
theorem admission_accounting_oneSlot :
    ∃ r : Replica, (system {} 1 1).Reachable TransitionSystem.anyStep r ∧
      r.handlers.length = 2 ∧ r.admission.inFlight = 1 ∧
      ∀ body key, ∃ r', r.step {} (.submit body key) = some r' ∧
        r'.handlers[2]?.any Handler.isRejected = true ∧ r'.server = r.server := by
  have hrun : ((system {} 1 1).exec ⟨⟨1, 1, 0, by decide⟩, Server.empty, []⟩ oneSlotRun).any
      (fun r ↦ r.handlers.length = 2 && r.handlers.countP Handler.isAdmitted = 1) = true := by
    rfl
  obtain ⟨r, hl, hr⟩ := TransitionSystem.exists_leads_of_exec hrun
  have hreach : (system {} 1 1).Reachable TransitionSystem.anyStep r :=
    ⟨_, ⟨⟨1, 1, 0, by decide⟩, Server.empty, rfl, rfl⟩, hl⟩
  simp only [Bool.and_eq_true, decide_eq_true_eq] at hr
  obtain ⟨⟨hcount, -, -⟩, hsubmit, -⟩ := admission_accounting hreach
  refine ⟨r, hreach, hr.1, by rw [hcount, hr.2]; rfl, fun body key ↦ ?_⟩
  obtain ⟨r', hs, hbusy, hsame⟩ := hsubmit body key
  rw [hr.1] at hbusy
  rw [hr.2] at hbusy hsame
  exact ⟨r', hs, hbusy.2 rfl, (hsame rfl).2⟩

end Replica

end Orbiter
