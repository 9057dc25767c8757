import Orbiter.Db.Postings
import Orbiter.Fleet.Fencing
import Orbiter.Foundation.Records

/-!
# How often a job is executed

A `handle` call records `started` at most once, at the step that takes it out of its first stage. So
the events of a job are counted by its calls, and what a call may record is decided by the number of
its delivery.

* `started_le_calls`, `startedCalls_le_deliveries` — a job has at most as many `started` events as
  calls that have started, and at most as many of these as deliveries;
* `attempt_of_makes`, `attempts_of_reachable` — `requeued` is recorded below the delivery limit
  only, and `failed` at it only, so both can be read off a job's log;
* `log_step` — what one step adds to a job's log;
* `outboxRows_le` — a job has as many outbox rows as postings, that is one and one more for each
  replay.

How many deliveries there are is the broker's affair, and what bounds them is in `Pipeline.Bounded`.
-/

namespace Orbiter

open Worker

/-- A move never leads back to the first stage. -/
theorem Move.stage_ne_before {cfg : Settings} {d : Delivery} {s : World} {pc pc' : HandlePc}
    {c : WorkerCall} {ans : Answer} (hm : Move cfg d s pc c ans pc') (h : pc.stage ≠ .before) :
    pc'.stage ≠ .before :=
  fun h' ↦ h (hm.before_of_before h').1

/-- Recording `started` takes a call out of its first stage, whatever comes of it. -/
theorem Move.stage_of_recordStarted {cfg : Settings} {d : Delivery} {s : World} {pc' : HandlePc}
    {c : WorkerCall} {ans : Answer} {l : Lease} (hm : Move cfg d s (.recordStarted l) c ans pc') :
    pc'.stage ≠ .before := by
  cases hm with
  | fault hv applied => simp [HandlePc.stage_onFault]
  | started l he => simp [HandlePc.stage]
  | startRefused l he => simp [HandlePc.stage_catching_db]

/-- A control point that is about to requeue is below the delivery limit, one that is about to fail
is at it. -/
def HandlePc.WithinLimit (cfg : Settings) (d : Delivery) : HandlePc → Prop
  | recordRequeued _ _ => d.attempt < cfg.maxDeliver
  | recordFailed _ _ => ¬ d.attempt < cfg.maxDeliver
  | _ => True

theorem HandlePc.withinLimit_start (cfg : Settings) (d : Delivery) :
    (HandlePc.start d).WithinLimit cfg d := by
  rw [start]
  split <;> trivial

theorem Move.withinLimit {cfg : Settings} {d : Delivery} {s : World} {pc pc' : HandlePc}
    {c : WorkerCall} {ans : Answer} (hm : Move cfg d s pc c ans pc') : pc'.WithinLimit cfg d := by
  cases hm with
  | fault hv applied => cases pc <;> trivial
  | @startRefused l e he | @completionRefused l result e he => cases e <;> trivial
  | failedRetryable l h₀ h₁ ms h message ha => exact ha
  | failedLast l h₀ h₁ ms h message ha => exact ha
  | _ => trivial

namespace Fleet

variable {cfg : Settings} {f f' : Fleet} {a : FleetStep}

/-- What the services write are events `record_event` is called with, and replays. -/
theorem event_of_makes {who : Writer} {w : Write} (h : f.Makes cfg a who w) :
    w.event.isRecorded = true ∨ w.event = .replayed := by
  cases a with
  | replay jobId =>
    obtain ⟨-, rfl⟩ := h
    exact .inr rfl
  | deadLetter jobId streamSeq deliveries =>
    obtain ⟨-, rfl⟩ := h
    exact .inl rfl
  | handle pid ans =>
    obtain ⟨-, hc, -, hcall⟩ := h
    obtain ⟨-, l, ⟨-, rfl⟩ | ⟨result, -, rfl⟩ | ⟨message, -, rfl⟩ | ⟨message, -, rfl⟩⟩ :=
      HandleCall.recordEvent_of_call? hcall <;> exact .inl rfl
  | submit | publish | start | die | tick | vanish => exact h.elim

/-- The log of a job after a step. -/
theorem log_step (h : f.step cfg a = some f') (j : Uuid) :
    f'.world.db.log j = f.world.db.log j ∨
    (f.world.db.job? j = none ∧
      f'.world.db.log j = f.world.db.log j ++ [.submitted, .enqueued]) ∨
    ∃ who w, f.Makes cfg a who w ∧ w.jobId = j ∧
      f'.world.db.log j = f.world.db.log j ++ [w.event] := by
  rcases jobStep h j with ⟨-, hrows, -⟩ | ⟨who, key, payload, id, id', habs, -, hrows, -⟩ |
    ⟨who, w, row, next, id, hmade, hid, -, -, -, -, hrows, -⟩
  · exact .inl (by rw [Database.log, hrows, Database.log])
  · refine .inr (.inl ⟨habs, ?_⟩)
    rw [Database.log, hrows, List.map_append, Database.log]
    rfl
  · refine .inr (.inr ⟨who, w, hmade, hid, ?_⟩)
    rw [Database.log, hrows, List.map_append, Database.log]
    rfl

/-- What the calls are for, in the order they were begun. -/
def deliveries (f : Fleet) : List Delivery := f.calls.map HandleCall.delivery

/-- Deliveries begin, and stay. -/
theorem deliveries_step (h : f.step cfg a = some f') :
    (f'.deliveries = f.deliveries ∧ ∀ d, a ≠ .start d) ∨
      ∃ d, a = .start d ∧ f'.deliveries = f.deliveries ++ [d] := by
  cases a with
  | start d =>
    obtain rfl := Option.some.inj h
    exact .inr ⟨d, rfl, List.map_append⟩
  | die pid =>
    obtain rfl := Option.some.inj h
    exact .inl ⟨List.map_modify_of_eq fun _ ↦ rfl, by simp⟩
  | handle pid ans =>
    obtain ⟨hc, c, pc, hget, -, -, rfl⟩ := stepHandle_eq_some h
    exact .inl ⟨List.map_set_of_eq hget rfl, by simp⟩
  | submit | replay | deadLetter | publish | tick | vanish =>
    obtain rfl := Option.some.inj h
    exact .inl ⟨rfl, by simp⟩

/-! ### Calls that have started -/

/-- A call for `j` that is past its first stage. -/
def hasStarted (j : Uuid) (hc : HandleCall) : Bool :=
  hc.delivery.jobId = j && hc.pc.stage ≠ .before

/-- The calls for `j` that are past their first stage. -/
def startedCalls (f : Fleet) (j : Uuid) : ℕ := f.calls.countP (hasStarted j)

theorem hasStarted_advance {hc : HandleCall} {s' : World} {c : WorkerCall} {ans : Answer}
    {pc : HandlePc} (hm : Move cfg hc.delivery f.world hc.pc c ans pc) {j : Uuid}
    (h : hasStarted j hc = true) : hasStarted j (hc.advance f.world s' c pc) = true := by
  simp only [hasStarted, Bool.and_eq_true, decide_eq_true_eq] at h ⊢
  exact ⟨h.1, hm.stage_ne_before h.2⟩

/-- No step takes a call back. -/
theorem startedCalls_le (h : f.step cfg a = some f') (j : Uuid) :
    f.startedCalls j ≤ f'.startedCalls j := by
  cases a with
  | start d =>
    obtain rfl := Option.some.inj h
    rw [startedCalls, startedCalls, List.countP_append]
    exact Nat.le_add_right ..
  | die pid =>
    obtain rfl := Option.some.inj h
    refine (List.countP_modify (p := hasStarted j) fun hc ↦ ?_).ge
    rfl
  | handle pid ans =>
    obtain ⟨hc, c, pc, hget, -, hmove, rfl⟩ := stepHandle_eq_some h
    exact List.countP_le_countP_set hget (hasStarted_advance hmove)
  | submit | replay | deadLetter | publish | tick | vanish =>
    obtain rfl := Option.some.inj h
    exact le_rfl

/-- A step that may record `started` takes a call out of its first stage. -/
theorem startedCalls_of_makes (h : f.step cfg a = some f') {who : Writer} {w : Write}
    (hmakes : f.Makes cfg a who w) (hev : w.event = .started) :
    f'.startedCalls w.jobId = f.startedCalls w.jobId + 1 := by
  cases a with
  | replay jobId =>
    obtain ⟨-, rfl⟩ := hmakes
    contradiction
  | deadLetter jobId streamSeq deliveries =>
    obtain ⟨-, rfl⟩ := hmakes
    contradiction
  | handle pid ans =>
    obtain ⟨-, hc₀, hget₀, hcall⟩ := hmakes
    obtain ⟨hc, c, pc, hget, -, hmove, rfl⟩ := stepHandle_eq_some h
    obtain rfl := Option.some.inj (hget₀.symm.trans hget)
    obtain ⟨-, l, ⟨hpc, rfl⟩ | ⟨result, -, rfl⟩ | ⟨message, -, rfl⟩ | ⟨message, -, rfl⟩⟩ :=
      HandleCall.recordEvent_of_call? hcall
    · refine List.countP_set_of_not hget ?_ ?_
      · simp [hasStarted, hpc, HandlePc.stage]
      · rw [hpc] at hmove
        simpa [hasStarted, startedWrite, HandleCall.advance] using hmove.stage_of_recordStarted
    all_goals contradiction
  | submit | publish | start | die | tick | vanish => exact hmakes.elim

/-- **A job is started at most once by each call.** -/
theorem started_le_calls (h : (system cfg).Reachable TransitionSystem.anyStep f) (j : Uuid) :
    (f.world.db.log j).count .started ≤ f.startedCalls j := by
  refine h.induct (I := fun f ↦ (f.world.db.log j).count .started ≤ f.startedCalls j)
    (fun f hf ↦ ?_) fun f a f' hr ih _ hs ↦ ?_
  · rw [hf]
    exact Nat.zero_le _
  · have hle := startedCalls_le hs j
    rcases log_step hs j with hlog | ⟨-, hlog⟩ | ⟨who, w, hmade, hid, hlog⟩
    · rw [hlog]
      exact ih.trans hle
    · rw [hlog, List.count_append]
      exact ih.trans hle
    · rw [hlog, List.count_append]
      by_cases hev : w.event = .started
      · rw [← hid, startedCalls_of_makes hs hmade hev, hid, hev]
        exact Nat.succ_le_succ ih
      · rw [List.count_singleton, if_neg (by simpa using hev)]
        exact ih.trans hle

/-- A job has no more calls that have started than deliveries. -/
theorem startedCalls_le_deliveries (f : Fleet) (j : Uuid) :
    f.startedCalls j ≤ (f.deliveries.filter fun d ↦ d.jobId = j).length := by
  rw [deliveries, List.filter_map, List.length_map, ← List.countP_eq_length_filter]
  refine List.countP_mono_left fun hc _ hs ↦ ?_
  exact (Bool.and_eq_true_iff.1 hs).1

/-! ### Below and at the delivery limit -/

/-- Every call is within its limit in every reachable state. -/
theorem withinLimit_of_reachable (h : (system cfg).Reachable TransitionSystem.anyStep f) {pid : ℕ}
    {hc : HandleCall} (hget : f.calls[pid]? = some hc) : hc.pc.WithinLimit cfg hc.delivery := by
  refine h.induct (I := fun f ↦ ∀ (pid : ℕ) (hc : HandleCall), f.calls[pid]? = some hc →
    hc.pc.WithinLimit cfg hc.delivery) (fun f hf ↦ ?_) (fun f a f' _ ih _ hs ↦ ?_) pid hc hget
  · rw [hf]
    exact fun pid hc hget ↦ absurd hget (by simp)
  · intro pid hc' hget'
    rcases step_call hs hget' with ⟨hget, -⟩ | ⟨hc, hget, -, rfl⟩ | ⟨-, d, -, rfl⟩ |
      ⟨hc, ans, c, pc, -, hget, -, hmove, -, rfl⟩
    · exact ih pid hc' hget
    · exact ih pid hc hget
    · exact HandlePc.withinLimit_start cfg d
    · exact hmove.withinLimit

/-- The attempt a write names. -/
theorem attempt_of_makes (h : (system cfg).Reachable TransitionSystem.anyStep f) {who : Writer}
    {w : Write} (hmakes : f.Makes cfg a who w) :
    (w.event = .failed → (cfg.maxDeliver : ℤ) ≤ w.attempt) ∧
      (w.event = .requeued → w.attempt < (cfg.maxDeliver : ℤ)) := by
  cases a with
  | replay jobId =>
    obtain ⟨-, rfl⟩ := hmakes
    simp [Database.replayWrite]
  | deadLetter jobId streamSeq deliveries =>
    obtain ⟨-, rfl⟩ := hmakes
    simp [deadLetterWrite]
  | handle pid ans =>
    obtain ⟨-, hc, hget, hcall⟩ := hmakes
    have hlimit := withinLimit_of_reachable h hget
    obtain ⟨-, l, ⟨-, rfl⟩ | ⟨result, -, rfl⟩ | ⟨message, hpc, rfl⟩ | ⟨message, hpc, rfl⟩⟩ :=
      HandleCall.recordEvent_of_call? hcall
    · simp [startedWrite]
    · simp [completedWrite]
    · rw [hpc] at hlimit
      exact ⟨fun hev ↦ absurd hev (by simp [requeuedWrite]), fun _ ↦ Int.ofNat_lt.2 hlimit⟩
    · rw [hpc] at hlimit
      exact ⟨fun _ ↦ Int.ofNat_le.2 (not_lt.1 hlimit), fun hev ↦ absurd hev (by simp [failedWrite])⟩
  | submit | publish | start | die | tick | vanish => exact hmakes.elim

/-- **A job is requeued below the delivery limit and fails at it.** -/
theorem attempts_of_reachable (h : (system cfg).Reachable TransitionSystem.anyStep f) {j : Uuid}
    {id : ℕ} {e : EventRow} (he : (id, e) ∈ f.world.db.eventRows j) :
    (e.event = .failed → (cfg.maxDeliver : ℤ) ≤ e.attempt) ∧
      (e.event = .requeued → e.attempt < (cfg.maxDeliver : ℤ)) := by
  refine h.induct (I := fun f ↦ ∀ (id : ℕ) (e : EventRow), (id, e) ∈ f.world.db.eventRows j →
    (e.event = .failed → (cfg.maxDeliver : ℤ) ≤ e.attempt) ∧
      (e.event = .requeued → e.attempt < (cfg.maxDeliver : ℤ))) (fun f hf ↦ ?_)
    (fun f a f' hr ih _ hs ↦ ?_) id e he
  · rw [hf]
    exact fun id e he ↦ absurd he (by simp [World.empty])
  · intro id' e' he'
    rcases jobStep hs j with ⟨-, hrows, -⟩ | ⟨who, key, payload, id₁, id₂, -, -, hrows, -⟩ |
      ⟨who, w, row, next, id₁, hmade, -, -, -, -, -, hrows, -⟩
    · exact ih id' e' (hrows ▸ he')
    · rw [hrows] at he'
      rcases List.mem_append.1 he' with hold | hnew
      · exact ih id' e' hold
      · simp only [List.mem_cons, Prod.mk.injEq, List.not_mem_nil, or_false] at hnew
        rcases hnew with ⟨-, rfl⟩ | ⟨-, rfl⟩ <;> simp
    · rw [hrows] at he'
      rcases List.mem_append.1 he' with hold | hnew
      · exact ih id' e' hold
      · obtain ⟨-, rfl⟩ := Prod.mk.inj (List.mem_singleton.1 hnew)
        exact attempt_of_makes hr hmade

/-! ### Postings -/

/-- Every transaction the fleet makes keeps rows and postings in step. -/
theorem posted_transact {s : World} (hp : s.db.Posted) (who : Writer) {c : RepoCall SubmitRequest}
    (hm : c.isMade = true) : (s.transact who c).db.Posted := by
  rw [World.transact]
  split
  · exact hp
  · next r db' hx => exact hp.exec hm hx

/-- **A job has as many outbox rows as postings.** -/
theorem posted_of_reachable (h : (system cfg).Reachable TransitionSystem.anyStep f) :
    f.world.db.Posted := by
  refine h.induct (I := fun f ↦ f.world.db.Posted) (fun f hf ↦ ?_) fun f a f' _ ih _ hs ↦ ?_
  · rw [hf]
    exact fun j ↦ rfl
  · cases a with
    | submit | replay | deadLetter =>
      obtain rfl := Option.some.inj hs
      exact posted_transact ih _ rfl
    | handle pid ans =>
      obtain ⟨hc, c, pc, hget, hcall, -, rfl⟩ := stepHandle_eq_some hs
      dsimp only
      rw [World.serve]
      split
      · cases c with
        | recordEvent w =>
          refine posted_transact ih _ ?_
          obtain ⟨-, l, ⟨-, rfl⟩ | ⟨result, -, rfl⟩ | ⟨message, -, rfl⟩ | ⟨message, -, rfl⟩⟩ :=
            HandleCall.recordEvent_of_call? hcall <;> rfl
        | kv | execute | ack | nak | term => exact ih
      · exact ih
    | publish ids =>
      obtain rfl := Option.some.inj hs
      refine fun j ↦ Eq.trans ?_ (ih j)
      dsimp only [World.markPublished, Database.outboxRows]
      refine SerialTable.length_select_modify _ fun id r ↦ ?_
      split <;> rfl
    | start | die | tick | vanish =>
      obtain rfl := Option.some.inj hs
      exact ih

/-- A job is enqueued once. -/
theorem enqueued_le_one (h : (system cfg).Reachable TransitionSystem.anyStep f) (j : Uuid) :
    (f.world.db.log j).count .enqueued ≤ 1 := by
  refine h.induct (I := fun f ↦ (f.world.db.log j).count .enqueued ≤ 1) (fun f hf ↦ ?_)
    fun f a f' hr ih _ hs ↦ ?_
  · rw [hf]
    exact Nat.zero_le _
  · rcases log_step hs j with hlog | ⟨habs, hlog⟩ | ⟨who, w, hmade, -, hlog⟩
    · rwa [hlog]
    · have hnil : f.world.db.eventRows j = [] := ((consistent_of_reachable hr).absent j habs).1
      rw [hlog, Database.log, hnil]
      decide
    · rw [hlog, List.count_append, List.count_singleton, if_neg]
      · exact ih
      · rcases event_of_makes hmade with hrec | hrep
        · intro heq
          rw [beq_iff_eq.1 heq] at hrec
          exact absurd hrec (by decide)
        · rw [hrep]
          decide

/-- **A job has one outbox row, and one more for each replay, at most.** -/
theorem outboxRows_le (h : (system cfg).Reachable TransitionSystem.anyStep f) (j : Uuid) :
    (f.world.db.outboxRows j).length ≤ 1 + (f.world.db.log j).count .replayed := by
  rw [posted_of_reachable h j, postings]
  exact Nat.add_le_add_right (enqueued_le_one h j) _

end Fleet

end Orbiter
