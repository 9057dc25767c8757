import Orbiter.Fleet.Progress

/-!
# When a delivery is consumed

A `handle` call removes its message by `ack` or `term`. What it last saw of the job before that is
`HandleCall.seen`: the state after its last transaction, or at its read of the done marker. Every
way to a removal passes such a sight of a settled job — but one. `_apply_event` judges the
transition before the token, so a holder that lost its lease while it executed learns about it as
`IllegalTransition` when its successor has already requeued the job, and the clause that catches
this takes the job to be finished and terminates the message (`term_of_requeued_job`).

* `completesQueued` — the condition, on the state before the step: a `COMPLETED` that meets a queued
  job. It is the one sight that is not of a settled job;
* `Move.consuming_cases` — the step lemma: a move to a control point that consumes was at one, or
  has just seen the job settled, or is the one above;
* `consumed_when_settled` — **in runs where no completion meets a queued job, a delivery is consumed
  only when the job is settled**.

`isSettled_of_completed_illegal` and its companion for `started` say why a refusal is such a sight:
past the submission, only a settled or a queued job refuses a completion, and only a settled one a
start.
-/

namespace Orbiter

open ExecutionGuard LeaseManager Worker

/-- From here the call goes on to `ack` or `term` without looking at the job again. -/
def HandlePc.consuming : HandlePc → Bool
  | ackDuplicate | setDone _ | clearClaim _ | ackCompleted _ | releaseClaimFailed _ | termFailed _
  | releaseClaimObsolete _ | termObsolete _ => true
  | _ => false

/-- A control point that acknowledges or terminates consumes. -/
theorem HandlePc.consuming_of_call (cfg : Settings) (d : Delivery) {pc : HandlePc}
    (h : pc.call cfg d = some .ack ∨ pc.call cfg d = some .term) : pc.consuming = true := by
  cases pc <;> first
    | rfl
    | exact absurd h (by simp [call, view, awaitBare, awaitBody, awaitHandler])

theorem HandleCall.consuming_of_call? {cfg : Settings} {hc : HandleCall}
    (h : hc.call? cfg = some .ack ∨ hc.call? cfg = some .term) : hc.pc.consuming = true := by
  refine HandlePc.consuming_of_call cfg hc.delivery ?_
  exact h.imp (fun h ↦ (call?_eq_some.1 h).2) fun h ↦ (call?_eq_some.1 h).2

/-- The call acknowledges. -/
def WorkerCall.isAck : WorkerCall → Bool
  | .ack => true
  | _ => false

/-- The call terminates. -/
def WorkerCall.isTerm : WorkerCall → Bool
  | .term => true
  | _ => false

theorem WorkerCall.eq_ack {c : WorkerCall} (h : c.isAck = true) : c = .ack := by
  cases c <;> first
    | rfl
    | exact absurd h Bool.false_ne_true

theorem WorkerCall.eq_term {c : WorkerCall} (h : c.isTerm = true) : c = .term := by
  cases c <;> first
    | rfl
    | exact absurd h Bool.false_ne_true

section OneMove

variable {cfg : Settings} {d : Delivery} {s : World} {pc pc' : HandlePc} {c : WorkerCall}
  {ans : Answer}

/-- What a refused transaction shows of the job, when the refusal leads on to a `term`. -/
theorem row_of_catching {l : Lease} {w : Write} {e : DbError}
    (h : s.db.recordEvent s.now w = .error e)
    (hcons : (HandlePc.catching cfg d l (.db e)).consuming = true) :
    ∃ row, s.db.job? w.jobId = some row ∧ transitions row.state w.event = none := by
  rcases Database.applyEvent_eq_error h with ⟨rfl, -⟩ | ⟨row, hrow, hno, -⟩ |
    ⟨row, next, -, -, -, rfl⟩
  · exact absurd hcons Bool.false_ne_true
  · exact ⟨row, hrow, hno⟩
  · exact absurd hcons Bool.false_ne_true

/-- **One move towards a removal**: the call was already on its way, or it sees a settled job
now. -/
theorem Move.consuming_cases (hm : Move cfg d s pc c ans pc') (hcons : pc'.consuming = true)
    (who : Writer)
    (hdone : ∀ e, s.kv.live s.now (doneKey d.jobId.str) = some e →
      ∃ row, s.db.job? d.jobId = some row ∧ row.state = .succeeded)
    (hsub : ∀ row, s.db.job? d.jobId = some row → row.state ≠ .submitted)
    (hguard : ∀ l result row, pc = .recordCompleted l result → s.db.job? d.jobId = some row →
      row.state ≠ .queued) :
    (pc.consuming = true ∧ c.observes = false) ∨
    (c.observes = true ∧ ∃ row, (s.serve who c ans).db.job? d.jobId = some row ∧
      row.state.isSettled = true) := by
  cases hm with
  | fault hv applied =>
    cases pc <;> exact absurd hcons Bool.false_ne_true
  | @alreadyDone e h =>
    obtain ⟨row, hrow, hs⟩ := hdone e h
    exact .inr ⟨rfl, row, hrow, by rw [hs]; rfl⟩
  | completed l result h =>
    obtain ⟨row, -, hnext, hjob⟩ := World.job?_serve_of_ok h who
    exact .inr ⟨rfl, _, hjob, by rw [Database.acceptRow, target_of_transitions hnext]; rfl⟩
  | failed l message h =>
    obtain ⟨row, -, hnext, hjob⟩ := World.job?_serve_of_ok h who
    exact .inr ⟨rfl, _, hjob, by rw [Database.acceptRow, target_of_transitions hnext]; rfl⟩
  | startRefused l h =>
    obtain ⟨row, hrow, hno⟩ := row_of_catching h hcons
    refine .inr ⟨rfl, row, ?_, isSettled_of_started_illegal (hsub row hrow) hno⟩
    rw [World.serve_of_error h]
    exact hrow
  | completionRefused l result h =>
    obtain ⟨row, hrow, hno⟩ := row_of_catching h hcons
    refine .inr ⟨rfl, row, ?_, isSettled_of_completed_illegal (hsub row hrow)
      (hguard l result row rfl hrow) hno⟩
    rw [World.serve_of_error h]
    exact hrow
  | _ => first
    | exact .inl ⟨rfl, rfl⟩
    | exact absurd hcons Bool.false_ne_true

end OneMove

namespace Fleet

variable {cfg : Settings} {G : Fleet → FleetStep → Prop}

theorem state_ne_submitted {f : Fleet} (h : (system cfg).Reachable G f) :
    ∀ j row, f.world.db.job? j = some row → row.state ≠ .submitted := by
  refine h.induct (I := fun f ↦ ∀ j row, f.world.db.job? j = some row → row.state ≠ .submitted)
    (fun f hf ↦ ?_) fun f a f' _ ih _ hs ↦ ?_
  · rw [hf]
    exact fun j row hj ↦ absurd hj (by simp [World.empty])
  · intro j row' hj'
    rcases jobStep hs j with ⟨hjob, -, -⟩ | ⟨who, key, payload, id, id', -, hjob, -, -⟩ |
      ⟨who, w, row, next, id, -, -, -, hnext, -, hjob, -, -⟩
    · exact ih j row' (hjob ▸ hj')
    · obtain rfl := Option.some.inj (hjob.symm.trans hj')
      exact (by decide : JobState.queued ≠ .submitted)
    · obtain rfl := Option.some.inj (hjob.symm.trans hj')
      exact ne_submitted_of_transitions hnext

/-- After the transaction of a quarantine the job is settled, whether the event was accepted or
refused. -/
theorem settled_of_deadLetter {f f' : Fleet} {j : Uuid} {streamSeq deliveries : ℤ}
    {row : JobRow SubmitRequest} (hrow : f.world.db.job? j = some row)
    (hsub : row.state ≠ .submitted)
    (h : f.step cfg (.deadLetter j streamSeq deliveries) = some f') :
    ∃ row', f'.world.db.job? j = some row' ∧ row'.state.isSettled = true := by
  obtain rfl := Option.some.inj h
  cases hx : f.world.db.recordEvent f.world.now (deadLetterWrite j streamSeq deliveries) with
  | ok r =>
    obtain ⟨state, db⟩ := r
    obtain ⟨row', -, hnext, hjob⟩ := World.job?_serve_of_ok hx .listener
    exact ⟨_, hjob, by rw [Database.acceptRow, target_of_transitions hnext]; rfl⟩
  | error e =>
    have hsame : f.world.transact .listener (.recordEvent (deadLetterWrite j streamSeq deliveries))
        = f.world := World.serve_of_error hx .listener .served
    refine ⟨row, by rw [hsame]; exact hrow, ?_⟩
    rcases Database.applyEvent_eq_error hx with ⟨-, hnone⟩ | ⟨row', hrow', hno, -⟩ |
      ⟨row', s, -, -, hlt, -⟩
    · exact absurd (hnone.symm.trans hrow) (by simp)
    · obtain rfl := Option.some.inj (hrow.symm.trans hrow')
      exact isSettled_of_deadLettered_illegal hsub hno
    · exact absurd hlt (lt_irrefl _)

/-- The step takes the completion of a `handle` call to the database while the job is queued. -/
def completesQueued (f : Fleet) : FleetStep → Bool
  | .handle pid _ => f.calls[pid]?.any fun hc ↦
      match hc.pc with
      | .recordCompleted _ _ =>
        (f.world.db.job? hc.delivery.jobId).any fun row ↦ row.state = .queued
      | _ => false
  | _ => false

/-- The guard that excludes it. -/
def NoneCompletesQueued (f : Fleet) (a : FleetStep) : Prop := f.completesQueued a = false

/-- Under the condition, a completion does not meet a queued job. -/
theorem NoneCompletesQueued.ne_queued {f : Fleet} {pid : ℕ} {ans : Answer}
    (h : f.NoneCompletesQueued (.handle pid ans)) {hc : HandleCall} {l : Lease} {result : Json}
    {row : JobRow SubmitRequest} (hget : f.calls[pid]? = some hc)
    (hpc : hc.pc = .recordCompleted l result)
    (hrow : f.world.db.job? hc.delivery.jobId = some row) : row.state ≠ .queued := by
  rw [NoneCompletesQueued, completesQueued, hget, Option.any_some, hpc] at h
  simpa [hrow] using h

/-- A call on its way to a removal has seen a settled job. -/
def SeenSettled (f : Fleet) : Prop :=
  ∀ (pid : ℕ) (hc : HandleCall), f.calls[pid]? = some hc → hc.pc.consuming = true →
    ∃ state, hc.seen = some state ∧ state.isSettled = true

/-- Under the condition, whoever consumes has seen the job settled. -/
theorem seenSettled_of_reachable {f : Fleet}
    (h : (system cfg).Reachable NoneCompletesQueued f) : f.SeenSettled := by
  refine h.induct (I := SeenSettled) (fun f hf ↦ ?_) fun f a f' hr ih hg hs ↦ ?_
  · rw [hf]
    exact fun pid hc hget ↦ absurd hget (by simp)
  · intro pid hc' hget hcons
    rcases step_call hs hget with ⟨hget₀, -⟩ | ⟨hc, hget₀, -, rfl⟩ | ⟨-, d, -, rfl⟩ |
      ⟨hc, ans, c, pc, rfl, hget₀, -, hmove, hw, rfl⟩
    · exact ih pid hc' hget₀ hcons
    · exact ih pid hc hget₀ hcons
    · rw [HandleCall.begin, HandlePc.start] at hcons
      split at hcons <;> exact absurd hcons Bool.false_ne_true
    · have hany := hr.mono (fun _ _ _ ↦ trivial : ∀ f a, _ → TransitionSystem.anyStep f a)
      rcases hmove.consuming_cases hcons (.handle pid)
          (fun e he ↦ (doneMarks_of_reachable hany).live _ e he)
          (fun row ↦ state_ne_submitted hr _ row)
          (fun l result row hpc hrow ↦ hg.ne_queued hget₀ hpc hrow) with
        ⟨hold, hobs⟩ | ⟨hobs, row, hrow, hset⟩
      · obtain ⟨state, hseen, hset⟩ := ih pid hc hget₀ hold
        refine ⟨state, ?_, hset⟩
        rw [HandleCall.advance, hobs]
        exact hseen
      · refine ⟨row.state, ?_, hset⟩
        rw [HandleCall.advance, hobs, hw, hrow]
        rfl

/-- **A delivery is consumed only when the job is settled**, in every run in which no completion
meets a queued job. -/
theorem consumed_when_settled {f : Fleet} (h : (system cfg).Reachable NoneCompletesQueued f)
    {pid : ℕ} {hc : HandleCall} (hget : f.calls[pid]? = some hc)
    (hcall : hc.call? cfg = some .ack ∨ hc.call? cfg = some .term) :
    ∃ state, hc.seen = some state ∧ state.isSettled = true :=
  seenSettled_of_reachable h pid hc hget (HandleCall.consuming_of_call? hcall)

/-- A job handled to its end comes to be acknowledged in the sight of its success. -/
theorem consumed_when_settled_of_completed : ∃ (f : Fleet) (hc : HandleCall),
    (system {}).Reachable NoneCompletesQueued f ∧ f.calls[0]? = some hc ∧
    hc.call? {} = some .ack ∧ ∃ state, hc.seen = some state ∧ state.isSettled = true := by
  have hrun : ((system {}).execGuarded (fun f a ↦ !f.completesQueued a) ⟨.empty, []⟩
      [.submit ⟨0⟩ "k" (.healthy 10 ten_le_limit) [],
        .start ⟨1, "a", ⟨0⟩, .healthy 10 ten_le_limit, 1⟩,
        .handle 0 .served, .handle 0 .served, .handle 0 .served, .handle 0 .served,
        .handle 0 .served, .handle 0 (.executed 0 10), .handle 0 .served, .handle 0 .served,
        .handle 0 .served]).any (fun f ↦ f.calls[0]?.any fun hc ↦
      (hc.call? {}).any WorkerCall.isAck) = true := by
    rfl
  obtain ⟨f, hl, hf⟩ := TransitionSystem.exists_leads_of_execGuarded
    (G := NoneCompletesQueued) (fun f a h ↦ by simpa [NoneCompletesQueued] using h) hrun
  obtain ⟨hc, hget, hf⟩ := (Option.any_eq_true _ _).1 hf
  obtain ⟨c, hcall, hc'⟩ := (Option.any_eq_true _ _).1 hf
  have hack : hc.call? {} = some .ack := hcall.trans (congrArg some (WorkerCall.eq_ack hc'))
  have hr : (system {}).Reachable NoneCompletesQueued f := ⟨_, rfl, hl⟩
  exact ⟨f, hc, hr, hget, hack, consumed_when_settled hr hget (.inl hack)⟩

/-- A payload that fails every other time. -/
def flaky : SubmitRequest where
  durationMs := 10
  failureRate := 1 / 2
  poison := false
  durationMs_le := ten_le_limit
  failureRate_nonneg := by decide +kernel
  failureRate_le := by decide +kernel

/-- A holder executes past its lease; its successor fails and requeues the job; then the holder
comes with its result. -/
def requeuedBehindHolder : List FleetStep :=
  [.submit ⟨0⟩ "k" flaky [], .start ⟨1, "a", ⟨0⟩, flaky, 1⟩,
    .handle 0 .served, .handle 0 .served, .handle 0 .served, .handle 0 .served, .handle 0 .served,
    .tick 20000, .start ⟨1, "b", ⟨0⟩, flaky, 2⟩,
    .handle 1 .served, .handle 1 .served, .handle 1 .served, .handle 1 .served, .handle 1 .served,
    .handle 1 (.executed 0 10), .handle 1 .served,
    .handle 0 (.executed (1 / 2) 20000), .handle 0 .served, .handle 0 .served]

/-- **A superseded holder terminates the message of a queued job.** -/
theorem term_of_requeued_job : ∃ (f : Fleet) (hc : HandleCall),
    (system {}).Reachable TransitionSystem.anyStep f ∧ f.calls[0]? = some hc ∧
    hc.call? {} = some .term ∧ hc.seen = some .queued ∧
    ∃ row, f.world.db.job? hc.delivery.jobId = some row ∧ row.state = .queued := by
  have hrun : ((system {}).exec ⟨.empty, []⟩ requeuedBehindHolder).any (fun f ↦
      f.calls[0]?.any fun hc ↦ (hc.call? {}).any WorkerCall.isTerm &&
        hc.seen = some .queued &&
        (f.world.db.job? hc.delivery.jobId).any fun row ↦ row.state = .queued) = true := by
    decide +kernel
  obtain ⟨f, hl, hf⟩ := TransitionSystem.exists_leads_of_exec hrun
  obtain ⟨hc, hget, hf⟩ := (Option.any_eq_true _ _).1 hf
  simp only [Bool.and_eq_true, decide_eq_true_eq, Option.any_eq_true] at hf
  obtain ⟨⟨⟨c, hcall, hc'⟩, hseen⟩, row, hrow, hstate⟩ := hf
  have hterm : hc.call? {} = some .term := hcall.trans (congrArg some (WorkerCall.eq_term hc'))
  exact ⟨f, hc, ⟨_, rfl, hl⟩, hget, hterm, hseen, row, hrow, hstate⟩

end Fleet

end Orbiter
