import Orbiter.Fleet.Moves
import Orbiter.Foundation.Records

/-!
# What happens to a refused write

`handle` makes four writes, and the database may refuse each of them: with `IllegalTransition` when
other actors have moved the job to where the event is not legal, with `StaleLeaseError` when a newer
holder has written. The clauses that catch the two belong to the `try` body, so they cover `STARTED`
and `COMPLETED`. `REQUEUED` and `FAILED` are written *in* a clause, and what a clause raises its
siblings do not see: the refusal passes through the release of the lease and out of `handle`, and
with it the worker's loop ends.

## Main results

* `keepsJob` — the condition on a step: a write of the last two kinds finds its job running under no
  newer token. It is decided in the state before the step;
* `refusals_contained` — **in runs whose steps keep it, no refusal leaves a `handle` call**, whoever
  else moves;
* `letsOut_of_not_keepsJob` — the converse, for the step itself: a served write of the last two
  kinds that does not find its job so puts its call on the way out with the refusal;
* `refusal_escapes` — a run that does it. A successor has started the job before the requeue of a
  holder that outlived its lease.
-/

namespace Orbiter

open Worker

/-- The two ways the database refuses a write for what others have done. -/
def DbError.isRefusal : DbError → Bool
  | illegalTransition _ | staleLease _ => true
  | lookupError _ | uniqueViolation _ => false

/-- A refusal on its way out: raised and waiting for the release of the lease, or out. -/
def HandlePc.letsOut : HandlePc → Bool
  | releaseLease _ (.error (.db e)) | finished (.error (.db e)) => e.isRefusal
  | _ => false

/-- What the database refused a call that raised it. -/
def HandlePc.refusal? : HandlePc → Option DbError
  | finished (.error (.db e)) => some e
  | _ => none

/-- A refusal that left `handle` is what it ended with. -/
theorem HandlePc.refusal?_eq_some {pc : HandlePc} {e : DbError} (h : pc.refusal? = some e) :
    pc = .finished (.error (.db e)) := by
  cases pc with
  | finished r =>
    rcases r with (_ | e' | _) | _
    case error.db => rw [Option.some.inj h]
    all_goals exact absurd h (by simp [refusal?])
  | _ => exact absurd h (by simp [refusal?])

/-- The token under which a control point is about to write from inside the `except` clause. -/
def HandlePc.clauseToken? : HandlePc → Option ℤ
  | recordRequeued l _ | recordFailed l _ => some l.token
  | _ => none

/-- The job, if it exists, is running and no newer token has written. -/
def Database.keeps (db : Database SubmitRequest) (j : Uuid) (token : ℤ) : Bool :=
  (db.job? j).all fun row ↦ row.state = .running && row.fenceToken ≤ token

/-- Such a job accepts the write. -/
theorem Database.isRefusal_eq_false_of_keeps {db : Database SubmitRequest} {now : ℕ} {w : Write}
    {token : ℤ} {e : DbError} (hk : db.keeps w.jobId token = true)
    (ht : w.fenceToken = some token) (hw : (transitions .running w.event).isSome = true)
    (h : db.recordEvent now w = .error e) : e.isRefusal = false := by
  have hrow : ∀ row, db.job? w.jobId = some row →
      row.state = .running ∧ row.fenceToken ≤ token := by
    intro row hrow
    rw [keeps, hrow, Option.all_some] at hk
    simpa using hk
  rcases Database.applyEvent_eq_error h with ⟨rfl, -⟩ | ⟨row, hj, hno, -⟩ |
    ⟨row, next, hj, -, hlt, -⟩
  · rfl
  · rw [(hrow row hj).1] at hno
    rw [hno] at hw
    exact absurd hw (by decide)
  · rw [ht, Option.getD_some] at hlt
    exact absurd (hrow row hj).2 (not_le.2 hlt)

/-- And any other refuses it. -/
theorem Database.isRefusal_of_not_keeps {db : Database SubmitRequest} {now : ℕ} {w : Write}
    {token : ℤ} (hk : db.keeps w.jobId token = false) (ht : w.fenceToken = some token)
    (hw : ∀ s, (transitions s w.event).isSome = true → s = .running) :
    ∃ e, db.recordEvent now w = .error e ∧ e.isRefusal = true := by
  cases hx : db.recordEvent now w with
  | error e =>
    refine ⟨e, rfl, ?_⟩
    rcases Database.applyEvent_eq_error hx with ⟨-, hj⟩ | ⟨row, -, -, rfl⟩ |
      ⟨row, next, -, -, -, rfl⟩
    · rw [keeps, hj] at hk
      exact absurd hk (by simp)
    · rfl
    · rfl
  | ok p =>
    obtain ⟨row, hj, hnext, hle, -⟩ := Database.applyEvent_eq_ok.1 hx
    rw [ht, Option.getD_some] at hle
    rw [keeps, hj, Option.all_some, hw row.state (by rw [hnext]; rfl)] at hk
    exact absurd hk (by simp [hle])

/-- **One move**: a refusal gets out only from a write of the clause. -/
theorem Move.letsOut_eq_false {cfg : Settings} {d : Delivery} {s : World} {pc pc' : HandlePc}
    {c : WorkerCall} {ans : Answer} (hm : Move cfg d s pc c ans pc') (hpc : pc.letsOut = false)
    (hk : ∀ token, pc.clauseToken? = some token → s.db.keeps d.jobId token = true) :
    pc'.letsOut = false := by
  cases hm with
  | fault hv applied =>
    cases pc <;> rfl
  | @startRefused l e h | @completionRefused l result e h => cases e <;> rfl
  | @requeueRefused l message e h | @failureRefused l message e h =>
    exact Database.isRefusal_eq_false_of_keeps (hk l.token rfl) rfl rfl h
  | releaseLease l exit =>
    rcases exit with (_ | e | _) | _
    · rfl
    · exact hpc
    · rfl
    · rfl
  | _ => rfl

namespace Fleet

/-- The writes of the `except` clause are made to jobs that the delivery still keeps. -/
def keepsJob (f : Fleet) : FleetStep → Bool
  | .handle pid _ => (f.calls[pid]?).all fun hc ↦ hc.pc.clauseToken?.all fun token ↦
      f.world.db.keeps hc.delivery.jobId token
  | _ => true

/-- No refusal has left a `handle` call. -/
def RefusalsContained (f : Fleet) : Prop :=
  ∀ hc ∈ f.calls, ∀ e, hc.pc = .finished (.error (.db e)) → e.isRefusal = false

variable {cfg : Settings} {f : Fleet}

/-- **In every run in which the clause writes to jobs its delivery still keeps, no refusal leaves
`handle`**, whatever the other actors do. -/
theorem refusals_contained (h : (system cfg).Reachable (fun f a ↦ f.keepsJob a = true) f) :
    f.RefusalsContained := by
  have hinv : ∀ (pid : ℕ) (hc : HandleCall), f.calls[pid]? = some hc → hc.pc.letsOut = false := by
    refine h.induct (I := fun f ↦ ∀ (pid : ℕ) (hc : HandleCall), f.calls[pid]? = some hc →
      hc.pc.letsOut = false) (fun f hf ↦ ?_) fun f a f' _ ih hg hs ↦ ?_
    · rw [hf]
      exact fun pid hc hget ↦ absurd hget (by simp)
    · intro pid hc' hget'
      rcases step_call hs hget' with ⟨hold, -⟩ | ⟨hc, hget, -, rfl⟩ | ⟨-, d, -, rfl⟩ |
        ⟨hc, ans, c, pc, rfl, hget, -, hmove, -, rfl⟩
      · exact ih pid hc' hold
      · exact ih pid hc hget
      · show (HandlePc.start d).letsOut = false
        rw [HandlePc.start]
        split <;> rfl
      · refine hmove.letsOut_eq_false (ih pid hc hget) fun token ht ↦ ?_
        rw [keepsJob, hget, Option.all_some, ht, Option.all_some] at hg
        exact hg
  intro hc hmem e hpc
  obtain ⟨pid, hget⟩ := List.mem_iff_getElem?.1 hmem
  have hout := hinv pid hc hget
  rw [hpc] at hout
  exact hout

/-- Any other write of the clause lets a refusal out. -/
theorem letsOut_of_not_keepsJob {f' : Fleet} {pid : ℕ}
    (hs : f.step cfg (.handle pid .served) = some f')
    (hk : f.keepsJob (.handle pid .served) = false) :
    ∃ hc', f'.calls[pid]? = some hc' ∧ hc'.pc.letsOut = true := by
  obtain ⟨hc, c, pc', hget, -, hm, rfl⟩ := stepHandle_eq_some hs
  refine ⟨_, List.getElem?_set_self (List.lt_length_of_getElem? hget), ?_⟩
  show pc'.letsOut = true
  rw [keepsJob, hget, Option.all_some] at hk
  have hrunning : ∀ s : JobState, (transitions s .requeued).isSome = true ∨
      (transitions s .failed).isSome = true → s = .running := by
    intro s
    cases s <;> decide
  generalize hpc : hc.pc = pc at hm hk
  cases hm with
  | requeued l message h =>
    obtain ⟨e, he, -⟩ := Database.isRefusal_of_not_keeps (w := requeuedWrite hc.delivery l message)
      hk rfl fun s hs ↦ hrunning s (.inl hs)
    rw [he] at h
    exact absurd h (by simp)
  | requeueRefused l message h =>
    obtain ⟨e, he, hr⟩ := Database.isRefusal_of_not_keeps (w := requeuedWrite hc.delivery l message)
      hk rfl fun s hs ↦ hrunning s (.inl hs)
    obtain rfl := Except.error.inj (h.symm.trans he)
    exact hr
  | failed l message h =>
    obtain ⟨e, he, -⟩ := Database.isRefusal_of_not_keeps (w := failedWrite hc.delivery l message)
      hk rfl fun s hs ↦ hrunning s (.inr hs)
    rw [he] at h
    exact absurd h (by simp)
  | failureRefused l message h =>
    obtain ⟨e, he, hr⟩ := Database.isRefusal_of_not_keeps (w := failedWrite hc.delivery l message)
      hk rfl fun s hs ↦ hrunning s (.inr hs)
    obtain rfl := Except.error.inj (h.symm.trans he)
    exact hr
  | _ => exact absurd hk (by simp [HandlePc.clauseToken?])

/-- A failing job: the delivery executes, fails, and writes `REQUEUED`. -/
def requeues : List FleetStep :=
  [.submit ⟨0⟩ "k" (.failing 10 ten_le_limit) [],
    .start ⟨1, "a", ⟨0⟩, .failing 10 ten_le_limit, 1⟩,
    .handle 0 .served, .handle 0 .served, .handle 0 .served, .handle 0 .served, .handle 0 .served,
    .handle 0 (.executed 0 10), .handle 0 .served, .handle 0 .served, .handle 0 .served,
    .handle 0 .served]

/-- A job fails once and is requeued, which is accepted. -/
theorem refusals_contained_requeues :
    ∃ f, (system {}).Reachable (fun f a ↦ f.keepsJob a = true) f ∧ f.calls.length = 1 ∧
      f.RefusalsContained := by
  have hrun : ((system {}).execGuarded keepsJob ⟨.empty, []⟩ requeues).any (fun f ↦
      f.calls.length = 1 ∧ f.world.db.log ⟨0⟩ =
        [.submitted, .enqueued, .started, .requeued]) = true := by
    rfl
  obtain ⟨f, hl, hf⟩ := TransitionSystem.exists_leads_of_execGuarded
    (fun _ _ hg ↦ hg) hrun
  have hr : (system {}).Reachable (fun f a ↦ f.keepsJob a = true) f := ⟨_, rfl, hl⟩
  exact ⟨f, hr, (of_decide_eq_true hf).1, refusals_contained hr⟩

/-- The delivery executes past its lease; a successor takes the job over and writes `STARTED`; then
the first execution fails. -/
def failsSuperseded : List FleetStep :=
  [.submit ⟨0⟩ "k" (.failing 10 ten_le_limit) [],
    .start ⟨1, "a", ⟨0⟩, .failing 10 ten_le_limit, 1⟩,
    .handle 0 .served, .handle 0 .served, .handle 0 .served, .handle 0 .served, .handle 0 .served,
    .tick 30000, .start ⟨1, "b", ⟨0⟩, .failing 10 ten_le_limit, 2⟩,
    .handle 1 .served, .handle 1 .served, .handle 1 .served, .handle 1 .served, .handle 1 .served,
    .handle 0 (.executed 0 30000), .handle 0 .served, .handle 0 .served]

/-- **A refusal can leave `handle`**, and the worker's loop with it. -/
theorem refusal_escapes :
    ∃ f, (system {}).Reachable TransitionSystem.anyStep f ∧
      (∃ row, f.world.db.job? ⟨0⟩ = some row) ∧ ¬ f.RefusalsContained := by
  have hrun : ((system {}).exec ⟨.empty, []⟩ failsSuperseded).any (fun f ↦
      (f.world.db.job? ⟨0⟩).isSome && f.calls[0]?.any fun hc ↦
        hc.pc.refusal?.any DbError.isRefusal) = true := by
    rfl
  obtain ⟨f, hl, hf⟩ := TransitionSystem.exists_leads_of_exec hrun
  obtain ⟨hjob, hf⟩ := Bool.and_eq_true_iff.1 hf
  obtain ⟨hc, hget, hf⟩ := (Option.any_eq_true _ _).1 hf
  refine ⟨f, ⟨_, rfl, hl⟩, Option.isSome_iff_exists.1 hjob, fun hall ↦ ?_⟩
  obtain ⟨e, he, href⟩ := (Option.any_eq_true _ _).1 hf
  have hkept := hall hc (List.mem_of_getElem? hget) e (HandlePc.refusal?_eq_some he)
  exact absurd (hkept.symm.trans href) (by decide)

end Fleet

end Orbiter
