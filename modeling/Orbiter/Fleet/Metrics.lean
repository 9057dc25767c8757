import Mathlib.Data.List.Perm.Subperm
import Orbiter.Fleet.Executions
import Orbiter.Foundation.History

/-!
# What the counters count

A worker counts a completion, a requeue and a failure after it has recorded the event and settled
the message with the broker: the `add` stands behind the acknowledgement. Between the commit and the
`add` the call may raise and the worker may die, so the counters can fall behind the events. They
never get ahead of them, and what they miss is known exactly: each recorded event is counted, or
lost to a call that raised, or still owed by a call that is on its way or has died there.

## The account

* `adds`, `owes`, `loses` — which control point adds to which counter, at which of them an addition
  is still to come, and which answers forgo it;
* `Move.account` — **one move of one call balances**: what it commits, and what was owed before, is
  what it adds, what it loses, and what is owed after;
* `count_log_of_other` — nobody else records these events, so the account of a job is the sum over
  its calls (`owing`);
* `Meters`, `metered` — the counters, kept beside the fleet as a record no step reads. Each addition
  is kept with the job it was made for, which the source does not export;
* `counters_account` — the account in every reachable state, for each job and each counter, and what
  it says of the totals: no more completions and failures are counted than jobs have succeeded and
  failed.
-/

namespace Orbiter

open Worker

/-- The counters of the worker. -/
inductive Metric
  /-- `orbiter.jobs.completed`. -/
  | jobsCompleted
  /-- `orbiter.jobs.requeued`. -/
  | jobsRequeued
  /-- `orbiter.jobs.failed`. -/
  | jobsFailed
  deriving DecidableEq

/-- The event a counter counts. -/
def Metric.event : Metric → EventType
  | jobsCompleted => .completed
  | jobsRequeued => .requeued
  | jobsFailed => .failed

/-- The counter of an event. -/
def EventType.metric? : EventType → Option Metric
  | completed => some .jobsCompleted
  | requeued => some .jobsRequeued
  | failed => some .jobsFailed
  | _ => none

/-- An event and its counter determine each other. -/
theorem EventType.metric?_eq_some {e : EventType} {m : Metric} :
    e.metric? = some m ↔ e = m.event := by
  cases e <;> cases m <;> simp [metric?, Metric.event]

namespace HandlePc

/-- The counter `handle` adds to as soon as the call made here has returned. -/
def adds : HandlePc → Option Metric
  | ackCompleted _ => some .jobsCompleted
  | nakRequeued _ => some .jobsRequeued
  | termFailed _ => some .jobsFailed
  | _ => none

/-- The counter of the event that has been recorded, on the way from there to its `add`. -/
def owes : HandlePc → Option Metric
  | setDone _ | clearClaim _ | ackCompleted _ => some .jobsCompleted
  | releaseClaimRequeued _ | nakRequeued _ => some .jobsRequeued
  | releaseClaimFailed _ | termFailed _ => some .jobsFailed
  | _ => none

@[simp] theorem owes_onFault (pc : HandlePc) : pc.onFault.owes = none := by
  cases pc <;> rfl

@[simp] theorem owes_catching (cfg : Settings) (d : Delivery) (l : Lease) (e : DbError) :
    (catching cfg d l (.db e)).owes = none := by
  cases e <;> rfl

@[simp] theorem owes_start (d : Delivery) : (start d).owes = none := by
  rw [start]
  split <;> rfl

/-- The counter this answer lets `handle` add to. -/
def added (pc : HandlePc) : Answer → Option Metric
  | .served => pc.adds
  | _ => none

end HandlePc

@[simp] theorem HandlePc.added_failed (pc : HandlePc) (applied : Bool) :
    pc.added (.failed applied) = none := rfl

/-- The write a call commits. -/
def World.commits (s : World) (ans : Answer) : WorkerCall → Option Write
  | .recordEvent w => if ans.takesEffect && (s.db.recordEvent s.now w).isOk then some w else none
  | _ => none

/-- The counter of the event a call records. -/
def World.counts (s : World) (c : WorkerCall) (ans : Answer) : Option Metric :=
  (s.commits ans c).bind fun w ↦ w.event.metric?

/-- The counter that will not be added to any more, because this answer is an exception: the event
was recorded before, or by this very call. -/
def HandlePc.loses (s : World) (pc : HandlePc) (c : WorkerCall) : Answer → Option Metric
  | .failed applied => pc.owes.or (s.counts c (.failed applied))
  | _ => none

/-! ### One move -/

/-- One, if it is this counter. -/
def Metric.one (m : Metric) (o : Option Metric) : ℕ := if o = some m then 1 else 0

@[simp] theorem Metric.one_none (m : Metric) : m.one none = 0 := rfl

theorem World.counts_of_ok {s : World} {w : Write} {state : JobState} {db : Database SubmitRequest}
    (h : s.db.recordEvent s.now w = .ok (state, db)) :
    s.counts (.recordEvent w) .served = w.event.metric? := by
  rw [counts, commits, h]
  rfl

theorem World.counts_of_error {s : World} {w : Write} {e : DbError}
    (h : s.db.recordEvent s.now w = .error e) (ans : Answer) :
    s.counts (.recordEvent w) ans = none := by
  have hfalse :
      (Except.error e : Except DbError (JobState × Database SubmitRequest)).isOk = false :=
    rfl
  rw [counts, commits, h, hfalse, Bool.and_false]
  rfl

/-- **The account of one move**: what is recorded now and what was owed before is counted, lost or
still owed. -/
theorem Move.account {cfg : Settings} {d : Delivery} {s : World} {pc pc' : HandlePc}
    {c : WorkerCall} {ans : Answer} (hm : Move cfg d s pc c ans pc') (m : Metric) :
    m.one (s.counts c ans) + m.one pc.owes =
      m.one (pc.added ans) + m.one (pc.loses s c ans) + m.one pc'.owes := by
  cases hm with
  | @fault _ _ k hv applied =>
    rw [HandlePc.owes_onFault, HandlePc.loses, HandlePc.added_failed, Metric.one_none,
      Nat.zero_add, Nat.add_zero]
    -- A call that owes an event is not about to record another.
    cases howes : pc.owes with
    | none => rw [Option.none_or, Metric.one_none, Nat.add_zero]
    | some m' =>
      have hnone : s.counts c (.failed applied) = none := by
        cases pc <;> first | contradiction | (cases hv; rfl)
      rw [hnone, Option.some_or, Metric.one_none, Nat.zero_add]
  | completed l result h =>
    rw [World.counts_of_ok h]
    simp [completedWrite, EventType.metric?, HandlePc.owes, HandlePc.added, HandlePc.adds,
      HandlePc.loses]
  | requeued l message h =>
    rw [World.counts_of_ok h]
    simp [requeuedWrite, EventType.metric?, HandlePc.owes, HandlePc.added, HandlePc.adds,
      HandlePc.loses]
  | failed l message h =>
    rw [World.counts_of_ok h]
    simp [failedWrite, EventType.metric?, HandlePc.owes, HandlePc.added, HandlePc.adds,
      HandlePc.loses]
  | started l h =>
    rw [World.counts_of_ok h]
    rfl
  | startRefused l h | completionRefused l result h =>
    rw [World.counts_of_error h, HandlePc.owes_catching]
    rfl
  | requeueRefused l message h | failureRefused l message h =>
    rw [World.counts_of_error h]
    rfl
  | _ => simp [World.counts, World.commits, HandlePc.owes, HandlePc.added, HandlePc.adds,
      HandlePc.loses]

/-! ### The events -/

/-- The events of a job after a call. -/
theorem World.count_log_serve (s : World) (who : Writer) (c : WorkerCall) (ans : Answer)
    {j : Uuid} (hid : ∀ w, c = .recordEvent w → w.jobId = j) (m : Metric) :
    ((s.serve who c ans).db.log j).count m.event =
      (s.db.log j).count m.event + m.one (s.counts c ans) := by
  have hsame : s.counts c ans = none → (s.serve who c ans).db.log j = s.db.log j →
      ((s.serve who c ans).db.log j).count m.event =
        (s.db.log j).count m.event + m.one (s.counts c ans) := by
    intro hnone hlog
    rw [hnone, hlog, Metric.one_none, Nat.add_zero]
  cases c with
  | recordEvent w =>
    obtain rfl := hid w rfl
    cases heff : ans.takesEffect with
    | false => exact hsame (by simp [counts, commits, heff]) (by simp [serve, heff])
    | true =>
      cases hx : s.db.recordEvent s.now w with
      | error e => exact hsame (counts_of_error hx ans) (by rw [serve_of_error hx])
      | ok p =>
        obtain ⟨state, db⟩ := p
        obtain ⟨row, -, -, -, rfl⟩ := Database.applyEvent_eq_ok.1 hx
        have hdb : (s.serve who (.recordEvent w) ans).db = s.db.accept s.now w row state := by
          rw [serve, if_pos heff, effect, transact, RepoCall.exec, hx]
          rfl
        have hcounts : s.counts (.recordEvent w) ans = w.event.metric? := by
          rw [counts, commits, hx, heff]
          rfl
        rw [hdb, Database.log_accept_self, List.count_append, hcounts, List.count_singleton,
          Metric.one]
        congr 1
        exact if_congr (by rw [beq_iff_eq, EventType.metric?_eq_some]) rfl rfl
  | kv c => exact hsame rfl (congrArg (·.log j) (db_serve_kv s who c ans).1)
  | execute | ack | nak | term =>
    refine hsame rfl ?_
    rw [serve]
    split <;> rfl

namespace Fleet

variable {cfg : Settings} {f f' : Fleet} {a : FleetStep}

/-- The calls for `j` that owe this counter, dead ones included. -/
def owing (f : Fleet) (j : Uuid) (m : Metric) : ℕ :=
  f.calls.countP fun hc ↦ hc.delivery.jobId = j ∧ hc.pc.owes = some m

/-- A call records events of its own job only. -/
theorem jobId_of_call? {hc : HandleCall} {w : Write} (h : hc.call? cfg = some (.recordEvent w)) :
    w.jobId = hc.delivery.jobId := by
  obtain ⟨-, l, ⟨-, rfl⟩ | ⟨result, -, rfl⟩ | ⟨message, -, rfl⟩ | ⟨message, -, rfl⟩⟩ :=
    HandleCall.recordEvent_of_call? h <;> rfl

/-- A call moves, and nobody else. -/
theorem owing_set {pid : ℕ} {hc : HandleCall} (hget : f.calls[pid]? = some hc) (hc' : HandleCall)
    (hd : hc'.delivery = hc.delivery) (j : Uuid) (m : Metric) (world : World) :
    (Fleet.mk world (f.calls.set pid hc')).owing j m +
        (if hc.delivery.jobId = j then m.one hc.pc.owes else 0) =
      f.owing j m + if hc.delivery.jobId = j then m.one hc'.pc.owes else 0 := by
  have hcount := List.countP_set_add (p := fun hc : HandleCall ↦
    hc.delivery.jobId = j ∧ hc.pc.owes = some m) (y := hc') hget
  rw [owing, owing]
  simp only [hd, decide_eq_true_eq] at hcount
  by_cases hj : hc.delivery.jobId = j
  · simpa [hj, Metric.one] using hcount
  · simpa [hj] using hcount

/-- Elsewhere the events of the counters are left alone. -/
theorem count_log_of_other (h : f.step cfg a = some f') {j : Uuid}
    (hother : ∀ (pid : ℕ) (ans : Answer) (hc : HandleCall), a = .handle pid ans →
      f.calls[pid]? = some hc → hc.delivery.jobId ≠ j) (m : Metric) :
    (f'.world.db.log j).count m.event = (f.world.db.log j).count m.event := by
  rcases log_step h j with hlog | ⟨-, hlog⟩ | ⟨who, w, hmade, hid, hlog⟩
  · rw [hlog]
  · rw [hlog, List.count_append]
    cases m <;> rfl
  · rw [hlog, List.count_append]
    cases a with
    | replay jobId =>
      obtain ⟨-, rfl⟩ := hmade
      cases m <;> rfl
    | deadLetter jobId streamSeq deliveries =>
      obtain ⟨-, rfl⟩ := hmade
      cases m <;> rfl
    | handle pid ans =>
      obtain ⟨-, hc, hget, hcall⟩ := hmade
      exact absurd ((jobId_of_call? hcall).symm.trans hid) (hother pid ans hc rfl hget)
    | submit | publish | start | die | tick | vanish => exact hmade.elim

/-! ### The counters -/

/-- What was added to the counters of all workers, each addition with its job, and what will never
be. -/
structure Meters where
  added : List (Uuid × Metric) := []
  lost : List (Uuid × Metric) := []

/-- The value of a counter, over all workers. -/
def Meters.total (M : Meters) (m : Metric) : ℕ := (M.added.filter fun x ↦ x.2 = m).length

/-- What a step does to them. -/
def meter (cfg : Settings) (f : Fleet) (a : FleetStep) (M : Meters) : Meters :=
  match a with
  | .handle pid ans =>
    match f.calls[pid]? with
    | none => M
    | some hc =>
      match hc.call? cfg with
      | none => M
      | some c =>
        { added := M.added ++ ((hc.pc.added ans).map (Prod.mk hc.delivery.jobId)).toList
          lost := M.lost ++ ((hc.pc.loses f.world c ans).map (Prod.mk hc.delivery.jobId)).toList }
  | _ => M

/-- The fleet with its counters. -/
def metered (cfg : Settings) : TransitionSystem (Fleet × Meters) FleetStep :=
  (system cfg).withHistory (meter cfg) {}

theorem count_toList_map (j u : Uuid) (m : Metric) (o : Option Metric) :
    (o.map (Prod.mk u)).toList.count (j, m) = if u = j then m.one o else 0 := by
  cases o with
  | none => simp
  | some m' =>
    rw [Option.map_some, Option.toList_some, List.count_singleton, Metric.one]
    by_cases hj : u = j
    · simp [hj]
    · simp [hj]

/-- What is recorded of a job is counted, lost or owed. -/
def Balanced (s : Fleet × Meters) : Prop := ∀ j m,
  (s.1.world.db.log j).count m.event =
    s.2.added.count (j, m) + s.2.lost.count (j, m) + s.1.owing j m

/-- The account of a `handle` step, from that of its move. -/
theorem balanced_of_handle {s s' : Fleet × Meters} {pid : ℕ} {ans : Answer}
    (hs : s.1.step cfg (.handle pid ans) = some s'.1)
    (hrec : s'.2 = meter cfg s.1 (.handle pid ans) s.2) (ih : Balanced s) : Balanced s' := by
  intro j m
  obtain ⟨hc, c, pc, hget, hcall, hmove, hf⟩ := stepHandle_eq_some hs
  have hold := ih j m
  have haccount := hmove.account m
  have howing := owing_set hget (hc.advance s.1.world (s.1.world.serve (.handle pid) c ans) c pc)
    rfl j m (s.1.world.serve (.handle pid) c ans)
  rw [← hf, show (hc.advance s.1.world (s.1.world.serve (.handle pid) c ans) c pc).pc = pc
    from rfl] at howing
  rw [hrec, meter, hget]
  dsimp only
  rw [hcall]
  dsimp only
  rw [List.count_append, List.count_append, count_toList_map, count_toList_map]
  by_cases hj : hc.delivery.jobId = j
  · have hlog := s.1.world.count_log_serve (.handle pid) c ans (j := j)
      (fun w hw ↦ (jobId_of_call? (hw ▸ hcall)).trans hj) m
    rw [show s'.1.world = s.1.world.serve (.handle pid) c ans by rw [hf], hlog]
    simp only [if_pos hj] at howing ⊢
    omega
  · have hlog := count_log_of_other hs (j := j) (fun pid' ans' hc' heq hget' ↦ by
      obtain ⟨rfl, -⟩ := FleetStep.handle.inj heq
      rwa [← Option.some.inj (hget.symm.trans hget')]) m
    simp only [if_neg hj] at howing ⊢
    omega

/-- **The counters are balanced in every reachable state.** -/
theorem balanced_of_reachable {G : Fleet × Meters → FleetStep → Prop} {s : Fleet × Meters}
    (h : (metered cfg).Reachable G s) : Balanced s := by
  refine h.induct (I := Balanced) (fun s hs ↦ ?_) fun s a s' _ ih _ h ↦ ?_
  · obtain ⟨hf, hM⟩ := hs
    intro j m
    rw [hf, hM]
    rfl
  · obtain ⟨hs, hrec⟩ := TransitionSystem.withHistory_eq_some.1 h
    have hother : (∀ pid ans, a ≠ .handle pid ans) → s'.2 = s.2 →
        (∀ j m, s'.1.owing j m = s.1.owing j m) → Balanced s' := by
      intro hne hM howing j m
      rw [hM, howing j m, count_log_of_other hs (fun pid ans hc heq ↦ absurd heq (hne pid ans)) m]
      exact ih j m
    cases a with
    | handle pid ans => exact balanced_of_handle hs hrec ih
    | start d =>
      refine hother (by simp) hrec fun j m ↦ ?_
      rw [← Option.some.inj hs, owing, owing, List.countP_append, List.countP_singleton,
        if_neg (by simp [HandleCall.begin]), Nat.add_zero]
    | die pid =>
      refine hother (by simp) hrec fun j m ↦ ?_
      rw [← Option.some.inj hs, owing, owing]
      exact List.countP_modify fun hc ↦ rfl
    | submit | replay | deadLetter | publish | tick | vanish =>
      refine hother (by simp) hrec fun j m ↦ ?_
      rw [← Option.some.inj hs]
      rfl

/-! ### Jobs and counters -/

/-- The jobs in a state, as a dashboard counts them. -/
def jobsIn (f : Fleet) (state : JobState) : List Uuid :=
  (f.world.db.jobs.entries.filter fun e ↦ e.2.state = state).map Sigma.fst

/-- A log that holds an outcome belongs to a job in its state. -/
theorem mem_jobsIn_of_final (h : (system cfg).Reachable TransitionSystem.anyStep f) {j : Uuid}
    {e : EventType} (he : e ∈ f.world.db.log j) (hf : e.isFinal = true) :
    j ∈ f.jobsIn e.target := by
  have hcons := consistent_of_reachable h
  obtain ⟨row, hrow, -⟩ := terminal_of_mem_log hcons he hf
  have hstate : replay (f.world.db.log j) = .ok row.state := (hcons.projects j row hrow).state
  obtain ⟨i, hi⟩ := List.mem_iff_getElem?.1 he
  have hlen := succ_eq_length_of_replay_final hstate hi hf
  obtain ⟨e', hlast, htarget⟩ := getLast?_of_replay hstate
  rw [List.getLast?_eq_getElem?, ← hlen, Nat.add_sub_cancel, hi, Option.some.injEq] at hlast
  refine List.mem_map.2 ⟨⟨j, row⟩, List.mem_filter.2 ⟨AList.mem_lookup_iff.1 hrow, ?_⟩, rfl⟩
  rw [decide_eq_true_eq, htarget, ← hlast]

/-- **A counter of outcomes is at most the number of jobs with that outcome.** -/
theorem total_le_jobsIn {s : Fleet × Meters}
    (h : (system cfg).Reachable TransitionSystem.anyStep s.1) (hacc : Balanced s) {m : Metric}
    (hf : m.event.isFinal = true) : s.2.total m ≤ (s.1.jobsIn m.event.target).length := by
  have hcount : ∀ j, s.2.added.count (j, m) ≤ (s.1.world.db.log j).count m.event := by
    intro j
    rw [hacc j m]
    omega
  have hle : ∀ j, (s.1.world.db.log j).count m.event ≤ 1 := by
    intro j
    cases hj : s.1.world.db.job? j with
    | none =>
      have hnil : s.1.world.db.eventRows j = [] := ((consistent_of_reachable h).absent j hj).1
      rw [Database.log, hnil]
      exact Nat.zero_le _
    | some row =>
      have hstate := ((consistent_of_reachable h).projects j row hj).state
      refine le_trans (List.countP_mono_left fun e _ he ↦ ?_) (countP_final_le_one
        fun i e hi he ↦ succ_eq_length_of_replay_final hstate hi he)
      rwa [beq_iff_eq.1 he]
  -- Each addition is for another job, and that job has the outcome.
  have hjobs : ∀ j, ((s.2.added.filter fun x ↦ x.2 = m).map Prod.fst).count j =
      s.2.added.count (j, m) := by
    intro j
    rw [List.count, List.countP_map, List.countP_filter, List.count]
    refine List.countP_congr fun x _ ↦ ?_
    obtain ⟨j', m'⟩ := x
    simp [Prod.ext_iff]
  have hnodup : ((s.2.added.filter fun x ↦ x.2 = m).map Prod.fst).Nodup :=
    List.nodup_iff_count_le_one.2 fun j ↦ hjobs j ▸ (hcount j).trans (hle j)
  have hsub : (s.2.added.filter fun x ↦ x.2 = m).map Prod.fst ⊆ s.1.jobsIn m.event.target := by
    intro j hj
    have hpos := List.count_pos_iff.2 hj
    rw [hjobs] at hpos
    exact mem_jobsIn_of_final h (List.count_pos_iff.1 (hpos.trans_le (hcount j))) hf
  rw [Meters.total, ← List.length_map Prod.fst]
  exact (hnodup.subperm hsub).length_le

/-- **The counters are accounted for**, in every run. Of each job, every recorded completion,
requeue and failure is counted once, or was lost to a call that raised after it was recorded, or is
owed by a call that has not come to its `add`; so no counter of outcomes is ever above the number of
jobs that have the outcome. -/
theorem counters_account {s : Fleet × Meters}
    (h : (metered cfg).Reachable TransitionSystem.anyStep s) :
    (∀ j m, (s.1.world.db.log j).count m.event =
      s.2.added.count (j, m) + s.2.lost.count (j, m) + s.1.owing j m) ∧
    s.2.total .jobsCompleted ≤ (s.1.jobsIn .succeeded).length ∧
    s.2.total .jobsFailed ≤ (s.1.jobsIn .failed).length := by
  have hacc := balanced_of_reachable h
  have hr : (system cfg).Reachable TransitionSystem.anyStep s.1 :=
    (TransitionSystem.erase fun _ _ _ ↦ trivial).reachable h
  exact ⟨hacc, total_le_jobsIn hr hacc rfl, total_le_jobsIn hr hacc rfl⟩

/-- Two jobs run to their completion. The worker of the first is cut off from the store before its
`add`, and that completion is not counted. -/
theorem counters_account_of_lost : ∃ s : Fleet × Meters,
    (metered {}).Reachable TransitionSystem.anyStep s ∧ s.2.total .jobsCompleted = 1 ∧
    s.2.lost = [(⟨0⟩, .jobsCompleted)] ∧
    (s.1.world.db.log ⟨0⟩).count .completed = 1 + s.1.owing ⟨0⟩ .jobsCompleted ∧
    s.2.total .jobsCompleted ≤ (s.1.jobsIn .succeeded).length := by
  have hrun : ((metered {}).exec (⟨.empty, []⟩, {})
      ([.submit ⟨0⟩ "a" (.healthy 10 ten_le_limit) [],
        .submit ⟨1⟩ "b" (.healthy 10 ten_le_limit) [],
        .start ⟨1, "v", ⟨0⟩, .healthy 10 ten_le_limit, 1⟩,
        .start ⟨2, "w", ⟨1⟩, .healthy 10 ten_le_limit, 1⟩] ++
      List.replicate 5 (.handle 0 .served) ++
      [.handle 0 (.executed 0 10), .handle 0 .served, .handle 0 (.failed false)] ++
      List.replicate 5 (.handle 1 .served) ++ [.handle 1 (.executed 0 10)] ++
      List.replicate 4 (.handle 1 .served))).any (fun s ↦
      s.2.total .jobsCompleted = 1 && decide (s.2.lost = [(⟨0⟩, .jobsCompleted)]) &&
      decide (s.2.added = [(⟨1⟩, .jobsCompleted)])) = true := by
    rfl
  obtain ⟨s, hl, hp⟩ := TransitionSystem.exists_leads_of_exec hrun
  obtain ⟨hp, hadded⟩ := Bool.and_eq_true_iff.1 hp
  obtain ⟨htotal, hlost⟩ := Bool.and_eq_true_iff.1 hp
  have hr : (metered {}).Reachable TransitionSystem.anyStep s :=
    ⟨(⟨.empty, []⟩, {}), ⟨rfl, rfl⟩, hl⟩
  obtain ⟨hacc, hle, -⟩ := counters_account hr
  refine ⟨s, hr, of_decide_eq_true htotal, of_decide_eq_true hlost, ?_, hle⟩
  have hcount := hacc ⟨0⟩ .jobsCompleted
  rw [of_decide_eq_true hlost, of_decide_eq_true hadded] at hcount
  exact hcount

end Fleet

end Orbiter
