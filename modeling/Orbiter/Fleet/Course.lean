import Orbiter.Fleet.Expiry
import Orbiter.Fleet.Settled

/-!
# The course of a call that nobody hinders

A `handle` call has no loop: every answer brings it nearer to its end, whatever the answer is, so it
awaits at most eleven of them. What a call does on the way depends on what it finds. A call that
began with the claim and the lease free, of whose own calls none failed, and that nobody else
disturbed leaves its message in one of three ways: acknowledged with the job succeeded, terminated,
or — for a poison job and for one whose every execution fails — negatively acknowledged.

* `HandlePc.rank`, `Move.rank_lt` — the number of answers still to come, at most, and that every
  move makes it smaller;
* `World.Open`, `World.Done`, `World.Unfenced` — what a call can find of its job: not settled,
  succeeded, and under a token that is not newer than its own;
* `HandlePc.Course` — which of them holds at each control point. `HandlePc.course_start` says that
  the start is on the course, `Move.course` that every move stays on it or leaves the message;
* `World.exists_kind` — every call can be answered in a way that keeps to the job's own kind: a job
  whose every execution fails draws a failure, any other a success.

Unlike `OnTrack`, the course covers every job, settled or not, whatever it went through before.
-/

namespace Orbiter

open ExecutionGuard LeaseManager Worker

/-! ### The end is near -/

/-- How many answers a control point is from the end at most. -/
def HandlePc.rank : HandlePc → ℕ
  | finished _ => 0
  | nakPoison | ackDuplicate | nakInProgress | nakUnleased | releaseLease _ _ => 1
  | releaseClaimUnleased | ackCompleted _ | nakRequeued _ | termFailed _ | termObsolete _ => 2
  | clearClaim _ | releaseClaimRequeued _ | releaseClaimFailed _ | releaseClaimObsolete _ => 3
  | setDone _ | recordRequeued _ _ | recordFailed _ _ => 4
  | recordCompleted _ _ => 5
  | executing _ => 6
  | recordStarted _ => 7
  | setLease _ => 8
  | drawToken => 9
  | setClaim => 10
  | readDone => 11

theorem HandlePc.rank_start_le (d : Delivery) : (HandlePc.start d).rank ≤ 11 := by
  rw [start]
  split
  · show 1 ≤ 11
    omega
  · exact le_rfl

theorem HandlePc.rank_catching_db_le (cfg : Settings) (d : Delivery) (l : Lease) (e : DbError) :
    (catching cfg d l (.db e)).rank ≤ 3 := by
  cases e <;> simp [catching, rank]

/-- **Every answer brings a call nearer to its end.** -/
theorem Move.rank_lt {cfg : Settings} {d : Delivery} {s : World} {pc pc' : HandlePc}
    {c : WorkerCall} {ans : Answer} (hm : Move cfg d s pc c ans pc') : pc'.rank < pc.rank := by
  cases hm with
  | fault hv applied =>
    cases pc with
    | finished exit => cases hv
    | _ => simp [HandlePc.onFault, HandlePc.lease?, HandlePc.rank]
  | startRefused l h =>
    have hle := HandlePc.rank_catching_db_le cfg d l
    exact lt_of_le_of_lt (hle _) (by simp [HandlePc.rank])
  | completionRefused l result h =>
    have hle := HandlePc.rank_catching_db_le cfg d l
    exact lt_of_le_of_lt (hle _) (by simp [HandlePc.rank])
  | _ => simp [HandlePc.rank]

/-- A control point that is not the end awaits something. -/
theorem HandlePc.view_of_not_finished (cfg : Settings) (d : Delivery) (pc : HandlePc)
    (h : ∀ exit, pc ≠ .finished exit) : ∃ c k, pc.view cfg d = .inr ⟨c, k⟩ := by
  cases pc with
  | finished exit => exact absurd rfl (h exit)
  | _ => exact ⟨_, _, rfl⟩

/-! ### What a call finds -/

/-- The job has not come to rest. -/
def World.Open (s : World) (j : Uuid) : Prop :=
  ∃ row, s.db.job? j = some row ∧ row.state.isSettled = false

/-- The job has succeeded. -/
def World.Done (s : World) (j : Uuid) : Prop :=
  ∃ row, s.db.job? j = some row ∧ row.state = .succeeded

/-- The row has accepted no newer token. -/
def World.Unfenced (s : World) (j : Uuid) (token : ℕ) : Prop :=
  ∀ row, s.db.job? j = some row → row.fenceToken ≤ token

/-- Every execution fails. -/
def Delivery.Failing (d : Delivery) : Prop := 1 ≤ d.payload.failureRate

/-- What a call that nobody hinders finds at each control point. `U`: the job was open when the
call began. -/
def HandlePc.Course (d : Delivery) (s : World) (U : Prop) : HandlePc → Prop
  | nakPoison => d.payload.poison = true
  | readDone | setClaim =>
    s.kv.live s.now (claimKey d.jobId.str) = none ∧
      s.kv.live s.now (leaseKey d.jobId.str) = none ∧ (U → s.Open d.jobId)
  | ackDuplicate => s.Done d.jobId
  | drawToken => s.kv.live s.now (leaseKey d.jobId.str) = none ∧ (U → s.Open d.jobId)
  | setLease token =>
    s.kv.live s.now (leaseKey d.jobId.str) = none ∧ s.Unfenced d.jobId token ∧
      (U → s.Open d.jobId)
  | recordStarted l => s.Unfenced d.jobId l.token ∧ (U → s.Open d.jobId)
  | executing l | recordCompleted l _ => s.Running d.jobId l.token
  | recordRequeued l _ | recordFailed l _ => s.Running d.jobId l.token ∧ d.Failing
  | setDone _ | clearClaim _ | ackCompleted _ => s.Done d.jobId
  | releaseClaimRequeued _ | nakRequeued _ | releaseClaimFailed _ | termFailed _ => d.Failing
  | releaseClaimObsolete _ | termObsolete _ => ¬U
  | releaseLease _ (.ok _) | finished (.ok _) => True
  | _ => False

/-- Where it begins. -/
theorem HandlePc.course_start {d : Delivery} {s : World} {U : Prop}
    (hclaim : s.kv.live s.now (claimKey d.jobId.str) = none)
    (hlease : s.kv.live s.now (leaseKey d.jobId.str) = none) (hU : U → s.Open d.jobId) :
    (start d).Course d s U := by
  rw [start]
  split
  · next hpoison => exact hpoison
  · exact ⟨hclaim, hlease, hU⟩

/-- The call is answered, and an execution fails only if every one does. -/
def Answer.Kind (d : Delivery) : Answer → Prop
  | .served => True
  | .executed draw _ => d.payload.failureRate < 1 → d.payload.failureRate ≤ draw
  | .failed _ => False

/-- Some such answer fits every call. -/
theorem World.exists_kind (cfg : Settings) (d : Delivery) (s : World) {pc : HandlePc}
    {c : WorkerCall} {k : Except WorkerExc c.Resp → HandlePc}
    (hv : pc.view cfg d = .inr ⟨c, k⟩) : ∃ ans r, ans.Kind d ∧ s.reply c ans = some r := by
  cases c with
  | kv c => exact ⟨.served, _, trivial, rfl⟩
  | recordEvent w =>
    cases hx : s.db.recordEvent s.now w with
    | error e => exact ⟨.served, .error (.db e), trivial, by rw [reply, hx]⟩
    | ok p => exact ⟨.served, .ok p.1, trivial, by rw [reply, hx]⟩
  | execute durationMs failureRate =>
    by_cases hlt : d.payload.failureRate < 1
    · exact ⟨.executed d.payload.failureRate 0, execute failureRate d.payload.failureRate 0,
        fun _ ↦ le_rfl, by rw [reply, if_pos ⟨d.payload.failureRate_nonneg, hlt⟩]⟩
    · exact ⟨.executed 0 0, execute failureRate 0 0, fun h ↦ absurd h hlt,
        by rw [reply, if_pos ⟨le_rfl, zero_lt_one⟩]⟩
  | ack | nak delay | term => exact ⟨.served, _, trivial, rfl⟩

/-- How a call on its course leaves its message. -/
inductive Leaves (d : Delivery) (s' : World) (U : Prop) : WorkerCall → Prop
  | acked (h : s'.Done d.jobId) : Leaves d s' U .ack
  | terminated (h : d.Failing ∨ ¬U) : Leaves d s' U .term
  | refused (delay : NakDelay) (h : d.payload.poison = true ∨ d.Failing) :
      Leaves d s' U (.nak delay)

section Course

variable {cfg : Settings} {d : Delivery} {s : World} {pc pc' : HandlePc} {c : WorkerCall}
  {ans : Answer} {U : Prop}

theorem World.open_serve_kv {j : Uuid} (ho : s.Open j) (who : Writer) (c : KvCall ℕ)
    (ans : Answer) : (s.serve who (.kv c) ans).Open j := by
  rw [Open, (db_serve_kv s who c ans).1]
  exact ho

/-- A call to the store leaves a job that has succeeded so. -/
theorem World.done_serve_kv {j : Uuid} (hd : s.Done j) (who : Writer) (c : KvCall ℕ)
    (ans : Answer) : (s.serve who (.kv c) ans).Done j := by
  rw [Done, (db_serve_kv s who c ans).1]
  exact hd

/-- A start that is refused although no token is newer finds the job at rest. -/
theorem settled_of_startRefused {l : Lease} {e : DbError} {row : JobRow SubmitRequest}
    (hrow : s.db.job? d.jobId = some row) (hsub : row.state ≠ .submitted)
    (hfence : s.Unfenced d.jobId l.token)
    (h : s.db.recordEvent s.now (startedWrite d l) = .error e) :
    row.state.isSettled = true ∧ ∃ x, e = .illegalTransition x := by
  rcases Database.applyEvent_eq_error h with ⟨-, hnone⟩ | ⟨row', hrow', hno, rfl⟩ |
    ⟨row', next, hrow', -, hlt, -⟩
  · exact nomatch hnone.symm.trans hrow
  · obtain rfl := Option.some.inj (hrow'.symm.trans hrow)
    exact ⟨isSettled_of_started_illegal hsub hno, _, rfl⟩
  · exact absurd hlt (not_lt.2 (hfence row' hrow'))

/-- A write of a running job's holder is not refused. -/
theorem World.Running.recordEvent_ne_error {token : ℕ} {w : Write} {next : JobState}
    (hrun : s.Running w.jobId token) (hw : w.fenceToken = some (token : ℤ))
    (hnext : transitions .running w.event = some next) (e : DbError) :
    s.db.recordEvent s.now w ≠ .error e := by
  obtain ⟨row, hrow, hstate, htoken⟩ := hrun
  refine Orbiter.recordEvent_ne_error next hrow (by rw [hstate]; exact hnext) ?_ e
  rw [hw]
  exact htoken

/-- **A call keeps its course**, if it is answered and nobody else moves. -/
theorem Move.course (hm : Move cfg d s pc c ans pc') (ht : pc.Course d s U) (hkind : ans.Kind d)
    {row : JobRow SubmitRequest} (hrow : s.db.job? d.jobId = some row)
    (hsub : row.state ≠ .submitted)
    (hfence : s.Unfenced d.jobId (s.kv.counters (tokenKey d.jobId.str)))
    (hdone : ∀ e, s.kv.live s.now (doneKey d.jobId.str) = some e → s.Done d.jobId)
    (who : Writer) :
    pc'.Course d (s.serve who c ans) U ∧
      (pc'.released = true → pc.released = true ∨ Leaves d (s.serve who c ans) U c) := by
  cases hm with
  | fault hv applied => exact hkind.elim
  | nakPoison => exact ⟨trivial, fun _ ↦ .inr (.refused _ (.inl ht))⟩
  | alreadyDone h => exact ⟨World.done_serve_kv (hdone _ h) .., nofun⟩
  | notDone h =>
    exact ⟨⟨World.live_serve_kv ht.1 who (by simp), World.live_serve_kv ht.2.1 who (by simp),
      fun hU ↦ World.open_serve_kv (ht.2.2 hU) ..⟩, nofun⟩
  | ackDuplicate => exact ⟨trivial, fun _ ↦ .inr (.acked ht)⟩
  | claimed h =>
    refine ⟨⟨World.live_serve_kv ht.2.1 who fun value ttl heq ↦ ?_,
      fun hU ↦ World.open_serve_kv (ht.2.2 hU) ..⟩, nofun⟩
    exact claimKey_ne_leaseKey _ _ (KvCall.setIfAbsent.inj heq).1
  | inProgress h => exact nomatch ht.1.symm.trans h
  | drew =>
    refine ⟨⟨World.live_serve_kv ht.1 who (by simp), fun row' hrow' ↦ ?_,
      fun hU ↦ World.open_serve_kv (ht.2 hU) ..⟩, nofun⟩
    rw [(World.db_serve_kv s who _ _).1] at hrow'
    have hle := hfence row' hrow'
    push_cast
    omega
  | leased token h =>
    refine ⟨⟨fun row' hrow' ↦ ?_, fun hU ↦ World.open_serve_kv (ht.2.2 hU) ..⟩, nofun⟩
    rw [(World.db_serve_kv s who _ _).1] at hrow'
    exact ht.2.1 row' hrow'
  | leaseHeld token h => exact nomatch ht.1.symm.trans h
  | started l h =>
    obtain ⟨row', -, hnext, hjob⟩ := World.job?_serve_of_ok h who
    exact ⟨⟨_, hjob, target_of_transitions hnext, le_rfl⟩, nofun⟩
  | startRefused l h =>
    obtain ⟨hset, x, rfl⟩ := settled_of_startRefused hrow hsub ht.1 h
    refine ⟨fun hU ↦ ?_, nofun⟩
    obtain ⟨row', hrow', hopen⟩ := ht.2 hU
    obtain rfl := Option.some.inj (hrow'.symm.trans hrow)
    exact nomatch hset.symm.trans hopen
  | executed l h₀ h₁ ms h => exact ⟨ht, nofun⟩
  | failedRetryable l h₀ h₁ ms h message ha | failedLast l h₀ h₁ ms h message ha =>
    refine ⟨⟨ht, ?_⟩, nofun⟩
    by_contra hrate
    exact absurd h (not_lt.2 (hkind (not_le.1 hrate)))
  | completed l result h =>
    obtain ⟨row', -, hnext, hjob⟩ := World.job?_serve_of_ok h who
    exact ⟨⟨_, hjob, target_of_transitions hnext⟩, nofun⟩
  | completionRefused l result h =>
    exact absurd h
      (World.Running.recordEvent_ne_error (w := completedWrite d l result) ht rfl rfl _)
  | setDone l | clearClaim l => exact ⟨World.done_serve_kv ht .., nofun⟩
  | ackCompleted l => exact ⟨trivial, fun _ ↦ .inr (.acked ht)⟩
  | requeued l message h | failed l message h => exact ⟨ht.2, nofun⟩
  | requeueRefused l message h =>
    exact absurd h
      (World.Running.recordEvent_ne_error (w := requeuedWrite d l message) ht.1 rfl rfl _)
  | failureRefused l message h =>
    exact absurd h
      (World.Running.recordEvent_ne_error (w := failedWrite d l message) ht.1 rfl rfl _)
  | releaseClaimRequeued l | releaseClaimFailed l => exact ⟨ht, nofun⟩
  | nakRequeued l => exact ⟨trivial, fun _ ↦ .inr (.refused _ (.inr ht))⟩
  | termFailed l => exact ⟨trivial, fun _ ↦ .inr (.terminated (.inl ht))⟩
  | releaseClaimObsolete l => exact ⟨ht, nofun⟩
  | termObsolete l => exact ⟨trivial, fun _ ↦ .inr (.terminated (.inr ht))⟩
  | releaseLease l exit => rcases exit with e | u <;> exact ⟨ht, fun _ ↦ .inl rfl⟩
  | releaseClaimUnleased | nakUnleased | nakInProgress => exact ht.elim

end Course

end Orbiter
