import Mathlib.Data.Finset.Card
import Mathlib.Data.List.NodupEquivFin
import Orbiter.Fleet.Alone
import Orbiter.Pipeline.Relays

/-!
# Runs without disturbance

No process dies, no call fails, no operator acts, and everything but `execute` takes no time. Such a
run is a guard on the steps: time passes only while all relays and listeners are done and all
workers are idle or inside `execute`, and then no further than to the end of the earliest execution.
The broker redelivers a message that was not answered within `ack_wait`, to any idle worker.

Nothing in `handle` extends the acknowledgement deadline, so whether a healthy job is executed once
depends on its duration and on the number of workers. A job that is over before the deadline, or
that has the only worker, keeps its one delivery; a job that is not over by then meets a second
worker, at a time when its claim and its lease have long expired.

## The argument

* `Undisturbed` — the guard, with the worker names as a parameter: deliveries go to idle workers,
  and again only when due;
* `HandlePc.InTime`, `Move.inTime` — how long a call has been where it is: at no control point but
  `execute` does time pass;
* `Unshared` — the invariant of a healthy job: at most one call, on its track in the sense of
  `Fleet.Alone`, and a message that is held by that call or has not been delivered. Its clauses are
  kept one by one (`onTrack_step`, `held_step`, `gone_step`, `msg_step`), and the one place where
  the duration counts is `Unshared.not_redelivered`;
* `executed_once` — **a job that never fails is executed once**, if there is one worker or it is
  over before the deadline, and `started_twice` is a run in which neither is so.
-/

namespace Orbiter

open ExecutionGuard LeaseManager Worker

/-- Time has passed for a call, delivered at `t`, in its execution only, which lasts at most `d`.
`since` is when the control point was reached. -/
def HandlePc.InTime (d now t since : ℕ) (pc : HandlePc) : Prop :=
  now ≤ t + d ∧
  match pc with
  | .executing _ => since = t
  | .recordCompleted _ _ | .setDone _ | .clearClaim _ | .ackCompleted _ => True
  | _ => now = t

/-- `handle` has returned. -/
def HandlePc.isFinished : HandlePc → Bool
  | .finished _ => true
  | _ => false

def HandlePc.isExecuting : HandlePc → Bool
  | .executing _ => true
  | _ => false

def RelayPc.isFinished : RelayPc → Bool
  | .finished _ => true
  | _ => false

def QuarantinePc.isFinished : QuarantinePc → Bool
  | .finished _ => true
  | _ => false

theorem HandlePc.released_of_isFinished {pc : HandlePc} (h : pc.isFinished = true) :
    pc.released = true := by
  cases pc <;> first | rfl | exact nomatch h

/-- Time passes for a call that executes, up to its end. -/
theorem HandlePc.InTime.of_executing {pc : HandlePc} {d now now' t since : ℕ}
    (hi : pc.InTime d now t since) (h : pc.isExecuting = true) (hle : now' ≤ since + d) :
    pc.InTime d now' t since := by
  cases pc with
  | executing l =>
    obtain ⟨-, rfl⟩ := hi
    exact ⟨hle, rfl⟩
  | _ => exact nomatch h

theorem HandlePc.inTime_of_eq (d now : ℕ) (pc : HandlePc) : pc.InTime d now now now := by
  refine ⟨Nat.le_add_right .., ?_⟩
  cases pc <;> first | exact rfl | trivial

/-- A call on the track stays in time. -/
theorem Move.inTime {cfg : Settings} {dlv : Delivery} {s s' : World} {pc pc' : HandlePc}
    {c : WorkerCall} {ans : Answer} (hm : Move cfg dlv s pc c ans pc')
    (hans : ans.isFailed = false) {j : Uuid} (ht' : pc'.OnTrack s' j)
    (hrel : pc'.released = false) {d t since : ℕ} (hi : pc.InTime d s.now t since) :
    pc'.InTime d s.now t s.now := by
  obtain ⟨hle, hi⟩ := hi
  cases hm with
  | fault hv applied => exact nomatch hans
  | executed | completed | setDone | clearClaim => exact ⟨hle, trivial⟩
  | failedRetryable | failedLast => exact ht'.elim
  | @completionRefused l result e h =>
    rcases e with _ | _ | _ | _
    · exact nomatch hrel
    · exact ht'.elim
    · exact nomatch hrel
    · exact nomatch hrel
  | ackCompleted => exact nomatch hrel
  | _ =>
    obtain rfl : s.now = t := hi
    exact HandlePc.inTime_of_eq ..

namespace Pipeline

variable {cfg : Settings} {W : Finset String} {p p' : Pipeline} {a : PipelineStep}

/-! ### The guard -/

/-- No delivery of the message is out, or the last one for at least `ack_wait`. -/
def Due (cfg : Settings) (now : ℕ) (m : StreamMsg) : Prop :=
  ∀ t ∈ m.outstanding, t + cfg.ackWaitMs ≤ now

/-- The worker is through with all its deliveries. -/
def Idle (p : Pipeline) (workerId : String) : Prop :=
  ∀ hc ∈ p.fleet.calls, hc.delivery.workerId = workerId → hc.pc.isFinished = true

/-- Nobody has anything to do for `ms` milliseconds but to execute. -/
def Resting (p : Pipeline) (ms : ℕ) : Prop :=
  (∀ r ∈ p.relays, r.pc.isFinished = true) ∧ (∀ q ∈ p.quarantines, q.pc.isFinished = true) ∧
    ∀ hc ∈ p.fleet.calls, hc.pc.isFinished = true ∨ hc.pc.isExecuting = true ∧
      p.fleet.world.now + ms ≤ hc.since + hc.delivery.payload.durationMs

/-- The guard on the steps: no death, no failed call, no operator, nothing on the advisory subject
but what the broker puts there, and every delivery reaches its worker; `W` are the workers. -/
def Undisturbed (cfg : Settings) (W : Finset String) (p : Pipeline) : PipelineStep → Prop
  | .submit _ _ _ _ | .beginRelay | .fetch _ | .vanish _ => True
  | .relay _ ans _ | .quarantine _ ans _ => ans = .served
  | .deliver seq workerId => workerId ∈ W ∧ p.Idle workerId ∧
      ∀ m ∈ p.stream.stored? seq, Due cfg p.fleet.world.now m
  | .handle pid ans => ans.isFailed = false ∧
      ∀ hc ∈ p.fleet.calls[pid]?, hc.pc.isExecuting = true →
        p.fleet.world.now = hc.since + hc.delivery.payload.durationMs
  | .exhaust seq => ∀ m ∈ p.stream.stored? seq, Due cfg p.fleet.world.now m
  | .tick ms => p.Resting ms
  | .replay _ | .killRelay _ | .miss _ | .die _ | .advise _ | .killListener _ => False

instance (cfg : Settings) (now : ℕ) (m : StreamMsg) : Decidable (Due cfg now m) :=
  inferInstanceAs (Decidable (∀ t ∈ m.outstanding, _))

instance (p : Pipeline) (workerId : String) : Decidable (p.Idle workerId) :=
  inferInstanceAs (Decidable (∀ hc ∈ p.fleet.calls, _))

instance (p : Pipeline) (ms : ℕ) : Decidable (p.Resting ms) :=
  inferInstanceAs (Decidable (_ ∧ _ ∧ _))

instance (cfg : Settings) (W : Finset String) (p : Pipeline) :
    DecidablePred (Undisturbed cfg W p)
  | .submit _ _ _ _ | .beginRelay | .fetch _ | .vanish _ => isTrue trivial
  | .relay _ .served _ | .quarantine _ .served _ => isTrue rfl
  | .relay _ (.executed _ _) _ | .quarantine _ (.executed _ _) _ => isFalse nofun
  | .relay _ (.failed _) _ | .quarantine _ (.failed _) _ => isFalse nofun
  | .deliver _ _ => inferInstanceAs (Decidable (_ ∧ _ ∧ _))
  | .handle _ _ => inferInstanceAs (Decidable (_ ∧ _))
  | .exhaust seq => inferInstanceAs (Decidable (∀ m ∈ p.stream.stored? seq, _))
  | .tick _ => inferInstanceAs (Decidable (p.Resting _))
  | .replay _ | .killRelay _ | .miss _ | .die _ | .advise _ | .killListener _ => isFalse not_false

theorem relayed_of_undisturbed (hg : Undisturbed cfg W p a) : Relayed p a := by
  cases a with
  | relay | killRelay | replay => exact hg
  | _ => trivial

/-- So each row is published once in undisturbed runs. -/
theorem relayed_of_reachable (h : (system cfg).Reachable (Undisturbed cfg W) p) :
    (system cfg).Reachable Relayed p :=
  h.mono fun _ _ ↦ relayed_of_undisturbed

/-! ### Nobody else touches a healthy job -/

/-- All calls are the workers'. -/
theorem workerId_mem (h : (system cfg).Reachable (Undisturbed cfg W) p) {pid : ℕ}
    {hc : HandleCall} (hget : p.fleet.calls[pid]? = some hc) : hc.delivery.workerId ∈ W := by
  revert pid hc
  refine h.induct (I := fun p ↦ ∀ {pid : ℕ} {hc : HandleCall}, p.fleet.calls[pid]? = some hc →
    hc.delivery.workerId ∈ W) (fun p hp ↦ ?_) fun p a p' _ ih hg hs ↦ ?_
  · rw [hp]
    exact fun {pid hc} hget ↦ absurd hget (by simp [empty])
  · intro pid hc' hget
    rcases delivery_cases hs hget with ⟨hc, hget₀, hd⟩ | ⟨n, workerId, m, rfl, -, -, rfl⟩
    · rw [hd]
      exact ih hget₀
    · exact hg.1

/-- Every advisory is about a message the broker gave up on. -/
def Sourced (p : Pipeline) : Prop :=
  ∀ (aid : ℕ) (x : StoredAdvisory), p.advisories[aid]? = some x →
    ∃ (n : ℕ) (m : StreamMsg), p.stream.msg? n = some m ∧ m.advisory = some aid

/-- In undisturbed runs every advisory is the broker's. -/
theorem sourced_of_reachable (h : (system cfg).Reachable (Undisturbed cfg W) p) : p.Sourced := by
  refine h.induct (I := Sourced) (fun p hp ↦ ?_) fun p a p' _ ih hg hs ↦ ?_
  · rw [hp]
    exact fun aid x hget ↦ absurd hget (by simp [empty])
  · intro aid x' hget
    rcases advisory_cases hs hget with ⟨x, hx⟩ | ⟨rfl, ⟨n, rfl⟩ | ⟨raw, rfl⟩⟩
    · obtain ⟨n, m, hm, haid⟩ := ih aid x hx
      obtain ⟨m', hm', hstep⟩ := step_msg hs hm
      exact ⟨n, m', hm', hstep.advisory_of_some haid⟩
    · obtain ⟨m, hm, -, -, rfl⟩ := exhaust_eq_some hs
      refine ⟨n, { m with advisory := some p.advisories.length }, ?_, rfl⟩
      show (p.stream.update n _).msg? n = _
      rw [WorkStream.msg?_update, (WorkStream.stored?_eq_some.1 hm).1, Option.map_some, if_pos rfl]
    · exact hg.elim

/-- A listener that has a message in hand has one the broker gave up on. -/
theorem advisory_of_raw (h : (system cfg).Reachable (Undisturbed cfg W) p) {qid : ℕ}
    {q : QuarantineRun} {adv : MaxDeliveriesAdvisory} {raw : Message SubmitRequest}
    (hget : p.quarantines[qid]? = some q) (hadv : q.pc.adv? = some adv)
    (hraw : q.pc.raw? = some raw) :
    ∃ m, p.stream.msg? adv.streamSeq = some m ∧ m.data = raw ∧ m.advisory ≠ none := by
  have had := advised_of_reachable h
  obtain ⟨x, hx, hparse⟩ := had.run qid q hget
  obtain ⟨n, m, hm, haid⟩ := sourced_of_reachable h _ x hx
  obtain ⟨-, x', hx', hbroker⟩ := had.exhausted n m _ hm haid
  obtain rfl := Option.some.inj (hx.symm.trans hx')
  have hseq := hparse adv hadv
  rw [hbroker, parseAdvisory_brokerAdvisory, Except.ok.injEq, Option.some.injEq] at hseq
  obtain ⟨m', hm', hdata⟩ := had.fetched qid q adv raw hget hadv hraw
  rw [← hseq] at hm' ⊢
  obtain rfl := Option.some.inj (hm.symm.trans hm')
  exact ⟨m, hm, hdata, by rw [haid]; simp⟩

/-- What is true of a healthy job of duration `d`: its one message is delivered once, and the one
call it gets is on the track and in time, with the message in hand until it is acknowledged. -/
structure Unshared (d : ℕ) (p : Pipeline) (j : Uuid) : Prop where
  waiting : (∀ pid, ¬ p.fleet.Serves j pid) → p.fleet.world.Waiting j
  one : ∀ pid pid' : ℕ, p.fleet.Serves j pid → p.fleet.Serves j pid' → pid = pid'
  msg : ∀ (seq : ℤ) (m : StreamMsg), p.stream.msg? seq = some m → m.data.jobId = j →
    m.advisory = none ∧ m.delivered ≤ 1 ∧ (m.delivered = 0 ∨ ∃ pid, p.fleet.Serves j pid)
  onTrack : ∀ (pid : ℕ) (hc : HandleCall), p.fleet.calls[pid]? = some hc →
    hc.delivery.jobId = j → hc.pc.OnTrack p.fleet.world j
  held : ∀ (pid : ℕ) (hc : HandleCall) (m : StreamMsg), p.fleet.calls[pid]? = some hc →
    hc.delivery.jobId = j → p.stream.msg? hc.delivery.seq = some m → hc.pc.released = false →
    ∃ t, m.outstanding = some t ∧ hc.pc.InTime d p.fleet.world.now t hc.since
  gone : ∀ (pid : ℕ) (hc : HandleCall) (m : StreamMsg), p.fleet.calls[pid]? = some hc →
    hc.delivery.jobId = j → p.stream.msg? hc.delivery.seq = some m → hc.pc.released = true →
    m.present = false
  log : EventType.deadLettered ∉ p.fleet.world.db.log j

/-- The message a call for the job is about. -/
theorem msg_of_serves (hr : (system cfg).Reachable (Undisturbed cfg W) p) {pid : ℕ}
    {hc : HandleCall} (hget : p.fleet.calls[pid]? = some hc) {seq : ℤ} {m : StreamMsg}
    (hm : p.stream.msg? seq = some m) (hjob : m.data.jobId = hc.delivery.jobId) :
    (hc.delivery.seq : ℤ) = seq := by
  obtain ⟨m₁, hm₁, hjob₁, -⟩ := delivered_of_reachable hr pid hc hget
  exact seq_eq_of_jobId_eq (relayed_of_reachable hr) hm₁ hm (hjob₁.symm.trans hjob.symm)

/-- A call carries the payload of its job. -/
theorem payload_of_serves (hr : (system cfg).Reachable (Undisturbed cfg W) p) {pid : ℕ}
    {hc : HandleCall} (hget : p.fleet.calls[pid]? = some hc) {row : JobRow SubmitRequest}
    (hrow : p.fleet.world.db.job? hc.delivery.jobId = some row) :
    hc.delivery.payload = row.payload := by
  obtain ⟨m, hm, hjob, hpay, -⟩ := delivered_of_reachable hr pid hc hget
  obtain ⟨row', hrow', hpay'⟩ := job_of_msg hr hm
  rw [← hjob, hrow, Option.some.injEq] at hrow'
  rw [hrow', hpay', hpay]

/-- What a step without deaths does to a call: nothing, its beginning, or its own move. -/
theorem call_cases (hg : Undisturbed cfg W p a) (h : p.step cfg a = some p') {pid : ℕ}
    {hc' : HandleCall} (hget : p'.fleet.calls[pid]? = some hc') :
    (p.fleet.calls[pid]? = some hc' ∧ ∀ ans, a ≠ .handle pid ans) ∨
    (∃ n workerId m, a = .deliver n workerId ∧ p.stream.stored? n = some m ∧
      p'.fleet.world = p.fleet.world ∧ p'.stream = p.stream.deliver n p.fleet.world.now ∧
      hc' = HandleCall.begin (delivery n workerId m) p.fleet.world.now) ∨
    ∃ hc ans c pc, a = .handle pid ans ∧ p.fleet.calls[pid]? = some hc ∧ hc.call? cfg = some c ∧
      Move cfg hc.delivery p.fleet.world hc.pc c ans pc ∧
      p'.fleet.world = p.fleet.world.serve (.handle pid) c ans ∧
      hc' = hc.advance p.fleet.world p'.fleet.world c pc := by
  by_cases hown : ∃ ans, a = .handle pid ans
  · obtain ⟨ans, rfl⟩ := hown
    obtain ⟨f, hf, rfl⟩ := onFleet_eq_some h
    rcases Fleet.step_call hf hget with ⟨-, hne⟩ | ⟨hc, -, hb, -⟩ | ⟨-, dlv, hb, -⟩ |
      ⟨hc, ans', c, pc, hb, hget₀, hcall, hmove, hw, hc'⟩
    · exact absurd rfl (hne ans)
    · exact nomatch hb
    · exact nomatch hb
    · obtain ⟨-, rfl⟩ := FleetStep.handle.inj hb
      exact .inr (.inr ⟨hc, ans, c, pc, rfl, hget₀, hcall, hmove, hw, hc'⟩)
  · have hne := not_exists.1 hown
    rcases step_fleet h with hsame | ⟨b, hb, hstep⟩
    · exact .inl ⟨hsame ▸ hget, hne⟩
    · rcases Fleet.step_call hstep hget with ⟨hget₀, -⟩ | ⟨hc, -, rfl, -⟩ | ⟨-, dlv, rfl, rfl⟩ |
        ⟨hc, ans, c, pc, rfl, -⟩
      · exact .inl ⟨hget₀, hne⟩
      · rcases hb with _ | _ | _ | _ | _ | _
        exact hg.elim
      · rcases hb with _ | _ | _ | ⟨workerId, hm, hlt⟩
        obtain ⟨m', f, -, -, hf, rfl⟩ := deliver_eq_some h
        obtain rfl := Option.some.inj hf
        exact .inr (.inl ⟨_, workerId, _, rfl, hm, rfl, rfl, rfl⟩)
      · rcases hb with _ | _ | _ | _ | _
        exact absurd rfl (hne ans)

section Step

variable {d : ℕ} {j : Uuid} (hr : (system cfg).Reachable (Undisturbed cfg W) p)
  (hu : Unshared d p j)

include hr hu

/-- No listener has the message of a healthy job in hand. -/
theorem Unshared.not_raw {qid : ℕ} {q : QuarantineRun} {adv : MaxDeliveriesAdvisory}
    {raw : Message SubmitRequest} (hget : p.quarantines[qid]? = some q)
    (hadv : q.pc.adv? = some adv) (hraw : q.pc.raw? = some raw) : raw.jobId ≠ j := by
  intro hjob
  obtain ⟨m, hm, rfl, hsome⟩ := advisory_of_raw hr hget hadv hraw
  exact hsome (hu.msg _ m hm hjob).1

/-- A job whose message has no advisory is not dead-lettered. -/
theorem Unshared.not_deadLetter {b : FleetStep} (hb : Drives cfg p a b) (streamSeq deliveries : ℤ) :
    b ≠ .deadLetter j streamSeq deliveries := by
  rintro rfl
  rcases hb with _ | _ | _ | _ | _ | _ | ⟨ans, remembered, hget, -, hpc⟩
  exact hu.not_raw hr hget (by rw [hpc]; rfl) (by rw [hpc]; rfl) rfl

/-- A step spares the job if no call for it moves. -/
theorem Unshared.spares (hg : Undisturbed cfg W p a) {b : FleetStep} (hb : Drives cfg p a b)
    (hno : ∀ (pid : ℕ) (ans : Answer), b = .handle pid ans → ¬ p.fleet.Serves j pid) :
    p.fleet.Spares j b where
  handle := hno
  replay := by
    rintro rfl
    rcases hb with _ | _
    exact hg
  deadLetter := hu.not_deadLetter hr hb

/-- **No second delivery.** -/
theorem Unshared.not_redelivered (hcond : W.card ≤ 1 ∨ d < cfg.ackWaitMs) {n : ℕ}
    {workerId : String} (hg : Undisturbed cfg W p (.deliver n workerId)) {m : StreamMsg}
    (hm : p.stream.stored? n = some m) (hjob : m.data.jobId = j) (pid : ℕ) :
    ¬ p.fleet.Serves j pid := by
  rintro ⟨hc, hget, rfl⟩
  obtain ⟨hm', hpresent⟩ := WorkStream.stored?_eq_some.1 hm
  have hseq := msg_of_serves hr hget hm' hjob
  rw [← hseq] at hm'
  cases hrel : hc.pc.released with
  | true => exact absurd (hu.gone pid hc m hget rfl hm' hrel) (by rw [hpresent]; simp)
  | false =>
    obtain ⟨t, ht, hle, -⟩ := hu.held pid hc m hget rfl hm' hrel
    have hdue := hg.2.2 m hm t ht
    rcases hcond with hone | hlt
    · have hw := Finset.card_le_one.1 hone _ (workerId_mem hr hget) _ hg.1
      have hfin := hg.2.1 hc (List.mem_of_getElem? hget) hw
      exact absurd (HandlePc.released_of_isFinished hfin) (by rw [hrel]; simp)
    · omega

/-- A message in the hands of a call that does not move is left alone. -/
theorem Unshared.msg_kept (hmax : 1 < cfg.maxDeliver) (hcond : W.card ≤ 1 ∨ d < cfg.ackWaitMs)
    (hg : Undisturbed cfg W p a) {pid : ℕ} {hc : HandleCall}
    (hget : p.fleet.calls[pid]? = some hc) (hjob : hc.delivery.jobId = j)
    (hne : ∀ ans, a ≠ .handle pid ans) {m m' : StreamMsg}
    (hm : p.stream.msg? hc.delivery.seq = some m)
    (hstep : MsgStep cfg p hc.delivery.seq m a m') : m' = m := by
  have hdel := delivered_of_reachable hr
  have hdata : m.data.jobId = j := by
    obtain ⟨m₁, hm₁, hjob₁, -⟩ := hdel pid hc hget
    obtain rfl := Option.some.inj (hm₁.symm.trans hm)
    exact hjob₁.symm.trans hjob
  have hserves : p.fleet.Serves j pid := ⟨hc, hget, hjob⟩
  -- Whoever else answers for this message would serve the same job.
  have hother : ∀ {pid' : ℕ} {hc' : HandleCall}, p.fleet.calls[pid']? = some hc' →
      (hc'.delivery.seq : ℤ) = hc.delivery.seq → pid' = pid := by
    intro pid' hc' hget' hseq
    obtain ⟨m₁, hm₁, hjob₁, -⟩ := hdel pid' hc' hget'
    rw [hseq] at hm₁
    obtain rfl := Option.some.inj (hm₁.symm.trans hm)
    exact hu.one pid' pid ⟨hc', hget', hjob₁.trans hdata⟩ hserves
  cases hstep with
  | same => rfl
  | consumed ans hget' hcall hseq => exact absurd (hother hget' hseq ▸ rfl) (hne ans)
  | refused ans hget' hcall hseq => exact absurd (hother hget' hseq ▸ rfl) (hne ans)
  | @deleted qid ans remembered q adv raw hget' halive hpc hseq =>
    have hadv : q.pc.adv? = some adv := by rw [hpc]; rfl
    have hraw : q.pc.raw? = some raw := by rw [hpc]; rfl
    obtain ⟨m₁, hm₁, hdata₁, -⟩ := advisory_of_raw hr hget' hadv hraw
    rw [hseq] at hm₁
    obtain rfl := Option.some.inj (hm₁.symm.trans hm)
    exact absurd (hdata₁ ▸ hdata) (hu.not_raw hr hget' hadv hraw)
  | @delivered n workerId hseq hpresent hlt =>
    have hstored : p.stream.stored? n = some m :=
      WorkStream.stored?_eq_some.2 ⟨by rw [hseq, hm], hpresent⟩
    exact absurd hserves (hu.not_redelivered hr hcond hg hstored hdata pid)
  | missed => exact hg.elim
  | exhausted hseq hpresent hle hnone =>
    have hfew := (hu.msg _ m hm hdata).2.1
    omega

theorem Unshared.onTrack_step (hcond : W.card ≤ 1 ∨ d < cfg.ackWaitMs)
    (hg : Undisturbed cfg W p a) (h : p.step cfg a = some p') {row : JobRow SubmitRequest}
    (hrow : p.fleet.world.db.job? j = some row) (hrate : row.payload.failureRate = 0)
    (hpoison : row.payload.poison = false) {pid : ℕ} {hc' : HandleCall}
    (hget : p'.fleet.calls[pid]? = some hc') (hjob : hc'.delivery.jobId = j) :
    hc'.pc.OnTrack p'.fleet.world j := by
  rcases call_cases hg h hget with ⟨hget₀, hne⟩ | ⟨n, workerId, m, rfl, hm, hw, -, rfl⟩ |
    ⟨hc, ans, c, pc, rfl, hget₀, -, hmove, hw, rfl⟩
  · have ht := hu.onTrack pid hc' hget₀ hjob
    rcases step_fleet h with hsame | ⟨b, hb, hstep⟩
    · rwa [hsame]
    · refine HandlePc.onTrack_spared ht (hu.spares hr hg hb fun pid' ans hb' hserves ↦ ?_) hstep
      obtain rfl := hu.one pid' pid hserves ⟨hc', hget₀, hjob⟩
      subst hb'
      rcases hb with _ | _ | _ | _ | _
      exact hne ans rfl
  · have hno := hu.not_redelivered hr hcond hg hm hjob
    obtain ⟨row', hrow', hpay⟩ := job_of_msg hr (WorkStream.stored?_eq_some.1 hm).1
    obtain rfl : m.data.jobId = j := hjob
    obtain rfl := Option.some.inj (hrow.symm.trans hrow')
    have hstart : HandlePc.start (delivery n workerId m) = .readDone :=
      if_neg (by show ¬ m.data.payload.poison = true; rw [← hpay, hpoison]; simp)
    rw [HandleCall.begin, hstart, hw]
    exact ⟨Fleet.free_of_not_serves (fleet_reachable hr) hno, hu.waiting hno⟩
  · obtain rfl : hc.delivery.jobId = j := hjob
    rw [hw]
    refine (hmove.onTrack (hu.onTrack pid hc hget₀ rfl) ?_ hg.1 (.handle pid)).1
    rw [payload_of_serves hr hget₀ hrow, hrate]

/-- A message is held by its call while that executes. -/
theorem Unshared.held_step (hmax : 1 < cfg.maxDeliver) (hcond : W.card ≤ 1 ∨ d < cfg.ackWaitMs)
    (hg : Undisturbed cfg W p a) (h : p.step cfg a = some p') {row : JobRow SubmitRequest}
    (hrow : p.fleet.world.db.job? j = some row) (hdur : row.payload.durationMs = d) {pid : ℕ}
    {hc' : HandleCall} {m' : StreamMsg} (hget : p'.fleet.calls[pid]? = some hc')
    (hjob : hc'.delivery.jobId = j) (hm' : p'.stream.msg? hc'.delivery.seq = some m')
    (ht' : hc'.pc.OnTrack p'.fleet.world j) (hrel : hc'.pc.released = false) :
    ∃ t, m'.outstanding = some t ∧ hc'.pc.InTime d p'.fleet.world.now t hc'.since := by
  rcases call_cases hg h hget with ⟨hget₀, hne⟩ | ⟨n, workerId, m, rfl, hm, hw, hs, rfl⟩ |
    ⟨hc, ans, c, pc, rfl, hget₀, hcall, hmove, hw, rfl⟩
  · obtain ⟨m, hm, -⟩ := delivered_of_reachable hr pid hc' hget₀
    obtain ⟨m₁, hm₁, hstep⟩ := step_msg h hm
    obtain rfl := Option.some.inj (hm₁.symm.trans hm')
    rw [hu.msg_kept hr hmax hcond hg hget₀ hjob hne hm hstep]
    obtain ⟨t, ht, hin⟩ := hu.held pid hc' m hget₀ hjob hm hrel
    refine ⟨t, ht, ?_⟩
    rcases step_fleet h with hsame | ⟨b, hb, hf⟩
    · rwa [hsame]
    · rcases Fleet.now_step hf with hsame | ⟨ms, rfl, hlater⟩
      · rwa [hsame]
      · -- Time passes: the call executes, and not beyond its end.
        rcases hb with _ | _ | _ | _ | _ | _ | _ | _
        rcases hg.2.2 hc' (List.mem_of_getElem? hget₀) with hfin | ⟨hexec, hle⟩
        · exact absurd (HandlePc.released_of_isFinished hfin) (by rw [hrel]; simp)
        · subst hjob
          rw [payload_of_serves hr hget₀ hrow, hdur] at hle
          rw [hlater]
          exact hin.of_executing hexec hle
  · rw [hs, HandleCall.begin] at hm'
    rw [show (delivery n workerId m).seq = n from rfl, WorkStream.deliver, WorkStream.msg?_update,
      (WorkStream.stored?_eq_some.1 hm).1, Option.map_some, if_pos rfl, Option.some.injEq] at hm'
    rw [← hm', hw]
    exact ⟨p.fleet.world.now, rfl, HandlePc.inTime_of_eq ..⟩
  · obtain ⟨m, hm, -⟩ := delivered_of_reachable hr pid hc hget₀
    obtain ⟨m₁, hm₁, hstep⟩ := step_msg h hm
    obtain rfl := Option.some.inj (hm₁.symm.trans hm')
    have hkeep : ¬ (hc.pc.released = true ∨ c = .ack ∨ c = .term ∨ ∃ delay, c = .nak delay) := by
      intro hx
      exact absurd (hmove.released hg.1 hx) (by rw [show pc.released = false from hrel]; simp)
    have hsame : m₁ = m := by
      cases hstep with
      | same => rfl
      | consumed _ hget' hcall' hseq =>
        obtain rfl := Option.some.inj (hget₀.symm.trans hget')
        rw [hcall, Option.some.injEq, Option.some.injEq] at hcall'
        exact absurd (.inr (hcall'.imp_right .inl)) hkeep
      | refused _ hget' hcall' hseq =>
        obtain rfl := Option.some.inj (hget₀.symm.trans hget')
        rw [hcall, Option.some.injEq] at hcall'
        exact absurd (.inr (.inr (.inr ⟨_, hcall'⟩))) hkeep
    rw [hsame]
    obtain ⟨t, ht, hin⟩ := hu.held pid hc m hget₀ hjob hm (by
      simpa using fun hx ↦ hkeep (.inl hx))
    refine ⟨t, ht, ?_⟩
    have hnow : p'.fleet.world.now = p.fleet.world.now := by rw [hw, World.now_serve]
    rw [hnow]
    exact hmove.inTime hg.1 ht' hrel hin

theorem Unshared.gone_step (hmax : 1 < cfg.maxDeliver) (hcond : W.card ≤ 1 ∨ d < cfg.ackWaitMs)
    (hg : Undisturbed cfg W p a) (h : p.step cfg a = some p') {row : JobRow SubmitRequest}
    (hrow : p.fleet.world.db.job? j = some row) (hrate : row.payload.failureRate = 0) {pid : ℕ}
    {hc' : HandleCall} {m' : StreamMsg} (hget : p'.fleet.calls[pid]? = some hc')
    (hjob : hc'.delivery.jobId = j) (hm' : p'.stream.msg? hc'.delivery.seq = some m')
    (hrel : hc'.pc.released = true) : m'.present = false := by
  rcases call_cases hg h hget with ⟨hget₀, hne⟩ | ⟨n, workerId, m, rfl, hm, hw, hs, rfl⟩ |
    ⟨hc, ans, c, pc, rfl, hget₀, hcall, hmove, hw, rfl⟩
  · obtain ⟨m, hm, -⟩ := delivered_of_reachable hr pid hc' hget₀
    obtain ⟨m₁, hm₁, hstep⟩ := step_msg h hm
    obtain rfl := Option.some.inj (hm₁.symm.trans hm')
    rw [hu.msg_kept hr hmax hcond hg hget₀ hjob hne hm hstep]
    exact hu.gone pid hc' m hget₀ hjob hm hrel
  · rw [HandleCall.begin, HandlePc.start] at hrel
    split at hrel <;> contradiction
  · obtain ⟨m, hm, -⟩ := delivered_of_reachable hr pid hc hget₀
    obtain ⟨m₁, hm₁, hstep⟩ := step_msg h hm
    obtain rfl := Option.some.inj (hm₁.symm.trans hm')
    obtain rfl : hc.delivery.jobId = j := hjob
    have hrate' : hc.delivery.payload.failureRate = 0 := by
      rw [payload_of_serves hr hget₀ hrow, hrate]
    rcases (hmove.onTrack (hu.onTrack pid hc hget₀ rfl) hrate' hg.1 (.handle pid)).2 hrel with
      hrel₀ | rfl
    · exact hstep.present (hu.gone pid hc m hget₀ rfl hm hrel₀)
    · have heff : ans.takesEffect = true := by
        rcases ans with _ | _ | applied
        · rfl
        · rfl
        · cases hg.1
      rw [ack_step h hget₀ hcall heff] at hm'
      rw [HandleCall.delivery_advance, WorkStream.remove, WorkStream.msg?_update, hm,
        Option.map_some, if_pos rfl, Option.some.injEq] at hm'
      rw [← hm']

/-- A second call would be a second delivery. -/
theorem Unshared.one_step (hcond : W.card ≤ 1 ∨ d < cfg.ackWaitMs) (hg : Undisturbed cfg W p a)
    (h : p.step cfg a = some p') {pid pid' : ℕ} (hs : p'.fleet.Serves j pid)
    (hs' : p'.fleet.Serves j pid') : pid = pid' := by
  rcases step_fleet h with hsame | ⟨b, hb, hstep⟩
  · rw [hsame] at hs hs'
    exact hu.one pid pid' hs hs'
  · have hnew : ∀ dlv, b = .start dlv → dlv.jobId = j → ∀ pid, ¬ p.fleet.Serves j pid := by
      rintro dlv rfl hjob
      rcases hb with _ | _ | _ | ⟨workerId, hm, -⟩
      exact hu.not_redelivered hr hcond hg hm hjob
    rcases Fleet.serves_cases hstep hs with hold | ⟨hlen, dlv, hb', hjob⟩ <;>
    rcases Fleet.serves_cases hstep hs' with hold' | ⟨hlen', dlv', hb'', hjob'⟩
    · exact hu.one pid pid' hold hold'
    · exact absurd hold (hnew dlv' hb'' hjob' pid)
    · exact absurd hold' (hnew dlv hb' hjob pid')
    · exact hlen.trans hlen'.symm

/-- The message has no advisory, and has been delivered once at most. -/
theorem Unshared.msg_step (hmax : 1 < cfg.maxDeliver) (hcond : W.card ≤ 1 ∨ d < cfg.ackWaitMs)
    (hg : Undisturbed cfg W p a) (h : p.step cfg a = some p') {seq : ℤ} {m' : StreamMsg}
    (hm' : p'.stream.msg? seq = some m') (hjob : m'.data.jobId = j) :
    m'.advisory = none ∧ m'.delivered ≤ 1 ∧
      (m'.delivered = 0 ∨ ∃ pid, p'.fleet.Serves j pid) := by
  rcases msg_cases h hm' with ⟨m, hm, hstep⟩ |
    ⟨rid, ans, remembered, r, batch, entry, rest, -, -, -, -, -, -, rfl⟩
  · rw [hstep.data] at hjob
    obtain ⟨hadv, hfew, hserves⟩ := hu.msg seq m hm hjob
    have hserves' : m.delivered = 0 ∨ ∃ pid, p'.fleet.Serves j pid := by
      refine hserves.imp_right fun ⟨pid, hs⟩ ↦ ⟨pid, ?_⟩
      rcases step_fleet h with hsame | ⟨b, -, hf⟩
      · rwa [hsame]
      · exact hs.step hf
    cases hstep with
    | same | consumed | refused | deleted => exact ⟨hadv, hfew, hserves'⟩
    | @delivered n workerId hseq hpresent hlt =>
      have hstored : p.stream.stored? n = some m :=
        WorkStream.stored?_eq_some.2 ⟨by rw [hseq, hm], hpresent⟩
      have hzero : m.delivered = 0 := hserves.resolve_right fun ⟨pid, hs⟩ ↦
        hu.not_redelivered hr hcond hg hstored hjob pid hs
      obtain ⟨m₁, f, hm₁, -, hf, rfl⟩ := deliver_eq_some h
      obtain rfl := Option.some.inj (hm₁.symm.trans hstored)
      obtain rfl := Option.some.inj hf
      exact ⟨hadv, by rw [hzero], .inr ⟨_, _, List.getElem?_concat_length, hjob⟩⟩
    | missed => exact hg.elim
    | exhausted hseq hpresent hle hnone => omega
  · exact ⟨rfl, Nat.zero_le _, .inl rfl⟩

/-- **Every undisturbed step keeps the job to its one call.** -/
theorem Unshared.step (hmax : 1 < cfg.maxDeliver) (hcond : W.card ≤ 1 ∨ d < cfg.ackWaitMs)
    (hg : Undisturbed cfg W p a) (h : p.step cfg a = some p') {row : JobRow SubmitRequest}
    (hrow : p.fleet.world.db.job? j = some row) (hrate : row.payload.failureRate = 0)
    (hpoison : row.payload.poison = false) (hdur : row.payload.durationMs = d) :
    Unshared d p' j where
  waiting hno := by
    rcases step_fleet h with hsame | ⟨b, hb, hstep⟩
    · rw [hsame] at hno ⊢
      exact hu.waiting hno
    · have hno₀ : ∀ pid, ¬ p.fleet.Serves j pid := fun pid hs ↦ hno pid (hs.step hstep)
      obtain ⟨row', hrow', hq⟩ := hu.waiting hno₀
      exact ⟨row', (hu.spares hr hg hb fun pid _ _ ↦ hno₀ pid).job? hstep hrow', hq⟩
  one _ _ := hu.one_step hr hcond hg h
  msg _ _ := hu.msg_step hr hmax hcond hg h
  onTrack _ _ := hu.onTrack_step hr hcond hg h hrow hrate hpoison
  held _ _ _ hget hjob hm := hu.held_step hr hmax hcond hg h hrow hdur hget hjob hm
    (hu.onTrack_step hr hcond hg h hrow hrate hpoison hget hjob)
  gone _ _ _ := hu.gone_step hr hmax hcond hg h hrow hrate
  log := by
    rcases step_fleet h with hsame | ⟨b, hb, hstep⟩
    · rw [hsame]
      exact hu.log
    · rcases Fleet.jobStep hstep j with ⟨-, hrows, -⟩ |
        ⟨who, key, payload, id, id', habs, -, -, -⟩ |
        ⟨who, w, row₀, next, id, hmade, hid, -, -, -, -, hrows, -⟩
      · rw [Database.log, hrows]
        exact hu.log
      · exact absurd (habs.symm.trans hrow) (by simp)
      · rw [Database.log, hrows, List.map_append, List.mem_append]
        rintro (hold | hnew)
        · exact hu.log hold
        · obtain ⟨streamSeq, deliveries, rfl, -⟩ :=
            Fleet.deadLetter_of_makes hmade (List.mem_singleton.1 hnew).symm
          exact hu.not_deadLetter hr hb streamSeq deliveries (by rw [hid])

end Step

/-- A job that has just been submitted. -/
theorem unshared_of_created (hr : (system cfg).Reachable (Undisturbed cfg W) p)
    (h : p.step cfg a = some p') {j : Uuid} (habs : p.fleet.world.db.job? j = none)
    {row : JobRow SubmitRequest} (hrow : p'.fleet.world.db.job? j = some row) (d : ℕ) :
    Unshared d p' j := by
  obtain ⟨b, hb, hstep⟩ := (step_fleet h).resolve_left fun hsame ↦ by
    rw [hsame, habs] at hrow
    exact nomatch hrow
  have hnomsg : ∀ (seq : ℤ) (m : StreamMsg), p.stream.msg? seq = some m → m.data.jobId ≠ j := by
    rintro seq m hm rfl
    obtain ⟨row₀, hrow₀, -⟩ := job_of_msg hr hm
    exact nomatch habs.symm.trans hrow₀
  have hno : ∀ pid, ¬ p'.fleet.Serves j pid := by
    intro pid hs
    rcases Fleet.serves_cases hstep hs with ⟨hc, hget, hjob⟩ | ⟨-, dlv, rfl, hjob⟩
    · obtain ⟨m, hm, hjob', -⟩ := delivered_of_reachable hr pid hc hget
      exact hnomsg _ m hm (hjob'.symm.trans hjob)
    · rcases hb with _ | _ | _ | ⟨workerId, hm, -⟩
      exact hnomsg _ _ (WorkStream.stored?_eq_some.1 hm).1 hjob
  have hnocall : ∀ (pid : ℕ) (hc : HandleCall), p'.fleet.calls[pid]? = some hc →
      hc.delivery.jobId ≠ j := fun pid hc hget hjob ↦ hno pid ⟨hc, hget, hjob⟩
  have hnew : p'.fleet.world.Waiting j ∧ EventType.deadLettered ∉ p'.fleet.world.db.log j := by
    rcases Fleet.jobStep hstep j with ⟨hjob, -, -⟩ |
      ⟨who, key, payload, id, id', -, hjob, hrows, -⟩ | ⟨who, w, row₀, next, id, -, -, hrow₀, -⟩
    · rw [hjob, habs] at hrow
      exact nomatch hrow
    · refine ⟨⟨_, hjob, rfl, rfl⟩, ?_⟩
      have hnil := ((Fleet.consistent_of_reachable (fleet_reachable hr)).absent j habs).1
      rw [Database.log, hrows, show p.fleet.world.db.eventRows j = [] from hnil]
      simp
    · exact nomatch habs.symm.trans hrow₀
  refine ⟨fun _ ↦ hnew.1, fun pid _ hs _ ↦ absurd hs (hno pid), fun seq m' hm' hjob ↦ ?_,
    fun pid hc hget hjob ↦ absurd hjob (hnocall pid hc hget),
    fun pid hc _ hget hjob ↦ absurd hjob (hnocall pid hc hget),
    fun pid hc _ hget hjob ↦ absurd hjob (hnocall pid hc hget), hnew.2⟩
  rcases msg_cases h hm' with ⟨m, hm, hms⟩ |
    ⟨rid, ans, remembered, r, batch, entry, rest, -, -, -, -, -, hf, rfl⟩
  · exact absurd (hms.data ▸ hjob) (hnomsg seq m hm)
  · rw [hf, habs] at hrow
    exact nomatch hrow

/-- **A healthy job keeps its one delivery**, if it is over before the deadline or has the only
worker. -/
theorem unshared_of_reachable (hmax : 1 < cfg.maxDeliver) {d : ℕ}
    (hcond : W.card ≤ 1 ∨ d < cfg.ackWaitMs)
    (h : (system cfg).Reachable (Undisturbed cfg W) p) {j : Uuid} {row : JobRow SubmitRequest}
    (hrow : p.fleet.world.db.job? j = some row) (hrate : row.payload.failureRate = 0)
    (hpoison : row.payload.poison = false) (hdur : row.payload.durationMs = d) :
    Unshared d p j := by
  revert j row
  refine h.induct (I := fun p ↦ ∀ {j : Uuid} {row : JobRow SubmitRequest},
    p.fleet.world.db.job? j = some row → row.payload.failureRate = 0 →
    row.payload.poison = false → row.payload.durationMs = d → Unshared d p j) (fun p hp ↦ ?_)
    fun p a p' hr ih hg hs ↦ ?_
  · rw [hp]
    exact fun {j row} hrow ↦ absurd hrow (by simp [empty, World.empty])
  · intro j row' hrow' hrate hpoison hdur
    cases hrow : p.fleet.world.db.job? j with
    | none => exact unshared_of_created hr hs hrow hrow' d
    | some row =>
      have hpay : row'.payload = row.payload := by
        rcases step_fleet hs with hsame | ⟨b, -, hstep⟩
        · rw [hsame, hrow, Option.some.injEq] at hrow'
          rw [hrow']
        · obtain ⟨row₁, hrow₁, hpay⟩ := Fleet.payload_step hstep hrow
          obtain rfl := Option.some.inj (hrow₁.symm.trans hrow')
          exact hpay
      rw [hpay] at hrate hpoison hdur
      exact (ih hrow hrate hpoison hdur).step hr hmax hcond hg hs hrow hrate hpoison hdur

/-- What occurs at one place only occurs once. -/
theorem count_le_one {α : Type} [DecidableEq α] {l : List α} {x : α}
    (h : ∀ i k : ℕ, l[i]? = some x → l[k]? = some x → i = k) : l.count x ≤ 1 := by
  by_contra hcount
  obtain ⟨i, k, hlt, hi, hk⟩ := List.duplicate_iff_exists_distinct_get.1
    (List.duplicate_iff_two_le_count.2 (not_le.1 hcount))
  have heq := h i k (List.getElem?_eq_some_iff.2 ⟨i.2, hi.symm⟩)
    (List.getElem?_eq_some_iff.2 ⟨k.2, hk.symm⟩)
  exact absurd heq (Nat.ne_of_lt hlt)

/-- One call, one `started`. -/
theorem Unshared.started_le_one {G : Pipeline → PipelineStep → Prop}
    (h : (system cfg).Reachable G p) {d : ℕ} {j : Uuid} (hu : Unshared d p j) :
    (p.fleet.world.db.log j).count .started ≤ 1 := by
  have hf := fleet_reachable h
  have hatt := Fleet.attributed_of_reachable hf
  have hlog := (Fleet.consistent_of_reachable hf).log_eq j
  rw [World.writesOf_ledger, List.map_map] at hlog
  -- A `started` was written by a call for the job.
  have hwriter : ∀ i : ℕ, (p.fleet.world.db.log j)[i]? = some .started →
      ∃ pid w, (p.fleet.world.writesOf j)[i]? = some (.handle pid, w) ∧ w.event = .started ∧
        p.fleet.Serves j pid := by
    intro i hi
    rw [show p.fleet.world.db.log j = _ from hlog, List.getElem?_map,
      Option.map_eq_some_iff] at hi
    obtain ⟨⟨who, w⟩, hw, hev⟩ := hi
    obtain ⟨hmem, hid⟩ := World.mem_writesOf.1 (List.mem_of_getElem? hw)
    obtain ⟨pid, rfl⟩ := hatt.writer who w hmem (.inl hev)
    obtain ⟨hc, t, hget, hjob, -⟩ := hatt.of_handle hmem
    exact ⟨pid, w, hw, hev, hc, hget, hjob.trans hid⟩
  refine count_le_one fun i k hi hk ↦ ?_
  obtain ⟨pid, w, hw, hev, hs⟩ := hwriter i hi
  obtain ⟨pid', w', hw', hev', hs'⟩ := hwriter k hk
  obtain rfl := hu.one pid pid' hs hs'
  exact hatt.started_once hw hev hw' hev'

/-- **A healthy job is executed once**, under the default settings and in every undisturbed run, if
the fleet has at most one worker or the job takes less than `ack_wait`: its log never holds a second
`started`, and it is never dead-lettered. -/
theorem executed_once {d : ℕ} (hcond : W.card ≤ 1 ∨ d < 30000)
    (h : (system {}).Reachable (Undisturbed {} W) p) {j : Uuid} {row : JobRow SubmitRequest}
    (hrow : p.fleet.world.db.job? j = some row) (hd : d ≤ 600000)
    (hpay : row.payload = SubmitRequest.healthy d hd) :
    (p.fleet.world.db.log j).count .started ≤ 1 ∧
      EventType.deadLettered ∉ p.fleet.world.db.log j := by
  have hu : Unshared d p j := unshared_of_reachable (by decide) hcond h hrow
    (by rw [hpay]; rfl) (by rw [hpay]; rfl) (by rw [hpay]; rfl)
  exact ⟨hu.started_le_one h, hu.log⟩

/-- A job put up for execution and begun by worker `a`. -/
def begunBy (payload : SubmitRequest) (a : String) : List PipelineStep :=
  [.submit ⟨0⟩ "k" payload [], .beginRelay, .relay 0 .served true, .relay 0 .served true,
    .relay 0 .served true, .deliver 1 a, .handle 0 .served, .handle 0 .served, .handle 0 .served,
    .handle 0 .served, .handle 0 .served]

/-- A job of just under half a minute, among two workers. -/
theorem executed_once_of_completed : ∃ p : Pipeline,
    (system {}).Reachable (Undisturbed {} {"a", "b"}) p ∧
    p.fleet.world.db.log ⟨0⟩ = [.submitted, .enqueued, .started, .completed] ∧
    (p.fleet.world.db.log ⟨0⟩).count .started ≤ 1 ∧
      EventType.deadLettered ∉ p.fleet.world.db.log ⟨0⟩ := by
  have hrun : ((system {}).execGuarded (fun p a ↦ decide (Undisturbed {} {"a", "b"} p a)) empty
      (begunBy (.healthy 29999 (by decide)) "a" ++
        [.tick 29999, .handle 0 (.executed (1 / 2) 29999), .handle 0 .served])).any
      (fun p ↦ p.fleet.world.db.log ⟨0⟩ = [.submitted, .enqueued, .started, .completed] &&
        (p.fleet.world.db.job? ⟨0⟩).any fun row ↦
          row.payload.durationMs = 29999 && row.payload.failureRate = 0 &&
            !row.payload.poison) = true := by
    decide +kernel
  obtain ⟨p, hleads, htest⟩ := TransitionSystem.exists_leads_of_execGuarded
    (fun p a hg ↦ of_decide_eq_true hg) hrun
  simp only [Bool.and_eq_true, decide_eq_true_eq, Option.any_eq_true, Bool.not_eq_true'] at htest
  obtain ⟨hlog, row, hrow, ⟨hdur, hrate⟩, hpoison⟩ := htest
  have hreach : (system {}).Reachable (Undisturbed {} {"a", "b"}) p := ⟨empty, rfl, hleads⟩
  have hpay : row.payload = SubmitRequest.healthy 29999 (by decide) :=
    SubmitRequest.ext hdur hrate hpoison
  exact ⟨p, hreach, hlog, executed_once (.inr (by decide)) hreach hrow _ hpay⟩

/-- **The deadline passes during an execution.** After half a minute the broker delivers the message
to the second worker, which finds claim and lease expired and starts the job again. -/
theorem started_twice : ∃ (p : Pipeline) (row : JobRow SubmitRequest),
    (system {}).Reachable (Undisturbed {} {"a", "b"}) p ∧
    p.fleet.world.db.job? ⟨0⟩ = some row ∧
    row.payload = SubmitRequest.healthy 30000 (by decide) ∧
    (p.fleet.world.db.log ⟨0⟩).count .started = 2 := by
  have hrun : ((system {}).execGuarded (fun p a ↦ decide (Undisturbed {} {"a", "b"} p a)) empty
      (begunBy (.healthy 30000 (by decide)) "a" ++ [.tick 30000, .deliver 1 "b",
        .handle 1 .served, .handle 1 .served, .handle 1 .served, .handle 1 .served,
        .handle 1 .served])).any
      (fun p ↦ (p.fleet.world.db.log ⟨0⟩).count .started = 2 &&
        (p.fleet.world.db.job? ⟨0⟩).any fun row ↦
          row.payload.durationMs = 30000 && row.payload.failureRate = 0 &&
            !row.payload.poison) = true := by
    rfl
  obtain ⟨p, hleads, htest⟩ := TransitionSystem.exists_leads_of_execGuarded
    (fun p a hg ↦ of_decide_eq_true hg) hrun
  simp only [Bool.and_eq_true, decide_eq_true_eq, Option.any_eq_true, Bool.not_eq_true'] at htest
  obtain ⟨hcount, row, hrow, ⟨hdur, hrate⟩, hpoison⟩ := htest
  exact ⟨p, row, ⟨empty, rfl, hleads⟩, hrow, SubmitRequest.ext hdur hrate hpoison, hcount⟩

end Pipeline

end Orbiter
