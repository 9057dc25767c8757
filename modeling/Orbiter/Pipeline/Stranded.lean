import Orbiter.Fleet.Leases
import Orbiter.Pipeline.Invariants

/-!
# No job is stranded

A job that is queued or running always has something that will move it on: an outbox row no relay
has marked yet, a message the broker may still deliver or has in delivery, or a message at its limit
whose advisory nobody has acknowledged. What has to be shown is that everyone who gives such a thing
up — a worker that acknowledges or terminates, a listener that deletes, a listener that acknowledges
an advisory — does so only for an obsolete row: one whose job is settled or has a newer row.

Processes may die anywhere, deliveries may reach nobody, and calls of relays and workers may fail.
The guard `Orderly` on the steps asks for three things:

* `WithinLease`: a worker takes no step after its lease has run out. Without it, a superseded holder
  can terminate the message of a queued job.
* `QuarantineServed`: no call inside a quarantine fails, but for the access to a message that is
  gone and the acknowledgement of the advisory. Without it, an advisory is acknowledged whose
  message nobody has looked at.
* `KeepsLease`: the store loses no lease before its time. Without it, a holder that is within its
  lease has a rival.

The proof follows those who give something up. `Executing` says what a call may rely on while it
executes; `GivenUp`, that what a worker acknowledges or terminates and what a listener deletes is
obsolete; `Released`, that an advisory is acknowledged only when its message is gone. The theorem
`not_stranded` puts them together with `Published`, which covers the way from the outbox to the
stream.
-/

namespace Orbiter

open ExecutionGuard LeaseManager Worker

/-- A call that executes holds a lease. -/
theorem HandlePc.lease?_of_running {pc : HandlePc} (h : pc.stage = .running) :
    ∃ l, pc.lease? = some l := by
  cases pc <;> first | exact ⟨_, rfl⟩ | exact absurd h (by simp [stage])

/-- How a call comes to execute: it did before and has written nothing, or its `started` was
accepted. -/
theorem Move.to_running {cfg : Settings} {d : Delivery} {s : World} {pc pc' : HandlePc}
    {c : WorkerCall} {ans : Answer} (hm : Move cfg d s pc c ans pc') (h : pc'.stage = .running) :
    (pc.stage = .running ∧ ∀ w, c ≠ .recordEvent w) ∨
    (∃ l state db, pc = .recordStarted l ∧ c = .recordEvent (startedWrite d l) ∧ ans = .served ∧
      s.db.recordEvent s.now (startedWrite d l) = .ok (state, db)) := by
  cases hm with
  | fault hv applied =>
    rw [HandlePc.stage_onFault] at h
    exact absurd h (by decide)
  | startRefused l he | completionRefused l result he =>
    rw [HandlePc.stage_catching_db] at h
    exact absurd h (by decide)
  | started l he => exact .inr ⟨l, _, _, rfl, rfl, rfl, he⟩
  | executed | failedRetryable | failedLast => exact .inl ⟨rfl, by simp⟩
  | _ => exact nomatch h

namespace Pipeline

variable {cfg : Settings} {p p' : Pipeline} {a : PipelineStep}

/-- A worker takes no step after its lease has run out. -/
def WithinLease (cfg : Settings) (p : Pipeline) : PipelineStep → Prop
  | .handle pid _ => ∀ hc t, p.fleet.calls[pid]? = some hc → hc.leasedAt = some t →
      p.fleet.world.now < t + cfg.leaseTtlMs
  | _ => True

/-- No call inside a quarantine fails, apart from the acknowledgement at its end. Access to a
message that is gone is not a failure: the broker answers it, with an exception. -/
def QuarantineServed (p : Pipeline) : PipelineStep → Prop
  | .quarantine qid ans _ =>
      ans = .served ∨ ∃ q, p.quarantines[qid]? = some q ∧ q.pc = .ackAdvisory
  | _ => True

/-- The store loses no lease. -/
def KeepsLease : PipelineStep → Prop
  | .vanish key => ∀ j : Uuid, key ≠ leaseKey j.str
  | _ => True

/-- The guard on the steps. -/
structure Orderly (cfg : Settings) (p : Pipeline) (a : PipelineStep) : Prop where
  withinLease : WithinLease cfg p a
  quarantineServed : QuarantineServed p a
  keepsLease : KeepsLease a

theorem keepsLeases_of_orderly {b : FleetStep} (hg : Orderly cfg p a) (hb : Drives cfg p a b) :
    p.fleet.KeepsLeases b := by
  intro j
  cases hb with
  | vanish key => exact fun heq ↦ hg.keepsLease j (FleetStep.vanish.inj heq)
  | _ => exact nofun

/-- In orderly runs the holders' entries are there. -/
theorem leases_of_reachable (h : (system cfg).Reachable (Orderly cfg) p) : p.fleet.Leases cfg :=
  Fleet.leases_of_reachable
    ((toFleet cfg (Orderly cfg) Fleet.KeepsLeases fun _ _ _ ↦ keepsLeases_of_orderly).reachable h)

/-- An obsolete row stays obsolete. -/
theorem obsolete_step {G : Pipeline → PipelineStep → Prop} (hr : (system cfg).Reachable G p)
    (h : p.step cfg a = some p') {seq : ℤ} {m : StreamMsg} (hm : p.stream.msg? seq = some m)
    {j : Uuid} (ho : p.fleet.Obsolete j m.msgId) : p'.fleet.Obsolete j m.msgId := by
  rcases step_fleet h with hsame | ⟨b, -, hstep⟩
  · rwa [hsame]
  · exact ho.step (msgId_le_last hr hm) hstep

/-- A call that executes within its lease has a running job, or its message is obsolete. -/
def Executing (cfg : Settings) (p : Pipeline) : Prop :=
  ∀ (pid : ℕ) (hc : HandleCall) (t : ℕ) (m : StreamMsg), p.fleet.calls[pid]? = some hc →
    hc.pc.stage = .running → hc.leasedAt = some t → p.fleet.world.now < t + cfg.leaseTtlMs →
    p.stream.msg? hc.delivery.seq = some m →
    (∃ row, p.fleet.world.db.job? hc.delivery.jobId = some row ∧ row.state = .running) ∨
      p.fleet.Obsolete hc.delivery.jobId m.msgId

/-- While one call executes within its lease, no other call writes to its job; so a running job is
left alone or dead-lettered. -/
theorem running_step (hr : (system cfg).Reachable (Orderly cfg) p) (hg : Orderly cfg p a)
    {b : FleetStep} (hb : Drives cfg p a b) (h : p.fleet.step cfg b = some p'.fleet) {pid : ℕ}
    {hc : HandleCall} {t : ℕ} (hget : p.fleet.calls[pid]? = some hc)
    (hstage : hc.pc.stage = .running) (hleased : hc.leasedAt = some t)
    (hlt : p.fleet.world.now < t + cfg.leaseTtlMs) (hne : ∀ ans, b ≠ .handle pid ans)
    {row : JobRow SubmitRequest} (hrow : p.fleet.world.db.job? hc.delivery.jobId = some row)
    (hstate : row.state = .running) :
    ∃ row', p'.fleet.world.db.job? hc.delivery.jobId = some row' ∧
      (row'.state = .running ∨ row'.state.isSettled = true) := by
  rcases Fleet.jobStep h hc.delivery.jobId with ⟨hjob, -, -⟩ |
    ⟨who, key, payload, id, id', habs, -, -, -⟩ |
    ⟨who, w, row₀, next, id, hmade, hid, hrow₀, hnext, -, hjob, -, -⟩
  · exact ⟨row, hjob.trans hrow, .inl hstate⟩
  · rw [habs] at hrow
    exact absurd hrow (by simp)
  · obtain rfl := Option.some.inj (hrow.symm.trans hrow₀)
    refine ⟨_, hjob, ?_⟩
    cases b with
    | handle pid' ans =>
      obtain ⟨-, hc', hget', hcall⟩ := hmade
      -- The other writer holds a lease too, and both are within it.
      have hlease' : ∃ l, hc'.pc.lease? = some l ∧ w.jobId = hc'.delivery.jobId := by
        obtain ⟨-, l, ⟨hpc, rfl⟩ | ⟨result, hpc, rfl⟩ | ⟨message, hpc, rfl⟩ |
          ⟨message, hpc, rfl⟩⟩ := HandleCall.recordEvent_of_call? hcall <;>
        exact ⟨l, by rw [hpc]; rfl, rfl⟩
      obtain ⟨l', hl', hjob'⟩ := hlease'
      obtain ⟨l, hl⟩ := HandlePc.lease?_of_running hstage
      have hls := leases_of_reachable hr
      obtain ⟨t', hh'⟩ := hls pid' hc' l' hget' hl'
      have hlt' : p.fleet.world.now < t' + cfg.leaseTtlMs := by
        rcases hb with _ | _ | _ | _ | _
        exact hg.withinLease hc' t' hget' hh'.leasedAt
      have heq := hls.eq_of_holds (Fleet.tokens_of_reachable (fleet_reachable hr)) hget hget'
        (hid.symm.trans hjob') hl hl' hleased hh'.leasedAt hlt hlt'
      exact absurd rfl (heq ▸ hne ans)
    | replay jobId =>
      obtain ⟨-, rfl⟩ := hmade
      rw [hstate] at hnext
      exact absurd hnext.symm (Option.some_ne_none _)
    | deadLetter jobId streamSeq deliveries =>
      obtain ⟨-, rfl⟩ := hmade
      exact .inr (by rw [Database.acceptRow, target_of_transitions hnext]; rfl)
    | submit | publish | start | die | tick | vanish => exact hmade.elim

/-- In orderly runs a call that executes has its job to itself. -/
theorem executing_of_reachable (h : (system cfg).Reachable (Orderly cfg) p) :
    p.Executing cfg := by
  refine h.induct (I := Executing cfg) (fun p hp ↦ ?_) fun p a p' hr ih hg hs ↦ ?_
  · rw [hp]
    exact fun pid hc t m hget ↦ absurd hget (by simp [empty])
  intro pid hc' t m' hget hstage hleased hlt hm'
  -- The message was there before the step, or the call would not be.
  have hmsg : ∀ hc, p.fleet.calls[pid]? = some hc → hc.delivery = hc'.delivery →
      ∃ m, p.stream.msg? hc'.delivery.seq = some m ∧ m'.msgId = m.msgId := by
    intro hc hget₀ hd
    obtain ⟨m, hm, -⟩ := delivered_of_reachable hr pid hc hget₀
    obtain ⟨m₁, hm₁, hstep⟩ := step_msg hs hm
    rw [hd] at hm hm₁
    obtain rfl := Option.some.inj (hm₁.symm.trans hm')
    exact ⟨m, hm, hstep.msgId⟩
  rcases step_fleet hs with hsame | ⟨b, hb, hstep⟩
  · rw [hsame] at hget hlt ⊢
    obtain ⟨m, hm, hid⟩ := hmsg hc' hget rfl
    rw [hid]
    exact ih pid hc' t m hget hstage hleased hlt hm
  · have hlt₀ : p.fleet.world.now < t + cfg.leaseTtlMs :=
      lt_of_le_of_lt (Fleet.now_le hstep) hlt
    -- A call that did not move: its job runs on, or is settled meanwhile.
    have hother : ∀ hc, p.fleet.calls[pid]? = some hc → hc.delivery = hc'.delivery →
        hc.pc.stage = .running → hc.leasedAt = some t → (∀ ans, b ≠ .handle pid ans) →
        (∃ row, p'.fleet.world.db.job? hc'.delivery.jobId = some row ∧ row.state = .running) ∨
          p'.fleet.Obsolete hc'.delivery.jobId m'.msgId := by
      intro hc hget₀ hd hstage₀ hleased₀ hne
      obtain ⟨m, hm, hid⟩ := hmsg hc hget₀ hd
      rw [hid, ← hd]
      rcases ih pid hc t m hget₀ hstage₀ hleased₀ hlt₀ (hd ▸ hm) with ⟨row, hrow, hstate⟩ | ho
      · obtain ⟨row', hrow', hrun | hset⟩ :=
          running_step hr hg hb hstep hget₀ hstage₀ hleased₀ hlt₀ hne hrow hstate
        · exact .inl ⟨row', hrow', hrun⟩
        · exact .inr (.inl ⟨row', hrow', hset⟩)
      · exact .inr (obsolete_step hr hs hm ho)
    rcases Fleet.step_call hstep hget with ⟨hget₀, hne⟩ | ⟨hc, hget₀, rfl, rfl⟩ | ⟨-, d, -, rfl⟩ |
      ⟨hc, ans, c, pc, rfl, hget₀, -, hmove, hw, rfl⟩
    · exact hother hc' hget₀ rfl hstage hleased hne
    · exact hother hc hget₀ rfl hstage hleased (by simp)
    · rw [HandleCall.begin, HandlePc.stage_start] at hstage
      exact absurd hstage (by decide)
    · obtain ⟨m, hm, hid⟩ := hmsg hc hget₀ rfl
      rcases hmove.to_running hstage with ⟨hstage₀, hnone⟩ | ⟨l, state, db, -, rfl, rfl, hok⟩
      · obtain ⟨l, hl⟩ := HandlePc.lease?_of_running hstage₀
        have hleased₀ : hc.leasedAt = some t := by
          rw [HandleCall.advance, hl] at hleased
          exact hleased
        rw [hid]
        rcases ih pid hc t m hget₀ hstage₀ hleased₀ hlt₀ hm with ⟨row, hrow, hstate⟩ | ho
        · refine .inl ⟨row, ?_, hstate⟩
          rw [hw]
          rcases World.jobStep_serve p.fleet.world (.handle pid) c ans hc.delivery.jobId with
            ⟨hjob, -, -⟩ | ⟨who, key, payload, id, id', habs, -, -, -⟩ |
            ⟨who, w, row₀, next, id, hmade, -⟩
          · exact hjob.trans hrow
          · rw [habs] at hrow
            exact absurd hrow (by simp)
          · exact absurd hmade.2 (hnone w)
        · exact .inr (obsolete_step hr hs hm ho)
      · obtain ⟨row, -, hnext, hjob⟩ := World.job?_serve_of_ok hok (.handle pid)
        rw [hw]
        exact .inl ⟨_, hjob, by rw [Database.acceptRow, target_of_transitions hnext]; rfl⟩

/-! ### Giving up a message -/

/-- Who is about to remove a message, or has removed it, has an obsolete one. -/
structure GivenUp (p : Pipeline) : Prop where
  consuming : ∀ (pid : ℕ) (hc : HandleCall) (m : StreamMsg), p.fleet.calls[pid]? = some hc →
    hc.pc.consuming = true → p.stream.msg? hc.delivery.seq = some m →
    p.fleet.Obsolete m.data.jobId m.msgId
  deleting : ∀ (qid : ℕ) (q : QuarantineRun) (adv : MaxDeliveriesAdvisory)
    (raw : Message SubmitRequest) (m : StreamMsg), p.quarantines[qid]? = some q →
    q.pc = .delete adv raw → p.stream.msg? adv.streamSeq = some m →
    p.fleet.Obsolete m.data.jobId m.msgId
  removed : ∀ (seq : ℤ) (m : StreamMsg), p.stream.msg? seq = some m → m.present = false →
    p.fleet.Obsolete m.data.jobId m.msgId

/-- A worker on its way to a removal. -/
theorem consuming_step (hr : (system cfg).Reachable (Orderly cfg) p) (hp : p.GivenUp)
    (hg : Orderly cfg p a) (h : p.step cfg a = some p') {pid : ℕ} {hc' : HandleCall}
    {m : StreamMsg} (hget : p'.fleet.calls[pid]? = some hc') (hcons : hc'.pc.consuming = true)
    (hm : p.stream.msg? hc'.delivery.seq = some m) :
    p'.fleet.Obsolete m.data.jobId m.msgId := by
  by_cases ho : p.fleet.Obsolete m.data.jobId m.msgId
  · exact obsolete_step hr h hm ho
  rcases step_fleet h with hsame | ⟨b, hb, hstep⟩
  · exact absurd (hp.consuming pid hc' m (hsame ▸ hget) hcons hm) ho
  · rcases Fleet.step_call hstep hget with ⟨hget₀, -⟩ | ⟨hc, hget₀, -, rfl⟩ | ⟨-, d, -, rfl⟩ |
      ⟨hc, ans, c, pc, rfl, hget₀, -, hmove, hw, rfl⟩
    · exact absurd (hp.consuming pid hc' m hget₀ hcons hm) ho
    · exact absurd (hp.consuming pid hc m hget₀ hcons hm) ho
    · rw [HandleCall.begin, HandlePc.start] at hcons
      split at hcons <;> exact absurd hcons (by simp [HandlePc.consuming])
    · obtain ⟨m₁, hm₁, hjob, -⟩ := delivered_of_reachable hr pid hc hget₀
      obtain rfl := Option.some.inj (hm₁.symm.trans hm)
      have hf := fleet_reachable hr
      have hguard : ∀ l result row, hc.pc = .recordCompleted l result →
          p.fleet.world.db.job? hc.delivery.jobId = some row → row.state ≠ .queued := by
        intro l result row hpc hrow
        have hl : hc.pc.lease? = some l := by rw [hpc]; rfl
        obtain ⟨t, hh⟩ := leases_of_reachable hr pid hc l hget₀ hl
        have hlt : p.fleet.world.now < t + cfg.leaseTtlMs := by
          rcases hb with _ | _ | _ | _ | _
          exact hg.withinLease hc t hget₀ hh.leasedAt
        rcases executing_of_reachable hr pid hc t m₁ hget₀ (by rw [hpc]; rfl) hh.leasedAt hlt
          hm₁ with ⟨row', hrow', hrun⟩ | ho'
        · obtain rfl := Option.some.inj (hrow.symm.trans hrow')
          rw [hrun]
          decide
        · exact absurd (hjob ▸ ho') ho
      rcases hmove.consuming_cases hcons (.handle pid)
          (fun e he ↦ (Fleet.doneMarks_of_reachable hf).live _ e he)
          (fun row ↦ Fleet.state_ne_submitted hf _ row) hguard with
        ⟨hold, -⟩ | ⟨-, row, hrow, hset⟩
      · exact absurd (hp.consuming pid hc m₁ hget₀ hold hm₁) ho
      · exact .inl ⟨row, by rw [hw, ← hjob]; exact hrow, hset⟩

/-- A listener on its way to a deletion. -/
theorem deleting_step (hr : (system cfg).Reachable (Orderly cfg) p) (hp : p.GivenUp)
    (h : p.step cfg a = some p') {qid : ℕ} {q' : QuarantineRun}
    {adv : MaxDeliveriesAdvisory} {raw : Message SubmitRequest} {m : StreamMsg}
    (hget : p'.quarantines[qid]? = some q') (hpc : q'.pc = .delete adv raw)
    (hm : p.stream.msg? adv.streamSeq = some m) : p'.fleet.Obsolete m.data.jobId m.msgId := by
  by_cases ho : p.fleet.Obsolete m.data.jobId m.msgId
  · exact obsolete_step hr h hm ho
  rcases step_quarantine h hget with ⟨hold, -⟩ | ⟨q, hold, -, rfl⟩ | ⟨aid, x, rfl, hx, -, rfl⟩ |
    ⟨q, ans, remembered, c, reply, pc, rfl, hold, -, hmove, rfl⟩
  · exact absurd (hp.deleting qid q' adv raw m hold hpc hm) ho
  · exact absurd (hp.deleting qid q adv raw m hold hpc hm) ho
  · exact absurd hpc (start_ne_delete x.raw adv raw)
  · have hdel : pc = .delete adv raw := hpc
    subst hdel
    obtain ⟨hrec, rfl⟩ := hmove.to_delete
    obtain ⟨m₁, hm₁, hdata⟩ := (advised_of_reachable hr).fetched qid q adv raw hold
      (by rw [hrec]; rfl) (by rw [hrec]; rfl)
    obtain rfl := Option.some.inj (hm₁.symm.trans hm)
    obtain ⟨row, hrow, -⟩ := job_of_msg hr hm₁
    have hsub := Fleet.state_ne_submitted (fleet_reachable hr) _ row hrow
    rw [hdata] at hrow ⊢
    exact .inl (Fleet.settled_of_deadLetter hrow hsub (record_step h hold hrec).1)

/-- **Every orderly step keeps to this**: what is given up is obsolete. -/
theorem GivenUp.step (hr : (system cfg).Reachable (Orderly cfg) p) (hp : p.GivenUp)
    (hg : Orderly cfg p a) (h : p.step cfg a = some p') : p'.GivenUp where
  consuming pid hc' m' hget hcons hm' := by
    rcases delivery_cases h hget with ⟨hc, hget₀, hd⟩ | ⟨n, workerId, m, rfl, -, -, rfl⟩
    · obtain ⟨m, hm, -⟩ := delivered_of_reachable hr pid hc hget₀
      rw [← hd] at hm
      obtain ⟨m₁, hm₁, hstep⟩ := step_msg h hm
      obtain rfl := Option.some.inj (hm₁.symm.trans hm')
      rw [hstep.data, hstep.msgId]
      exact consuming_step hr hp hg h hget hcons hm
    · rw [HandleCall.begin, HandlePc.start] at hcons
      split at hcons <;> exact absurd hcons (by simp [HandlePc.consuming])
  deleting qid q' adv raw m' hget hpc hm' := by
    obtain ⟨m, hm, -⟩ := (advised_of_reachable hr).fetched_before h hget (by rw [hpc]; rfl)
      (by rw [hpc]; rfl)
    obtain ⟨m₁, hm₁, hstep⟩ := step_msg h hm
    obtain rfl := Option.some.inj (hm₁.symm.trans hm')
    rw [hstep.data, hstep.msgId]
    exact deleting_step hr hp h hget hpc hm
  removed seq m' hm' hgone := by
    rcases msg_cases h hm' with ⟨m, hm, hstep⟩ |
      ⟨rid, ans, remembered, r, batch, entry, rest, -, -, -, -, -, -, rfl⟩
    · rw [hstep.data, hstep.msgId]
      refine obsolete_step hr h hm ?_
      cases hstep with
      | same | refused | delivered | missed | exhausted => exact hp.removed seq _ hm hgone
      | consumed ans hget hcall hseq =>
        exact hp.consuming _ _ m hget (HandleCall.consuming_of_call? hcall) (hseq ▸ hm)
      | deleted ans remembered hget halive hpc hseq =>
        exact hp.deleting _ _ _ _ m hget hpc (hseq ▸ hm)
    · exact absurd hgone (by simp)

theorem givenUp_of_reachable (h : (system cfg).Reachable (Orderly cfg) p) : p.GivenUp := by
  refine h.induct (I := GivenUp) (fun p hp ↦ ?_) fun p a p' hr ih hg hs ↦ ih.step hr hg hs
  rw [hp]
  refine ⟨?_, ?_, fun seq m hm ↦ ?_⟩
  · exact fun pid hc m hget ↦ absurd hget (by simp [empty])
  · exact fun qid q adv raw m hget ↦ absurd hget (by simp [empty])
  · obtain ⟨n, -, hn⟩ := WorkStream.exists_of_msg? hm
    exact absurd hn (by simp [empty])

/-! ### Giving up an advisory -/

/-- Who acknowledges the advisory of a message, or has acknowledged it, has seen the message
gone. -/
structure Released (p : Pipeline) : Prop where
  acking : ∀ (qid : ℕ) (q : QuarantineRun) (n : ℕ) (m : StreamMsg), p.quarantines[qid]? = some q →
    q.pc = .ackAdvisory → p.stream.msg? n = some m → m.advisory = some q.advisory →
    m.present = false
  acked : ∀ (n : ℕ) (m : StreamMsg) (aid : ℕ) (x : StoredAdvisory), p.stream.msg? n = some m →
    m.advisory = some aid → p.advisories[aid]? = some x → x.acked = true → m.present = false

/-- A listener at work on the advisory of message `n` works on that message. -/
theorem streamSeq_of_advisory (hr : (system cfg).Reachable (Orderly cfg) p) {qid n : ℕ}
    {q : QuarantineRun} {m : StreamMsg} (hget : p.quarantines[qid]? = some q)
    (hm : p.stream.msg? n = some m) (hadv : m.advisory = some q.advisory)
    {adv : MaxDeliveriesAdvisory} (hq : q.pc.adv? = some adv) : adv.streamSeq = n := by
  obtain ⟨-, x, hx, hraw⟩ := (advised_of_reachable hr).exhausted n m q.advisory hm hadv
  obtain ⟨x', hx', hparse⟩ := (advised_of_reachable hr).run qid q hget
  obtain rfl := Option.some.inj (hx.symm.trans hx')
  have hp := hparse adv hq
  rw [hraw, parseAdvisory_brokerAdvisory, Except.ok.injEq, Option.some.injEq] at hp
  rw [← hp]

/-- **A listener comes to the acknowledgement with the message gone.** -/
theorem gone_of_move (hr : (system cfg).Reachable (Orderly cfg) p) {qid : ℕ} {ans : Answer}
    {remembered : Bool} (hg : Orderly cfg p (.quarantine qid ans remembered))
    (h : p.step cfg (.quarantine qid ans remembered) = some p') {q : QuarantineRun}
    {c : ListenerCall} {reply : Except ListenerExc c.Resp}
    (hget : p.quarantines[qid]? = some q) (hmove : QuarantineMove p q.pc c ans reply .ackAdvisory)
    {n : ℕ} {m m' : StreamMsg} (hm : p.stream.msg? n = some m) (hadv : m.advisory = some q.advisory)
    (hm' : p'.stream.msg? n = some m') : m'.present = false := by
  obtain ⟨m₁, hm₁, hstep⟩ := step_msg h hm
  obtain rfl := Option.some.inj (hm₁.symm.trans hm')
  have hseq : ∀ adv, q.pc.adv? = some adv → adv.streamSeq = n :=
    fun adv hq ↦ streamSeq_of_advisory hr hget hm hadv hq
  have hfetched := fun adv raw ↦ (advised_of_reachable hr).fetched qid q adv raw hget
  generalize hpc : q.pc = pc at hmove hseq hfetched
  generalize hack : QuarantinePc.ackAdvisory = pc' at hmove
  cases hmove with
  | fault hv hc applied =>
    rcases hg.quarantineServed with hans | ⟨q', hget', hpc'⟩
    · exact nomatch hans
    · obtain rfl := Option.some.inj (hget'.symm.trans hget)
      rw [← hpc, hpc'] at hv
      cases hv
      exact absurd rfl hc
  | missing adv hnone =>
    rw [hseq adv rfl] at hnone
    exact hstep.present (WorkStream.present_of_stored?_none hnone hm)
  | recordRaised adv raw he hrec =>
    -- The job of a message exists, and a write without a token is not stale.
    obtain ⟨m₀, hm₀, rfl⟩ := hfetched adv raw rfl rfl
    obtain ⟨row, hrow, -⟩ := job_of_msg hr hm₀
    rcases Database.applyEvent_eq_error hrec with ⟨-, hnone⟩ | ⟨row', -, -, rfl⟩ |
      ⟨row', s, -, -, hlt, -⟩
    · exact absurd (hnone.symm.trans hrow) (by simp)
    · exact absurd rfl (he _)
    · exact absurd hlt (lt_irrefl _)
  | deleted adv raw hstored =>
    rw [delete_step h hget hpc, WorkStream.remove, WorkStream.msg?_update, hm, Option.map_some,
      if_pos (hseq adv rfl), Option.some.injEq] at hm'
    rw [← hm']
  | deleteMissing adv raw hnone =>
    rw [hseq adv rfl] at hnone
    exact hstep.present (WorkStream.present_of_stored?_none hnone hm)
  | _ => exact nomatch hack

/-- **Every orderly step keeps to this**: an advisory is acknowledged when its message is gone. -/
theorem Released.step (hr : (system cfg).Reachable (Orderly cfg) p) (hp : p.Released)
    (hg : Orderly cfg p a) (h : p.step cfg a = some p') : p'.Released where
  acking qid q' n m' hget hpc hm' hadv := by
    rcases msg_cases h hm' with ⟨m, hm, hstep⟩ |
      ⟨rid, ans, remembered, r, batch, entry, rest, -, -, -, -, -, -, rfl⟩
    · rcases hstep.advisory_cases hadv with ⟨hadv₀, -⟩ | ⟨k, rfl, -, -, hlen, -⟩
      · rcases step_quarantine h hget with ⟨hold, -⟩ | ⟨q, hold, -, rfl⟩ |
          ⟨aid, x, rfl, hx, -, rfl⟩ | ⟨q, ans, remembered, c, reply, pc, rfl, hold, -, hmove, rfl⟩
        · exact hstep.present (hp.acking qid q' n m hold hpc hm hadv₀)
        · exact hstep.present (hp.acking qid q n m hold hpc hm hadv₀)
        · obtain ⟨-, x₁, hx₁, hraw⟩ := (advised_of_reachable hr).exhausted n m aid hm hadv₀
          obtain rfl := Option.some.inj (hx.symm.trans hx₁)
          dsimp only at hpc
          rw [QuarantinePc.start, hraw, parseAdvisory_brokerAdvisory] at hpc
          contradiction
        · have hack : pc = .ackAdvisory := hpc
          subst hack
          exact gone_of_move hr hg h hold hmove hm hadv₀ hm'
      · -- An advisory stored just now is nobody's work yet.
        rcases step_quarantine h hget with ⟨hold, -⟩ | ⟨q, -, ha, -⟩ | ⟨aid, x, ha, -⟩ |
          ⟨q, ans, remembered, c, reply, pc, ha, -⟩
        · obtain ⟨x, hx, -⟩ := (advised_of_reachable hr).run qid q' hold
          have hlt := (List.getElem?_eq_some_iff.1 hx).1
          omega
        · contradiction
        · contradiction
        · contradiction
    · exact absurd hadv (by simp)
  acked n m' aid x' hm' hadv hx' hacked := by
    rcases msg_cases h hm' with ⟨m, hm, hstep⟩ |
      ⟨rid, ans, remembered, r, batch, entry, rest, -, -, -, -, -, -, rfl⟩
    · rcases hstep.advisory_cases hadv with ⟨hadv₀, -⟩ | ⟨k, rfl, -, -, rfl, -⟩
      · obtain ⟨-, x, hx, -⟩ := (advised_of_reachable hr).exhausted n m aid hm hadv₀
        obtain ⟨x₁, hx₁, -, hsame | ⟨qid, ans, remembered, q, -, hget, -, hpc, rfl⟩⟩ :=
          step_advisory h hx
        · obtain rfl := Option.some.inj (hx₁.symm.trans hx')
          exact hstep.present (hp.acked n m aid x hm hadv₀ hx (hsame ▸ hacked))
        · exact hstep.present (hp.acking qid q n m hget hpc hm hadv₀)
      · obtain ⟨m₀, -, -, -, rfl⟩ := exhaust_eq_some h
        rw [List.getElem?_concat_length, Option.some.injEq] at hx'
        rw [← hx'] at hacked
        exact absurd hacked (by simp)
    · exact absurd hadv (by simp)

/-- In orderly runs an advisory is acknowledged when its message is gone. -/
theorem released_of_reachable (h : (system cfg).Reachable (Orderly cfg) p) : p.Released := by
  refine h.induct (I := Released) (fun p hp ↦ ?_) fun p a p' hr ih hg hs ↦ ih.step hr hg hs
  rw [hp]
  refine ⟨?_, fun n m aid x hm ↦ ?_⟩
  · exact fun qid q n m hget ↦ absurd hget (by simp [empty])
  · obtain ⟨k, -, hk⟩ := WorkStream.exists_of_msg? hm
    exact absurd hk (by simp [empty])

/-! ### The result -/

/-- A message the broker may still deliver, or has in delivery. -/
def Deliverable (cfg : Settings) (m : StreamMsg) : Prop :=
  m.present = true ∧ (m.delivered < cfg.maxDeliver ∨ m.advisory = none)

/-- **No job is stranded.** In every run in which workers finish within their leases and no
quarantine is disturbed, a job that is queued or running has an unpublished outbox row, or a message
the broker may still deliver or has in delivery, or a message at its limit whose advisory is not
acknowledged. -/
theorem not_stranded (h : (system cfg).Reachable (Orderly cfg) p) {j : Uuid}
    {row : JobRow SubmitRequest} (hj : p.fleet.world.db.job? j = some row)
    (hstate : row.state = .queued ∨ row.state = .running) :
    (∃ id r, (id, r) ∈ p.fleet.world.db.outbox.rows ∧ r.jobId = j ∧ r.publishedAt = none) ∨
    (∃ (n : ℕ) (m : StreamMsg), p.stream.msg? n = some m ∧ m.data.jobId = j ∧
      Deliverable cfg m) ∨
    ∃ (n : ℕ) (m : StreamMsg) (aid : ℕ), p.stream.msg? n = some m ∧ m.data.jobId = j ∧
      m.present = true ∧ cfg.maxDeliver ≤ m.delivered ∧ m.advisory = some aid ∧
      p.advisories[aid]? = some ⟨brokerAdvisory cfg n m.delivered, false⟩ := by
  obtain ⟨id, r, hr, hrj, hnewest⟩ :=
    (Fleet.outboxed_of_reachable (fleet_reachable h)).exists_newest hj
  cases hpub : r.publishedAt with
  | none => exact .inl ⟨id, r, hr, hrj, hpub⟩
  | some t =>
    refine .inr ?_
    have hp := published_of_reachable h
    obtain ⟨seq, m, hm, rfl⟩ := hp.mark id r hr (by rw [hpub]; simp)
    obtain ⟨n, rfl, -⟩ := WorkStream.exists_of_msg? hm
    -- The message was published from this very row.
    have hmj : m.data.jobId = j := by
      obtain ⟨r', hr', -, hdata⟩ := hp.msg _ m hm
      have heq := p.fleet.world.db.outbox.eq_of_mem_rows hr' hr rfl
      obtain ⟨hjob, -⟩ := (Fleet.outboxed_of_reachable (fleet_reachable h)).job _ r hr
      rw [← hdata, (Prod.mk.inj heq).2, hjob, hrj]
    have hpresent : m.present = true := by
      cases hgone : m.present with
      | true => rfl
      | false =>
        rcases (givenUp_of_reachable h).removed _ m hm hgone with ⟨row', hrow', hset⟩ |
          ⟨id', r', hr', hjob', hlt⟩
        · rw [hmj, hj, Option.some.injEq] at hrow'
          subst hrow'
          rcases hstate with hs | hs <;> rw [hs] at hset <;> exact absurd hset (by decide)
        · exact absurd (hnewest id' r' hr' (hjob'.trans hmj)) (not_le.2 hlt)
    cases hadv : m.advisory with
    | none => exact .inl ⟨n + 1, m, hm, hmj, hpresent, .inr hadv⟩
    | some aid =>
      obtain ⟨hle, x, hx, hraw⟩ := (advised_of_reachable h).exhausted (n + 1) m aid hm hadv
      refine .inr ⟨n + 1, m, aid, hm, hmj, hpresent, hle, hadv, ?_⟩
      have hacked : x.acked = false := by
        cases hx' : x.acked with
        | false => rfl
        | true =>
          have hgone := (released_of_reachable h).acked (n + 1) m aid x hm hadv hx hx'
          exact absurd (hgone.symm.trans hpresent) (by decide)
      rw [hx, ← hraw, ← hacked]

/-- A test that implies the guard. -/
def orderly? (cfg : Settings) (p : Pipeline) : PipelineStep → Bool
  | .handle pid _ => p.fleet.calls[pid]?.all fun hc ↦ hc.leasedAt.all fun t ↦
      decide (p.fleet.world.now < t + cfg.leaseTtlMs)
  | .quarantine _ .served _ => true
  | .quarantine _ _ _ | .vanish _ => false
  | _ => true

theorem orderly_of_orderly? (h : p.orderly? cfg a = true) : Orderly cfg p a := by
  cases a with
  | handle pid ans =>
    refine ⟨fun hc t hget ht ↦ ?_, trivial, trivial⟩
    simpa [orderly?, hget, ht] using h
  | quarantine qid ans remembered =>
    match ans with
    | .served => exact ⟨trivial, .inl rfl, trivial⟩
    | .executed _ _ | .failed _ => exact nomatch h
  | vanish key => exact nomatch h
  | _ => exact ⟨trivial, trivial, trivial⟩

/-- The job is queued, its row marked, its message at the limit; what is left is the advisory. -/
theorem not_stranded_of_exhausted : ∃ p : Pipeline,
    (system {}).Reachable (Orderly {}) p ∧
    (∃ row, p.fleet.world.db.job? ⟨0⟩ = some row ∧ row.state = .queued) ∧
    (∀ id r, (id, r) ∈ p.fleet.world.db.outbox.rows → r.publishedAt ≠ none) ∧
    ∃ (aid : ℕ) (x : StoredAdvisory), p.advisories[aid]? = some x ∧ x.acked = false := by
  have hrun : ((system {}).execGuarded (orderly? {}) empty exhaustsPoison).any (fun p ↦
      ((p.fleet.world.db.job? ⟨0⟩).any fun row ↦ row.state = .queued) &&
      (p.fleet.world.db.outbox.rows.all fun r ↦ r.2.publishedAt.isSome) &&
      p.stream.all fun m ↦ m.delivered = 5 && m.advisory.isSome) = true := by
    rfl
  obtain ⟨p, hl, hp⟩ := TransitionSystem.exists_leads_of_execGuarded
    (fun p a ↦ orderly_of_orderly? (p := p) (a := a)) hrun
  simp only [Bool.and_eq_true, Option.any_eq_true, decide_eq_true_eq, List.all_eq_true] at hp
  obtain ⟨⟨⟨row, hrow, hstate⟩, hmarked⟩, hlimit⟩ := hp
  have hr : (system {}).Reachable (Orderly {}) p := ⟨_, rfl, hl⟩
  have hpub : ∀ id r, (id, r) ∈ p.fleet.world.db.outbox.rows → r.publishedAt ≠ none :=
    fun id r hmem ↦ Option.isSome_iff_ne_none.1 (hmarked (id, r) hmem)
  refine ⟨p, hr, ⟨row, hrow, hstate⟩, hpub, ?_⟩
  rcases not_stranded hr hrow (.inl hstate) with ⟨id, r, hmem, -, hnone⟩ |
    ⟨n, m, hm, -, -, hdel⟩ | ⟨n, m, aid, -, -, -, -, -, hadv⟩
  · exact absurd hnone (hpub id r hmem)
  · obtain ⟨k, -, hk⟩ := WorkStream.exists_of_msg? hm
    obtain ⟨h₅, hsome⟩ := hlimit m (List.mem_of_getElem? hk)
    rcases hdel with hlt | hnone
    · rw [h₅] at hlt
      exact absurd hlt (by decide)
    · rw [hnone] at hsome
      exact absurd hsome (by decide)
  · exact ⟨aid, _, hadv, rfl⟩

end Pipeline

end Orbiter
