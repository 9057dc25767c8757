import Orbiter.Fleet.Course
import Orbiter.Foundation.Possibility
import Orbiter.Pipeline.Stranded

/-!
# Working off one message

From any state an orderly run can be in, a message that is still stored can be worked off, by steps
that concern this message alone: it is delivered until some call acknowledges or terminates it, or,
at its limit, quarantined. If the job is open, not poison and some execution of it can succeed, the
first delivery does it.

The run is not written down. A call is answered until it is at its end, and so is a listener: each
answer brings them nearer (`Move.rank_lt`, `QuarantineMove.rank_lt`), whatever the answer is. What
they have done by then is read off the course of the call and off the invariants of `Stranded`,
which hold here because all steps are orderly.

* `Touches`, `Tending` — the steps that concern one message, and the guard: such a step, orderly,
  and nobody outside helps. Other messages stay (`Touches.msg?`), and so do the rows of other jobs
  (`Tending.job?`);
* `quarantine_clears`, `exhausted_clears` — a listener at work on the message, or one that is begun
  for it, removes it;
* `worker_served`, `call_answers`, `attempt` — a call is answered to its end, and what an attempt at
  the message comes to: gone with the job as it should be, or one delivery fewer to go;
* `clears` — **the message can be removed**, by induction on the deliveries it has left.
-/

namespace Orbiter

open ExecutionGuard LeaseManager Worker

/-- Nobody comes from outside, nobody dies, nothing fails and nothing is lost. -/
def PipelineStep.unaided : PipelineStep → Bool
  | submit _ _ _ _ | replay _ | advise _ => false
  | killRelay _ | die _ | killListener _ | vanish _ | miss _ => false
  | relay _ ans _ | handle _ ans | quarantine _ ans _ => !ans.isFailed
  | beginRelay | deliver _ _ | exhaust _ | fetch _ | tick _ => true

/-- How many answers a listener is from its end. -/
def QuarantinePc.rank : QuarantinePc → ℕ
  | finished _ => 0
  | ackAdvisory => 1
  | delete _ _ => 2
  | record _ _ => 3
  | publish _ _ => 4
  | getMsg _ => 5

/-- **Every answer brings a listener nearer to its end.** -/
theorem QuarantineMove.rank_lt {p : Pipeline} {pc pc' : QuarantinePc} {c : ListenerCall}
    {ans : Answer} {reply : Except ListenerExc c.Resp} (h : QuarantineMove p pc c ans reply pc') :
    pc'.rank < pc.rank := by
  cases h with
  | fault hv hc applied =>
    cases pc with
    | finished exit => cases hv
    | ackAdvisory => cases hv; exact absurd rfl hc
    | _ => simp [QuarantinePc.rank]
  | _ => simp [QuarantinePc.rank]

/-- A listener inside a quarantine goes on in it, or to the acknowledgement. -/
theorem QuarantineMove.inside {p : Pipeline} {pc pc' : QuarantinePc} {c : ListenerCall}
    {ans : Answer} {reply : Except ListenerExc c.Resp} (h : QuarantineMove p pc c ans reply pc')
    {adv : MaxDeliveriesAdvisory} (hadv : pc.adv? = some adv) :
    pc'.adv? = some adv ∨ pc' = .ackAdvisory := by
  cases h with
  | acked | ackRaised => exact nomatch hadv
  | fetched | copied | recorded | refused => exact .inl hadv
  | _ => exact .inr rfl

namespace Pipeline

variable {cfg : Settings} {p p' : Pipeline} {a : PipelineStep} {seq : ℕ} {j : Uuid}

/-- The step concerns no message but the one with this number. -/
def Touches (p : Pipeline) (seq : ℕ) : PipelineStep → Prop
  | .deliver n _ | .exhaust n => n = seq
  | .handle pid _ => ∀ hc, p.fleet.calls[pid]? = some hc → hc.delivery.seq = seq
  | .quarantine qid _ _ => ∀ q adv, p.quarantines[qid]? = some q → q.pc.adv? = some adv →
      adv.streamSeq = seq
  | .fetch _ | .tick _ => True
  | _ => False

/-- An orderly step, unaided, that works off message `seq` of job `j`. -/
structure Tending (cfg : Settings) (j : Uuid) (seq : ℕ) (p : Pipeline) (a : PipelineStep) :
    Prop where
  orderly : Orderly cfg p a
  unaided : a.unaided = true
  own : ∃ m, p.stream.msg? seq = some m ∧ m.data.jobId = j
  touches : p.Touches seq a

/-! ### What such a step leaves alone -/

theorem Touches.msg? (ht : p.Touches seq a) (h : p.step cfg a = some p') {seq' : ℤ}
    (hne : seq' ≠ seq) {m : StreamMsg} (hm : p.stream.msg? seq' = some m) :
    p'.stream.msg? seq' = some m := by
  obtain ⟨m', hm', hstep⟩ := step_msg h hm
  rw [hm']
  cases hstep with
  | same => rfl
  | consumed ans hget hcall hseq | refused ans hget hcall hseq =>
    exact absurd (hseq.symm.trans (by rw [ht _ hget])) hne
  | deleted ans remembered hget halive hpc hseq =>
    exact absurd (hseq.symm.trans (ht _ _ hget (by rw [hpc]; rfl))) hne
  | delivered workerId hseq | exhausted hseq =>
    obtain rfl := ht
    exact absurd hseq.symm hne
  | missed => exact ht.elim

/-- What a step of the fleet that works off the message writes, it writes to the message's job. -/
theorem Tending.jobId_of_makes {G : Pipeline → PipelineStep → Prop}
    (hr : (system cfg).Reachable G p) (ht : p.Tending cfg j seq a) {b : FleetStep}
    (hb : Drives cfg p a b) {who : Writer} {w : Write} (hw : p.fleet.Makes cfg b who w) :
    w.jobId = j := by
  obtain ⟨m, hm, rfl⟩ := ht.own
  cases hb with
  | handle pid ans =>
    obtain ⟨-, hc, hget, hcall⟩ := hw
    obtain ⟨m', hm', hjob, -⟩ := delivered_of_reachable hr pid hc hget
    rw [ht.touches hc hget] at hm'
    obtain rfl := Option.some.inj (hm.symm.trans hm')
    obtain ⟨-, l, ⟨-, rfl⟩ | ⟨result, -, rfl⟩ | ⟨message, -, rfl⟩ | ⟨message, -, rfl⟩⟩ :=
      HandleCall.recordEvent_of_call? hcall <;> exact hjob
  | record ans remembered hq halive hpc =>
    obtain ⟨-, rfl⟩ := hw
    have hadv := ht.touches _ _ hq (by rw [hpc]; rfl)
    obtain ⟨m', hm', hdata⟩ := (advised_of_reachable hr).fetched _ _ _ _ hq (by rw [hpc]; rfl)
      (by rw [hpc]; rfl)
    rw [hadv] at hm'
    obtain rfl := Option.some.inj (hm.symm.trans hm')
    exact congrArg Message.jobId hdata.symm
  | replay jobId => exact nomatch ht.unaided
  | submit | mark | deliver | die | tick | vanish => exact hw.elim

theorem Tending.job? {G : Pipeline → PipelineStep → Prop} (hr : (system cfg).Reachable G p)
    (ht : p.Tending cfg j seq a) (h : p.step cfg a = some p') {j' : Uuid} (hne : j' ≠ j)
    {row : JobRow SubmitRequest} (hrow : p.fleet.world.db.job? j' = some row) :
    p'.fleet.world.db.job? j' = some row := by
  rcases step_fleet h with hsame | ⟨b, hb, hstep⟩
  · rwa [hsame]
  · rcases Fleet.jobStep hstep j' with ⟨hjob, -, -⟩ | ⟨who, key, payload, id, id', habs, -, -, -⟩ |
      ⟨who, w, row₀, next, id, hmade, hid, -, -, -, -, -, -⟩
    · exact hjob.trans hrow
    · exact nomatch habs.symm.trans hrow
    · exact absurd (hid.symm.trans (ht.jobId_of_makes hr hb hmade)) hne

end Pipeline

namespace World

/-- `record_event` leaves the outbox alone. -/
theorem outbox_transact_recordEvent (s : World) (who : Writer) (w : Write) :
    (s.transact who (.recordEvent w)).db.outbox = s.db.outbox := by
  rw [transact]
  cases hx : (RepoCall.recordEvent w).exec s.db s.now with
  | error e => rfl
  | ok r =>
    rcases Ledger.exec_cases (s := s.ledger) hx with ⟨hdb, -⟩ | ⟨jobId, key, payload, subject,
      carrier, hc, -⟩ | ⟨w', row, next, -, -, -, -, ⟨-, hdb⟩ | ⟨subject, hc, -⟩⟩
    · show r.2.outbox = _
      rw [hdb]
      rfl
    · contradiction
    · show r.2.outbox = _
      rw [hdb]
      rfl
    · contradiction

theorem outbox_serve (s : World) (who : Writer) (c : WorkerCall) (ans : Answer) :
    (s.serve who c ans).db.outbox = s.db.outbox := by
  rw [serve]
  split
  · cases c with
    | recordEvent w => exact outbox_transact_recordEvent s who w
    | kv | execute | ack | nak | term => rfl
  · rfl

end World

namespace Pipeline

variable {cfg : Settings} {p p' : Pipeline} {a : PipelineStep} {seq : ℕ} {j : Uuid}

/-- Nothing is put into the outbox from within. -/
theorem outbox_of_unaided (ha : a.unaided = true) (h : p.step cfg a = some p') :
    p'.fleet.world.db.outbox = p.fleet.world.db.outbox ∨
      ∃ ids, p'.fleet.world = p.fleet.world.markPublished ids := by
  rcases step_fleet h with hsame | ⟨b, hb, hstep⟩
  · exact .inl (by rw [hsame])
  · cases hb with
    | submit | replay | die | vanish => exact nomatch ha
    | @mark _ ans remembered r batch =>
      refine .inr ⟨batch.map Prod.fst, ?_⟩
      rw [← Option.some.inj hstep]
    | deliver =>
      refine .inl ?_
      rw [← Option.some.inj hstep]
    | tick ms =>
      refine .inl ?_
      rw [← Option.some.inj hstep]
      rfl
    | handle pid ans =>
      obtain ⟨hc, c, pc, -, -, -, hf⟩ := Fleet.stepHandle_eq_some hstep
      rw [hf]
      exact .inl (World.outbox_serve ..)
    | record =>
      refine .inl ?_
      rw [← Option.some.inj hstep]
      exact World.outbox_transact_recordEvent ..

/-! ### The listener -/

/-- The services answer every call of a listener. -/
theorem exists_listenerReply (p : Pipeline) (c : ListenerCall) :
    ∃ reply, p.listenerReply c .served = some reply := by
  cases c with
  | getMsg n | deleteMsg n =>
    rw [listenerReply]
    split <;> exact ⟨_, rfl⟩
  | recordEvent w =>
    rw [listenerReply]
    split <;> exact ⟨_, rfl⟩
  | publishDlq | ack => exact ⟨_, rfl⟩

variable (cfg) in
/-- A listener that is answered moves on. -/
theorem listener_served {qid : ℕ} {q : QuarantineRun} (hget : p.quarantines[qid]? = some q)
    (halive : q.alive = true) (hpc : ∀ exit, q.pc ≠ .finished exit) :
    ∃ p' q' c reply pc, p.step cfg (.quarantine qid .served true) = some p' ∧
      QuarantineMove p q.pc c .served reply pc ∧ p'.quarantines[qid]? = some q' ∧
      q'.pc = pc ∧ q'.alive = true ∧ q'.advisory = q.advisory := by
  have hview : ∃ c k, q.pc.view = .inr ⟨c, k⟩ := by
    cases heq : q.pc with
    | finished exit => exact absurd heq (hpc exit)
    | _ => exact ⟨_, _, rfl⟩
  obtain ⟨c, k, hv⟩ := hview
  obtain ⟨reply, hr⟩ := exists_listenerReply p c
  have hstep : (p.step cfg (.quarantine qid .served true)).isSome = true := by
    simp only [step, stepQuarantine, hget, halive, if_true, hv, hr, Option.map_some,
      Option.isSome_some]
  obtain ⟨p', hp'⟩ := Option.isSome_iff_exists.1 hstep
  obtain ⟨q', c', reply', pc, hget', -, hmove, hq, -⟩ := quarantine_cases cfg hp'
  obtain rfl := Option.some.inj (hget.symm.trans hget')
  have hlt := (List.getElem?_eq_some_iff.1 hget).1
  exact ⟨p', q.advance p'.fleet.world.db c' reply' pc, c', reply', pc, hp', hmove,
    by rw [hq]; exact List.getElem?_set_self hlt, rfl, halive, rfl⟩

/-- The message was removed. -/
def Gone (p : Pipeline) (seq : ℕ) : Prop := ∃ m, p.stream.msg? seq = some m ∧ m.present = false

theorem Gone.step (hg : p.Gone seq) (h : p.step cfg a = some p') : p'.Gone seq := by
  obtain ⟨m, hm, hgone⟩ := hg
  obtain ⟨m', hm', hstep⟩ := step_msg h hm
  exact ⟨m', hm', hstep.present hgone⟩

/-- **A listener at work on the message's advisory, answered to the end, removes the message.** The
acknowledgement it comes to is one that `Released` speaks of. -/
theorem quarantine_clears (hr : (system cfg).Reachable (Orderly cfg) p) {qid : ℕ}
    {q : QuarantineRun} {m : StreamMsg} (hget : p.quarantines[qid]? = some q)
    (halive : q.alive = true) (hm : p.stream.msg? seq = some m) (hjob : m.data.jobId = j)
    (hmadv : m.advisory = some q.advisory)
    (hpc : q.pc = .ackAdvisory ∨ ∃ adv, q.pc.adv? = some adv ∧ adv.streamSeq = seq) :
    (system cfg).CanReach (Tending cfg j seq) (Gone · seq) p := by
  induction hn : q.pc.rank using Nat.strongRecOn generalizing p q m with
  | ind n ih =>
    rcases hpc with hack | ⟨adv, hadv, hseq⟩
    · exact .here ⟨m, hm, (released_of_reachable hr).acking qid q seq m hget hack hm hmadv⟩
    · obtain ⟨p', q', c, reply, pc, hstep, hmove, hget', rfl, halive', hadvisory⟩ :=
        listener_served cfg hget halive fun exit heq ↦ by rw [heq] at hadv; cases hadv
      have ht : p.Tending cfg j seq (.quarantine qid .served true) := by
        refine ⟨⟨trivial, .inl rfl, trivial⟩, rfl, ⟨m, hm, hjob⟩, fun q₁ adv₁ hget₁ hadv₁ ↦ ?_⟩
        obtain rfl := Option.some.inj (hget.symm.trans hget₁)
        rwa [Option.some.inj (hadv₁.symm.trans hadv)]
      obtain ⟨m', hm', hmsg⟩ := step_msg hstep hm
      refine .next ht hstep ?_
      refine ih q'.pc.rank (hn ▸ hmove.rank_lt) (hr.next ht.orderly hstep) hget' halive' hm'
        (by rw [hmsg.data, hjob]) ?_ ?_ rfl
      · rw [hadvisory]
        exact hmsg.advisory_of_some hmadv
      · exact (hmove.inside hadv).symm.imp_right fun h ↦ ⟨adv, h, hseq⟩

/-- A message at its limit is quarantined. -/
theorem exhausted_clears (hr : (system cfg).Reachable (Orderly cfg) p) {m : StreamMsg}
    (hm : p.stream.msg? seq = some m) (hjob : m.data.jobId = j) {aid : ℕ}
    (hmadv : m.advisory = some aid) : (system cfg).CanReach (Tending cfg j seq) (Gone · seq) p := by
  obtain ⟨-, x, hx, hraw⟩ := (advised_of_reachable hr).exhausted seq m aid hm hmadv
  cases hacked : x.acked with
  | true => exact .here ⟨m, hm, (released_of_reachable hr).acked seq m aid x hm hmadv hx hacked⟩
  | false =>
    have ht : p.Tending cfg j seq (.fetch aid) :=
      ⟨⟨trivial, trivial, trivial⟩, rfl, ⟨m, hm, hjob⟩, trivial⟩
    let q : QuarantineRun := { advisory := aid, pc := .start x.raw }
    let p' : Pipeline := { p with quarantines := p.quarantines ++ [q] }
    have hstep : p.step cfg (.fetch aid) = some p' := by
      simp only [step, hx, hacked]
      rfl
    refine .next ht hstep (quarantine_clears (q := q) (hr.next ht.orderly hstep)
      List.getElem?_concat_length rfl hm hjob hmadv (.inr ?_))
    have hpc : q.pc =
        .getMsg ⟨.text cfg.streamName, .text cfg.consumerDurable, seq, m.delivered⟩ := by
      show QuarantinePc.start x.raw = _
      rw [QuarantinePc.start, hraw, parseAdvisory_brokerAdvisory]
    exact ⟨_, by rw [hpc]; rfl, rfl⟩

/-! ### The worker -/

/-- How a call for `d` leaves message `seq`: removed — with the job succeeded, if it was open when
the call began and not every execution fails — or refused, for a reason of the job's. -/
def Answered (p : Pipeline) (seq : ℕ) (d : Delivery) (U : Prop) : Prop :=
  (p.Gone seq ∧ (U → p.fleet.world.Done d.jobId ∨ d.Failing)) ∨ d.payload.poison = true ∨ d.Failing

/-- An acknowledgement or a termination that takes effect removes the message. -/
theorem gone_of_consumed {pid : ℕ} {ans : Answer} {hc : HandleCall}
    (h : p.step cfg (.handle pid ans) = some p') (hget : p.fleet.calls[pid]? = some hc)
    (hcall : hc.call? cfg = some .ack ∨ hc.call? cfg = some .term) (heff : ans.takesEffect = true)
    (hseq : hc.delivery.seq = seq) {m : StreamMsg} (hm : p.stream.msg? seq = some m) :
    p'.Gone seq := by
  obtain ⟨f, -, rfl⟩ := onFleet_eq_some h
  have hstream : p.streamAfter cfg pid ans = p.stream.remove seq := by
    rcases hcall with hcall | hcall <;>
    simp only [streamAfter, hget, hcall, heff, if_true, workerEffect, hseq]
  refine ⟨{ m with present := false }, ?_, rfl⟩
  show (p.streamAfter cfg pid ans).msg? seq = _
  rw [hstream, WorkStream.remove, WorkStream.msg?_update, hm, Option.map_some, if_pos rfl]

variable (cfg) in
/-- A call that is answered moves on, and no time passes. -/
theorem worker_served {pid : ℕ} {hc : HandleCall} (hget : p.fleet.calls[pid]? = some hc)
    (halive : hc.alive = true) (hpc : hc.pc.released = false) :
    ∃ ans p' hc' c, ans.Kind hc.delivery ∧ p.step cfg (.handle pid ans) = some p' ∧
      hc.call? cfg = some c ∧ Move cfg hc.delivery p.fleet.world hc.pc c ans hc'.pc ∧
      p'.fleet.calls[pid]? = some hc' ∧
      p'.fleet.world = p.fleet.world.serve (.handle pid) c ans ∧
      hc' = hc.advance p.fleet.world p'.fleet.world c hc'.pc := by
  obtain ⟨c, k, hv⟩ := HandlePc.view_of_not_finished cfg hc.delivery hc.pc
    fun exit heq ↦ by rw [heq] at hpc; exact nomatch hpc
  obtain ⟨ans, r, hkind, hr⟩ := World.exists_kind cfg hc.delivery p.fleet.world hv
  have hstep := Fleet.stepHandle_of_view hget halive hv hr
  have hlt := (List.getElem?_eq_some_iff.1 hget).1
  let world := p.fleet.world.serve (.handle pid) c ans
  let hc' := hc.advance p.fleet.world world c (k r)
  refine ⟨ans, { p with
    stream := p.streamAfter cfg pid ans
    fleet := ⟨world, p.fleet.calls.set pid hc'⟩ }, hc', c, hkind, ?_, ?_, Move.of_view hv hr,
    List.getElem?_set_self hlt, rfl, rfl⟩
  · show ((p.fleet.stepHandle cfg pid ans).map _) = _
    rw [hstep]
    rfl
  · rw [HandleCall.call?, if_pos halive, HandlePc.call, hv]

/-- **A call on its course, answered to its end, answers for its message.** -/
theorem call_answers (httl : 0 < cfg.leaseTtlMs) (hr : (system cfg).Reachable (Orderly cfg) p)
    {pid : ℕ} {hc : HandleCall} {m : StreamMsg} {U : Prop} (hget : p.fleet.calls[pid]? = some hc)
    (halive : hc.alive = true) (hseq : hc.delivery.seq = seq) (hm : p.stream.msg? seq = some m)
    (hjob : m.data.jobId = j) (hcourse : hc.pc.Course hc.delivery p.fleet.world U)
    (hleased : ∀ t, hc.leasedAt = some t → p.fleet.world.now ≤ t)
    (hpc : hc.pc.released = false) :
    (system cfg).CanReach (Tending cfg j seq) (Answered · seq hc.delivery U) p := by
  induction hn : hc.pc.rank using Nat.strongRecOn generalizing p hc m with
  | ind n ih =>
    obtain ⟨ans, p', hc', c, hkind, hstep, hcall, hmove, hget', hw, hadv⟩ :=
      worker_served cfg hget halive hpc
    have hf := fleet_reachable hr
    have ht : p.Tending cfg j seq (.handle pid ans) := by
      refine ⟨⟨fun hc₁ t hget₁ hl ↦ ?_, trivial, trivial⟩, ?_, ⟨m, hm, hjob⟩,
        fun hc₁ hget₁ ↦ ?_⟩
      · obtain rfl := Option.some.inj (hget.symm.trans hget₁)
        have hle := hleased t hl
        omega
      · cases ans with
        | failed applied => exact hkind.elim
        | served | executed => rfl
      · obtain rfl := Option.some.inj (hget.symm.trans hget₁)
        exact hseq
    -- What the course needs to know of the job holds in every reachable state.
    obtain ⟨m₁, hm₁, hjob₁, -⟩ := delivered_of_reachable hr pid hc hget
    obtain ⟨row, hrow, -⟩ := job_of_msg hr hm₁
    rw [← hjob₁] at hrow
    obtain ⟨hcourse', hleaves⟩ := hmove.course hcourse hkind hrow
      (Fleet.state_ne_submitted hf _ row hrow)
      (fun row' hrow' ↦ Fleet.fenceToken_le_counter hf hrow')
      (fun e he ↦ (Fleet.doneMarks_of_reachable hf).live _ e he) (.handle pid)
    have hdelivery : hc'.delivery = hc.delivery := by rw [hadv]; rfl
    rw [← hw] at hcourse' hleaves
    obtain ⟨m', hm', hmsg⟩ := step_msg hstep hm
    refine .next ht hstep ?_
    cases hrel : hc'.pc.released with
    | false =>
      rw [← hdelivery]
      refine ih hc'.pc.rank (hn ▸ hmove.rank_lt) (hr.next ht.orderly hstep) hget'
        (by rw [hadv]; exact halive) (hdelivery ▸ hseq) hm' (by rw [hmsg.data, hjob])
        (hdelivery ▸ hcourse') (fun t hl ↦ ?_) hrel rfl
      rw [hw, World.now_serve]
      rw [hadv, HandleCall.advance] at hl
      dsimp only at hl
      split at hl
      · exact (Option.some.inj hl).le
      · exact hleased t hl
    | true =>
      have heff : ans.takesEffect = true := by
        cases ans with
        | failed applied => exact hkind.elim
        | served | executed => rfl
      rcases hleaves hrel with hold | hleft
      · exact absurd (hold.symm.trans hpc) (by simp)
      · cases hleft with
        | acked hdone =>
          exact .here (.inl ⟨gone_of_consumed hstep hget (.inl hcall) heff hseq hm,
            fun _ ↦ .inl hdone⟩)
        | terminated hwhy =>
          exact .here (.inl ⟨gone_of_consumed hstep hget (.inr hcall) heff hseq hm,
            fun hU ↦ .inr (hwhy.resolve_right (not_not_intro hU))⟩)
        | refused delay hwhy => exact .here (.inr hwhy)

/-- **One more delivery.** When the claim and the lease of whoever had the message last have run
out, it is delivered to a worker of its own, whose call then answers for it. -/
theorem attempt (httl : 0 < cfg.leaseTtlMs) (hr : (system cfg).Reachable (Orderly cfg) p)
    {m : StreamMsg} (hm : p.stream.msg? seq = some m) (hjob : m.data.jobId = j)
    (hpresent : m.present = true) (hlt : m.delivered < cfg.maxDeliver) :
    (system cfg).CanReach (Tending cfg j seq) (fun p' ↦
      (∃ m', p'.stream.msg? seq = some m' ∧ m.delivered < m'.delivered) ∧
      ∃ d, d.jobId = j ∧ d.payload = m.data.payload ∧
        p'.Answered seq d (p.fleet.world.Open j)) p := by
  -- The time to live passes.
  let p₁ : Pipeline := { p with fleet := ⟨p.fleet.world.later cfg.leaseTtlMs, p.fleet.calls⟩ }
  have htick : p.Tending cfg j seq (.tick cfg.leaseTtlMs) :=
    ⟨⟨trivial, trivial, trivial⟩, rfl, ⟨m, hm, hjob⟩, trivial⟩
  have hr₁ : (system cfg).Reachable (Orderly cfg) p₁ := hr.next htick.orderly rfl
  -- The broker delivers.
  let d := delivery seq "worker" m
  let m₂ : StreamMsg :=
    { m with delivered := m.delivered + 1, outstanding := some p₁.fleet.world.now }
  let p₂ : Pipeline := { p₁ with
    stream := p.stream.deliver seq p₁.fleet.world.now
    fleet := ⟨p₁.fleet.world, p.fleet.calls ++ [HandleCall.begin d p₁.fleet.world.now]⟩ }
  have hdeliver : p₁.Tending cfg j seq (.deliver seq "worker") :=
    ⟨⟨trivial, trivial, trivial⟩, rfl, ⟨m, hm, hjob⟩, rfl⟩
  have hstep₂ : p₁.step cfg (.deliver seq "worker") = some p₂ := by
    have hstored : p₁.stream.stored? seq = some m := WorkStream.stored?_eq_some.2 ⟨hm, hpresent⟩
    simp only [step, hstored, if_pos hlt]
    rfl
  have hm₂ : p₂.stream.msg? seq = some m₂ := by
    show (p.stream.update seq _).msg? seq = _
    rw [WorkStream.msg?_update, hm, Option.map_some, if_pos rfl]
  -- Nobody holds the job any more.
  have hfree : ∀ key, key = claimKey d.jobId.str ∨ key = leaseKey d.jobId.str →
      p₂.fleet.world.kv.live p₂.fleet.world.now key = none := fun key hkey ↦
    (Fleet.expiring_of_reachable (fleet_reachable hr)).live_eq_none hkey le_rfl
  have hcall : p₂.fleet.calls[p.fleet.calls.length]? =
      some (HandleCall.begin d p₁.fleet.world.now) := List.getElem?_concat_length
  have hanswered : (system cfg).CanReach (Tending cfg j seq)
      (Answered · seq d (p.fleet.world.Open j)) p₂ := call_answers httl
    (hr₁.next hdeliver.orderly hstep₂) hcall rfl rfl hm₂ hjob
    (HandlePc.course_start (hfree _ (.inl rfl)) (hfree _ (.inr rfl)) fun hU ↦ by
      show World.Open _ m.data.jobId
      rw [hjob]
      exact hU)
    (fun t hl ↦ by cases hl) (by
      show (HandlePc.start d).released = false
      rw [HandlePc.start]
      split <;> rfl)
  refine .next htick rfl (.next hdeliver hstep₂ (hanswered.mono (fun _ _ h ↦ h) fun p' hl h ↦ ?_))
  refine ⟨?_, d, hjob, rfl, h⟩
  refine hl.preserves (P := fun q : Pipeline ↦ ∃ m', q.stream.msg? seq = some m' ∧
    m.delivered < m'.delivered) ?_ ⟨m₂, hm₂, Nat.lt_succ_self _⟩
  rintro q a q' ⟨m', hm', hlt'⟩ - hs
  obtain ⟨m'', hm'', hmsg⟩ := step_msg hs hm'
  exact ⟨m'', hm'', hlt'.trans_le hmsg.delivered_le⟩

/-- How many times a message may still be delivered, and its quarantine. -/
def toGo (cfg : Settings) (seq : ℕ) (p : Pipeline) : ℕ :=
  match p.stream.msg? seq with
  | some m => if m.present then cfg.maxDeliver - m.delivered + 1 else 0
  | none => 0

/-- A message that is gone has nothing left to go. -/
theorem toGo_of_gone (hg : p.Gone seq) : toGo cfg seq p = 0 := by
  obtain ⟨m, hm, hgone⟩ := hg
  simp only [toGo, hm, hgone]
  rfl

/-- **Every message can be worked off**, from every state an orderly run can be in, and by steps
that concern no other. -/
theorem clears (httl : 0 < cfg.leaseTtlMs) (hr : (system cfg).Reachable (Orderly cfg) p)
    {m : StreamMsg} (hm : p.stream.msg? seq = some m) (hjob : m.data.jobId = j) :
    (system cfg).CanReach (Tending cfg j seq) (Gone · seq) p := by
  refine (TransitionSystem.CanReach.of_rank (P := (Gone · seq)) (toGo cfg seq)
    (I := fun q ↦ (system cfg).Reachable (Orderly cfg) q ∧
      ∃ m, q.stream.msg? seq = some m ∧ m.data.jobId = j) (fun q hq hno ↦ ?_)
    ⟨hr, m, hm, hjob⟩).mono (fun _ _ h ↦ h) fun _ _ h ↦ h.2
  obtain ⟨hrq, m, hm, hjob⟩ := hq
  have hpresent : m.present = true := by
    cases hp : m.present with
    | true => rfl
    | false => exact absurd ⟨m, hm, hp⟩ hno
  have hkeep : ∀ q', (system cfg).Leads (Tending cfg j seq) q q' →
      (system cfg).Reachable (Orderly cfg) q' ∧
        ∃ m, q'.stream.msg? seq = some m ∧ m.data.jobId = j := fun q' hl ↦ by
    refine ⟨hrq.leads (hl.mono fun _ _ ht ↦ ht.orderly), ?_⟩
    refine hl.preserves (P := fun q : Pipeline ↦ ∃ m, q.stream.msg? seq = some m ∧
      m.data.jobId = j) (fun q a q' ⟨m, hm, hjob⟩ _ hs ↦ ?_) ⟨m, hm, hjob⟩
    obtain ⟨m', hm', hmsg⟩ := step_msg hs hm
    exact ⟨m', hm', by rw [hmsg.data, hjob]⟩
  have htogo : toGo cfg seq q = cfg.maxDeliver - m.delivered + 1 := by
    simp only [toGo, hm, hpresent]
    rfl
  have hclear : (system cfg).CanReach (Tending cfg j seq) (Gone · seq) q →
      ∃ q', (system cfg).Leads (Tending cfg j seq) q q' ∧
        ((system cfg).Reachable (Orderly cfg) q' ∧
          ∃ m, q'.stream.msg? seq = some m ∧ m.data.jobId = j) ∧
        toGo cfg seq q' < toGo cfg seq q := fun ⟨q', hl, hg⟩ ↦
    ⟨q', hl, hkeep q' hl, by rw [toGo_of_gone hg, htogo]; omega⟩
  rcases lt_or_ge m.delivered cfg.maxDeliver with hlt | hge
  · -- A delivery is left.
    obtain ⟨q', hl, ⟨m', hm', hlt'⟩, -⟩ := attempt httl hrq hm hjob hpresent hlt
    refine ⟨q', hl, hkeep q' hl, ?_⟩
    rw [htogo]
    simp only [toGo, hm']
    split
    · omega
    · omega
  · cases hadv : m.advisory with
    | some aid => exact hclear (exhausted_clears hrq hm hjob hadv)
    | none =>
      -- The broker gives up on it.
      have ht : q.Tending cfg j seq (.exhaust seq) :=
        ⟨⟨trivial, trivial, trivial⟩, rfl, ⟨m, hm, hjob⟩, rfl⟩
      let q₁ : Pipeline := { q with
        stream := q.stream.exhaust seq q.advisories.length
        advisories := q.advisories ++ [{ raw := brokerAdvisory cfg seq m.delivered }] }
      have hstep : q.step cfg (.exhaust seq) = some q₁ := by
        have hstored : q.stream.stored? seq = some m := WorkStream.stored?_eq_some.2 ⟨hm, hpresent⟩
        simp only [step, hstored, if_pos (And.intro hge hadv)]
        rfl
      have hm₁ : q₁.stream.msg? seq = some { m with advisory := some q.advisories.length } := by
        show (q.stream.update seq _).msg? seq = _
        rw [WorkStream.msg?_update, hm, Option.map_some, if_pos rfl]
      exact hclear (.next ht hstep
        (exhausted_clears (hrq.next ht.orderly hstep) hm₁ hjob rfl))

end Pipeline

end Orbiter
