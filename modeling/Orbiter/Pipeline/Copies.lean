import Orbiter.Pipeline.Quarantines

/-!
# Copy before delete

A quarantine changes three stores one after the other, with no transaction around them: it copies
the message to the dead-letter stream, records `deadLettered` in the database, and deletes the
message from the work stream. A listener may die, or a call may fail, at every point; advisories are
delivered again and again; the job's state moves meanwhile.

The order of the three is what holds at every cut: whoever is past the publish finds the copy there,
since a publish that returned is stored or had been before; so an event that is recorded names a
message that has its copy, and so does a deletion. Copies are never taken away, and each is the
message of its sequence number, whoever made it.

* `step_dlq` — what a step does to the dead-letter stream: nothing, or a listener's publish;
* `Copied` — the invariant, with one clause for the copies (`faithful`), one for the listeners
  (`published`) and one for the events (`recorded`);
* `ListenerRemoves.deleting` — a message that a step of a listener removes was deleted by one past
  its record, which has the copy;
* `nodup_dlq` — while the broker drops repeats of a message id there is one copy of each message;
* `copy_before_delete` — all of it, for every run, quarantines that are redone included.
-/

namespace Orbiter

/-- A row that records a dead-lettering was there before, or is that of a listener's transaction. -/
theorem Fleet.deadLettered_row {cfg : Settings} {f f' : Fleet} {a : FleetStep}
    (h : f.step cfg a = some f') {j : Uuid} {r : ℕ × EventRow}
    (hr : r ∈ f'.world.db.eventRows j) (hev : r.2.event = .deadLettered) :
    r ∈ f.world.db.eventRows j ∨ ∃ streamSeq deliveries, a = .deadLetter j streamSeq deliveries ∧
      r.2.detail.get? "stream_seq" = some (.int streamSeq) := by
  rcases jobStep h j with ⟨-, hrows, -⟩ | ⟨who, key, payload, id, id', -, -, hrows, -⟩ |
    ⟨who, w, row, next, id, hmade, rfl, -, -, -, -, hrows, -⟩
  · exact .inl (hrows ▸ hr)
  · rw [hrows] at hr
    rcases List.mem_append.1 hr with hr | hr
    · exact .inl hr
    · rcases List.mem_pair.1 hr with rfl | rfl <;> exact nomatch hev
  · rw [hrows] at hr
    rcases List.mem_append.1 hr with hr | hr
    · exact .inl hr
    · obtain rfl := List.mem_singleton.1 hr
      obtain ⟨streamSeq, deliveries, rfl, hw⟩ := deadLetter_of_makes hmade hev
      refine .inr ⟨streamSeq, deliveries, rfl, ?_⟩
      rw [hw]
      rfl

namespace Pipeline

variable {cfg : Settings} {G : Pipeline → PipelineStep → Prop} {p p' : Pipeline}
  {a : PipelineStep}

/-! ### The dead-letter stream -/

/-- A publish under the message id of a copy. -/
theorem dlq_listenerEffect (p : Pipeline) (aid : ℕ) (remembered : Bool) (c : ListenerCall) :
    (p.listenerEffect aid remembered c).dlq = p.dlq ∨
    ∃ streamSeq data, c = .publishDlq streamSeq data ∧
      (remembered = true → ∀ copy ∈ p.dlq, copy.streamSeq ≠ streamSeq) ∧
      (p.listenerEffect aid remembered c).dlq = p.dlq ++ [⟨streamSeq, data⟩] := by
  cases c with
  | publishDlq streamSeq data =>
    rw [listenerEffect]
    split
    · exact .inl rfl
    · next hnew =>
      refine .inr ⟨streamSeq, data, rfl, fun hrem copy hcopy heq ↦ hnew ?_, rfl⟩
      rw [hrem, Bool.true_and]
      exact List.any_eq_true.2 ⟨copy, hcopy, decide_eq_true heq⟩
  | getMsg | recordEvent | deleteMsg | ack => exact .inl rfl

/-- **What a step does to the dead-letter stream**: nothing, or a listener adds a copy of what it
has fetched. -/
theorem step_dlq (h : p.step cfg a = some p') :
    p'.dlq = p.dlq ∨
    ∃ qid ans remembered q adv raw, a = .quarantine qid ans remembered ∧
      p.quarantines[qid]? = some q ∧ q.pc = .publish adv raw ∧
      (remembered = true → ∀ copy ∈ p.dlq, copy.streamSeq ≠ adv.streamSeq) ∧
      p'.dlq = p.dlq ++ [⟨adv.streamSeq, raw⟩] := by
  cases a with
  | submit | replay | die | tick | vanish | handle =>
    obtain ⟨f, -, rfl⟩ := onFleet_eq_some h
    exact .inl rfl
  | deliver n workerId =>
    obtain ⟨m, f, -, -, -, rfl⟩ := deliver_eq_some h
    exact .inl rfl
  | miss n =>
    obtain ⟨m, -, -, rfl⟩ := miss_eq_some h
    exact .inl rfl
  | exhaust n =>
    obtain ⟨m, -, -, -, rfl⟩ := exhaust_eq_some h
    exact .inl rfl
  | relay rid ans remembered =>
    obtain ⟨r, pc, -, -, -, -, -, -, hdlq, -⟩ := relay_cases h
    exact .inl hdlq
  | fetch aid =>
    obtain ⟨x, -, -, rfl⟩ := fetch_eq_some h
    exact .inl rfl
  | beginRelay | killRelay | advise | killListener =>
    obtain rfl := Option.some.inj h
    exact .inl rfl
  | quarantine qid ans remembered =>
    obtain ⟨q, c, reply, pc, p₁, hget, -, hmove, hp₁, rfl⟩ := stepQuarantine_eq_some h
    show p₁.dlq = p.dlq ∨ _
    split at hp₁
    · subst hp₁
      refine (dlq_listenerEffect p q.advisory remembered c).imp_right ?_
      rintro ⟨streamSeq, data, rfl, hnew, hdlq⟩
      rcases hmove.call_cases with ⟨adv, -, hc⟩ | ⟨adv, raw, hpc, hc⟩ | ⟨adv, raw, -, hc⟩ |
        ⟨adv, raw, -, hc⟩ | ⟨-, hc⟩
      · exact nomatch hc
      · obtain ⟨rfl, rfl⟩ := ListenerCall.publishDlq.inj hc
        exact ⟨qid, ans, remembered, q, adv, data, rfl, hget, hpc, hnew, hdlq⟩
      · exact nomatch hc
      · exact nomatch hc
      · exact nomatch hc
    · rw [hp₁]
      exact .inl rfl

/-- A copy stays. -/
theorem mem_dlq_step (h : p.step cfg a = some p') {copy : DlqCopy} (hc : copy ∈ p.dlq) :
    copy ∈ p'.dlq := by
  rcases step_dlq h with hsame | ⟨qid, ans, remembered, q, adv, raw, -, -, -, -, hdlq⟩
  · rwa [hsame]
  · rw [hdlq]
    exact List.mem_append_left _ hc

theorem mem_dlq_of_leads {p₁ p₂ : Pipeline} (h : (system cfg).Reachable G p₁)
    (hl : (system cfg).Leads G p₁ p₂) {copy : DlqCopy} (hc : copy ∈ p₁.dlq) : copy ∈ p₂.dlq :=
  hl.stable (P := fun p ↦ copy ∈ p.dlq) (fun _ _ _ _ hp _ hs ↦ mem_dlq_step hs hp) h hc

/-- **A returned publish is stored**, or a copy under its id had been. -/
theorem exists_copy_of_published {qid : ℕ} {remembered : Bool} {q : QuarantineRun}
    {adv : MaxDeliveriesAdvisory} {raw : Message SubmitRequest}
    (h : p.step cfg (.quarantine qid .served remembered) = some p')
    (hget : p.quarantines[qid]? = some q) (hpc : q.pc = .publish adv raw) :
    ∃ copy ∈ p'.dlq, copy.streamSeq = adv.streamSeq := by
  obtain ⟨q', c, reply, pc, p₁, hget', -, hmove, rfl, rfl⟩ := stepQuarantine_eq_some h
  obtain rfl := Option.some.inj (hget.symm.trans hget')
  obtain rfl : c = .publishDlq adv.streamSeq raw := by
    rcases hmove.call_cases with ⟨adv', hpc', rfl⟩ | ⟨adv', raw', hpc', rfl⟩ |
      ⟨adv', raw', hpc', rfl⟩ | ⟨adv', raw', hpc', rfl⟩ | ⟨hpc', rfl⟩
    · exact nomatch hpc.symm.trans hpc'
    · obtain ⟨rfl, rfl⟩ := QuarantinePc.publish.inj (hpc.symm.trans hpc')
      rfl
    · exact nomatch hpc.symm.trans hpc'
    · exact nomatch hpc.symm.trans hpc'
    · exact nomatch hpc.symm.trans hpc'
  show ∃ copy ∈ (p.listenerEffect q.advisory remembered (.publishDlq adv.streamSeq raw)).dlq,
    copy.streamSeq = adv.streamSeq
  rw [listenerEffect]
  split
  · next hany =>
    obtain ⟨copy, hcopy, heq⟩ := List.any_eq_true.1 (Bool.and_eq_true_iff.1 hany).2
    exact ⟨copy, hcopy, of_decide_eq_true heq⟩
  · exact ⟨_, List.mem_append_right _ (List.mem_singleton_self _), rfl⟩

/-! ### What holds at every cut -/

/-- **What the order of the three changes keeps**, wherever a quarantine is cut off. -/
structure Copied (p : Pipeline) : Prop where
  /-- A copy is the message of its sequence number. -/
  faithful : ∀ copy ∈ p.dlq, ∃ m, p.stream.msg? copy.streamSeq = some m ∧ m.data = copy.data
  /-- Past the publish, the copy is there. -/
  published : ∀ (qid : ℕ) (q : QuarantineRun) (adv : MaxDeliveriesAdvisory)
    (raw : Message SubmitRequest), p.quarantines[qid]? = some q →
    q.pc = .record adv raw ∨ q.pc = .delete adv raw → ⟨adv.streamSeq, raw⟩ ∈ p.dlq
  /-- An event that is recorded names a message of its job that has its copy. -/
  recorded : ∀ (j : Uuid) (r : ℕ × EventRow), r ∈ p.fleet.world.db.eventRows j →
    r.2.event = .deadLettered → ∃ seq m, r.2.detail.get? "stream_seq" = some (.int seq) ∧
      p.stream.msg? seq = some m ∧ m.data.jobId = j ∧ ⟨seq, m.data⟩ ∈ p.dlq

theorem copied_empty : empty.Copied where
  faithful copy h := absurd h List.not_mem_nil
  published qid q adv raw hget := absurd hget (by simp [empty])
  recorded j r h := absurd h List.not_mem_nil

/-- A message once stored keeps its data. -/
theorem data_step (h : p.step cfg a = some p') {seq : ℤ} {m : StreamMsg}
    (hm : p.stream.msg? seq = some m) :
    ∃ m', p'.stream.msg? seq = some m' ∧ m'.data = m.data := by
  obtain ⟨m', hm', hstep⟩ := step_msg h hm
  exact ⟨m', hm', hstep.data⟩

section Step

variable (hr : (system cfg).Reachable G p) (hp : p.Copied) (h : p.step cfg a = some p')

include hr hp h

theorem Copied.faithful_step (copy : DlqCopy) (hc : copy ∈ p'.dlq) :
    ∃ m, p'.stream.msg? copy.streamSeq = some m ∧ m.data = copy.data := by
  suffices hbefore : ∃ m, p.stream.msg? copy.streamSeq = some m ∧ m.data = copy.data by
    obtain ⟨m, hm, hdata⟩ := hbefore
    obtain ⟨m', hm', hdata'⟩ := data_step h hm
    exact ⟨m', hm', hdata'.trans hdata⟩
  rcases step_dlq h with hsame | ⟨qid, ans, remembered, q, adv, raw, -, hget, hpc, -, hdlq⟩
  · exact hp.faithful copy (hsame ▸ hc)
  · rw [hdlq] at hc
    rcases List.mem_append.1 hc with hc | hc
    · exact hp.faithful copy hc
    · obtain rfl := List.mem_singleton.1 hc
      exact (advised_of_reachable hr).fetched qid q adv raw hget (by rw [hpc]; rfl)
        (by rw [hpc]; rfl)

/-- The publish that leads to the record. -/
theorem Copied.mem_dlq_of_published {qid : ℕ} {remembered : Bool} {q : QuarantineRun}
    {adv : MaxDeliveriesAdvisory} {raw : Message SubmitRequest}
    (ha : a = .quarantine qid .served remembered) (hget : p.quarantines[qid]? = some q)
    (hpc : q.pc = .publish adv raw) : ⟨adv.streamSeq, raw⟩ ∈ p'.dlq := by
  obtain ⟨m, hm, rfl⟩ := (advised_of_reachable hr).fetched qid q adv raw hget
    (by rw [hpc]; rfl) (by rw [hpc]; rfl)
  obtain ⟨m', hm', hdata⟩ := data_step h hm
  obtain ⟨copy, hcopy, heq⟩ := exists_copy_of_published (ha ▸ h) hget hpc
  obtain ⟨m₁, hm₁, hdata₁⟩ := Copied.faithful_step hr hp h copy hcopy
  -- Whoever made the copy, it is the message of that sequence number.
  rw [heq] at hm₁
  obtain rfl := Option.some.inj (hm₁.symm.trans hm')
  have hcopyEq : copy = ⟨adv.streamSeq, m.data⟩ := by
    rw [← heq, ← hdata, hdata₁]
  exact hcopyEq ▸ hcopy

theorem Copied.published_step (qid : ℕ) (q' : QuarantineRun) (adv : MaxDeliveriesAdvisory)
    (raw : Message SubmitRequest) (hget : p'.quarantines[qid]? = some q')
    (hpc : q'.pc = .record adv raw ∨ q'.pc = .delete adv raw) : ⟨adv.streamSeq, raw⟩ ∈ p'.dlq := by
  rcases step_quarantine h hget with ⟨hold, -⟩ | ⟨q, hold, -, rfl⟩ | ⟨aid, x, rfl, hx, -, rfl⟩ |
    ⟨q, ans, remembered, c, reply, pc, ha, hold, -, hmove, rfl⟩
  · exact mem_dlq_step h (hp.published qid q' adv raw hold hpc)
  · exact mem_dlq_step h (hp.published qid q adv raw hold hpc)
  · have hraw := raw?_start x.raw
    rcases hpc with hpc | hpc <;> rw [show QuarantinePc.start x.raw = _ from hpc] at hraw <;>
      exact nomatch hraw
  · rcases hpc with hpc | hpc
    · obtain rfl : pc = .record adv raw := hpc
      obtain ⟨hpub, rfl⟩ := hmove.to_record
      exact Copied.mem_dlq_of_published hr hp h ha hold hpub
    · obtain rfl : pc = .delete adv raw := hpc
      exact mem_dlq_step h (hp.published qid q adv raw hold (.inl hmove.to_delete.1))

/-- A recorded event names a message that has its copy. -/
theorem Copied.recorded_step (j : Uuid) (r : ℕ × EventRow)
    (hr' : r ∈ p'.fleet.world.db.eventRows j) (hev : r.2.event = .deadLettered) :
    ∃ seq m, r.2.detail.get? "stream_seq" = some (.int seq) ∧
      p'.stream.msg? seq = some m ∧ m.data.jobId = j ∧ ⟨seq, m.data⟩ ∈ p'.dlq := by
  suffices hbefore : ∃ seq m, r.2.detail.get? "stream_seq" = some (.int seq) ∧
      p.stream.msg? seq = some m ∧ m.data.jobId = j ∧ ⟨seq, m.data⟩ ∈ p.dlq by
    obtain ⟨seq, m, hdetail, hm, hj, hcopy⟩ := hbefore
    obtain ⟨m', hm', hdata⟩ := data_step h hm
    exact ⟨seq, m', hdetail, hm', hdata ▸ hj, hdata ▸ mem_dlq_step h hcopy⟩
  rcases step_fleet h with hsame | ⟨b, hb, hstep⟩
  · exact hp.recorded j r (hsame ▸ hr') hev
  · rcases Fleet.deadLettered_row hstep hr' hev with hold | ⟨streamSeq, deliveries, rfl, hdetail⟩
    · exact hp.recorded j r hold hev
    · -- The listener whose transaction it is, is past its publish.
      rcases hb with _ | _ | _ | _ | _ | _ | ⟨ans, remembered, hget, -, hpc⟩
      obtain ⟨m, hm, rfl⟩ := (advised_of_reachable hr).fetched _ _ _ _ hget (by rw [hpc]; rfl)
        (by rw [hpc]; rfl)
      exact ⟨_, m, hdetail, hm, rfl, hp.published _ _ _ _ hget (.inl hpc)⟩

/-- **Every step keeps the order of the three.** -/
theorem Copied.step : p'.Copied :=
  ⟨Copied.faithful_step hr hp h, Copied.published_step hr hp h, Copied.recorded_step hr hp h⟩

end Step

theorem copied_of_reachable (h : (system cfg).Reachable G p) : p.Copied :=
  h.induct (fun _ hp ↦ hp ▸ copied_empty) fun _ _ _ hr ih _ hs ↦ ih.step hr hs

/-! ### At most one copy -/

/-- The guard: the broker drops the repeats of a message id. -/
def DropsRepeats (p : Pipeline) : PipelineStep → Prop
  | .quarantine qid _ remembered => ∀ q adv raw, p.quarantines[qid]? = some q →
      q.pc = .publish adv raw → remembered = true
  | _ => True

/-- One copy of each message. -/
theorem nodup_dlq (h : (system cfg).Reachable DropsRepeats p) :
    (p.dlq.map DlqCopy.streamSeq).Nodup := by
  refine h.induct (I := fun p ↦ (p.dlq.map DlqCopy.streamSeq).Nodup) (fun p hp ↦ ?_)
    fun p a p' _ ih hg hs ↦ ?_
  · rw [hp]
    exact List.nodup_nil
  · rcases step_dlq hs with hsame | ⟨qid, ans, remembered, q, adv, raw, rfl, hget, hpc, hnew, hdlq⟩
    · rwa [hsame]
    · rw [hdlq, List.map_append, List.map_singleton]
      refine List.nodup_append.2 ⟨ih, List.nodup_singleton _, fun x hx y hy heq ↦ ?_⟩
      obtain ⟨copy, hcopy, rfl⟩ := List.mem_map.1 hx
      obtain rfl := List.mem_singleton.1 hy
      exact hnew (hg q adv raw hget hpc) copy hcopy heq

/-! ### What a listener removes -/

/-- A step of a listener that removes message `seq`, which is `m`, from the work stream. -/
def ListenerRemoves (cfg : Settings) (p p' : Pipeline) (seq : ℤ) (m : StreamMsg) : Prop :=
  p.stream.stored? seq = some m ∧ p'.stream.stored? seq = none ∧
    ∃ qid ans remembered, p.step cfg (.quarantine qid ans remembered) = some p'

/-- It is at its deletion, and has fetched that message. -/
theorem ListenerRemoves.deleting (h : (system cfg).Reachable G p) {seq : ℤ} {m : StreamMsg}
    (hrem : ListenerRemoves cfg p p' seq m) :
    ∃ (qid : ℕ) (q : QuarantineRun) (adv : MaxDeliveriesAdvisory),
      p.quarantines[qid]? = some q ∧ q.pc = .delete adv m.data ∧ adv.streamSeq = seq := by
  obtain ⟨hm, hnone, qid, ans, remembered, hs⟩ := hrem
  obtain ⟨hmsg, hpresent⟩ := WorkStream.stored?_eq_some.1 hm
  obtain ⟨m', hm', hstep⟩ := step_msg hs hmsg
  have hgone := WorkStream.present_of_stored?_none hnone hm'
  cases hstep with
  | same => exact nomatch hpresent.symm.trans hgone
  | @deleted _ _ _ q adv raw hget _ hpc hseq =>
    obtain ⟨m₀, hm₀, rfl⟩ := (advised_of_reachable h).fetched qid q adv raw hget
      (by rw [hpc]; rfl) (by rw [hpc]; rfl)
    rw [hseq] at hm₀
    obtain rfl := Option.some.inj (hm₀.symm.trans hmsg)
    exact ⟨qid, q, adv, hget, hpc, hseq⟩

/-- **Copy before delete.** In every run, wherever quarantines are cut off and however often they
are redone: a message a listener has removed has its copy in the dead-letter stream, and its job
was dead-lettered before, or had succeeded or failed; every event that records a dead-lettering
names a message of its job that has its copy there; and no message has two copies, if the broker
drops the repeats of a message id. -/
theorem copy_before_delete (h : (system cfg).Reachable TransitionSystem.anyStep p) :
    (∀ (p₁ p₂ : Pipeline) (seq : ℤ) (m : StreamMsg),
      (system cfg).Reachable TransitionSystem.anyStep p₁ → ListenerRemoves cfg p₁ p₂ seq m →
      (system cfg).Leads TransitionSystem.anyStep p₂ p →
      ⟨seq, m.data⟩ ∈ p.dlq ∧
        (.deadLettered ∈ p₁.fleet.world.db.log m.data.jobId ∨
          ∃ row, p₁.fleet.world.db.job? m.data.jobId = some row ∧
            (row.state = .succeeded ∨ row.state = .failed))) ∧
    (∀ (j : Uuid) (r : ℕ × EventRow), r ∈ p.fleet.world.db.eventRows j →
      r.2.event = .deadLettered → ∃ seq m, r.2.detail.get? "stream_seq" = some (.int seq) ∧
        p.stream.msg? seq = some m ∧ m.data.jobId = j ∧ ⟨seq, m.data⟩ ∈ p.dlq) ∧
    ((system cfg).Reachable DropsRepeats p → (p.dlq.map DlqCopy.streamSeq).Nodup) := by
  refine ⟨fun p₁ p₂ seq m hr₁ hrem hl ↦ ?_, (copied_of_reachable h).recorded, nodup_dlq⟩
  obtain ⟨qid, q, adv, hget, hpc, rfl⟩ := hrem.deleting hr₁
  obtain ⟨-, -, qid', ans, remembered, hs⟩ := hrem
  refine ⟨?_, ?_⟩
  · have hcopy := (copied_of_reachable hr₁).published qid q adv m.data hget (.inr hpc)
    have hr₂ : (system cfg).Reachable TransitionSystem.anyStep p₂ :=
      hr₁.next (a := .quarantine qid' ans remembered) trivial hs
    exact mem_dlq_of_leads hr₂ hl (mem_dlq_step hs hcopy)
  · rcases (recorded_of_reachable hr₁).deleting qid q adv m.data hget hpc with
      ⟨row, hrow, ht⟩ | ⟨i, -, hdead, -⟩
    · refine .inr ⟨row, hrow, ?_⟩
      cases hstate : row.state <;> rw [hstate] at ht <;> first
        | exact .inl rfl
        | exact .inr rfl
        | exact nomatch ht
    · exact .inl (List.mem_of_getElem? hdead)

/-- A test that implies the guard. -/
def dropsRepeats? (_ : Pipeline) : PipelineStep → Bool
  | .quarantine _ _ remembered => remembered
  | _ => true

theorem dropsRepeats_of_dropsRepeats? (h : p.dropsRepeats? a = true) : DropsRepeats p a := by
  cases a with
  | quarantine qid ans remembered => exact fun _ _ _ _ _ ↦ h
  | _ => trivial

/-- The listener that quarantines a poison job dies before its deletion, another one is given the
same advisory, and comes to the deletion. -/
def redoesBeforeDelete : List PipelineStep :=
  exhaustsPoison ++ [.fetch 0, .quarantine 0 .served true, .quarantine 0 .served true,
    .quarantine 0 .served true, .killListener 0, .fetch 0, .quarantine 1 .served true,
    .quarantine 1 .served true, .quarantine 1 .served true]

/-- Its deletion leaves one copy. -/
theorem copy_before_delete_of_redone : ∃ (p p' : Pipeline) (m : StreamMsg),
    (system {}).Reachable TransitionSystem.anyStep p' ∧ ListenerRemoves {} p p' 1 m ∧
    ⟨1, m.data⟩ ∈ p'.dlq ∧ (p'.dlq.map DlqCopy.streamSeq).Nodup ∧
    .deadLettered ∈ p.fleet.world.db.log m.data.jobId := by
  have hrun : ((system {}).execGuarded dropsRepeats? empty redoesBeforeDelete).any (fun p ↦
      (p.stream.stored? 1).any (fun m ↦
        (p.fleet.world.db.job? m.data.jobId).all fun row ↦ row.state = .deadLetter) &&
      (((system {}).step p (.quarantine 1 .served true)).any fun p' ↦
        (p'.stream.stored? 1).isNone)) = true := by
    rfl
  obtain ⟨p, hl, hp⟩ := TransitionSystem.exists_leads_of_execGuarded
    (fun p a ↦ dropsRepeats_of_dropsRepeats? (p := p) (a := a)) hrun
  simp only [Bool.and_eq_true, Option.any_eq_true, Option.isNone_iff_eq_none] at hp
  obtain ⟨⟨m, hm, hdead⟩, p', hs, hnone⟩ := hp
  have hr : (system {}).Reachable DropsRepeats p := ⟨_, rfl, hl⟩
  have hguard : DropsRepeats p (.quarantine 1 .served true) := fun _ _ _ _ _ ↦ rfl
  have hr' : (system {}).Reachable DropsRepeats p' := hr.next hguard hs
  have hany : ∀ {p}, (system {}).Reachable DropsRepeats p →
      (system {}).Reachable TransitionSystem.anyStep p := .mono fun _ _ _ ↦ trivial
  have hrem : ListenerRemoves {} p p' 1 m := ⟨hm, hnone, 1, .served, true, hs⟩
  obtain ⟨hcopies, -, hnodup⟩ := copy_before_delete (hany hr')
  obtain ⟨hcopy, hlog | ⟨row, hrow, hstate⟩⟩ := hcopies p p' 1 m (hany hr) hrem .refl
  · exact ⟨p, p', m, hany hr', hrem, hcopy, hnodup hr', hlog⟩
  · have hdead := of_decide_eq_true ((Option.all_eq_true _ _).1 hdead row hrow)
    rcases hstate with hstate | hstate <;> exact nomatch hstate.symm.trans hdead

end Pipeline

end Orbiter
