import Orbiter.Pipeline.Invariants

/-!
# One message for each job

A relay that dies or fails after a publish leaves a stored message with an unmarked row behind, and
the next relay publishes the row again. While that does not happen every row is published once: a
relay holds rows nobody else holds and nobody has marked, it publishes each of them once, and it
gives them up by marking them. Without replays a job has one row, so it has one message.

* `Relayed` — the guard: no relay fails or dies, and nobody replays;
* `Holds`, `Awaits` — a relay has a row in its batch, or has still to publish it;
* `Relaying` — the invariant: held rows are unmarked and held once, and a stored row is marked, or
  held by a relay that has published it. `holds_step` and `Relaying.msgId_ne` are its step lemmas;
* `seq_eq_of_jobId_eq` — **one message for each job.**

Nothing is assumed of the broker's memory here: with such relays it is never asked to remember.
-/

namespace Orbiter

namespace Pipeline

variable {cfg : Settings} {p p' : Pipeline} {a : PipelineStep}

/-- No relay dies or has a call fail, and nobody replays a job. -/
def Relayed (_ : Pipeline) : PipelineStep → Prop
  | .relay _ ans _ => ans = .served
  | .killRelay _ | .replay _ => False
  | _ => True

/-- The outbox row with this id is marked. -/
def Marked (f : Fleet) (id : ℕ) : Prop :=
  ∃ r, (id, r) ∈ f.world.db.outbox.rows ∧ r.publishedAt ≠ none

/-- The relay holds the row with this id. -/
def Holds (p : Pipeline) (rid id : ℕ) : Prop :=
  ∃ r, p.relays[rid]? = some r ∧ id ∈ r.pc.locked.map Prod.fst

/-- The relay has still to publish the row with this id. -/
def Awaits (p : Pipeline) (rid id : ℕ) : Prop :=
  ∃ r, p.relays[rid]? = some r ∧ id ∈ r.pc.todo.map Prod.fst

/-- The relays divide the unmarked rows among them. -/
structure Relaying (p : Pipeline) : Prop where
  alive : ∀ (rid : ℕ) (r : RelayRun), p.relays[rid]? = some r → r.alive = true
  unmarked : ∀ rid id : ℕ, p.Holds rid id → ¬ Marked p.fleet id
  apart : ∀ rid rid' id : ℕ, p.Holds rid id → p.Holds rid' id → rid = rid'
  nodup : ∀ (rid : ℕ) (r : RelayRun), p.relays[rid]? = some r → (r.pc.todo.map Prod.fst).Nodup
  /-- The row of a stored message is marked, or on its way to be. -/
  sent : ∀ (seq : ℤ) (m : StreamMsg), p.stream.msg? seq = some m →
    Marked p.fleet m.msgId ∨ ∃ rid, p.Holds rid m.msgId ∧ ¬ p.Awaits rid m.msgId
  once : ∀ (seq seq' : ℤ) (m m' : StreamMsg), p.stream.msg? seq = some m →
    p.stream.msg? seq' = some m' → m.msgId = m'.msgId → seq = seq'

theorem Marked.step {id : ℕ} (hm : Marked p.fleet id) (h : p.step cfg a = some p') :
    Marked p'.fleet id := by
  rcases step_fleet h with hsame | ⟨b, -, hstep⟩
  · rwa [hsame]
  · obtain ⟨r, hr, hpub⟩ := hm
    obtain ⟨r', hr', -, -, -, hpub'⟩ := Fleet.mem_outbox_step hstep hr
    exact ⟨r', hr', hpub' hpub⟩

/-- A row is marked by the relay that holds it. -/
theorem marked_cases (h : p.step cfg a = some p') {id : ℕ} (hm : Marked p'.fleet id) :
    Marked p.fleet id ∨ ∃ rid ans remembered r batch, a = .relay rid ans remembered ∧
      p.relays[rid]? = some r ∧ r.pc = .mark batch ∧ id ∈ batch.map Prod.fst := by
  obtain ⟨r', hr', hpub⟩ := hm
  rcases step_fleet h with hsame | ⟨b, hb, hstep⟩
  · exact .inl ⟨r', hsame ▸ hr', hpub⟩
  · rcases Fleet.mem_outbox_cases hstep hr' with ⟨r, hr, -, -, -, hold | ⟨ids, rfl, hid⟩⟩ |
      ⟨-, hnone, -⟩
    · exact .inl ⟨r, hr, hold ▸ hpub⟩
    · rcases hb with _ | _ | ⟨ans, remembered, hget, -, hpc⟩
      exact .inr ⟨_, ans, remembered, _, _, rfl, hget, hpc, hid⟩
    · exact absurd hnone hpub

/-- What the select returns is unmarked and nobody holds it. -/
theorem free_of_mem_select {limit id : ℕ}
    (hid : id ∈ (p.selectUnpublished limit).map Prod.fst) :
    ¬ Marked p.fleet id ∧ id ∉ p.lockedIds := by
  obtain ⟨e, he, rfl⟩ := List.mem_map.1 hid
  obtain ⟨hrow, hfree⟩ := List.mem_filter.1 (List.mem_of_mem_take he)
  rw [Bool.and_eq_true, Bool.not_eq_true', List.contains_eq_mem, decide_eq_false_iff_not,
    Option.isNone_iff_eq_none] at hfree
  refine ⟨?_, hfree.2⟩
  rintro ⟨r, hr, hpub⟩
  obtain heq := p.fleet.world.db.outbox.eq_of_mem_rows hr hrow rfl
  rw [← heq] at hfree
  exact hpub hfree.1

/-- A held row is locked, while no relay has died. -/
theorem mem_lockedIds {rid id : ℕ} (hh : p.Holds rid id)
    (halive : ∀ (rid : ℕ) (r : RelayRun), p.relays[rid]? = some r → r.alive = true) :
    id ∈ p.lockedIds := by
  obtain ⟨r, hget, hid⟩ := hh
  refine List.mem_flatMap.2 ⟨r, List.mem_of_getElem? hget, ?_⟩
  rwa [if_pos (halive rid r hget)]

/-- Where a held row comes from: the relay held it and does not give it up in this step, or it has
just selected it. -/
theorem holds_cases (h : p.step cfg a = some p') {rid id : ℕ} (hh : p'.Holds rid id) :
    (p.Holds rid id ∧ ∀ r batch ans remembered, p.relays[rid]? = some r → r.pc = .mark batch →
      a ≠ .relay rid ans remembered) ∨
    ∃ r ans remembered, a = .relay rid ans remembered ∧ p.relays[rid]? = some r ∧
      r.pc = .select ∧ id ∈ (p.selectUnpublished cfg.relayBatchSize).map Prod.fst := by
  obtain ⟨r', hget, hid⟩ := hh
  rcases step_relay h hget with ⟨hold, hne⟩ | ⟨r, hold, rfl, rfl⟩ | ⟨-, rfl⟩ |
    ⟨r, ans, remembered, c, pc, rfl, hold, -, hmove, rfl⟩
  · exact .inl ⟨⟨r', hold, hid⟩, fun _ _ ans remembered _ _ ↦ hne ans remembered⟩
  · exact .inl ⟨⟨r, hold, hid⟩, by simp⟩
  · exact absurd hid (by simp [RelayPc.locked])
  · obtain ⟨pc₀, alive⟩ := r
    rcases hmove with ⟨hv, applied⟩ | _ | ⟨batch, entry, rest⟩ | ⟨batch⟩
    · exact absurd hid (by simp [RelayPc.locked])
    · rw [RelayPc.locked_loop] at hid
      exact .inr ⟨_, .served, remembered, rfl, hold, rfl, hid⟩
    · rw [RelayPc.locked_loop] at hid
      refine .inl ⟨⟨_, hold, hid⟩, fun r batch' _ _ hr hpc ↦ ?_⟩
      obtain rfl := Option.some.inj (hold.symm.trans hr)
      contradiction
    · exact absurd hid (by simp [RelayPc.locked])

/-- A relay that is served gives a row up by marking it. -/
theorem holds_step (hg : Relayed p a) (hp : p.Published) (h : p.step cfg a = some p') {rid id : ℕ}
    (hh : p.Holds rid id) (hw : ¬ p.Awaits rid id) :
    Marked p'.fleet id ∨ p'.Holds rid id ∧ ¬ p'.Awaits rid id := by
  obtain ⟨r, hget, hid⟩ := hh
  have htodo : id ∉ r.pc.todo.map Prod.fst := fun hmem ↦ hw ⟨r, hget, hmem⟩
  obtain ⟨r', hget'⟩ := step_relay_of_some h hget
  have hkept : id ∈ r'.pc.locked.map Prod.fst → id ∉ r'.pc.todo.map Prod.fst →
      p'.Holds rid id ∧ ¬ p'.Awaits rid id := by
    refine fun hid' htodo' ↦ ⟨⟨r', hget', hid'⟩, ?_⟩
    rintro ⟨r'', hget'', hmem⟩
    obtain rfl := Option.some.inj (hget'.symm.trans hget'')
    exact htodo' hmem
  rcases step_relay h hget' with ⟨hold, -⟩ | ⟨r₀, -, rfl, -⟩ | ⟨hnone, -⟩ |
    ⟨r₀, ans, remembered, c, pc, rfl, hold, -, hmove, rfl⟩
  · obtain rfl := Option.some.inj (hget.symm.trans hold)
    exact .inr (hkept hid htodo)
  · exact hg.elim
  · rw [hget] at hnone
    exact nomatch hnone
  · obtain rfl := Option.some.inj (hget.symm.trans hold)
    obtain rfl : ans = .served := hg
    obtain ⟨pc₀, alive⟩ := r
    rcases hmove with ⟨hv, applied⟩ | _ | ⟨batch, entry, rest⟩ | ⟨batch⟩
    · exact absurd hid (by simp [RelayPc.locked])
    · refine .inr (hkept ?_ fun hmem ↦ htodo ?_)
      · rwa [RelayPc.locked_loop]
      · rw [RelayPc.todo_loop] at hmem
        exact List.mem_cons_of_mem _ hmem
    · obtain ⟨e, he, rfl⟩ := List.mem_map.1 hid
      obtain ⟨row, hrow, -⟩ := hp.batch rid _ e hget he
      exact .inl (Fleet.mem_outbox_publish (mark_step h hget rfl) hrow hid)

/-- The ids of a selected batch are distinct. -/
theorem nodup_select (p : Pipeline) (limit : ℕ) :
    ((p.selectUnpublished limit).map Prod.fst).Nodup := by
  have hsub : ((p.selectUnpublished limit).map Prod.fst).Sublist
      (p.fleet.world.db.outbox.rows.map Prod.fst) :=
    ((List.take_sublist ..).trans List.filter_sublist).map _
  exact hsub.nodup p.fleet.world.db.outbox.nodup_ids

theorem Relaying.nodup_step (hp : p.Relaying) (h : p.step cfg a = some p') {rid : ℕ}
    {r' : RelayRun} (hget : p'.relays[rid]? = some r') : (r'.pc.todo.map Prod.fst).Nodup := by
  rcases step_relay h hget with ⟨hold, -⟩ | ⟨r, hold, -, rfl⟩ | ⟨-, rfl⟩ |
    ⟨r, ans, remembered, c, pc, rfl, hold, -, hmove, rfl⟩
  · exact hp.nodup rid r' hold
  · exact hp.nodup rid r hold
  · exact List.nodup_nil
  · have hnodup := hp.nodup rid r hold
    obtain ⟨pc₀, alive⟩ := r
    rcases hmove with ⟨hv, applied⟩ | _ | ⟨batch, entry, rest⟩ | ⟨batch⟩
    · exact List.nodup_nil
    · rw [RelayPc.todo_loop]
      exact nodup_select p _
    · rw [RelayPc.todo_loop]
      exact (List.nodup_cons.1 hnodup).2
    · exact List.nodup_nil

/-- The row a relay is about to publish has no message yet. -/
theorem Relaying.msgId_ne (hp : p.Relaying) (hpub : p.Published) {rid : ℕ} {r : RelayRun}
    {batch rest : List OutboxEntry} {entry : OutboxEntry} (hget : p.relays[rid]? = some r)
    (hpc : r.pc = .publish batch entry rest) {seq : ℤ} {m : StreamMsg}
    (hm : p.stream.msg? seq = some m) : m.msgId ≠ entry.1 := by
  intro hid
  have htodo : entry ∈ r.pc.todo := by rw [hpc]; exact List.mem_cons_self
  have hholds : p.Holds rid m.msgId :=
    ⟨r, hget, List.mem_map.2 ⟨entry, hpub.todo rid r entry hget htodo, hid.symm⟩⟩
  rcases hp.sent seq m hm with hmark | ⟨rid', hh, hw⟩
  · exact hp.unmarked rid _ hholds hmark
  · obtain rfl := hp.apart rid rid' _ hholds hh
    exact hw ⟨r, hget, List.mem_map.2 ⟨entry, htodo, hid.symm⟩⟩

/-- What a relay has published it holds, and will not publish again. -/
theorem Relaying.holds_published (hp : p.Relaying) (hpub : p.Published) {rid : ℕ}
    {remembered : Bool} (h : p.step cfg (.relay rid .served remembered) = some p') {r : RelayRun}
    {batch rest : List OutboxEntry} {entry : OutboxEntry} (hget : p.relays[rid]? = some r)
    (hpc : r.pc = .publish batch entry rest) :
    p'.Holds rid entry.1 ∧ ¬ p'.Awaits rid entry.1 := by
  have htodo : entry ∈ r.pc.todo := by rw [hpc]; exact List.mem_cons_self
  have hlocked := hpub.todo rid r entry hget htodo
  have hnodup := hp.nodup rid r hget
  obtain ⟨r', hget'⟩ := step_relay_of_some h hget
  rcases step_relay h hget' with ⟨-, hne⟩ | ⟨r₀, -, ha, -⟩ | ⟨hnone, -⟩ |
    ⟨r₀, ans, remembered', c, pc, ha, hold, -, hmove, rfl⟩
  · exact absurd rfl (hne .served remembered)
  · exact nomatch ha
  · rw [hget] at hnone
    exact nomatch hnone
  · obtain ⟨-, rfl, rfl⟩ := PipelineStep.relay.inj ha
    obtain rfl := Option.some.inj (hget.symm.trans hold)
    obtain ⟨pc₀, alive⟩ := r
    obtain rfl : pc₀ = .publish batch entry rest := hpc
    rcases hmove with _ | _ | _ | _
    refine ⟨⟨_, hget', ?_⟩, ?_⟩
    · rw [RelayPc.locked_loop]
      exact List.mem_map_of_mem hlocked
    · rintro ⟨r'', hget'', hmem⟩
      obtain rfl := Option.some.inj (hget'.symm.trans hget'')
      rw [RelayPc.todo_loop] at hmem
      exact (List.nodup_cons.1 hnodup).1 hmem

/-- **Every step under the guard keeps each row published once.** -/
theorem Relaying.step (hp : p.Relaying) (hpub : p.Published) (hg : Relayed p a)
    (h : p.step cfg a = some p') : p'.Relaying where
  alive rid r' hget := by
    rcases step_relay h hget with ⟨hold, -⟩ | ⟨r, -, rfl, -⟩ | ⟨-, rfl⟩ |
      ⟨r, ans, remembered, c, pc, rfl, hold, halive, -, rfl⟩
    · exact hp.alive rid r' hold
    · exact hg.elim
    · rfl
    · exact halive
  unmarked rid id hh hm := by
    rcases holds_cases h hh with ⟨hold, hkeep⟩ | ⟨r, ans, remembered, ha, hget, hpc, hid⟩
    · rcases marked_cases h hm with hm₀ | ⟨rid', ans, remembered, r, batch, ha, hget, hpc, hid⟩
      · exact hp.unmarked rid id hold hm₀
      · obtain rfl := hp.apart rid rid' id hold ⟨r, hget, by rw [hpc]; exact hid⟩
        exact hkeep r batch ans remembered hget hpc ha
    · rcases marked_cases h hm with hm₀ | ⟨rid', ans', remembered', r', batch, ha', hget', hpc', -⟩
      · exact (free_of_mem_select hid).1 hm₀
      · obtain ⟨rfl, -, -⟩ := PipelineStep.relay.inj (ha.symm.trans ha')
        obtain rfl := Option.some.inj (hget.symm.trans hget')
        exact nomatch hpc.symm.trans hpc'
  apart rid rid' id hh hh' := by
    rcases holds_cases h hh with ⟨hold, -⟩ | ⟨r, ans, remembered, ha, -, -, hid⟩ <;>
    rcases holds_cases h hh' with ⟨hold', -⟩ | ⟨r', ans', remembered', ha', -, -, hid'⟩
    · exact hp.apart rid rid' id hold hold'
    · exact absurd (mem_lockedIds hold hp.alive) (free_of_mem_select hid').2
    · exact absurd (mem_lockedIds hold' hp.alive) (free_of_mem_select hid).2
    · exact (PipelineStep.relay.inj (ha.symm.trans ha')).1
  nodup rid r' hget := hp.nodup_step h hget
  sent seq m' hm' := by
    rcases msg_cases h hm' with ⟨m, hm, hstep⟩ |
      ⟨rid, ans, remembered, r, batch, entry, rest, rfl, hget, -, hpc, -, -, rfl⟩
    · rw [hstep.msgId]
      rcases hp.sent seq m hm with hmark | ⟨rid, hh, hw⟩
      · exact .inl (hmark.step h)
      · exact (holds_step hg hpub h hh hw).imp_right fun hkept ↦ ⟨rid, hkept⟩
    · obtain rfl : ans = .served := hg
      exact .inr ⟨rid, hp.holds_published hpub h hget hpc⟩
  once seq seq' m₁ m₁' hm₁ hm₁' hid := by
    rcases msg_cases h hm₁ with ⟨m, hm, hstep⟩ |
      ⟨rid, ans, remembered, r, batch, entry, rest, ha, hget, -, hpc, hseq, -, rfl⟩ <;>
    rcases msg_cases h hm₁' with ⟨m', hm', hstep'⟩ |
      ⟨rid', ans', remembered', r', batch', entry', rest', ha', hget', -, hpc', hseq', -, rfl⟩
    · exact hp.once seq seq' m m' hm hm' (hstep.msgId.symm.trans (hid.trans hstep'.msgId))
    · exact absurd (hstep.msgId.symm.trans hid) (hp.msgId_ne hpub hget' hpc' hm)
    · exact absurd (hstep'.msgId.symm.trans hid.symm) (hp.msgId_ne hpub hget hpc hm')
    · exact hseq.trans hseq'.symm

/-- Each row is published once in every state reached under the guard. -/
theorem relaying_of_reachable (h : (system cfg).Reachable Relayed p) : p.Relaying := by
  refine h.induct (I := Relaying) (fun p hp ↦ ?_) fun p a p' hr ih hg hs ↦
    ih.step (published_of_reachable hr) hg hs
  rw [hp]
  refine ⟨?_, ?_, ?_, ?_, fun seq m hm ↦ ?_, fun seq seq' m m' hm ↦ ?_⟩
  · exact fun rid r hget ↦ absurd hget (by simp [empty])
  · rintro rid id ⟨r, hget, -⟩
    exact absurd hget (by simp [empty])
  · rintro rid rid' id ⟨r, hget, -⟩
    exact absurd hget (by simp [empty])
  · exact fun rid r hget ↦ absurd hget (by simp [empty])
  · obtain ⟨n, -, hn⟩ := WorkStream.exists_of_msg? hm
    exact absurd hn (by simp [empty])
  · obtain ⟨n, -, hn⟩ := WorkStream.exists_of_msg? hm
    exact absurd hn (by simp [empty])

/-! ### One row for each job -/

/-- A job has one outbox row. -/
def OneRow (f : Fleet) : Prop :=
  ∀ (id id' : ℕ) (r r' : OutboxRow SubmitRequest), (id, r) ∈ f.world.db.outbox.rows →
    (id', r') ∈ f.world.db.outbox.rows → r.jobId = r'.jobId → id = id'

theorem oneRow_of_reachable (h : (system cfg).Reachable Relayed p) : OneRow p.fleet := by
  refine h.induct (I := fun p ↦ OneRow p.fleet) (fun p hp ↦ ?_) fun p a p' hr ih hg hs ↦ ?_
  · rw [hp]
    exact fun id id' r r' hrow ↦ absurd hrow (by simp [empty, World.empty, Database.empty])
  · rcases step_fleet hs with hsame | ⟨b, hb, hstep⟩
    · rwa [hsame]
    -- A new row comes with a new job, and an old row has a job.
    have hnew : ∀ (id : ℕ) (r₀ r : OutboxRow SubmitRequest),
        (id, r₀) ∈ p.fleet.world.db.outbox.rows →
        (p.fleet.world.db.job? r.jobId = none ∨ b = .replay r.jobId) → r.jobId ≠ r₀.jobId := by
      rintro id r₀ r hrow (habs | rfl) heq
      · obtain ⟨-, row, hjob, -⟩ :=
          (Fleet.outboxed_of_reachable (fleet_reachable hr)).job id r₀ hrow
        rw [heq, hjob] at habs
        contradiction
      · rcases hb with _ | _
        exact hg
    intro id id' r r' hrow hrow' hjob
    rcases Fleet.mem_outbox_cases hstep hrow with ⟨r₀, hr₀, hj₀, -⟩ | ⟨hid, -, -, habs, -⟩ <;>
    rcases Fleet.mem_outbox_cases hstep hrow' with ⟨r₀', hr₀', hj₀', -⟩ | ⟨hid', -, -, habs', -⟩
    · exact ih id id' r₀ r₀' hr₀ hr₀' (hj₀.symm.trans (hjob.trans hj₀'))
    · exact absurd (hjob.symm.trans hj₀) (hnew id r₀ r' hr₀ habs')
    · exact absurd (hjob.trans hj₀') (hnew id' r₀' r hr₀' habs)
    · exact hid.trans hid'.symm

/-- **One message for each job.** -/
theorem seq_eq_of_jobId_eq (h : (system cfg).Reachable Relayed p) {seq seq' : ℤ}
    {m m' : StreamMsg} (hm : p.stream.msg? seq = some m) (hm' : p.stream.msg? seq' = some m')
    (hjob : m.data.jobId = m'.data.jobId) : seq = seq' := by
  have hpub := published_of_reachable h
  have hout := Fleet.outboxed_of_reachable (fleet_reachable h)
  obtain ⟨r, hr, -, hpay⟩ := hpub.msg seq m hm
  obtain ⟨r', hr', -, hpay'⟩ := hpub.msg seq' m' hm'
  have hrow : r.jobId = r'.jobId := by
    rw [← (hout.job _ r hr).1, ← (hout.job _ r' hr').1, hpay, hpay', hjob]
  exact (relaying_of_reachable h).once seq seq' m m' hm hm'
    (oneRow_of_reachable h _ _ r r' hr hr' hrow)

end Pipeline

end Orbiter
