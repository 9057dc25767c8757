import Orbiter.Fleet.Outbox
import Orbiter.Pipeline.Moves

/-!
# Where everything in the pipeline comes from

What holds in all runs, whoever fails or dies: messages come from outbox rows, marks from stored
messages, deliveries and quarantines from messages, advisories of the broker from exhausted
messages. Each of these is a link between two places a job can be in, and none of them ever breaks.

* `toFleet` — forgetting everything but the fleet is a simulation, so the invariants of the fleet
  hold in all runs of the pipeline;
* `MsgStep.data`, `MsgStep.delivered_le`, `MsgStep.present`, … — what a step leaves of a message:
  its contents for good, its count of deliveries not decreasing, its removal not undone;
* `Published` — outbox to stream: every message is of a row, a marked row is stored, and what a
  relay has still to publish are rows (`published_of_reachable`);
* `Delivered` — stream to worker: a `handle` call has the job, the payload and the attempt number of
  a message;
* `Advised` — stream to listener: the broker's advisories speak of messages at their limit, and a
  listener past its first call has the message its advisory names.

`job_of_msg` puts the first two together: the job of a message exists and has its payload.
-/

namespace Orbiter

namespace Pipeline

variable {cfg : Settings} {G : Pipeline → PipelineStep → Prop} {p p' : Pipeline}
  {a : PipelineStep}

/-- **The pipeline refines the fleet.** -/
def toFleet (cfg : Settings) (G : Pipeline → PipelineStep → Prop) (G' : Fleet → FleetStep → Prop)
    (hG : ∀ p a b, G p a → Drives cfg p a b → G' p.fleet b) :
    TransitionSystem.Simulation (system cfg) G (Fleet.system cfg) G' where
  toFun := fleet
  map_init p hp := by
    rw [hp]
    rfl
  map_step p a p' _ hg h := by
    rcases step_fleet h with hsame | ⟨b, hb, hstep⟩
    · rw [hsame]
      exact Relation.ReflTransGen.refl
    · exact Relation.ReflTransGen.single ⟨b, hG p a b hg hb, hstep⟩

/-- The fleet of a reachable pipeline is reachable. -/
theorem fleet_reachable (h : (system cfg).Reachable G p) :
    (Fleet.system cfg).Reachable TransitionSystem.anyStep p.fleet :=
  (toFleet cfg G TransitionSystem.anyStep fun _ _ _ _ _ ↦ trivial).reachable h

/-! ### A message keeps what it is -/

section MsgStep

variable {seq : ℤ} {m m' : StreamMsg}

theorem MsgStep.data (h : MsgStep cfg p seq m a m') : m'.data = m.data := by
  rcases h with _ | _ | _ | _ | _ | _ | _ <;> rfl

theorem MsgStep.msgId (h : MsgStep cfg p seq m a m') : m'.msgId = m.msgId := by
  rcases h with _ | _ | _ | _ | _ | _ | _ <;> rfl

theorem MsgStep.subject (h : MsgStep cfg p seq m a m') : m'.subject = m.subject := by
  rcases h with _ | _ | _ | _ | _ | _ | _ <;> rfl

theorem MsgStep.delivered_le (h : MsgStep cfg p seq m a m') : m.delivered ≤ m'.delivered := by
  rcases h with _ | _ | _ | _ | _ | _ | _ <;> first | exact le_rfl | exact Nat.le_succ _

theorem MsgStep.present (h : MsgStep cfg p seq m a m') (hp : m.present = false) :
    m'.present = false := by
  rcases h with _ | _ | _ | _ | _ | _ | _ <;> first | exact hp | rfl

/-- The broker gives up once. -/
theorem MsgStep.advisory_of_some (h : MsgStep cfg p seq m a m') {aid : ℕ}
    (haid : m.advisory = some aid) : m'.advisory = some aid := by
  rcases h with _ | _ | _ | _ | _ | _ | ⟨-, -, -, hnone⟩
  case exhausted => exact nomatch hnone.symm.trans haid
  all_goals exact haid

/-- An advisory was there before, or is stored just now. -/
theorem MsgStep.advisory_cases (h : MsgStep cfg p seq m a m') {aid : ℕ}
    (haid : m'.advisory = some aid) :
    (m.advisory = some aid ∧ (m'.delivered = m.delivered ∨ m.delivered < cfg.maxDeliver)) ∨
    ∃ n : ℕ, a = .exhaust n ∧ (n : ℤ) = seq ∧ cfg.maxDeliver ≤ m.delivered ∧
      aid = p.advisories.length ∧ m'.delivered = m.delivered := by
  cases h with
  | same | consumed | refused | deleted => exact .inl ⟨haid, .inl rfl⟩
  | delivered workerId hseq hpresent hlt => exact .inl ⟨haid, .inr hlt⟩
  | missed hseq hpresent hlt => exact .inl ⟨haid, .inr hlt⟩
  | @exhausted n hseq hpresent hle hnone =>
    exact .inr ⟨n, rfl, hseq, hle, (Option.some.inj haid).symm, rfl⟩

end MsgStep

/-- A message of the state after a step is one from before, or new. -/
theorem msg_cases (h : p.step cfg a = some p') {seq : ℤ} {m' : StreamMsg}
    (hm' : p'.stream.msg? seq = some m') :
    (∃ m, p.stream.msg? seq = some m ∧ MsgStep cfg p seq m a m') ∨
    ∃ rid ans remembered r batch entry rest, a = .relay rid ans remembered ∧
      p.relays[rid]? = some r ∧ r.alive = true ∧ r.pc = .publish batch entry rest ∧
      seq = ((p.stream.length + 1 : ℕ) : ℤ) ∧ p'.fleet = p.fleet ∧
      m' = { subject := entry.2.subject, msgId := entry.1, data := entry.2.payload } := by
  cases hm : p.stream.msg? seq with
  | none => exact .inr (step_msg_new h hm' hm)
  | some m =>
    obtain ⟨m₁, hm₁, hstep⟩ := step_msg h hm
    obtain rfl := Option.some.inj (hm₁.symm.trans hm')
    exact .inl ⟨m, rfl, hstep⟩

/-! ### Outbox to stream -/

/-- A message under this id was stored at some time. -/
def Stored (p : Pipeline) (id : ℕ) : Prop := ∃ seq m, p.stream.msg? seq = some m ∧ m.msgId = id

theorem Stored.step {id : ℕ} (hs : p.Stored id) (h : p.step cfg a = some p') : p'.Stored id := by
  obtain ⟨seq, m, hm, hid⟩ := hs
  obtain ⟨m', hm', hstep⟩ := step_msg h hm
  exact ⟨seq, m', hm', hstep.msgId.trans hid⟩

/-- The outbox has this row. -/
def HasRow (f : Fleet) (id : ℕ) (subject : String) (m : Message SubmitRequest) : Prop :=
  ∃ r, (id, r) ∈ f.world.db.outbox.rows ∧ r.subject = subject ∧ r.payload = m

/-- A row once there stays, with its subject and its message. -/
theorem HasRow.step {id : ℕ} {subject : String} {m : Message SubmitRequest}
    (hr : HasRow p.fleet id subject m) (h : p.step cfg a = some p') :
    HasRow p'.fleet id subject m := by
  rcases step_fleet h with hsame | ⟨b, -, hstep⟩
  · rwa [hsame]
  · obtain ⟨r, hr, hsub, hpay⟩ := hr
    obtain ⟨r', hr', -, hsub', hpay', -⟩ := Fleet.mem_outbox_step hstep hr
    exact ⟨r', hr', hsub'.trans hsub, hpay'.trans hpay⟩

/-- Rows, relays and messages. -/
structure Published (p : Pipeline) : Prop where
  /-- A message was published from a row. -/
  msg : ∀ (seq : ℤ) (m : StreamMsg), p.stream.msg? seq = some m →
    HasRow p.fleet m.msgId m.subject m.data
  /-- What a relay holds are rows. -/
  batch : ∀ (rid : ℕ) (r : RelayRun) (e : OutboxEntry), p.relays[rid]? = some r →
    e ∈ r.pc.locked → HasRow p.fleet e.1 e.2.subject e.2.payload
  /-- What a relay holds and will not publish any more is stored. -/
  done : ∀ (rid : ℕ) (r : RelayRun) (e : OutboxEntry), p.relays[rid]? = some r →
    e ∈ r.pc.locked → e ∈ r.pc.todo ∨ p.Stored e.1
  todo : ∀ (rid : ℕ) (r : RelayRun) (e : OutboxEntry), p.relays[rid]? = some r →
    e ∈ r.pc.todo → e ∈ r.pc.locked
  /-- A marked row is stored. -/
  mark : ∀ (id : ℕ) (r : OutboxRow SubmitRequest), (id, r) ∈ p.fleet.world.db.outbox.rows →
    r.publishedAt ≠ none → p.Stored id

theorem hasRow_of_mem_select {limit : ℕ} {e : OutboxEntry} (he : e ∈ p.selectUnpublished limit) :
    HasRow p.fleet e.1 e.2.subject e.2.payload :=
  ⟨e.2, (List.mem_filter.1 (List.mem_of_mem_take he)).1, rfl, rfl⟩

/-- A publish that is answered has stored its message. -/
theorem stored_of_relay {rid : ℕ} {remembered : Bool} {r : RelayRun} {batch rest : List OutboxEntry}
    {entry : OutboxEntry} (h : p.step cfg (.relay rid .served remembered) = some p')
    (hget : p.relays[rid]? = some r) (hpc : r.pc = .publish batch entry rest) :
    p'.Stored entry.1 := by
  obtain ⟨r', pc, hget', -, -, -, -, -, -, ⟨-, -, hne⟩ | ⟨batch', entry', rest', hpc', -, hs⟩ |
    ⟨batch', hpc', -, -⟩⟩ := relay_cases h
  all_goals obtain rfl := Option.some.inj (hget'.symm.trans hget)
  · exact absurd rfl (hne (.inl ⟨batch, entry, rest, hpc⟩))
  · obtain ⟨-, rfl, -⟩ := RelayPc.publish.inj (hpc'.symm.trans hpc)
    obtain ⟨seq, m, hm, hid⟩ := WorkStream.exists_msgId_publish p.stream entry'.2.subject entry'.1
      entry'.2.payload remembered
    exact ⟨seq, m, hs ▸ hm, hid⟩
  · rw [hpc] at hpc'
    exact absurd hpc' (by simp)

/-- A message of the step was there, or has just been published from a row a relay holds. -/
theorem Published.msg_step (hp : p.Published) (h : p.step cfg a = some p') {seq : ℤ}
    {m' : StreamMsg} (hm' : p'.stream.msg? seq = some m') :
    HasRow p'.fleet m'.msgId m'.subject m'.data := by
  rcases msg_cases h hm' with ⟨m, hm, hstep⟩ |
    ⟨rid, ans, remembered, r, batch, entry, rest, -, hget, -, hpc, -, hf, rfl⟩
  · rw [hstep.msgId, hstep.subject, hstep.data]
    exact (hp.msg seq m hm).step h
  · rw [hf]
    have htodo : entry ∈ r.pc.todo := by rw [hpc]; exact List.mem_cons_self
    exact hp.batch rid r entry hget (hp.todo rid r entry hget htodo)

/-- A row a relay holds it has just selected, or held before. -/
theorem Published.batch_step (hp : p.Published) (h : p.step cfg a = some p') {rid : ℕ}
    {r' : RelayRun} {e : OutboxEntry} (hget : p'.relays[rid]? = some r') (he : e ∈ r'.pc.locked) :
    HasRow p'.fleet e.1 e.2.subject e.2.payload := by
  rcases step_relay h hget with ⟨hold, -⟩ | ⟨r, hold, -, rfl⟩ | ⟨-, rfl⟩ |
    ⟨r, ans, remembered, c, pc, rfl, hold, -, hmove, rfl⟩
  · exact (hp.batch rid r' e hold he).step h
  · exact (hp.batch rid r e hold he).step h
  · exact absurd he (by simp [RelayPc.locked])
  · have hlocked := hp.batch rid r e hold
    generalize r.pc = pc₀ at hmove hlocked
    rcases hmove with ⟨hv, applied⟩ | _ | ⟨batch, entry, rest⟩ | ⟨batch⟩
    · exact absurd he (by simp [RelayPc.locked])
    · exact (hasRow_of_mem_select (RelayPc.locked_loop _ _ ▸ he)).step h
    · exact (hlocked (RelayPc.locked_loop batch rest ▸ he)).step h
    · exact absurd he (by simp [RelayPc.locked])

/-- A row a relay holds is still to be published, or was published by it. -/
theorem Published.done_step (hp : p.Published) (h : p.step cfg a = some p') {rid : ℕ}
    {r' : RelayRun} {e : OutboxEntry} (hget : p'.relays[rid]? = some r') (he : e ∈ r'.pc.locked) :
    e ∈ r'.pc.todo ∨ p'.Stored e.1 := by
  rcases step_relay h hget with ⟨hold, -⟩ | ⟨r, hold, -, rfl⟩ | ⟨-, rfl⟩ |
    ⟨r, ans, remembered, c, pc, rfl, hold, -, hmove, rfl⟩
  · exact (hp.done rid r' e hold he).imp_right fun hs ↦ hs.step h
  · exact (hp.done rid r e hold he).imp_right fun hs ↦ hs.step h
  · exact absurd he (by simp [RelayPc.locked])
  · have hdone := hp.done rid r e hold
    have hstored : ∀ batch entry rest, r.pc = .publish batch entry rest → ans = .served →
        p'.Stored entry.1 := fun batch entry rest hpc hans ↦ by
      subst hans
      exact stored_of_relay h hold hpc
    generalize r.pc = pc₀ at hmove hdone hstored
    rcases hmove with ⟨hv, applied⟩ | _ | ⟨batch, entry, rest⟩ | ⟨batch⟩
    · exact absurd he (by simp [RelayPc.locked])
    · rw [RelayPc.locked_loop] at he
      rw [RelayPc.todo_loop]
      exact .inl he
    · rw [RelayPc.locked_loop] at he
      rw [RelayPc.todo_loop]
      rcases hdone he with htodo | hs
      · rcases List.mem_cons.1 htodo with rfl | hrest
        · exact .inr (hstored batch e rest rfl rfl)
        · exact .inl hrest
      · exact .inr (hs.step h)
    · exact absurd he (by simp [RelayPc.locked])

/-- What a relay has to publish it holds. -/
theorem Published.todo_step (hp : p.Published) (h : p.step cfg a = some p') {rid : ℕ}
    {r' : RelayRun} {e : OutboxEntry} (hget : p'.relays[rid]? = some r') (he : e ∈ r'.pc.todo) :
    e ∈ r'.pc.locked := by
  rcases step_relay h hget with ⟨hold, -⟩ | ⟨r, hold, -, rfl⟩ | ⟨-, rfl⟩ |
    ⟨r, ans, remembered, c, pc, rfl, hold, -, hmove, rfl⟩
  · exact hp.todo rid r' e hold he
  · exact hp.todo rid r e hold he
  · exact absurd he (by simp [RelayPc.todo])
  · have htodo := hp.todo rid r e hold
    generalize r.pc = pc₀ at hmove htodo
    rcases hmove with ⟨hv, applied⟩ | _ | ⟨batch, entry, rest⟩ | ⟨batch⟩
    · exact absurd he (by simp [RelayPc.todo])
    · rw [RelayPc.todo_loop] at he
      rw [RelayPc.locked_loop]
      exact he
    · rw [RelayPc.todo_loop] at he
      rw [RelayPc.locked_loop]
      exact htodo (List.mem_cons_of_mem _ he)
    · exact absurd he (by simp [RelayPc.todo])

/-- A mark is made by a relay at the end of its batch, when all of it is stored. -/
theorem Published.mark_step (hp : p.Published) (h : p.step cfg a = some p') {id : ℕ}
    {r' : OutboxRow SubmitRequest} (hr' : (id, r') ∈ p'.fleet.world.db.outbox.rows)
    (hmark : r'.publishedAt ≠ none) : p'.Stored id := by
  rcases step_fleet h with hsame | ⟨b, hb, hstep⟩
  · exact (hp.mark id r' (hsame ▸ hr') hmark).step h
  · rcases Fleet.mem_outbox_cases hstep hr' with ⟨r, hr, -, -, -, hpub | ⟨ids, rfl, hid⟩⟩ |
      ⟨-, hnone, -⟩
    · exact (hp.mark id r hr (hpub ▸ hmark)).step h
    · rcases hb with _ | _ | ⟨ans, remembered, hget, -, hpc⟩
      obtain ⟨e, he, rfl⟩ := List.mem_map.1 hid
      rcases hp.done _ _ e hget (by rw [hpc]; exact he) with htodo | hs
      · rw [hpc] at htodo
        exact absurd htodo (by simp [RelayPc.todo])
      · exact hs.step h
    · exact absurd hnone hmark

/-- **Every step keeps the link from outbox to stream.** -/
theorem Published.step (hp : p.Published) (h : p.step cfg a = some p') : p'.Published where
  msg _ _ hm' := hp.msg_step h hm'
  batch _ _ _ hget he := hp.batch_step h hget he
  done _ _ _ hget he := hp.done_step h hget he
  todo _ _ _ hget he := hp.todo_step h hget he
  mark _ _ hr' hmark := hp.mark_step h hr' hmark

theorem published_of_reachable (h : (system cfg).Reachable G p) : p.Published := by
  refine h.induct (I := Published) (fun p hp ↦ ?_) fun p a p' _ ih _ hs ↦ ih.step hs
  rw [hp]
  refine ⟨fun seq m hm ↦ ?_, ?_, ?_, ?_, ?_⟩
  · obtain ⟨n, -, hn⟩ := WorkStream.exists_of_msg? hm
    exact absurd hn (by simp [empty])
  · exact fun rid r e hget ↦ absurd hget (by simp [empty])
  · exact fun rid r e hget ↦ absurd hget (by simp [empty])
  · exact fun rid r e hget ↦ absurd hget (by simp [empty])
  · exact fun id r hr ↦ absurd hr (by simp [empty, World.empty, Database.empty])

/-- The job of a message exists, and the message carries its payload. -/
theorem job_of_msg (h : (system cfg).Reachable G p) {seq : ℤ} {m : StreamMsg}
    (hm : p.stream.msg? seq = some m) :
    ∃ row, p.fleet.world.db.job? m.data.jobId = some row ∧ row.payload = m.data.payload := by
  obtain ⟨r, hr, -, hpay⟩ := (published_of_reachable h).msg seq m hm
  obtain ⟨hjob, row, hrow, hpay'⟩ := (Fleet.outboxed_of_reachable (fleet_reachable h)).job _ r hr
  rw [← hpay, hjob]
  exact ⟨row, hrow, hpay'⟩

/-- The id of a message was drawn. -/
theorem msgId_le_last (h : (system cfg).Reachable G p) {seq : ℤ} {m : StreamMsg}
    (hm : p.stream.msg? seq = some m) : m.msgId ≤ p.fleet.world.db.outbox.last := by
  obtain ⟨r, hr, -, -⟩ := (published_of_reachable h).msg seq m hm
  exact p.fleet.world.db.outbox.le_last _ hr

/-! ### Stream to worker -/

/-- A call is for a message of the stream, which it was delivered from. -/
def Delivered (p : Pipeline) : Prop :=
  ∀ (pid : ℕ) (hc : HandleCall), p.fleet.calls[pid]? = some hc →
    ∃ m, p.stream.msg? hc.delivery.seq = some m ∧ hc.delivery.jobId = m.data.jobId ∧
      hc.delivery.payload = m.data.payload ∧ hc.delivery.attempt ≤ m.delivered

/-- A call of the state after a step was there before, or begins by a delivery. -/
theorem delivery_cases (h : p.step cfg a = some p') {pid : ℕ} {hc' : HandleCall}
    (hget : p'.fleet.calls[pid]? = some hc') :
    (∃ hc, p.fleet.calls[pid]? = some hc ∧ hc'.delivery = hc.delivery) ∨
    ∃ n workerId m, a = .deliver n workerId ∧ p.stream.stored? n = some m ∧
      m.delivered < cfg.maxDeliver ∧
      hc' = HandleCall.begin (delivery n workerId m) p.fleet.world.now := by
  rcases step_fleet h with hsame | ⟨b, hb, hstep⟩
  · exact .inl ⟨hc', hsame ▸ hget, rfl⟩
  · rcases Fleet.step_call hstep hget with ⟨hget₀, -⟩ | ⟨hc, hget₀, -, rfl⟩ | ⟨-, d, rfl, rfl⟩ |
      ⟨hc, ans, c, pc, -, hget₀, -, -, -, rfl⟩
    · exact .inl ⟨hc', hget₀, rfl⟩
    · exact .inl ⟨hc, hget₀, rfl⟩
    · rcases hb with _ | _ | _ | ⟨workerId, hm, hlt⟩
      exact .inr ⟨_, workerId, _, rfl, hm, hlt, rfl⟩
    · exact .inl ⟨hc, hget₀, rfl⟩

theorem delivered_of_reachable (h : (system cfg).Reachable G p) : p.Delivered := by
  refine h.induct (I := Delivered) (fun p hp ↦ ?_) fun p a p' _ ih _ hs ↦ ?_
  · rw [hp]
    exact fun pid hc hget ↦ absurd hget (by simp [empty])
  · intro pid hc' hget
    rcases delivery_cases hs hget with ⟨hc, hget₀, hd⟩ | ⟨n, workerId, m, rfl, hm, -, rfl⟩
    · obtain ⟨m, hm, hjob, hpay, hatt⟩ := ih pid hc hget₀
      obtain ⟨m', hm', hstep⟩ := step_msg hs hm
      rw [hd, ← hstep.data] at *
      exact ⟨m', hm', hjob, hpay, hatt.trans hstep.delivered_le⟩
    · obtain ⟨m₀, f, -, -, -, rfl⟩ := deliver_eq_some hs
      refine ⟨{ m with delivered := m.delivered + 1, outstanding := some p.fleet.world.now },
        ?_, rfl, rfl, le_rfl⟩
      show (p.stream.update n _).msg? n = _
      rw [WorkStream.msg?_update, (WorkStream.stored?_eq_some.1 hm).1, Option.map_some, if_pos rfl]

/-! ### Stream to listener -/

/-- Advisories, messages and the listeners at work. -/
structure Advised (cfg : Settings) (p : Pipeline) : Prop where
  /-- A message the broker gave up on has been delivered to the limit, and the advisory says so. -/
  exhausted : ∀ (n : ℕ) (m : StreamMsg) (aid : ℕ), p.stream.msg? n = some m →
    m.advisory = some aid → cfg.maxDeliver ≤ m.delivered ∧
      ∃ x, p.advisories[aid]? = some x ∧ x.raw = brokerAdvisory cfg n m.delivered
  /-- A listener works on a stored advisory, and on what it parses to. -/
  run : ∀ (qid : ℕ) (q : QuarantineRun), p.quarantines[qid]? = some q →
    ∃ x, p.advisories[q.advisory]? = some x ∧
      ∀ adv, q.pc.adv? = some adv → parseAdvisory x.raw = .ok (some adv)
  /-- What it has fetched is the message with that sequence number. -/
  fetched : ∀ (qid : ℕ) (q : QuarantineRun) (adv : MaxDeliveriesAdvisory)
    (raw : Message SubmitRequest), p.quarantines[qid]? = some q → q.pc.adv? = some adv →
    q.pc.raw? = some raw → ∃ m, p.stream.msg? adv.streamSeq = some m ∧ m.data = raw

theorem QuarantineMove.adv? {pc pc' : QuarantinePc} {c : ListenerCall} {ans : Answer}
    {reply : Except ListenerExc c.Resp} (h : QuarantineMove p pc c ans reply pc')
    {adv : MaxDeliveriesAdvisory} (hadv : pc'.adv? = some adv) : pc.adv? = some adv := by
  cases h <;> first | exact hadv | exact absurd hadv (by simp [QuarantinePc.adv?])

/-- A listener keeps the message it was given, or has just been given it. -/
theorem QuarantineMove.raw? {pc pc' : QuarantinePc} {c : ListenerCall} {ans : Answer}
    {reply : Except ListenerExc c.Resp} (h : QuarantineMove p pc c ans reply pc')
    {adv : MaxDeliveriesAdvisory} {raw : Message SubmitRequest} (hadv : pc'.adv? = some adv)
    (hraw : pc'.raw? = some raw) :
    pc.raw? = some raw ∨ ∃ m, p.stream.stored? adv.streamSeq = some m ∧ m.data = raw := by
  cases h with
  | @fetched adv' m hm =>
    obtain rfl := Option.some.inj hadv
    exact .inr ⟨m, hm, Option.some.inj hraw⟩
  | _ => first | exact .inl hraw | exact absurd hraw (by simp [QuarantinePc.raw?])

/-- A listener begins with what the parser returned. -/
theorem adv?_start {raw : Loaded} {adv : MaxDeliveriesAdvisory}
    (h : (QuarantinePc.start raw).adv? = some adv) : parseAdvisory raw = .ok (some adv) := by
  rw [QuarantinePc.start] at h
  split at h
  · exact absurd h (by simp [QuarantinePc.adv?])
  · exact absurd h (by simp [QuarantinePc.adv?])
  · next adv' hadv => rw [hadv, Option.some.inj h]

theorem raw?_start (raw : Loaded) : (QuarantinePc.start raw).raw? = none := by
  rw [QuarantinePc.start]
  split <;> rfl

theorem start_ne_delete (raw : Loaded) (adv : MaxDeliveriesAdvisory)
    (data : Message SubmitRequest) : QuarantinePc.start raw ≠ .delete adv data := by
  intro h
  have hraw := raw?_start raw
  rw [h] at hraw
  exact nomatch hraw

/-- What a listener has fetched after a step was there before it. -/
theorem Advised.fetched_before (hp : p.Advised cfg) (h : p.step cfg a = some p') {qid : ℕ}
    {q' : QuarantineRun} {adv : MaxDeliveriesAdvisory} {raw : Message SubmitRequest}
    (hget : p'.quarantines[qid]? = some q') (hadv : q'.pc.adv? = some adv)
    (hraw : q'.pc.raw? = some raw) :
    ∃ m, p.stream.msg? adv.streamSeq = some m ∧ m.data = raw := by
  rcases step_quarantine h hget with ⟨hold, -⟩ | ⟨q, hold, -, rfl⟩ |
    ⟨aid, x, rfl, hx, -, rfl⟩ | ⟨q, ans, remembered, c, reply, pc, rfl, hold, -, hmove, rfl⟩
  · exact hp.fetched qid q' adv raw hold hadv hraw
  · exact hp.fetched qid q adv raw hold hadv hraw
  · rw [raw?_start] at hraw
    exact absurd hraw (by simp)
  · rcases QuarantineMove.raw? hmove hadv hraw with hraw₀ | ⟨m, hm, hdata⟩
    · exact hp.fetched qid q adv raw hold (QuarantineMove.adv? hmove hadv) hraw₀
    · exact ⟨m, (WorkStream.stored?_eq_some.1 hm).1, hdata⟩

/-- **Every step keeps the link from stream to listener.** -/
theorem Advised.step (hp : p.Advised cfg) (h : p.step cfg a = some p') : p'.Advised cfg where
  exhausted n m' aid hm' haid := by
    rcases msg_cases h hm' with ⟨m, hm, hstep⟩ |
      ⟨rid, ans, remembered, r, batch, entry, rest, -, -, -, -, -, -, rfl⟩
    · rcases hstep.advisory_cases haid with ⟨hold, hdel⟩ | ⟨k, rfl, hk, hle, rfl, hdel⟩
      · obtain ⟨hle, x, hx, hraw⟩ := hp.exhausted n m aid hm hold
        obtain ⟨x', hx', hraw', -⟩ := step_advisory h hx
        rcases hdel with hdel | hlt
        · rw [hdel]
          exact ⟨hle, x', hx', hraw'.trans hraw⟩
        · exact absurd hle (not_le.2 hlt)
      · obtain rfl := Int.ofNat.inj hk
        obtain ⟨m₀, hm₀, -, -, rfl⟩ := exhaust_eq_some h
        obtain rfl := Option.some.inj ((WorkStream.stored?_eq_some.1 hm₀).1.symm.trans hm)
        rw [hdel]
        exact ⟨hle, _, List.getElem?_concat_length, rfl⟩
    · exact absurd haid (by simp)
  run qid q' hget := by
    rcases step_quarantine h hget with ⟨hold, -⟩ | ⟨q, hold, -, rfl⟩ |
      ⟨aid, x, rfl, hx, -, rfl⟩ | ⟨q, ans, remembered, c, reply, pc, rfl, hold, -, hmove, rfl⟩
    · obtain ⟨x, hx, hadv⟩ := hp.run qid q' hold
      obtain ⟨x', hx', hraw, -⟩ := step_advisory h hx
      exact ⟨x', hx', hraw ▸ hadv⟩
    · obtain ⟨x, hx, hadv⟩ := hp.run qid q hold
      obtain ⟨x', hx', hraw, -⟩ := step_advisory h hx
      exact ⟨x', hx', hraw ▸ hadv⟩
    · obtain ⟨x', hx', hraw, -⟩ := step_advisory h hx
      exact ⟨x', hx', fun adv hadv ↦ hraw ▸ adv?_start hadv⟩
    · obtain ⟨x, hx, hadv⟩ := hp.run qid q hold
      obtain ⟨x', hx', hraw, -⟩ := step_advisory h hx
      exact ⟨x', hx', fun adv h' ↦ hraw ▸ hadv adv (QuarantineMove.adv? hmove h')⟩
  fetched qid q' adv raw hget hadv hraw := by
    obtain ⟨m, hm, hdata⟩ := hp.fetched_before h hget hadv hraw
    obtain ⟨m', hm', hstep⟩ := step_msg h hm
    exact ⟨m', hm', hstep.data.trans hdata⟩

theorem advised_of_reachable (h : (system cfg).Reachable G p) : p.Advised cfg := by
  refine h.induct (I := Advised cfg) (fun p hp ↦ ?_) fun p a p' _ ih _ hs ↦ ih.step hs
  rw [hp]
  refine ⟨fun n m aid hm ↦ ?_, ?_, ?_⟩
  · obtain ⟨k, -, hk⟩ := WorkStream.exists_of_msg? hm
    exact absurd hk (by simp [empty])
  · exact fun qid q hget ↦ absurd hget (by simp [empty])
  · exact fun qid q adv raw hget ↦ absurd hget (by simp [empty])

/-! ### A run -/

/-- A payload that kills its worker. -/
def poisonous : SubmitRequest :=
  { SubmitRequest.healthy 10 ten_le_limit with poison := true }

/-- A poison job, delivered to its limit, and the broker's giving up. -/
def exhaustsPoison : List PipelineStep :=
  [.submit ⟨0⟩ "k" poisonous [], .beginRelay, .relay 0 .served true, .relay 0 .served true,
    .relay 0 .served true, .deliver 1 "a", .handle 0 .served, .deliver 1 "a", .handle 1 .served,
    .deliver 1 "b", .handle 2 .served, .deliver 1 "b", .die 3, .deliver 1 "c", .handle 4 .served,
    .exhaust 1]

end Pipeline

end Orbiter
