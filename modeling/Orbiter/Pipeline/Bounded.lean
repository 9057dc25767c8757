import Orbiter.Fleet.Executions
import Orbiter.Pipeline.Invariants

/-!
# Executions are bounded

With a broker that remembers every message id, an outbox row becomes at most one message however
often it is published. A delivery is then named by its row and the number of the delivery, and no
two calls have the same name. So a job has at most `max_deliver` calls for each of its outbox rows,
and each of them records `started` at most once.

* `deduplicates` — the assumption, on the publishes of relays;
* `seq_eq_of_msgId_eq` — under it, one message for each row;
* `delivered_le_maxDeliver`, `attempt_pos` — a delivery is numbered from one to `max_deliver`,
  without any assumption;
* `nodup_origin`, `origin_mem` — so the names of the calls are among `max_deliver` for each row of
  their job, and none occurs twice;
* `executions_bounded` — **a job is started at most `max_deliver` times for its submission and for
  each of its replays.**
-/

namespace Orbiter

namespace Pipeline

variable {cfg : Settings} {p p' : Pipeline} {a : PipelineStep}

/-- The broker drops every repeat of a message id. -/
def deduplicates (_ : Pipeline) : PipelineStep → Bool
  | .relay _ _ remembered => remembered
  | _ => true

/-- A message that is new to the stream has a new id. -/
theorem msgId_ne_of_new {rid : ℕ} {ans : Answer} {r : RelayRun} {batch rest : List OutboxEntry}
    {entry : OutboxEntry} (h : p.step cfg (.relay rid ans true) = some p')
    (hget : p.relays[rid]? = some r) (hpc : r.pc = .publish batch entry rest) {m' : StreamMsg}
    (hnew : p'.stream.msg? ((p.stream.length + 1 : ℕ) : ℤ) = some m') {seq : ℤ} {m : StreamMsg}
    (hm : p.stream.msg? seq = some m) : m.msgId ≠ entry.1 := by
  intro hid
  -- The publish found the id, so the stream stayed as it was and has no further message.
  have hsame : p'.stream = p.stream := by
    obtain ⟨r', pc, hget', -, -, -, -, -, -, ⟨-, hs, -⟩ | ⟨batch', entry', rest', hpc', -, hs⟩ |
      ⟨batch', -, hs, -⟩⟩ := relay_cases h
    · exact hs
    · obtain rfl := Option.some.inj (hget'.symm.trans hget)
      obtain ⟨-, rfl, -⟩ := RelayPc.publish.inj (hpc'.symm.trans hpc)
      obtain ⟨n, -, hn⟩ := WorkStream.exists_of_msg? hm
      rw [hs, WorkStream.publish, if_pos]
      simp only [Bool.true_and, List.any_eq_true, decide_eq_true_eq]
      exact ⟨m, List.mem_of_getElem? hn, hid⟩
    · exact hs
  rw [hsame] at hnew
  have hlen := List.lt_length_of_getElem? (show p.stream[p.stream.length]? = some m' from hnew)
  exact absurd hlen (Nat.lt_irrefl _)

/-- **One message for each outbox row.** -/
theorem seq_eq_of_msgId_eq (h : (system cfg).Reachable (fun p a ↦ p.deduplicates a = true) p)
    {seq seq' : ℤ} {m m' : StreamMsg} (hm : p.stream.msg? seq = some m)
    (hm' : p.stream.msg? seq' = some m') (hid : m.msgId = m'.msgId) : seq = seq' := by
  refine h.induct (I := fun p ↦ ∀ (seq seq' : ℤ) (m m' : StreamMsg), p.stream.msg? seq = some m →
    p.stream.msg? seq' = some m' → m.msgId = m'.msgId → seq = seq') (fun p hp ↦ ?_)
    (fun p a p' _ ih hg (hs : p.step cfg a = some p') ↦ ?_) seq seq' m m' hm hm' hid
  · rw [hp]
    intro seq seq' m m' hm
    obtain ⟨n, -, hn⟩ := WorkStream.exists_of_msg? hm
    exact absurd hn (by simp [empty])
  · intro seq seq' m₁ m₁' hm₁ hm₁' hid
    rcases msg_cases hs hm₁ with ⟨m, hm, hstep⟩ |
      ⟨rid, ans, remembered, r, batch, entry, rest, rfl, hget, -, hpc, hseq, -, rfl⟩
    · rcases msg_cases hs hm₁' with ⟨m', hm', hstep'⟩ |
        ⟨rid, ans, remembered, r, batch, entry, rest, rfl, hget, -, hpc, rfl, -, rfl⟩
      · exact ih seq seq' m m' hm hm' (hstep.msgId.symm.trans (hid.trans hstep'.msgId))
      · obtain rfl : remembered = true := hg
        exact absurd (hstep.msgId.symm.trans hid) (msgId_ne_of_new hs hget hpc hm₁' hm)
    · rcases msg_cases hs hm₁' with ⟨m', hm', hstep'⟩ |
        ⟨rid', ans', remembered', r', batch', entry', rest', -, -, -, -, hseq', -, -⟩
      · obtain rfl : remembered = true := hg
        subst hseq
        exact absurd (hstep'.msgId.symm.trans hid.symm) (msgId_ne_of_new hs hget hpc hm₁ hm')
      · exact hseq.trans hseq'.symm

/-! ### Deliveries -/

/-- A message is delivered at most `max_deliver` times. -/
theorem delivered_le_maxDeliver {G : Pipeline → PipelineStep → Prop}
    (h : (system cfg).Reachable G p) {seq : ℤ} {m : StreamMsg}
    (hm : p.stream.msg? seq = some m) : m.delivered ≤ cfg.maxDeliver := by
  refine h.induct (I := fun p ↦ ∀ (seq : ℤ) (m : StreamMsg), p.stream.msg? seq = some m →
    m.delivered ≤ cfg.maxDeliver) (fun p hp ↦ ?_)
    (fun p a p' _ ih _ (hs : p.step cfg a = some p') ↦ ?_) seq m hm
  · rw [hp]
    intro seq m hm
    obtain ⟨n, -, hn⟩ := WorkStream.exists_of_msg? hm
    exact absurd hn (by simp [empty])
  · intro seq m' hm'
    rcases msg_cases hs hm' with ⟨m, hm, hstep⟩ | ⟨-, -, -, -, -, -, -, -, -, -, -, -, -, rfl⟩
    · have hold := ih seq m hm
      cases hstep with
      | delivered _ hseq hpresent hlt | missed hseq hpresent hlt => exact hlt
      | same | consumed | refused | deleted | exhausted => exact hold
    · exact Nat.zero_le _

/-- Every call was given a delivery of a message of its job. -/
theorem exists_msg_of_mem {G : Pipeline → PipelineStep → Prop} (h : (system cfg).Reachable G p)
    {d : Delivery} (hd : d ∈ p.fleet.deliveries) :
    ∃ m, p.stream.msg? d.seq = some m ∧ d.jobId = m.data.jobId ∧ d.attempt ≤ m.delivered := by
  obtain ⟨hc, hmem, rfl⟩ := List.mem_map.1 hd
  obtain ⟨pid, hget⟩ := List.mem_iff_getElem?.1 hmem
  obtain ⟨m, hm, hjob, -, hle⟩ := delivered_of_reachable h pid hc hget
  exact ⟨m, hm, hjob, hle⟩

/-- What the calls of a state are for was delivered before, or just now. -/
theorem deliveries_cases (h : p.step cfg a = some p') :
    p'.fleet.deliveries = p.fleet.deliveries ∨
    ∃ (n : ℕ) (workerId : String) (m : StreamMsg), p.stream.stored? n = some m ∧
      p'.fleet.deliveries = p.fleet.deliveries ++ [delivery n workerId m] := by
  rcases step_fleet h with hsame | ⟨b, hb, hstep⟩
  · rw [hsame]
    exact .inl rfl
  · rcases Fleet.deliveries_step hstep with ⟨hdel, -⟩ | ⟨d, rfl, hdel⟩
    · exact .inl hdel
    · rcases hb with _ | _ | _ | ⟨workerId, hm, -⟩
      exact .inr ⟨_, workerId, _, hm, hdel⟩

/-- The numbers of the deliveries begin at one. -/
theorem attempt_pos {G : Pipeline → PipelineStep → Prop} (h : (system cfg).Reachable G p)
    {d : Delivery} (hd : d ∈ p.fleet.deliveries) : 0 < d.attempt := by
  refine h.induct (I := fun p ↦ ∀ d ∈ p.fleet.deliveries, 0 < d.attempt) (fun p hp ↦ ?_)
    (fun p a p' _ ih _ (hs : p.step cfg a = some p') ↦ ?_) d hd
  · rw [hp]
    exact fun d hd ↦ absurd hd List.not_mem_nil
  · intro d hd
    rcases deliveries_cases hs with hdel | ⟨n, workerId, m, -, hdel⟩
    · exact ih d (hdel ▸ hd)
    · rw [hdel] at hd
      rcases List.mem_append.1 hd with hold | hnew
      · exact ih d hold
      · rw [List.mem_singleton.1 hnew]
        exact Nat.succ_pos _

/-- No delivery is made twice: its message and its number tell it from the others. -/
theorem nodup_deliveries {G : Pipeline → PipelineStep → Prop} (h : (system cfg).Reachable G p) :
    (p.fleet.deliveries.map fun d ↦ (d.seq, d.attempt)).Nodup := by
  refine h.induct (I := fun p ↦ (p.fleet.deliveries.map fun d ↦ (d.seq, d.attempt)).Nodup)
    (fun p hp ↦ ?_) fun p a p' hr ih _ (hs : p.step cfg a = some p') ↦ ?_
  · rw [hp]
    exact List.nodup_nil
  · rcases deliveries_cases hs with hdel | ⟨n, workerId, m, hm, hdel⟩
    · rwa [hdel]
    · rw [hdel, List.map_append]
      refine List.nodup_append.2 ⟨ih, List.nodup_singleton _, ?_⟩
      intro x hx y hy heq
      obtain ⟨d, hd, rfl⟩ := List.mem_map.1 hx
      obtain ⟨hseq, hatt⟩ := Prod.mk.inj (heq.trans (List.mem_singleton.1 hy))
      -- The number just given is larger than that of every call for the same message.
      obtain ⟨m', hm', -, hle⟩ := exists_msg_of_mem hr hd
      rw [hseq] at hm'
      obtain rfl := Option.some.inj (hm'.symm.trans (WorkStream.stored?_eq_some.1 hm).1)
      exact absurd hatt (Nat.ne_of_lt (Nat.lt_succ_of_le hle))

/-! ### Deliveries and outbox rows -/

/-- The outbox row a delivery goes back to, and the number of the delivery. -/
def origin (p : Pipeline) (d : Delivery) : ℕ × ℕ :=
  (((p.stream.msg? d.seq).map StreamMsg.msgId).getD 0, d.attempt)

theorem origin_eq {d : Delivery} {m : StreamMsg} (hm : p.stream.msg? d.seq = some m) :
    p.origin d = (m.msgId, d.attempt) := by
  rw [origin, hm]
  rfl

/-- **No two calls have one name.** -/
theorem nodup_origin (h : (system cfg).Reachable (fun p a ↦ p.deduplicates a = true) p) :
    (p.fleet.deliveries.map p.origin).Nodup := by
  have hnodup := nodup_deliveries h
  refine List.Nodup.map_on (fun d hd d' hd' heq ↦ ?_) (List.Nodup.of_map _ hnodup)
  obtain ⟨m, hm, -, -⟩ := exists_msg_of_mem h hd
  obtain ⟨m', hm', -, -⟩ := exists_msg_of_mem h hd'
  rw [origin_eq hm, origin_eq hm'] at heq
  obtain ⟨hid, hatt⟩ := Prod.mk.inj heq
  have hseq : d.seq = d'.seq := Int.ofNat_inj.1 (seq_eq_of_msgId_eq h hm hm' hid)
  exact List.inj_on_of_nodup_map hnodup hd hd' (Prod.ext hseq hatt)

/-- Every delivery for a job goes back to an outbox row of the job. -/
theorem origin_mem {G : Pipeline → PipelineStep → Prop} (h : (system cfg).Reachable G p)
    {d : Delivery} (hd : d ∈ p.fleet.deliveries) :
    p.origin d ∈ (p.fleet.world.db.outboxRows d.jobId).map Prod.fst ×ˢ
      List.range' 1 cfg.maxDeliver := by
  obtain ⟨m, hm, hjob, hle⟩ := exists_msg_of_mem h hd
  obtain ⟨r, hr, -, hpay⟩ := (published_of_reachable h).msg d.seq m hm
  have hrj : r.jobId = d.jobId := by
    rw [← ((Fleet.outboxed_of_reachable (fleet_reachable h)).job _ r hr).1, hpay, hjob]
  rw [origin_eq hm]
  refine List.mem_product.2 ⟨List.mem_map.2 ⟨(m.msgId, r), ?_, rfl⟩, List.mem_range'_1.2 ?_⟩
  · exact List.mem_filter.2 ⟨hr, decide_eq_true hrj⟩
  · have hmax := delivered_le_maxDeliver h hm
    have hpos := attempt_pos h hd
    omega

/-- **A job has at most `max_deliver` deliveries for each of its outbox rows.** -/
theorem deliveries_le (h : (system cfg).Reachable (fun p a ↦ p.deduplicates a = true) p)
    (j : Uuid) : (p.fleet.deliveries.filter fun d ↦ d.jobId = j).length ≤
      (p.fleet.world.db.outboxRows j).length * cfg.maxDeliver := by
  have hnodup : ((p.fleet.deliveries.filter fun d ↦ d.jobId = j).map p.origin).Nodup :=
    (nodup_origin h).sublist (List.filter_sublist.map _)
  have hsub : (p.fleet.deliveries.filter fun d ↦ d.jobId = j).map p.origin ⊆
      (p.fleet.world.db.outboxRows j).map Prod.fst ×ˢ List.range' 1 cfg.maxDeliver := by
    intro x hx
    obtain ⟨d, hd, rfl⟩ := List.mem_map.1 hx
    obtain ⟨hmem, hj⟩ := List.mem_filter.1 hd
    exact of_decide_eq_true hj ▸ origin_mem h hmem
  calc (p.fleet.deliveries.filter fun d ↦ d.jobId = j).length
      = ((p.fleet.deliveries.filter fun d ↦ d.jobId = j).map p.origin).length :=
        (List.length_map _).symm
    _ ≤ ((p.fleet.world.db.outboxRows j).map Prod.fst ×ˢ List.range' 1 cfg.maxDeliver).length :=
        (hnodup.subperm hsub).length_le
    _ = (p.fleet.world.db.outboxRows j).length * cfg.maxDeliver := by
        rw [List.length_product, List.length_map, List.length_range']

/-- **Executions are bounded.** In every run of the pipeline whose broker drops repeats of a message
id, whoever dies, gives back, stands down, is quarantined or replayed: a job is started at most
`max_deliver` times for its submission and for each of its replays, it fails only at the delivery
limit, and is requeued only below it. -/
theorem executions_bounded (h : (system cfg).Reachable (fun p a ↦ p.deduplicates a = true) p)
    (j : Uuid) :
    (p.fleet.world.db.log j).count .started ≤
      cfg.maxDeliver * (1 + (p.fleet.world.db.log j).count .replayed) ∧
    ∀ id e, (id, e) ∈ p.fleet.world.db.eventRows j →
      (e.event = .failed → (cfg.maxDeliver : ℤ) ≤ e.attempt) ∧
      (e.event = .requeued → e.attempt < (cfg.maxDeliver : ℤ)) := by
  have hf := fleet_reachable h
  refine ⟨?_, fun id e he ↦ Fleet.attempts_of_reachable hf he⟩
  calc (p.fleet.world.db.log j).count .started
      ≤ p.fleet.startedCalls j := Fleet.started_le_calls hf j
    _ ≤ (p.fleet.deliveries.filter fun d ↦ d.jobId = j).length :=
        p.fleet.startedCalls_le_deliveries j
    _ ≤ (p.fleet.world.db.outboxRows j).length * cfg.maxDeliver := deliveries_le h j
    _ ≤ (1 + (p.fleet.world.db.log j).count .replayed) * cfg.maxDeliver :=
        Nat.mul_le_mul_right _ (Fleet.outboxRows_le hf j)
    _ = cfg.maxDeliver * (1 + (p.fleet.world.db.log j).count .replayed) := Nat.mul_comm ..

/-- A relay publishes and dies, another publishes the same row again; the job fails on each of the
two deliveries it has. -/
def republishedAndFailed : List PipelineStep :=
  let handles (pid : ℕ) (draw : ℚ) : List PipelineStep :=
    List.replicate 5 (.handle pid .served) ++ [.handle pid (.executed draw 10)] ++
      List.replicate 4 (.handle pid .served)
  [.submit ⟨0⟩ "k" (.failing 10 ten_le_limit) [], .beginRelay, .relay 0 .served true,
    .relay 0 .served true, .killRelay 0, .beginRelay, .relay 1 .served true, .relay 1 .served true,
    .relay 1 .served true, .deliver 1 "a"] ++ handles 0 0 ++ [.deliver 1 "b"] ++ handles 1 0

/-- A row is published twice and becomes one message, which fails at its second delivery of two. -/
theorem executions_bounded_of_failed : ∃ p : Pipeline,
    (system { maxDeliver := 2 }).Reachable (fun p a ↦ p.deduplicates a = true) p ∧
    p.fleet.world.db.log ⟨0⟩ = [.submitted, .enqueued, .started, .requeued, .started, .failed] ∧
    (p.fleet.world.db.log ⟨0⟩).count .started ≤
      2 * (1 + (p.fleet.world.db.log ⟨0⟩).count .replayed) := by
  have hrun : ((system { maxDeliver := 2 }).execGuarded deduplicates empty
      republishedAndFailed).any (fun p ↦ decide (p.fleet.world.db.log ⟨0⟩ =
        [.submitted, .enqueued, .started, .requeued, .started, .failed])) = true := by
    rfl
  obtain ⟨p, hl, hlog⟩ := TransitionSystem.exists_leads_of_execGuarded (fun _ _ hg ↦ hg) hrun
  have hr : (system { maxDeliver := 2 }).Reachable (fun p a ↦ p.deduplicates a = true) p :=
    ⟨_, rfl, hl⟩
  exact ⟨p, hr, of_decide_eq_true hlog, (executions_bounded hr ⟨0⟩).1⟩

end Pipeline

end Orbiter
