import Orbiter.Pipeline.Backlog
import Orbiter.Pipeline.Tending

/-!
# The system recovers

Whatever happened — processes dead at any point, calls that failed before or after they took effect,
rows published twice, messages at their limit, claims and leases of the dead still standing — the
system by itself can bring everything to an end: every row published, no message left, every job at
rest, and each job that can succeed succeeded. The run so far has to be orderly in the sense of
`Pipeline.Stranded`: no step after the lease has run out, no failed call inside a quarantine, no
lease lost by the store. "By itself" is the guard `Unaided`: nobody submits or replays, and from
here on nothing fails, dies or is lost.

## The three parts of the run

* `outbox_drains`, from `Pipeline.Backlog` — relays drain the outbox. They write to no job
  (`job?_of_byRelays`);
* `all_succeed` — then each open job that can succeed and whose newest message has a delivery left
  is worked off, one job after the other. That the work on one job leaves the next one ready
  (`Ready.step`) rests on `Touches`, and that a job which succeeded cannot be undone by what comes
  after on the finality of outcomes (`done_step`);
* `all_removed` — only then are the messages that remain worked off, in any order: an old message of
  a job, left over from before a replay, can dead-letter the job, so a job that can succeed has to
  do so first.

`drains` composes them, and `recovers` is what the state at the end is worth: with no message left
and every row published, an open job would be stranded.
-/

namespace Orbiter

/-- Some execution of the job succeeds, and its message kills nobody. -/
def SubmitRequest.CanSucceed (r : SubmitRequest) : Prop := r.poison = false ∧ r.failureRate < 1

namespace Pipeline

variable {cfg : Settings} {p p' : Pipeline} {a : PipelineStep} {seq : ℕ} {j : Uuid}

/-- An orderly step, with no help from outside and no hindrance. -/
def Unaided (cfg : Settings) (p : Pipeline) (a : PipelineStep) : Prop :=
  Orderly cfg p a ∧ a.unaided = true

/-- Every row is published and no message is left. -/
structure Drained (p : Pipeline) : Prop where
  published : p.AllPublished
  removed : ∀ (seq : ℤ) (m : StreamMsg), p.stream.msg? seq = some m → m.present = false

/-- The message was published from the newest row of its job. -/
def Newest (p : Pipeline) (m : StreamMsg) : Prop :=
  ∀ (id : ℕ) (r : OutboxRow SubmitRequest), (id, r) ∈ p.fleet.world.db.outbox.rows →
    r.jobId = m.data.jobId → id ≤ m.msgId

/-- The newest row of the job was published, and a message of it is at its limit. -/
def Spent (cfg : Settings) (p : Pipeline) (j : Uuid) : Prop :=
  ∃ (seq : ℤ) (m : StreamMsg), p.stream.msg? seq = some m ∧ m.data.jobId = j ∧
    cfg.maxDeliver ≤ m.delivered ∧ p.Newest m

/-! ### What unaided steps keep -/

theorem AllPublished.step (hp : p.AllPublished) (ha : a.unaided = true)
    (h : p.step cfg a = some p') : p'.AllPublished := by
  intro id r' hr'
  rcases outbox_of_unaided ha h with hsame | ⟨ids, hw⟩
  · exact hp id r' (hsame ▸ hr')
  · rw [hw] at hr'
    obtain ⟨⟨id₀, r⟩, hr, heq⟩ := List.mem_map.1 hr'
    obtain ⟨rfl, rfl⟩ := Prod.mk.inj heq
    dsimp only
    split
    · exact Option.some_ne_none _
    · exact hp _ r hr

/-- A job at rest is left alone. -/
theorem settled_row (ha : a.unaided = true) (h : p.step cfg a = some p')
    {row : JobRow SubmitRequest} (hrow : p.fleet.world.db.job? j = some row)
    (hs : row.state.isSettled = true) : p'.fleet.world.db.job? j = some row := by
  rcases step_fleet h with hsame | ⟨b, hb, hstep⟩
  · rwa [hsame]
  · rcases Fleet.jobStep hstep j with ⟨hjob, -, -⟩ | ⟨who, key, payload, id, id', habs, -, -, -⟩ |
      ⟨who, w, row₀, next, id, hmade, hid, hrow₀, hnext, -, -, -, -⟩
    · exact hjob.trans hrow
    · exact nomatch habs.symm.trans hrow
    · obtain rfl := Option.some.inj (hrow.symm.trans hrow₀)
      -- Only a replay is legal there, and nobody replays.
      obtain ⟨-, hev⟩ := deadLetter_of_settled_transitions hs hnext
      obtain rfl := Fleet.replay_of_makes hmade hev
      cases hb
      exact nomatch ha

theorem done_step (h : p.step cfg a = some p') (hd : p.fleet.world.Done j) :
    p'.fleet.world.Done j := by
  obtain ⟨row, hrow, hs⟩ := hd
  rcases step_fleet h with hsame | ⟨b, -, hstep⟩
  · exact ⟨row, hsame ▸ hrow, hs⟩
  · exact ⟨row, (Fleet.unchanged_of_terminal hstep hrow (by rw [hs]; rfl)).1, hs⟩

/-- A job stays, with its payload. -/
theorem payload_step (h : p.step cfg a = some p') {payload : SubmitRequest}
    (hj : ∃ row, p.fleet.world.db.job? j = some row ∧ row.payload = payload) :
    ∃ row, p'.fleet.world.db.job? j = some row ∧ row.payload = payload := by
  obtain ⟨row, hrow, hpay⟩ := hj
  rcases step_fleet h with hsame | ⟨b, -, hstep⟩
  · exact ⟨row, hsame ▸ hrow, hpay⟩
  · obtain ⟨row', hrow', hpay'⟩ := Fleet.payload_step hstep hrow
    exact ⟨row', hrow', hpay'.trans hpay⟩

/-! ### The message of a job -/

/-- When every row is published, the newest of a job has a message. -/
theorem exists_newest (hr : (system cfg).Reachable (Orderly cfg) p) (hp : p.AllPublished)
    {row : JobRow SubmitRequest} (hj : p.fleet.world.db.job? j = some row) :
    ∃ (n : ℕ) (m : StreamMsg), p.stream.msg? n = some m ∧ m.data.jobId = j ∧ p.Newest m := by
  have hout := Fleet.outboxed_of_reachable (fleet_reachable hr)
  obtain ⟨id, r, hrow, hrj, hnewest⟩ := hout.exists_newest hj
  obtain ⟨seq, m, hm, rfl⟩ := (published_of_reachable hr).mark id r hrow (hp id r hrow)
  obtain ⟨n, rfl, -⟩ := WorkStream.exists_of_msg? hm
  have hmj : m.data.jobId = j := by
    obtain ⟨r', hr', -, hdata⟩ := (published_of_reachable hr).msg _ m hm
    have heq := p.fleet.world.db.outbox.eq_of_mem_rows hr' hrow rfl
    rw [← hdata, (Prod.mk.inj heq).2, (hout.job _ r hrow).1, hrj]
  exact ⟨n + 1, m, hm, hmj, fun id' r' hr' hjob' ↦ hnewest id' r' hr' (hjob'.trans hmj)⟩

/-- Once it is removed, the job is at rest. -/
theorem settled_of_removed (hr : (system cfg).Reachable (Orderly cfg) p) {m : StreamMsg}
    (hm : p.stream.msg? seq = some m) (hnew : p.Newest m) (hgone : m.present = false) :
    ∃ row, p.fleet.world.db.job? m.data.jobId = some row ∧ row.state.isSettled = true := by
  rcases (givenUp_of_reachable hr).removed _ m hm hgone with hset | ⟨id', r', hr', hjob', hlt⟩
  · exact hset
  · exact absurd (hnew id' r' hr' hjob') (not_le.2 hlt)

/-- **When everything is drained, every job is at rest.** -/
theorem Drained.settled (hp : p.Drained) (hr : (system cfg).Reachable (Orderly cfg) p)
    {row : JobRow SubmitRequest} (hj : p.fleet.world.db.job? j = some row) :
    row.state.isSettled = true := by
  obtain ⟨n, m, hm, rfl, hnew⟩ := exists_newest hr hp.published hj
  obtain ⟨row', hrow', hset⟩ := settled_of_removed hr hm hnew (hp.removed n m hm)
  rwa [Option.some.inj (hj.symm.trans hrow')]

/-! ### First, the relays -/

theorem unaided_of_byRelays (hg : ByRelays p a) : Unaided cfg p a := by
  cases a with
  | beginRelay => exact ⟨⟨trivial, trivial, trivial⟩, rfl⟩
  | relay rid ans remembered =>
    obtain rfl : ans = .served := hg
    exact ⟨⟨trivial, trivial, trivial⟩, rfl⟩
  | _ => exact hg.elim

/-- The relays touch no job. -/
theorem job?_of_byRelays (hg : ByRelays p a) (h : p.step cfg a = some p') (j : Uuid) :
    p'.fleet.world.db.job? j = p.fleet.world.db.job? j := by
  rcases step_fleet h with hsame | ⟨b, hb, hstep⟩
  · rw [hsame]
  · cases hb with
    | mark =>
      rw [← Option.some.inj hstep]
      rfl
    | _ => exact hg.elim

/-- What they publish has not been delivered. -/
theorem spent_of_byRelays (hmax : 0 < cfg.maxDeliver) (hg : ByRelays p a)
    (h : p.step cfg a = some p') (hs : p'.Spent cfg j) : p.Spent cfg j := by
  obtain ⟨seq, m', hm', hjob, hle, hnew⟩ := hs
  rcases msg_cases h hm' with ⟨m, hm, hmsg⟩ |
    ⟨rid, ans, remembered, r, batch, entry, rest, -, -, -, -, -, -, rfl⟩
  · have hsame : m' = m := by
      cases hmsg with
      | same => rfl
      | _ => exact hg.elim
    subst hsame
    refine ⟨seq, m', hm, hjob, hle, fun id r hr hrj ↦ ?_⟩
    rcases step_fleet h with hf | ⟨b, -, hstep⟩
    · exact hnew id r (hf ▸ hr) hrj
    · obtain ⟨r', hr', hrj', -⟩ := Fleet.mem_outbox_step hstep hr
      exact hnew id r' hr' (hrj'.trans hrj)
  · exact absurd hle (not_le.2 hmax)

/-! ### Then the jobs that can succeed -/

/-- Message `seq` of the job is ready to be delivered, and the job can succeed. -/
def Ready (cfg : Settings) (j : Uuid) (seq : ℕ) (p : Pipeline) : Prop :=
  p.fleet.world.Open j ∧ ∃ m, p.stream.msg? seq = some m ∧ m.data.jobId = j ∧
    m.present = true ∧ m.delivered < cfg.maxDeliver ∧ m.data.payload.CanSucceed

/-- The work on one job leaves the others ready. -/
theorem Ready.step {G : Pipeline → PipelineStep → Prop} (hr : (system cfg).Reachable G p)
    (hready : Ready cfg j seq p) {j' : Uuid} {seq' : ℕ} (hne : j ≠ j')
    (ht : p.Tending cfg j' seq' a) (h : p.step cfg a = some p') : Ready cfg j seq p' := by
  obtain ⟨⟨row, hrow, hopen⟩, m, hm, hjob, hrest⟩ := hready
  obtain ⟨m', hm', hjob'⟩ := ht.own
  have hseq : (seq : ℤ) ≠ seq' := by
    intro heq
    rw [heq, hm'] at hm
    exact hne (by rw [← hjob, ← hjob', Option.some.inj hm])
  exact ⟨⟨row, ht.job? hr h hne hrow, hopen⟩, m, ht.touches.msg? h hseq hm, hjob, hrest⟩

/-- A job that is ready can succeed. -/
theorem Ready.succeeds (httl : 0 < cfg.leaseTtlMs) (hr : (system cfg).Reachable (Orderly cfg) p)
    (hready : Ready cfg j seq p) :
    (system cfg).CanReach (Tending cfg j seq) (fun p' ↦ p'.fleet.world.Done j) p := by
  obtain ⟨hopen, m, hm, hjob, hpresent, hlt, hpoison, hrate⟩ := hready
  refine (attempt httl hr hm hjob hpresent hlt).mono (fun _ _ h ↦ h) fun p' _ h ↦ ?_
  obtain ⟨-, d, rfl, hpay, ⟨-, hdone⟩ | hpoison' | hfailing⟩ := h
  · refine (hdone hopen).resolve_right fun hfailing ↦ ?_
    rw [Delivery.Failing, hpay] at hfailing
    exact absurd hrate (not_lt.2 hfailing)
  · rw [hpay, hpoison] at hpoison'
    exact nomatch hpoison'
  · rw [Delivery.Failing, hpay] at hfailing
    exact absurd hrate (not_lt.2 hfailing)

/-- **All of them can**, one after the other. -/
theorem all_succeed (httl : 0 < cfg.leaseTtlMs) (hr : (system cfg).Reachable (Orderly cfg) p)
    {l : List Uuid} (hl : l.Nodup) {A : Uuid → Prop}
    (hA : ∀ j, A j → ∃ seq, Ready cfg j seq p) :
    (system cfg).CanReach (Unaided cfg)
      (fun p' ↦ ∀ j ∈ l, A j → p'.fleet.world.Done j) p := by
  choose! seqOf hseq using hA
  refine TransitionSystem.CanReach.forall_mem (H := fun j ↦ Tending cfg j (seqOf j))
    (R := fun j q ↦ (system cfg).Reachable (Orderly cfg) q ∧ (A j → Ready cfg j (seqOf j) q))
    (P := fun j q ↦ A j → q.fleet.world.Done j) ?_ ?_ ?_ ?_ hl fun j _ ↦ ⟨hr, hseq j⟩
  · exact fun j q a ht ↦ ⟨ht.orderly, ht.unaided⟩
  · rintro j q ⟨hrq, hready⟩
    by_cases hj : A j
    · exact ((hready hj).succeeds httl hrq).mono (fun _ _ h ↦ h) fun _ _ h _ ↦ h
    · exact .here fun h ↦ absurd h hj
  · rintro j k q a q' hne ⟨hrq, hready⟩ ht hs
    exact ⟨hrq.next ht.orderly hs, fun hj ↦ (hready hj).step hrq hne ht hs⟩
  · exact fun j k q a q' hd ht hs hj ↦ done_step hs (hd hj)

/-! ### Last, the messages that are left -/

/-- The step works off some message. -/
def TendsAny (cfg : Settings) (p : Pipeline) (a : PipelineStep) : Prop :=
  ∃ j seq, p.Tending cfg j seq a

/-- Such a step stores no message. -/
theorem msg?_of_tending (ht : TendsAny cfg p a) (h : p.step cfg a = some p') {seq : ℤ}
    {m' : StreamMsg} (hm' : p'.stream.msg? seq = some m') : ∃ m, p.stream.msg? seq = some m := by
  obtain ⟨j, n, ht⟩ := ht
  rcases msg_cases h hm' with ⟨m, hm, -⟩ | ⟨rid, ans, remembered, r, batch, entry, rest, rfl, -⟩
  · exact ⟨m, hm⟩
  · exact ht.touches.elim

/-- **All messages can be worked off**, one after the other. -/
theorem all_removed (httl : 0 < cfg.leaseTtlMs) (hr : (system cfg).Reachable (Orderly cfg) p) :
    (system cfg).CanReach (Unaided cfg) (fun p' ↦ ∀ (seq : ℤ) (m : StreamMsg),
      p'.stream.msg? seq = some m → m.present = false) p := by
  have hclear : (system cfg).CanReach (TendsAny cfg)
      (fun p' ↦ ∀ n ∈ List.range' 1 p.stream.length, Gone p' n) p := by
    refine TransitionSystem.CanReach.forall_mem (H := fun n q a ↦ ∃ j, Tending cfg j n q a)
      (R := fun n q ↦ (system cfg).Reachable (Orderly cfg) q ∧ ∃ m, q.stream.msg? n = some m)
      (P := fun n q ↦ Gone q n) ?_ ?_ ?_ ?_ List.nodup_range' fun n hn ↦ ⟨hr, ?_⟩
    · exact fun n q a ⟨j, ht⟩ ↦ ⟨j, n, ht⟩
    · rintro n q ⟨hrq, m, hm⟩
      exact (clears httl hrq hm rfl).mono (fun _ _ ht ↦ ⟨_, ht⟩) fun _ _ h ↦ h
    · rintro n k q a q' - ⟨hrq, m, hm⟩ ⟨j, ht⟩ hs
      obtain ⟨m', hm', -⟩ := step_msg hs hm
      exact ⟨hrq.next ht.orderly hs, m', hm'⟩
    · exact fun n k q a q' hg _ hs ↦ hg.step hs
    · obtain ⟨hle, hlt⟩ := List.mem_range'_1.1 hn
      obtain ⟨k, rfl⟩ := Nat.exists_eq_add_of_le' hle
      have hk : k < p.stream.length := by omega
      exact ⟨p.stream[k], List.getElem?_eq_getElem hk⟩
  refine hclear.mono (fun q a ⟨j, n, ht⟩ ↦ ⟨ht.orderly, ht.unaided⟩) fun p' hl h seq m' hm' ↦ ?_
  obtain ⟨m, hm⟩ := hl.preserves (P := fun q : Pipeline ↦ ∀ (seq : ℤ) (m' : StreamMsg),
      q.stream.msg? seq = some m' → ∃ m, p.stream.msg? seq = some m)
    (fun q a q' hq ht hs seq m' hm' ↦ by
      obtain ⟨m, hm⟩ := msg?_of_tending ht hs hm'
      exact hq seq m hm) (fun seq m' hm' ↦ ⟨m', hm'⟩) seq m' hm'
  obtain ⟨n, rfl, hn⟩ := WorkStream.exists_of_msg? hm
  have hlt := (List.getElem?_eq_some_iff.1 hn).1
  obtain ⟨m₁, hm₁, hgone⟩ := h (n + 1) (List.mem_range'_1.2 (by omega))
  rwa [Option.some.inj (hm'.symm.trans hm₁)]

/-! ### All together -/

/-- An open job that can succeed, and is not down to a message at its limit. -/
def WillSucceed (cfg : Settings) (p : Pipeline) (j : Uuid) : Prop :=
  ∃ row, p.fleet.world.db.job? j = some row ∧ row.state.isSettled = false ∧
    row.payload.CanSucceed ∧ ¬ p.Spent cfg j

/-- **The run.** First the relays, then the jobs that will succeed, then the messages left. -/
theorem drains (hsize : 0 < cfg.relayBatchSize) (httl : 0 < cfg.leaseTtlMs)
    (hmax : 0 < cfg.maxDeliver) (hr : (system cfg).Reachable (Orderly cfg) p) :
    (system cfg).CanReach (Unaided cfg) (fun p' ↦ p'.Drained ∧
      ∀ j, p.WillSucceed cfg j → p'.fleet.world.Done j) p := by
  -- The relays.
  obtain ⟨p₁, hl₁, hpub₁, -⟩ := outbox_drains hsize p
  have hl₁' : (system cfg).Leads (Unaided cfg) p p₁ := hl₁.mono fun _ _ ↦ unaided_of_byRelays
  have hr₁ : (system cfg).Reachable (Orderly cfg) p₁ :=
    hr.leads (hl₁'.mono fun _ _ ha ↦ ha.1)
  have hjob₁ : ∀ j, p₁.fleet.world.db.job? j = p.fleet.world.db.job? j := fun j ↦
    hl₁.preserves (P := fun q : Pipeline ↦ q.fleet.world.db.job? j = p.fleet.world.db.job? j)
      (fun q a q' hq hg hs ↦ (job?_of_byRelays hg hs j).trans hq) rfl
  have hspent₁ : ∀ j, ¬ p.Spent cfg j → ¬ p₁.Spent cfg j := fun j ↦
    hl₁.preserves (P := fun q : Pipeline ↦ ¬ q.Spent cfg j)
      fun q a q' hq hg hs hs' ↦ hq (spent_of_byRelays hmax hg hs hs')
  -- The jobs that will succeed.
  have hready : ∀ j, p.WillSucceed cfg j → ∃ seq, Ready cfg j seq p₁ := by
    rintro j ⟨row, hrow, hopen, hcan, hspent⟩
    rw [← hjob₁] at hrow
    obtain ⟨n, m, hm, hmj, hnew⟩ := exists_newest hr₁ hpub₁ hrow
    obtain ⟨row', hrow', hpay⟩ := job_of_msg hr₁ hm
    rw [hmj, hrow, Option.some.injEq] at hrow'
    subst hrow'
    refine ⟨n, ⟨row, hrow, hopen⟩, m, hm, hmj, ?_, ?_, hpay ▸ hcan⟩
    · cases hgone : m.present with
      | true => rfl
      | false =>
        obtain ⟨row', hrow', hset⟩ := settled_of_removed hr₁ hm hnew hgone
        rw [hmj, hrow, Option.some.injEq] at hrow'
        rw [← hrow', hopen] at hset
        contradiction
    · by_contra hle
      exact hspent₁ j hspent ⟨n, m, hm, hmj, not_lt.1 hle, hnew⟩
  obtain ⟨p₂, hl₂, hdone₂⟩ :=
    all_succeed httl hr₁ (l := p₁.fleet.world.db.jobs.keys) (AList.keys_nodup _) hready
  have hr₂ : (system cfg).Reachable (Orderly cfg) p₂ := hr₁.leads (hl₂.mono fun _ _ ha ↦ ha.1)
  -- The messages that are left.
  obtain ⟨p₃, hl₃, hremoved₃⟩ := all_removed httl hr₂
  have hl₂₃ : (system cfg).Leads (Unaided cfg) p₁ p₃ := hl₂.trans hl₃
  refine ⟨p₃, hl₁'.trans hl₂₃,
    ⟨hl₂₃.preserves (fun _ _ _ hp ha hs ↦ hp.step ha.2 hs) hpub₁, hremoved₃⟩, fun j hj ↦ ?_⟩
  have hmem : j ∈ p₁.fleet.world.db.jobs.keys := by
    obtain ⟨row, hrow, -⟩ := hj
    rw [← AList.mem_keys, ← AList.lookup_isSome]
    show (p₁.fleet.world.db.job? j).isSome = true
    rw [hjob₁, hrow]
    rfl
  exact hl₃.preserves (P := fun q : Pipeline ↦ q.fleet.world.Done j)
    (fun _ _ _ hq _ hs ↦ done_step hs hq) (hdone₂ j hmem hj)

/-- What such a run makes of a job. -/
theorem rests_of_drained (hr : (system cfg).Reachable (Orderly cfg) p)
    (hl : (system cfg).Leads (Unaided cfg) p p') (hdrained : p'.Drained)
    (hdone : ∀ j, p.WillSucceed cfg j → p'.fleet.world.Done j) {j : Uuid}
    {row : JobRow SubmitRequest} (hrow : p.fleet.world.db.job? j = some row) :
    ∃ row', p'.fleet.world.db.job? j = some row' ∧ row'.state.isSettled = true ∧
      (row.state.isSettled = true → row' = row) ∧
      (row.state.isSettled = false → row.payload.CanSucceed → ¬ p.Spent cfg j →
        row'.state = .succeeded) := by
  obtain ⟨row', hrow', -⟩ := hl.preserves
    (P := fun q : Pipeline ↦ ∃ row', q.fleet.world.db.job? j = some row' ∧
      row'.payload = row.payload) (fun _ _ _ hq _ hs ↦ payload_step hs hq) ⟨row, hrow, rfl⟩
  have hr' : (system cfg).Reachable (Orderly cfg) p' := hr.leads (hl.mono fun _ _ ha ↦ ha.1)
  refine ⟨row', hrow', hdrained.settled hr' hrow', fun hset ↦ ?_, fun hopen hcan hspent ↦ ?_⟩
  · have hsame := hl.preserves (P := fun q : Pipeline ↦ q.fleet.world.db.job? j = some row)
      (fun _ _ _ hq ha hs ↦ settled_row ha.2 hs hq hset) hrow
    exact Option.some.inj (hrow'.symm.trans hsame)
  · obtain ⟨row₃, hrow₃, hs₃⟩ := hdone j ⟨row, hrow, hopen, hcan, hspent⟩
    rwa [Option.some.inj (hrow'.symm.trans hrow₃)]

/-- **The system recovers by itself.** From every state an orderly run can be in, a run without help
and without hindrance leads to a state in which every row is published, no message is left and every
job is at rest; a job that was at rest before is as it was; and an open job that can succeed, and is
not down to a message at its limit, has succeeded. -/
theorem recovers (hsize : 0 < cfg.relayBatchSize) (httl : 0 < cfg.leaseTtlMs)
    (hmax : 0 < cfg.maxDeliver) (hr : (system cfg).Reachable (Orderly cfg) p) :
    (system cfg).CanReach (Unaided cfg) (fun p' ↦ p'.Drained ∧
      ∀ (j : Uuid) (row : JobRow SubmitRequest), p.fleet.world.db.job? j = some row →
        ∃ row', p'.fleet.world.db.job? j = some row' ∧ row'.state.isSettled = true ∧
          (row.state.isSettled = true → row' = row) ∧
          (row.state.isSettled = false → row.payload.CanSucceed → ¬ p.Spent cfg j →
            row'.state = .succeeded)) p :=
  (drains hsize httl hmax hr).mono (fun _ _ h ↦ h) fun _ hl h ↦
    ⟨h.1, fun _ _ hrow ↦ rests_of_drained hr hl h.1 h.2 hrow⟩

/-- Two jobs, one of them poison. A relay dies after its first publish, so that row is published
twice; and the worker that executes the other job dies under its claim and its lease. -/
def crashes : List PipelineStep :=
  [.submit ⟨0⟩ "a" (.healthy 10 ten_le_limit) [], .submit ⟨1⟩ "b" poisonous [],
    .beginRelay, .relay 0 .served true, .relay 0 .served true, .killRelay 0,
    .beginRelay, .relay 1 .served true, .relay 1 .served false, .relay 1 .served true,
    .relay 1 .served true, .deliver 1 "w", .handle 0 .served, .handle 0 .served,
    .handle 0 .served, .handle 0 .served, .handle 0 .served, .die 0]

/-- The job of the dead worker succeeds and the poison job comes to rest. -/
theorem recovers_of_crashes : ∃ p p' : Pipeline,
    (system {}).Reachable (Orderly {}) p ∧ p.stream.length = 3 ∧
    (∃ row, p.fleet.world.db.job? ⟨0⟩ = some row ∧ row.state = .running) ∧
    (∃ row, p.fleet.world.db.job? ⟨1⟩ = some row ∧ row.state = .queued) ∧
    (system {}).Leads (Unaided {}) p p' ∧ p'.Drained ∧ p'.fleet.world.Done ⟨0⟩ ∧
    ∃ row, p'.fleet.world.db.job? ⟨1⟩ = some row ∧ row.state.isSettled = true := by
  have hrun : ((system {}).execGuarded (orderly? {}) empty crashes).any (fun p ↦
      (p.stream.length = 3) &&
      ((p.fleet.world.db.job? ⟨0⟩).any fun row ↦
        row.state = .running && !row.payload.poison && row.payload.failureRate = 0) &&
      ((p.fleet.world.db.job? ⟨1⟩).any fun row ↦ row.state = .queued) &&
      p.stream.all fun m ↦ m.delivered < 5) = true := by
    rfl
  obtain ⟨p, hl, hp⟩ := TransitionSystem.exists_leads_of_execGuarded
    (fun p a ↦ orderly_of_orderly? (p := p) (a := a)) hrun
  simp only [Bool.and_eq_true, Option.any_eq_true, decide_eq_true_eq, List.all_eq_true,
    Bool.not_eq_true'] at hp
  obtain ⟨⟨⟨hlen, row₀, hrow₀, ⟨hrun₀, hpoison⟩, hrate⟩, row₁, hrow₁, hqueued₁⟩, hleft⟩ := hp
  have hr : (system {}).Reachable (Orderly {}) p := ⟨_, rfl, hl⟩
  obtain ⟨p', hl', hdrained, hall⟩ :=
    recovers (by decide) (by decide) (by decide) hr
  obtain ⟨row₀', hrow₀', -, -, hdone⟩ := hall ⟨0⟩ row₀ hrow₀
  obtain ⟨row₁', hrow₁', hset₁, -⟩ := hall ⟨1⟩ row₁ hrow₁
  refine ⟨p, p', hr, hlen, ⟨row₀, hrow₀, hrun₀⟩, ⟨row₁, hrow₁, hqueued₁⟩, hl', hdrained,
    ⟨row₀', hrow₀', hdone (by rw [hrun₀]; rfl) ⟨hpoison, by rw [hrate]; exact zero_lt_one⟩ ?_⟩,
    row₁', hrow₁', hset₁⟩
  rintro ⟨seq, m, hm, -, hle, -⟩
  obtain ⟨n, -, hn⟩ := WorkStream.exists_of_msg? hm
  exact absurd (hleft m (List.mem_of_getElem? hn)) (not_lt.2 hle)

end Pipeline

end Orbiter
