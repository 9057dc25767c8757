import Orbiter.Pipeline.Invariants

/-!
# The order of a job's messages

A job has an outbox row for its submission and one for each of its replays, and each is published
some time. With one relay pass at a time, as a single relay makes them, the rows of a job get to the
stream in the order of their ids, whatever dies in between (`first_copies_in_order`). A pass selects
the unmarked rows by id and publishes them one by one; a pass that dies leaves its rows unmarked,
and the next one begins with them again. So a row may be stored twice, and only its first copy is in
its place.

* `OneAtATime`: the guard. No pass begins while another is at work.
* `InTurn`: the invariant. What has been stored is closed downwards among the rows of a job
  (`InTurn.closed`), and a row of the job before one that a relay has still to publish is stored or
  will be before it (`InTurn.before`).
* `Ordered`: of what is stored before a first copy, nothing of the same job belongs to a later row.

Nothing is said about rows of different jobs. An id is drawn when its row is inserted and the row is
seen when its transaction commits, so of two submissions at the same time the later id can be
published first; the transactions of the pipeline are one step each and do not show this. The ids of
one job are drawn under the lock of its row in `jobs`, each after the commit of the one before.

Two passes at a time share the rows between them, and the second may be faster than the first, also
with two rows of one job (`out_of_order`).
-/

namespace Orbiter

/-- At work: neither dead nor at its end. -/
def RelayRun.Busy (r : RelayRun) : Prop := r.alive = true ∧ ∀ exit, r.pc ≠ .finished exit

/-- A test for the contrary. -/
def RelayRun.idle (r : RelayRun) : Bool :=
  !r.alive || match r.pc with
    | .finished _ => true
    | _ => false

theorem RelayRun.not_busy_of_idle {r : RelayRun} (h : r.idle = true) : ¬ r.Busy := by
  rintro ⟨halive, hpc⟩
  rw [idle, halive] at h
  cases hp : r.pc with
  | finished exit => exact hpc exit hp
  | select | publish | mark =>
    rw [hp] at h
    exact absurd h (by simp)

namespace Pipeline

variable {cfg : Settings} {p p' : Pipeline} {a : PipelineStep}

/-- No pass begins while another is at work. -/
def OneAtATime (p : Pipeline) (a : PipelineStep) : Prop :=
  a = .beginRelay → ∀ r ∈ p.relays, ¬ r.Busy

/-- One relay at work, and everything in its turn. -/
structure InTurn (p : Pipeline) : Prop where
  alone : ∀ (rid rid' : ℕ) (r r' : RelayRun), p.relays[rid]? = some r →
    p.relays[rid']? = some r' → r.Busy → r'.Busy → rid = rid'
  sorted : ∀ (rid : ℕ) (r : RelayRun), p.relays[rid]? = some r → r.Busy →
    r.pc.todo.Pairwise fun e e' ↦ e.1 < e'.1
  /-- What comes, in its job, before a row still to be published is stored, or will be before it. -/
  before : ∀ (rid : ℕ) (r : RelayRun) (e : OutboxEntry) (id : ℕ) (row : OutboxRow SubmitRequest),
    p.relays[rid]? = some r → r.Busy → e ∈ r.pc.todo →
    (id, row) ∈ p.fleet.world.db.outbox.rows → row.payload.jobId = e.2.payload.jobId → id < e.1 →
    p.Stored id ∨ ∃ e' ∈ r.pc.todo, e'.1 = id
  /-- What comes, in its job, before a stored row is stored. -/
  closed : ∀ (seq : ℤ) (m : StreamMsg) (id : ℕ) (row : OutboxRow SubmitRequest),
    p.stream.msg? seq = some m → (id, row) ∈ p.fleet.world.db.outbox.rows →
    row.payload.jobId = m.data.jobId → id < m.msgId → p.Stored id

/-- The message is the first copy of its row. -/
def FirstCopy (p : Pipeline) (seq : ℤ) (m : StreamMsg) : Prop :=
  p.stream.msg? seq = some m ∧ ∀ (seq' : ℤ) (m' : StreamMsg), p.stream.msg? seq' = some m' →
    m'.msgId = m.msgId → seq ≤ seq'

/-! ### One step -/

theorem length_relays (h : p.step cfg a = some p') (ha : a ≠ .beginRelay) :
    p'.relays.length = p.relays.length := by
  cases a with
  | beginRelay => exact absurd rfl ha
  | submit | replay | die | tick | vanish | handle =>
    obtain ⟨f, -, rfl⟩ := onFleet_eq_some h
    rfl
  | deliver n workerId =>
    obtain ⟨m, f, -, -, -, rfl⟩ := deliver_eq_some h
    rfl
  | miss n =>
    obtain ⟨m, -, -, rfl⟩ := miss_eq_some h
    rfl
  | exhaust n =>
    obtain ⟨m, -, -, -, rfl⟩ := exhaust_eq_some h
    rfl
  | fetch aid =>
    obtain ⟨x, -, -, rfl⟩ := fetch_eq_some h
    rfl
  | relay rid ans remembered =>
    obtain ⟨r, pc, -, -, -, hr, -⟩ := relay_cases h
    rw [hr, List.length_set]
  | quarantine qid ans remembered =>
    obtain ⟨q, c, reply, pc, -, -, -, -, hr, -⟩ := quarantine_cases cfg h
    rw [hr]
  | killRelay rid =>
    obtain rfl := Option.some.inj h
    exact List.length_modify ..
  | advise | killListener =>
    obtain rfl := Option.some.inj h
    rfl

/-- A relay at work after a step was there and moves, or was at work and stays as it was, or has
just begun. -/
theorem busy_cases (h : p.step cfg a = some p') {rid : ℕ} {r' : RelayRun}
    (hget : p'.relays[rid]? = some r') (hbusy : r'.Busy) :
    (p.relays[rid]? = some r' ∧ ∀ ans remembered, a ≠ .relay rid ans remembered) ∨
    (∃ r ans remembered c pc, a = .relay rid ans remembered ∧ p.relays[rid]? = some r ∧ r.Busy ∧
      RelayMove cfg p r.pc c ans pc ∧ r' = { r with pc := pc }) ∨
    (a = .beginRelay ∧ rid = p.relays.length ∧ r' = {}) := by
  rcases step_relay h hget with hsame | ⟨r, -, -, rfl⟩ | ⟨hnone, rfl⟩ |
    ⟨r, ans, remembered, c, pc, rfl, hold, halive, hmove, rfl⟩
  · exact .inl hsame
  · exact absurd hbusy.1 (by simp)
  · have hle := List.getElem?_eq_none_iff.1 hnone
    have hlt := (List.getElem?_eq_some_iff.1 hget).1
    by_cases ha : a = .beginRelay
    · subst ha
      obtain rfl := Option.some.inj h
      rw [List.length_append, List.length_singleton] at hlt
      exact .inr (.inr ⟨rfl, by omega, rfl⟩)
    · rw [length_relays h ha] at hlt
      omega
  · refine .inr (.inl ⟨r, ans, remembered, c, pc, rfl, hold, ⟨halive, fun exit hpc ↦ ?_⟩, hmove,
      rfl⟩)
    rw [hpc] at hmove
    cases hmove with
    | fault hv applied => exact absurd hv (by simp [RelayPc.view])

/-- Nobody else holds a row when a relay selects. -/
theorem InTurn.lockedIds_eq_nil (ht : p.InTurn) {rid : ℕ} {r : RelayRun}
    (hget : p.relays[rid]? = some r) (hbusy : r.Busy) (hpc : r.pc = .select) :
    p.lockedIds = [] := by
  rw [lockedIds, List.flatMap_eq_nil_iff]
  intro r' hr'
  obtain ⟨rid', hget'⟩ := List.mem_iff_getElem?.1 hr'
  split
  · next halive =>
    by_cases hfin : ∃ exit, r'.pc = .finished exit
    · obtain ⟨exit, hexit⟩ := hfin
      rw [hexit]
      rfl
    · obtain rfl := ht.alone rid rid' r r' hget hget' hbusy
        ⟨halive, fun exit hexit ↦ hfin ⟨exit, hexit⟩⟩
      obtain rfl := Option.some.inj (hget.symm.trans hget')
      rw [hpc]
      rfl
  · rfl

/-- **The batch is a first part of the unmarked rows.** -/
theorem InTurn.mem_batch (ht : p.InTurn) (hp : p.Published) {rid : ℕ} {r : RelayRun}
    (hget : p.relays[rid]? = some r) (hbusy : r.Busy) (hpc : r.pc = .select) {limit : ℕ}
    {e : OutboxEntry} (he : e ∈ p.selectUnpublished limit) {id : ℕ}
    {row : OutboxRow SubmitRequest} (hrow : (id, row) ∈ p.fleet.world.db.outbox.rows)
    (hlt : id < e.1) : p.Stored id ∨ ∃ e' ∈ p.selectUnpublished limit, e'.1 = id := by
  by_cases hpub : row.publishedAt = none
  · refine .inr ⟨(id, row), ?_, rfl⟩
    refine List.mem_take_of_not_rel (p.fleet.world.db.outbox.sorted.filter _) ?_ he
      (not_lt.2 hlt.le)
    rw [List.mem_filter, ht.lockedIds_eq_nil hget hbusy hpc, hpub]
    exact ⟨hrow, rfl⟩
  · exact .inl (hp.mark id row hrow hpub)

/-- A row of the state after a step was there, or comes after all that were. -/
theorem rows_cases (h : p.step cfg a = some p') {id : ℕ} {row : OutboxRow SubmitRequest}
    (hrow : (id, row) ∈ p'.fleet.world.db.outbox.rows) :
    (∃ row₀, (id, row₀) ∈ p.fleet.world.db.outbox.rows ∧ row₀.payload = row.payload) ∨
      p.fleet.world.db.outbox.last < id := by
  rcases step_fleet h with hsame | ⟨b, -, hstep⟩
  · exact .inl ⟨row, hsame ▸ hrow, rfl⟩
  · rcases Fleet.mem_outbox_cases hstep hrow with ⟨r, hr, -, -, hpay, -⟩ | ⟨rfl, -⟩
    · exact .inl ⟨r, hr, hpay.symm⟩
    · exact .inr (Nat.lt_succ_self _)

theorem HasRow.le_last {f : Fleet} {id : ℕ} {subject : String} {m : Message SubmitRequest}
    (h : HasRow f id subject m) : id ≤ f.world.db.outbox.last := by
  obtain ⟨r, hr, -, -⟩ := h
  exact f.world.db.outbox.le_last _ hr

/-- Everything of the job before the row about to be published is stored. -/
theorem InTurn.stored_of_lt (ht : p.InTurn) {rid : ℕ} {r : RelayRun}
    (hget : p.relays[rid]? = some r) (hbusy : r.Busy) {batch rest : List OutboxEntry}
    {entry : OutboxEntry} (hpc : r.pc = .publish batch entry rest) {id : ℕ}
    {row : OutboxRow SubmitRequest} (hrow : (id, row) ∈ p.fleet.world.db.outbox.rows)
    (hjob : row.payload.jobId = entry.2.payload.jobId) (hlt : id < entry.1) : p.Stored id := by
  have htodo : r.pc.todo = entry :: rest := by rw [hpc, RelayPc.todo]
  have hsorted := ht.sorted rid r hget hbusy
  rw [htodo, List.pairwise_cons] at hsorted
  have hmem : entry ∈ r.pc.todo := by rw [htodo]; exact List.mem_cons_self
  rcases ht.before rid r entry id row hget hbusy hmem hrow hjob hlt with hs | ⟨e', he', rfl⟩
  · exact hs
  · -- It would be published before, but this one comes first.
    rw [htodo] at he'
    rcases List.mem_cons.1 he' with rfl | he'
    · exact absurd hlt (lt_irrefl _)
    · exact absurd hlt (hsorted.1 e' he').asymm

/-- A relay at work after a step was at work before, or has just begun. -/
theorem busy_of_busy (h : p.step cfg a = some p') {rid : ℕ} {r' : RelayRun}
    (hget : p'.relays[rid]? = some r') (hb : r'.Busy) :
    (∃ r, p.relays[rid]? = some r ∧ r.Busy) ∨ a = .beginRelay ∧ rid = p.relays.length := by
  rcases busy_cases h hget hb with ⟨hsame, -⟩ | ⟨r, ans, remembered, c, pc, -, hr, hbusy, -⟩ |
    ⟨ha, hlen, -⟩
  · exact .inl ⟨r', hsame, hb⟩
  · exact .inl ⟨r, hr, hbusy⟩
  · exact .inr ⟨ha, hlen⟩

theorem InTurn.alone_step (hg : OneAtATime p a) (ht : p.InTurn) (h : p.step cfg a = some p')
    {rid rid' : ℕ} {r₁ r₂ : RelayRun} (hget : p'.relays[rid]? = some r₁)
    (hget' : p'.relays[rid']? = some r₂) (hb : r₁.Busy) (hb' : r₂.Busy) : rid = rid' := by
  rcases busy_of_busy h hget hb with ⟨r, hr, hbusy⟩ | ⟨ha, rfl⟩ <;>
    rcases busy_of_busy h hget' hb' with ⟨r', hr', hbusy'⟩ | ⟨ha', rfl⟩
  · exact ht.alone rid rid' r r' hr hr' hbusy hbusy'
  · exact absurd hbusy (hg ha' r (List.mem_of_getElem? hr))
  · exact absurd hbusy' (hg ha r' (List.mem_of_getElem? hr'))
  · rfl

theorem InTurn.sorted_step (ht : p.InTurn) (h : p.step cfg a = some p') {rid : ℕ} {r' : RelayRun}
    (hget : p'.relays[rid]? = some r') (hb : r'.Busy) :
    r'.pc.todo.Pairwise fun e e' ↦ e.1 < e'.1 := by
  rcases busy_cases h hget hb with ⟨hsame, -⟩ |
    ⟨r, ans, remembered, c, pc, -, hr, hbusy, hmove, rfl⟩ | ⟨-, -, rfl⟩
  · exact ht.sorted rid r' hsame hb
  · have hsorted := ht.sorted rid r hr hbusy
    generalize r.pc = pc₀ at hmove hsorted
    cases hmove with
    | fault hv applied => exact .nil
    | selected =>
      show (RelayPc.loop _ _).todo.Pairwise _
      rw [RelayPc.todo_loop]
      exact (p.fleet.world.db.outbox.sorted.filter _).sublist (List.take_sublist ..)
    | published batch entry rest =>
      show (RelayPc.loop _ _).todo.Pairwise _
      rw [RelayPc.todo_loop]
      exact (List.pairwise_cons.1 hsorted).2
    | marked batch => exact .nil
  · exact .nil

/-- What the relay will publish after a move, it holds before it. -/
theorem hasRow_of_move {rid : ℕ} {r : RelayRun} {c : RelayCall} {ans : Answer} {pc : RelayPc}
    (hp : p.Published) (hget : p.relays[rid]? = some r) (hmove : RelayMove cfg p r.pc c ans pc)
    {e : OutboxEntry} (he : e ∈ pc.todo) : HasRow p.fleet e.1 e.2.subject e.2.payload := by
  have hhold : ∀ e' ∈ r.pc.todo, HasRow p.fleet e'.1 e'.2.subject e'.2.payload :=
    fun e' he' ↦ hp.batch rid r e' hget (hp.todo rid r e' hget he')
  generalize r.pc = pc₀ at hmove hhold
  cases hmove with
  | fault hv applied => exact absurd he List.not_mem_nil
  | selected =>
    rw [RelayPc.todo_loop] at he
    exact hasRow_of_mem_select he
  | published batch entry rest =>
    rw [RelayPc.todo_loop] at he
    exact hhold e (List.mem_cons_of_mem _ he)
  | marked batch => exact absurd he List.not_mem_nil

/-- The case of the relay that moves: the batch it selects is a first part of the unmarked rows, and
what it publishes is stored. -/
theorem InTurn.before_move (hp : p.Published) (ht : p.InTurn) {rid : ℕ} {ans : Answer}
    {remembered : Bool} (h : p.step cfg (.relay rid ans remembered) = some p') {r : RelayRun}
    (hget : p.relays[rid]? = some r) (hbusy : r.Busy) {c : RelayCall} {pc : RelayPc}
    (hmove : RelayMove cfg p r.pc c ans pc) {e : OutboxEntry} (he : e ∈ pc.todo) {id : ℕ}
    {row : OutboxRow SubmitRequest} (hrow : (id, row) ∈ p.fleet.world.db.outbox.rows)
    (hjob : row.payload.jobId = e.2.payload.jobId) (hlt : id < e.1) :
    p'.Stored id ∨ ∃ e' ∈ pc.todo, e'.1 = id := by
  have hbefore := ht.before rid r
  have hbatch := ht.mem_batch hp hget hbusy
  generalize hpc : r.pc = pc₀ at hmove hbefore
  cases hmove with
  | fault hv applied => exact absurd he List.not_mem_nil
  | selected =>
    rw [RelayPc.todo_loop] at he ⊢
    exact (hbatch hpc he hrow hlt).imp_left fun hs ↦ hs.step h
  | published batch entry rest =>
    rw [RelayPc.todo_loop] at he ⊢
    rcases hbefore e id row hget hbusy (List.mem_cons_of_mem _ he) hrow hjob hlt with
      hs | ⟨e', he', rfl⟩
    · exact .inl (hs.step h)
    · rcases List.mem_cons.1 he' with rfl | he'
      · exact .inl (stored_of_relay h hget hpc)
      · exact .inr ⟨e', he', rfl⟩
  | marked batch => exact absurd he List.not_mem_nil

theorem InTurn.before_step (hp : p.Published) (ht : p.InTurn) (h : p.step cfg a = some p')
    {rid : ℕ} {r' : RelayRun} {e : OutboxEntry} {id : ℕ} {row : OutboxRow SubmitRequest}
    (hget : p'.relays[rid]? = some r') (hb : r'.Busy) (he : e ∈ r'.pc.todo)
    (hrow : (id, row) ∈ p'.fleet.world.db.outbox.rows)
    (hjob : row.payload.jobId = e.2.payload.jobId) (hlt : id < e.1) :
    p'.Stored id ∨ ∃ e' ∈ r'.pc.todo, e'.1 = id := by
  -- A row that is new comes after all a relay holds.
  have hold : HasRow p.fleet e.1 e.2.subject e.2.payload →
      ∃ row₀, (id, row₀) ∈ p.fleet.world.db.outbox.rows ∧
        row₀.payload.jobId = e.2.payload.jobId := by
    intro hhas
    rcases rows_cases h hrow with ⟨row₀, hrow₀, hpay⟩ | hnew
    · exact ⟨row₀, hrow₀, by rw [hpay, hjob]⟩
    · exact absurd hhas.le_last (not_le.2 (hnew.trans hlt))
  rcases busy_cases h hget hb with ⟨hsame, -⟩ |
    ⟨r, ans, remembered, c, pc, rfl, hr, hbusy, hmove, rfl⟩ | ⟨-, -, rfl⟩
  · obtain ⟨row₀, hrow₀, hjob₀⟩ := hold (hp.batch rid r' e hsame (hp.todo rid r' e hsame he))
    exact (ht.before rid r' e id row₀ hsame hb he hrow₀ hjob₀ hlt).imp_left fun hs ↦ hs.step h
  · obtain ⟨row₀, hrow₀, hjob₀⟩ := hold (hasRow_of_move hp hr hmove he)
    exact ht.before_move hp h hr hbusy hmove he hrow₀ hjob₀ hlt
  · exact absurd he List.not_mem_nil

theorem InTurn.closed_step (hp : p.Published) (ht : p.InTurn) (h : p.step cfg a = some p')
    {seq : ℤ} {m' : StreamMsg} {id : ℕ} {row : OutboxRow SubmitRequest}
    (hm' : p'.stream.msg? seq = some m') (hrow : (id, row) ∈ p'.fleet.world.db.outbox.rows)
    (hjob : row.payload.jobId = m'.data.jobId) (hlt : id < m'.msgId) : p'.Stored id := by
  rcases msg_cases h hm' with ⟨m, hm, hstep⟩ |
    ⟨rid, ans, remembered, r, batch, entry, rest, rfl, hr, halive, hpc, -, hf, rfl⟩
  · have hlast := (hp.msg seq m hm).le_last
    rw [hstep.msgId] at hlt
    rcases rows_cases h hrow with ⟨row₀, hrow₀, hpay⟩ | hnew
    · exact (ht.closed seq m id row₀ hm hrow₀ (by rw [hpay, hjob, hstep.data]) hlt).step h
    · omega
  · rw [hf] at hrow
    have hbusy : r.Busy := ⟨halive, fun exit hexit ↦ absurd (hpc.symm.trans hexit) (by simp)⟩
    exact (ht.stored_of_lt hr hbusy hpc hrow hjob hlt).step h

theorem InTurn.step (hg : OneAtATime p a) (hp : p.Published) (ht : p.InTurn)
    (h : p.step cfg a = some p') : p'.InTurn where
  alone _ _ _ _ := ht.alone_step hg h
  sorted _ _ := ht.sorted_step h
  before _ _ _ _ _ := ht.before_step hp h
  closed _ _ _ _ := ht.closed_step hp h

/-- With one pass at a time, what is stored is closed downwards, in every reachable state. -/
theorem inTurn_of_reachable (h : (system cfg).Reachable OneAtATime p) : p.InTurn := by
  refine h.induct (I := InTurn) (fun p hp ↦ ?_) fun p a p' hr ih hg hs ↦
    ih.step hg (published_of_reachable hr) hs
  rw [hp]
  refine ⟨?_, ?_, ?_, fun seq m id row hm ↦ ?_⟩
  · exact fun rid rid' r r' hget ↦ absurd hget (by simp [empty])
  · exact fun rid r hget ↦ absurd hget (by simp [empty])
  · exact fun rid r e id row hget ↦ absurd hget (by simp [empty])
  · obtain ⟨n, -, hn⟩ := WorkStream.exists_of_msg? hm
    exact absurd hn (by simp [empty])

/-! ### The result -/

/-- Whatever is stored of a job before a first copy belongs to an earlier row. -/
def Ordered (p : Pipeline) : Prop :=
  ∀ (seq seq' : ℤ) (m m' : StreamMsg), p.stream.msg? seq = some m → p.FirstCopy seq' m' →
    m.data.jobId = m'.data.jobId → seq < seq' → m.msgId < m'.msgId

/-- No message has a number larger than the stream's last. -/
theorem seq_le_length {stream : WorkStream} {seq : ℤ} {m : StreamMsg}
    (hm : stream.msg? seq = some m) : seq < ((stream.length + 1 : ℕ) : ℤ) := by
  obtain ⟨n, rfl, hn⟩ := WorkStream.exists_of_msg? hm
  have hlt := (List.getElem?_eq_some_iff.1 hn).1
  omega

theorem Ordered.step (hp : p.Published) (ht : p.InTurn) (ho : p.Ordered)
    (h : p.step cfg a = some p') : p'.Ordered := by
  rintro seq seq' m' m'' hm' ⟨hm'', hfirst⟩ hjob hlt
  rcases msg_cases h hm'' with ⟨m₀, hm₀, hstep₀⟩ |
    ⟨rid, ans, remembered, r, batch, entry, rest, -, hr, -, hpc, rfl, -, rfl⟩
  · -- Both were there already.
    rcases msg_cases h hm' with ⟨m, hm, hstep⟩ | ⟨-, -, -, -, -, -, -, -, -, -, -, rfl, -, -⟩
    · rw [hstep.msgId, hstep₀.msgId]
      rw [hstep.data, hstep₀.data] at hjob
      refine ho seq seq' m m₀ hm ⟨hm₀, fun seq₁ m₁ hm₁ hid ↦ ?_⟩ hjob hlt
      obtain ⟨m₁', hm₁', hstep₁⟩ := step_msg h hm₁
      exact hfirst seq₁ m₁' hm₁' (hstep₁.msgId.trans (hid.trans hstep₀.msgId.symm))
    · exact absurd (seq_le_length hm₀) hlt.asymm
  · -- The new one is the first copy, so its row was not stored; nor was a later one of its job.
    rcases msg_cases h hm' with ⟨m, hm, hstep⟩ | ⟨-, -, -, -, -, -, -, -, -, -, -, rfl, -, -⟩
    · show m'.msgId < entry.1
      rw [hstep.msgId]
      by_contra hle
      have hnot : ¬ p.Stored entry.1 := by
        rintro ⟨seq₁, m₁, hm₁, hid⟩
        obtain ⟨m₁', hm₁', hstep₁⟩ := step_msg h hm₁
        exact absurd (hfirst seq₁ m₁' hm₁' (hstep₁.msgId.trans hid)) (seq_le_length hm₁).not_ge
      have hne : entry.1 ≠ m.msgId := fun heq ↦ hnot ⟨seq, m, hm, heq.symm⟩
      obtain ⟨row, hrow, -, hpay⟩ := hp.batch rid r entry hr
        (hp.todo rid r entry hr (by rw [hpc]; exact List.mem_cons_self))
      have hsame : row.payload.jobId = m.data.jobId := by
        rw [hpay, ← hstep.data]
        exact hjob.symm
      exact hnot (ht.closed seq m entry.1 row hm hrow hsame (lt_of_le_of_ne (not_lt.1 hle) hne))
    · exact absurd hlt (lt_irrefl _)

/-- **First copies of a job are in the order of its rows**, in every run of one relay pass at a
time. -/
theorem first_copies_in_order (h : (system cfg).Reachable OneAtATime p) {seq seq' : ℤ}
    {m m' : StreamMsg} (hm : p.FirstCopy seq m) (hm' : p.FirstCopy seq' m')
    (hjob : m.data.jobId = m'.data.jobId) : seq < seq' ↔ m.msgId < m'.msgId := by
  have ho : p.Ordered := by
    refine h.induct (I := Ordered) (fun p hp ↦ ?_) fun p a p' hr ih _ hs ↦
      ih.step (published_of_reachable hr) (inTurn_of_reachable hr) hs
    rintro seq seq' m m' hm
    rw [hp] at hm
    obtain ⟨n, -, hn⟩ := WorkStream.exists_of_msg? hm
    exact absurd hn (by simp [empty])
  refine ⟨ho seq seq' m m' hm.1 hm' hjob, fun hlt ↦ ?_⟩
  rcases lt_trichotomy seq seq' with hseq | rfl | hseq
  · exact hseq
  · obtain rfl := Option.some.inj (hm.1.symm.trans hm'.1)
    exact absurd hlt (lt_irrefl _)
  · exact absurd hlt (ho seq' seq m' m hm'.1 hm hjob.symm hseq).asymm

/-- A test for `OneAtATime`. -/
def oneAtATime? (p : Pipeline) : PipelineStep → Bool
  | .beginRelay => p.relays.all RelayRun.idle
  | _ => true

theorem oneAtATime_of_test (h : oneAtATime? p a = true) : OneAtATime p a := by
  rintro rfl r hr
  exact RelayRun.not_busy_of_idle (List.all_eq_true.1 h r hr)

/-- A job is submitted, and another. The first pass dies after its first publish, and the second
begins again. Then the first job is dead-lettered and replayed, and a third pass publishes it. -/
def republishes : List PipelineStep :=
  [.submit ⟨0⟩ "a" (.healthy 10 ten_le_limit) [], .submit ⟨1⟩ "b" (.healthy 10 ten_le_limit) [],
    .beginRelay, .relay 0 .served true, .relay 0 .served true, .killRelay 0,
    .beginRelay, .relay 1 .served true, .relay 1 .served false, .relay 1 .served true,
    .relay 1 .served true, .advise (brokerAdvisory {} 1 5), .fetch 0, .quarantine 0 .served true,
    .quarantine 0 .served true, .quarantine 0 .served true, .replay ⟨0⟩,
    .beginRelay, .relay 2 .served true, .relay 2 .served true, .relay 2 .served true]

/-- The row of the submission is stored twice, and that of the replay after it. -/
theorem first_copies_in_order_of_republishes : ∃ (p : Pipeline) (m m' : StreamMsg),
    (system {}).Reachable OneAtATime p ∧ p.stream.map StreamMsg.msgId = [1, 1, 2, 3] ∧
    p.FirstCopy 1 m ∧ p.FirstCopy 4 m' ∧ m.data.jobId = ⟨0⟩ ∧ m'.data.jobId = ⟨0⟩ ∧
    m.msgId < m'.msgId := by
  have hrun : ((system {}).execGuarded oneAtATime? empty republishes).any (fun p ↦
      p.stream.map StreamMsg.msgId = [1, 1, 2, 3] &&
        p.stream.map (fun m ↦ m.data.jobId) = [⟨0⟩, ⟨0⟩, ⟨1⟩, ⟨0⟩]) = true := by
    rfl
  obtain ⟨p, hl, hp⟩ := TransitionSystem.exists_leads_of_execGuarded
    (fun _ _ hg ↦ oneAtATime_of_test hg) hrun
  obtain ⟨hids, hjobs⟩ := Bool.and_eq_true_iff.1 hp
  have hids := of_decide_eq_true hids
  have hjobs := of_decide_eq_true hjobs
  have hr : (system {}).Reachable OneAtATime p := ⟨_, rfl, hl⟩
  have hid : ∀ (n : ℕ) (m : StreamMsg), p.stream.msg? ((n + 1 : ℕ) : ℤ) = some m →
      [1, 1, 2, 3][n]? = some m.msgId := by
    intro n m hm
    rw [← hids, List.getElem?_map, (show p.stream[n]? = some m from hm), Option.map_some]
  have hjob : ∀ (n : ℕ) (m : StreamMsg), p.stream.msg? ((n + 1 : ℕ) : ℤ) = some m →
      [⟨0⟩, ⟨0⟩, ⟨1⟩, ⟨0⟩][n]? = some m.data.jobId := by
    intro n m hm
    rw [← hjobs, List.getElem?_map, (show p.stream[n]? = some m from hm), Option.map_some]
  have hlen : p.stream.length = 4 := by
    rw [← List.length_map (f := StreamMsg.msgId), hids]
    rfl
  have hm : p.stream.msg? ((0 + 1 : ℕ) : ℤ) = some p.stream[0] := List.getElem?_eq_getElem _
  have hm' : p.stream.msg? ((3 + 1 : ℕ) : ℤ) = some p.stream[3] := List.getElem?_eq_getElem _
  have hfirst : p.FirstCopy 1 p.stream[0] := by
    refine ⟨hm, fun seq m hseq _ ↦ ?_⟩
    obtain ⟨n, rfl, -⟩ := WorkStream.exists_of_msg? hseq
    omega
  have hfirst' : p.FirstCopy 4 p.stream[3] := by
    refine ⟨hm', fun seq m hseq heq ↦ ?_⟩
    obtain ⟨n, rfl, hn⟩ := WorkStream.exists_of_msg? hseq
    have hlt := (List.getElem?_eq_some_iff.1 hn).1
    have hidn := hid n m hseq
    rw [heq, ← hid 3 _ hm'] at hidn
    rcases n with _ | _ | _ | n
    · exact absurd hidn (by decide)
    · exact absurd hidn (by decide)
    · exact absurd hidn (by decide)
    · omega
  have hjob₀ : p.stream[0].data.jobId = ⟨0⟩ := (Option.some.inj (hjob 0 _ hm)).symm
  have hjob₃ : p.stream[3].data.jobId = ⟨0⟩ := (Option.some.inj (hjob 3 _ hm')).symm
  exact ⟨p, _, _, hr, hids, hfirst, hfirst', hjob₀, hjob₃,
    (first_copies_in_order hr hfirst hfirst' (hjob₀.trans hjob₃.symm)).1 (by decide)⟩

/-- A job is dead-lettered and replayed, and its old message dead-letters it again, while a pass
holds the row of the replay. It is replayed once more, and a second pass is faster. -/
def overtakes : List PipelineStep :=
  [.submit ⟨0⟩ "a" (.healthy 10 ten_le_limit) [], .beginRelay, .relay 0 .served true,
    .relay 0 .served true, .relay 0 .served true, .advise (brokerAdvisory {} 1 5), .fetch 0,
    .quarantine 0 .served true, .quarantine 0 .served true, .quarantine 0 .served true,
    .killListener 0, .replay ⟨0⟩, .beginRelay, .relay 1 .served true, .fetch 0,
    .quarantine 1 .served true, .quarantine 1 .served true, .quarantine 1 .served true,
    .replay ⟨0⟩, .beginRelay, .relay 2 .served true, .relay 2 .served true,
    .relay 1 .served true]

/-- **Two passes at a time are out of order**, with the rows of one job. -/
theorem out_of_order : ∃ p : Pipeline, (system {}).Reachable TransitionSystem.anyStep p ∧
    p.stream.map (fun m ↦ (m.msgId, m.data.jobId)) = [(1, ⟨0⟩), (3, ⟨0⟩), (2, ⟨0⟩)] := by
  have hrun : ((system {}).exec empty overtakes).any (fun p ↦
      p.stream.map (fun m ↦ (m.msgId, m.data.jobId)) = [(1, ⟨0⟩), (3, ⟨0⟩), (2, ⟨0⟩)]) = true := by
    rfl
  obtain ⟨p, hl, hp⟩ := TransitionSystem.exists_leads_of_exec hrun
  exact ⟨p, ⟨_, rfl, hl⟩, of_decide_eq_true hp⟩

end Pipeline

end Orbiter
