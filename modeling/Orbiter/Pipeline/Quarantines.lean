import Orbiter.Pipeline.Invariants

/-!
# What a quarantine leaves behind

Two questions about the listener, in runs where anything may fail and anyone may die.

## When is an advisory acknowledged?

After the record of a quarantine its job is terminal or dead-lettered, and from the latter only an
operator's replay leads on; so at the acknowledgement the job is settled, or was replayed after the
record (`acked_when_handled`). The exception is the catch-all of the loop: whatever a quarantine
raises, the advisory is acknowledged, and then the job may be anywhere (`acked_of_raised`).

* `Handled`, `Cleared` — the job is terminal, or its newest event at some point was `deadLettered`
  and it is so still or was replayed since; and a quarantine whose advisory names a message of such
  a job, or is none;
* `Recorded` — the invariant: a listener past its record, or about to acknowledge without an
  exception, has a cleared quarantine.

## How often is a job dead-lettered for one message?

The event is refused only by the state the job is in, and a replay puts the job back into a state
that accepts it. A listener that died before its deletion is run again on the same message, so an
operator who replayed the job in between sees it dead-lettered for the same message twice
(`deadLettered_twice`). In runs where no message is fetched for a job replayed since, and no job is
replayed under a quarantine that will still record it, once (`deadLetters_le_one`).

* `NoneRedone` — the condition on the steps, in terms of the state before them;
* `SettledFor`, `LateSettled` — the invariant under it: whoever may still record a message's event
  finds that it is not recorded yet, or the job settled.
-/

namespace Orbiter

namespace Fleet

variable {cfg : Settings} {f f' : Fleet} {a : FleetStep}

/-- A log only grows. -/
theorem getElem?_log_step (h : f.step cfg a = some f') {j : Uuid} {i : ℕ} {e : EventType}
    (hi : (f.world.db.log j)[i]? = some e) : (f'.world.db.log j)[i]? = some e := by
  have hlt := (List.getElem?_eq_some_iff.1 hi).1
  have hgrow : ∃ l, f'.world.db.log j = f.world.db.log j ++ l := by
    rcases jobStep h j with ⟨-, hrows, -⟩ | ⟨who, key, payload, id, id', -, -, hrows, -⟩ |
      ⟨who, w, row, next, id, -, -, -, -, -, -, hrows, -⟩
    · exact ⟨[], by rw [Database.log, hrows, List.append_nil, Database.log]⟩
    · exact ⟨_, by rw [Database.log, hrows, List.map_append, Database.log]⟩
    · exact ⟨_, by rw [Database.log, hrows, List.map_append, Database.log]⟩
  obtain ⟨l, hl⟩ := hgrow
  rw [hl, List.getElem?_append_left hlt, hi]

/-- The job ended, or was dead-lettered when its log had length `seen`, and is so still or was
replayed since. -/
def Handled (f : Fleet) (j : Uuid) (seen : ℕ) : Prop :=
  (∃ row, f.world.db.job? j = some row ∧ row.state.isTerminal = true) ∨
  ∃ i, i + 1 = seen ∧ (f.world.db.log j)[i]? = some .deadLettered ∧
    ((∃ row, f.world.db.job? j = some row ∧ row.state = .deadLetter) ∨
      ∃ k, i < k ∧ (f.world.db.log j)[k]? = some .replayed)

/-- A job once handled stays so: it is terminal for good, or only a replay leads on. -/
theorem Handled.step {j : Uuid} {seen : ℕ} (hh : f.Handled j seen)
    (h : f.step cfg a = some f') : f'.Handled j seen := by
  rcases hh with ⟨row, hrow, ht⟩ | ⟨i, hi, hdead, ⟨row, hrow, hs⟩ | ⟨k, hk, hrep⟩⟩
  · exact .inl ⟨row, (unchanged_of_terminal h hrow ht).1, ht⟩
  · refine .inr ⟨i, hi, getElem?_log_step h hdead, ?_⟩
    rcases jobStep h j with ⟨hjob, -, -⟩ | ⟨who, key, payload, id, id', habs, -, -, -⟩ |
      ⟨who, w, row₀, next, id, -, -, hrow₀, hnext, -, -, hrows, -⟩
    · exact .inl ⟨row, hjob.trans hrow, hs⟩
    · rw [habs] at hrow
      exact absurd hrow (by simp)
    · -- The one event a dead-lettered job accepts is the replay, and it goes to the end of the log.
      obtain rfl := Option.some.inj (hrow.symm.trans hrow₀)
      have hev := (deadLetter_of_settled_transitions (by rw [hs]; rfl) hnext).2
      refine .inr ⟨(f.world.db.log j).length, (List.getElem?_eq_some_iff.1 hdead).1, ?_⟩
      rw [Database.log, hrows, List.map_append, ← Database.log, List.map_singleton, hev]
      exact List.getElem?_concat_length
  · exact .inr ⟨i, hi, getElem?_log_step h hdead, .inr ⟨k, hk, getElem?_log_step h hrep⟩⟩

/-- Right after the transaction of a quarantine. -/
theorem handled_of_deadLetter (hr : (system cfg).Reachable TransitionSystem.anyStep f') {j : Uuid}
    {row : JobRow SubmitRequest} (hrow : f'.world.db.job? j = some row)
    (hs : row.state.isSettled = true) : f'.Handled j (f'.world.db.log j).length := by
  have hreplay := ((consistent_of_reachable hr).projects j row hrow).state
  cases hstate : row.state with
  | succeeded | failed => exact .inl ⟨row, hrow, by rw [hstate]; rfl⟩
  | deadLetter =>
    rw [hstate] at hreplay
    have hlast := getLast?_of_replay_deadLetter hreplay
    rw [List.getLast?_eq_getElem?] at hlast
    have hlt := (List.getElem?_eq_some_iff.1 hlast).1
    exact .inr ⟨_, Nat.sub_add_cancel (Nat.one_le_of_lt hlt), hlast, .inl ⟨row, hrow, hstate⟩⟩
  | submitted | queued | running =>
    rw [hstate] at hs
    exact absurd hs (by decide)

end Fleet

namespace Pipeline

variable {cfg : Settings} {G : Pipeline → PipelineStep → Prop} {p p' : Pipeline}
  {a : PipelineStep}

/-- As `Handled.step`, for a step of the pipeline. -/
theorem handled_step {j : Uuid} {seen : ℕ} (hh : p.fleet.Handled j seen)
    (h : p.step cfg a = some p') : p'.fleet.Handled j seen := by
  rcases step_fleet h with hsame | ⟨b, -, hstep⟩
  · rwa [hsame]
  · exact hh.step hstep

/-- The advisory of a run does not parse, or the job of its message was handled at the record. -/
def Cleared (p : Pipeline) (q : QuarantineRun) : Prop :=
  ∃ x, p.advisories[q.advisory]? = some x ∧
    (parseAdvisory x.raw = .ok none ∨ ∃ adv m, parseAdvisory x.raw = .ok (some adv) ∧
      p.stream.msg? adv.streamSeq = some m ∧ p.fleet.Handled m.data.jobId q.seen)

theorem Cleared.step {q : QuarantineRun} (hq : p.Cleared q) (h : p.step cfg a = some p') :
    p'.Cleared q := by
  obtain ⟨x, hx, hparse⟩ := hq
  obtain ⟨x', hx', hraw, -⟩ := step_advisory h hx
  refine ⟨x', hx', ?_⟩
  rw [hraw]
  rcases hparse with hnone | ⟨adv, m, hadv, hm, hh⟩
  · exact .inl hnone
  · obtain ⟨m', hm', hstep⟩ := step_msg h hm
    exact .inr ⟨adv, m', hadv, hm', hstep.data ▸ handled_step hh h⟩

/-- What a listener knows that is past its record. -/
structure Recorded (p : Pipeline) : Prop where
  deleting : ∀ (qid : ℕ) (q : QuarantineRun) (adv : MaxDeliveriesAdvisory)
    (raw : Message SubmitRequest), p.quarantines[qid]? = some q → q.pc = .delete adv raw →
    p.fleet.Handled raw.jobId q.seen
  acking : ∀ (qid : ℕ) (q : QuarantineRun), p.quarantines[qid]? = some q → q.pc = .ackAdvisory →
    q.raised = true ∨ p.Cleared q

/-- The record of a quarantine, when it leads on to the deletion. -/
theorem handled_of_record (hr : (system cfg).Reachable G p) (hr' : (system cfg).Reachable G p')
    {qid : ℕ} {remembered : Bool} {q : QuarantineRun} {adv : MaxDeliveriesAdvisory}
    {raw : Message SubmitRequest} (h : p.step cfg (.quarantine qid .served remembered) = some p')
    (hget : p.quarantines[qid]? = some q) (hpc : q.pc = .record adv raw) :
    p'.fleet.Handled raw.jobId (p'.fleet.world.db.log raw.jobId).length := by
  obtain ⟨m, hm, rfl⟩ := (advised_of_reachable hr).fetched qid q adv raw hget
    (by rw [hpc]; rfl) (by rw [hpc]; rfl)
  obtain ⟨row, hrow, -⟩ := job_of_msg hr hm
  have hsub := Fleet.state_ne_submitted (fleet_reachable hr) _ row hrow
  obtain ⟨row', hrow', hset⟩ := Fleet.settled_of_deadLetter hrow hsub (record_step h hget hpc).1
  exact Fleet.handled_of_deadLetter (fleet_reachable hr') hrow' hset

/-- A listener that begins with its acknowledgement has parsed nothing. -/
theorem parse_of_start_eq_ack {raw : Loaded} (h : QuarantinePc.start raw = .ackAdvisory) :
    parseAdvisory raw = .ok none := by
  rw [QuarantinePc.start] at h
  split at h
  · contradiction
  · next hnone => exact hnone
  · contradiction

/-- A run that comes to the acknowledgement has raised, or has deleted the message. -/
theorem Recorded.acking_of_move (hr : (system cfg).Reachable G p) (hp : p.Recorded)
    {qid : ℕ} {ans : Answer} {remembered : Bool}
    (h : p.step cfg (.quarantine qid ans remembered) = some p') {q : QuarantineRun}
    {c : ListenerCall} {reply : Except ListenerExc c.Resp} (hget : p.quarantines[qid]? = some q)
    (hmove : QuarantineMove p q.pc c ans reply .ackAdvisory) :
    (q.advance p'.fleet.world.db c reply .ackAdvisory).raised = true ∨
      p'.Cleared (q.advance p'.fleet.world.db c reply .ackAdvisory) := by
  have hdeleting := fun adv raw ↦ hp.deleting qid q adv raw hget
  have hfetched := fun adv raw ↦ (advised_of_reachable hr).fetched qid q adv raw hget
  obtain ⟨x, hx, hparse⟩ := (advised_of_reachable hr).run qid q hget
  generalize q.pc = pc at hmove hdeleting hfetched hparse
  generalize hack : QuarantinePc.ackAdvisory = pc' at hmove
  cases hmove with
  | fault | missing | recordRaised | deleteMissing =>
    refine .inl ?_
    show (q.raised || true) = true
    exact Bool.or_true _
  | deleted adv raw hstored =>
    refine .inr ?_
    obtain ⟨m, hm, rfl⟩ := hfetched adv raw rfl rfl
    have hq : p.Cleared q :=
      ⟨x, hx, .inr ⟨adv, m, hparse adv rfl, hm, hdeleting adv m.data rfl⟩⟩
    exact hq.step h
  | _ => exact nomatch hack

/-- **Every step keeps the quarantines cleared after their record.** -/
theorem Recorded.step (hr : (system cfg).Reachable G p) (hr' : (system cfg).Reachable G p')
    (hp : p.Recorded) (h : p.step cfg a = some p') : p'.Recorded where
  deleting qid q' adv raw hget hpc := by
    rcases step_quarantine h hget with ⟨hold, -⟩ | ⟨q, hold, -, rfl⟩ | ⟨aid, x, rfl, hx, -, rfl⟩ |
      ⟨q, ans, remembered, c, reply, pc, rfl, hold, -, hmove, rfl⟩
    · exact handled_step (hp.deleting qid q' adv raw hold hpc) h
    · exact handled_step (hp.deleting qid q adv raw hold hpc) h
    · exact absurd hpc (start_ne_delete x.raw adv raw)
    · have hdel : pc = .delete adv raw := hpc
      subst hdel
      obtain ⟨hrec, rfl⟩ := hmove.to_delete
      have hhandled := handled_of_record hr hr' h hold hrec
      rcases hmove.call_cases with ⟨adv', hpc', rfl⟩ | ⟨adv', raw', hpc', rfl⟩ |
        ⟨adv', raw', hpc', rfl⟩ | ⟨adv', raw', hpc', rfl⟩ | ⟨hpc', rfl⟩
      · exact nomatch hpc'.symm.trans hrec
      · exact nomatch hpc'.symm.trans hrec
      · obtain ⟨rfl, rfl⟩ := QuarantinePc.record.inj (hpc'.symm.trans hrec)
        exact hhandled
      · exact nomatch hpc'.symm.trans hrec
      · exact nomatch hpc'.symm.trans hrec
  acking qid q' hget hpc := by
    rcases step_quarantine h hget with ⟨hold, -⟩ | ⟨q, hold, -, rfl⟩ | ⟨aid, x, rfl, hx, -, rfl⟩ |
      ⟨q, ans, remembered, c, reply, pc, rfl, hold, -, hmove, rfl⟩
    · exact (hp.acking qid q' hold hpc).imp_right fun hq ↦ hq.step h
    · exact (hp.acking qid q hold hpc).imp_right fun hq ↦ Cleared.step (q := q) hq h
    · obtain ⟨x', hx', hraw, -⟩ := step_advisory h hx
      exact .inr ⟨x', hx', .inl (hraw ▸ parse_of_start_eq_ack hpc)⟩
    · have hack : pc = .ackAdvisory := hpc
      subst hack
      exact hp.acking_of_move hr h hold hmove

theorem recorded_of_reachable (h : (system cfg).Reachable G p) : p.Recorded := by
  refine h.induct (I := Recorded) (fun p hp ↦ ?_)
    fun p a p' hr ih hg hs ↦ ih.step hr (hr.next hg hs) hs
  rw [hp]
  exact ⟨fun qid q adv raw hget ↦ absurd hget (by simp [empty]),
    fun qid q hget ↦ absurd hget (by simp [empty])⟩

/-- **A quarantine can be late, and it is lost only where it raised.** Whenever an advisory comes to
be acknowledged, in any run: the quarantine of the acknowledging listener raised, or the advisory
did not parse, or the job of its message has succeeded, failed or is dead-lettered, or was
dead-lettered when that listener recorded it and was replayed since. -/
theorem acked_when_handled (h : (system cfg).Reachable TransitionSystem.anyStep p)
    {a : PipelineStep} (hs : (system cfg).step p a = some p') {aid : ℕ} {x x' : StoredAdvisory}
    (hx : p.advisories[aid]? = some x) (hx' : p'.advisories[aid]? = some x')
    (hunacked : x.acked = false) (hacked : x'.acked = true) :
    ∃ (qid : ℕ) (q : QuarantineRun), p.quarantines[qid]? = some q ∧ q.advisory = aid ∧
      q.pc = .ackAdvisory ∧
      (q.raised = true ∨ parseAdvisory x.raw = .ok none ∨
        ∃ adv m row, parseAdvisory x.raw = .ok (some adv) ∧
          p.stream.msg? adv.streamSeq = some m ∧
          p.fleet.world.db.job? m.data.jobId = some row ∧
          (row.state = .succeeded ∨ row.state = .failed ∨ row.state = .deadLetter ∨
            ∃ i k, i + 1 = q.seen ∧ (p.fleet.world.db.log m.data.jobId)[i]? = some .deadLettered ∧
              i < k ∧ (p.fleet.world.db.log m.data.jobId)[k]? = some .replayed)) := by
  obtain ⟨x₁, hx₁, -, hsame | ⟨qid, ans, remembered, q, rfl, hget, -, hpc, rfl⟩⟩ :=
    step_advisory hs hx
  · obtain rfl := Option.some.inj (hx₁.symm.trans hx')
    rw [hsame, hunacked] at hacked
    exact absurd hacked (by decide)
  refine ⟨qid, q, hget, rfl, hpc, ?_⟩
  rcases (recorded_of_reachable h).acking qid q hget hpc with hraised | ⟨x₂, hx₂, hparse⟩
  · exact .inl hraised
  obtain rfl := Option.some.inj (hx₂.symm.trans hx)
  rcases hparse with hnone | ⟨adv, m, hadv, hm, hh⟩
  · exact .inr (.inl hnone)
  obtain ⟨row, hrow, -⟩ := job_of_msg h hm
  refine .inr (.inr ⟨adv, m, row, hadv, hm, hrow, ?_⟩)
  rcases hh with ⟨row', hrow', ht⟩ | ⟨i, hi, hdead, ⟨row', hrow', hs⟩ | ⟨k, hk, hrep⟩⟩
  · obtain rfl := Option.some.inj (hrow.symm.trans hrow')
    cases hstate : row.state <;> rw [hstate] at ht <;> first
      | exact .inl rfl
      | exact .inr (.inl rfl)
      | exact nomatch ht
  · obtain rfl := Option.some.inj (hrow.symm.trans hrow')
    exact .inr (.inr (.inl hs))
  · exact .inr (.inr (.inr ⟨i, k, hi, hdead, hk, hrep⟩))

/-- The quarantine of a poison job, up to its acknowledgement. -/
def quarantinesPoison : List PipelineStep :=
  exhaustsPoison ++ [.fetch 0, .quarantine 0 .served true, .quarantine 0 .served true,
    .quarantine 0 .served true, .quarantine 0 .served true]

/-- Undisturbed, it acknowledges an advisory that parses, in the sight of a settled job. -/
theorem acked_when_handled_of_poison : ∃ (p p' : Pipeline) (x x' : StoredAdvisory),
    (system {}).Reachable TransitionSystem.anyStep p ∧
    (system {}).step p (.quarantine 0 .served true) = some p' ∧
    p.advisories[0]? = some x ∧ p'.advisories[0]? = some x' ∧ x.acked = false ∧ x'.acked = true ∧
    (∃ adv, parseAdvisory x.raw = .ok (some adv)) ∧ (∀ q ∈ p.quarantines, q.raised = false) ∧
    ∃ (adv : MaxDeliveriesAdvisory) (m : StreamMsg) (row : JobRow SubmitRequest),
      p.stream.msg? adv.streamSeq = some m ∧
      p.fleet.world.db.job? m.data.jobId = some row ∧ row.state = .deadLetter := by
  have hrun : ((system {}).exec empty quarantinesPoison).any (fun p ↦
      (p.advisories[0]?.any fun x ↦ !x.acked && (advisory? x.raw).isSome) &&
      (((system {}).step p (.quarantine 0 .served true)).any fun p' ↦
        p'.advisories[0]?.any fun x ↦ x.acked) &&
      (p.quarantines.all fun q ↦ !q.raised) &&
      p.fleet.world.db.jobs.entries.all fun e ↦ e.2.state = .deadLetter) = true := by
    rfl
  obtain ⟨p, hl, hp⟩ := TransitionSystem.exists_leads_of_exec hrun
  simp only [Bool.and_eq_true, Option.any_eq_true, List.all_eq_true, decide_eq_true_eq,
    Bool.not_eq_true'] at hp
  obtain ⟨⟨⟨⟨x, hx, hun, hparse⟩, p', hs, x', hx', hack⟩, hraised⟩, hdead⟩ := hp
  have hr : (system {}).Reachable TransitionSystem.anyStep p := ⟨_, rfl, hl⟩
  obtain ⟨adv, hadv⟩ := Option.isSome_iff_exists.1 hparse
  have hparse : ∃ adv, parseAdvisory x.raw = .ok (some adv) := ⟨adv, advisory?_eq_some.1 hadv⟩
  refine ⟨p, p', x, x', hr, hs, hx, hx', hun, hack, hparse, hraised, ?_⟩
  obtain ⟨qid, q, hget, -, -, hq | hq | ⟨adv, m, row, -, hm, hrow, -⟩⟩ :=
    acked_when_handled hr hs hx hx' hun hack
  · rw [hraised q (List.mem_of_getElem? hget)] at hq
    exact absurd hq (by decide)
  · obtain ⟨adv, hadv⟩ := hparse
    rw [hadv] at hq
    exact absurd hq (by simp)
  · exact ⟨adv, m, row, hm, hrow, hdead ⟨_, row⟩ (AList.mem_lookup_iff.1 hrow)⟩

/-- The same, with the database out of reach at the record. -/
def quarantineRaises : List PipelineStep :=
  exhaustsPoison ++ [.fetch 0, .quarantine 0 .served true, .quarantine 0 .served true,
    .quarantine 0 (.failed false) true]

/-- **The advisory of a queued job is acknowledged**, and the job was never dead-lettered. -/
theorem acked_of_raised : ∃ (p p' : Pipeline) (x x' : StoredAdvisory)
    (adv : MaxDeliveriesAdvisory) (m : StreamMsg) (row : JobRow SubmitRequest),
    (system {}).Reachable TransitionSystem.anyStep p ∧
    (system {}).step p (.quarantine 0 .served true) = some p' ∧
    p.advisories[0]? = some x ∧ p'.advisories[0]? = some x' ∧ x.acked = false ∧ x'.acked = true ∧
    parseAdvisory x.raw = .ok (some adv) ∧ p.stream.msg? adv.streamSeq = some m ∧
    p.fleet.world.db.job? m.data.jobId = some row ∧ row.state = .queued ∧
    .deadLettered ∉ p.fleet.world.db.log m.data.jobId := by
  have hrun : ((system {}).exec empty quarantineRaises).any (fun p ↦
      (p.advisories[0]?.any fun x ↦ !x.acked && (advisory? x.raw).any fun adv ↦
        (p.stream.msg? adv.streamSeq).any fun m ↦
          (p.fleet.world.db.job? m.data.jobId).any fun row ↦ row.state = .queued &&
            !(p.fleet.world.db.log m.data.jobId).contains .deadLettered) &&
      ((system {}).step p (.quarantine 0 .served true)).any fun p' ↦
        p'.advisories[0]?.any fun x ↦ x.acked) = true := by
    rfl
  obtain ⟨p, hl, hp⟩ := TransitionSystem.exists_leads_of_exec hrun
  simp only [Bool.and_eq_true, Option.any_eq_true, Bool.not_eq_true', decide_eq_true_eq,
    List.contains_eq_mem, decide_eq_false_iff_not] at hp
  obtain ⟨⟨x, hx, hun, adv, hadv, m, hm, row, hrow, hstate, hlog⟩, p', hs, x', hx', hack⟩ := hp
  exact ⟨p, p', x, x', adv, m, row, ⟨_, rfl, hl⟩, hs, hx, hx', hun, hack, advisory?_eq_some.1 hadv,
    hm, hrow, hstate, hlog⟩

end Pipeline

/-! ### Once for each message -/

/-- The row records a dead-lettering for this stream sequence. -/
def EventRow.deadLetters (r : EventRow) (streamSeq : ℤ) : Bool :=
  r.event = .deadLettered && (r.detail.get? "stream_seq").bind Json.int? = some streamSeq

/-- How often the log of a job records a dead-lettering for this stream sequence. -/
def Database.deadLetters (db : Database SubmitRequest) (j : Uuid) (streamSeq : ℤ) : ℕ :=
  (db.eventRows j).countP fun r ↦ r.2.deadLetters streamSeq

namespace Fleet

variable {cfg : Settings} {f f' : Fleet} {a : FleetStep}

/-- **What a step does to the count**: nothing, or one more, by the transaction of a quarantine for
this sequence that met an unsettled job. -/
theorem deadLetters_cases (h : f.step cfg a = some f') (j : Uuid) (streamSeq : ℤ) :
    f'.world.db.deadLetters j streamSeq = f.world.db.deadLetters j streamSeq ∨
    (f'.world.db.deadLetters j streamSeq = f.world.db.deadLetters j streamSeq + 1 ∧
      (∃ deliveries, a = .deadLetter j streamSeq deliveries) ∧
      (∃ row, f.world.db.job? j = some row ∧ row.state.isSettled = false) ∧
      ∃ row, f'.world.db.job? j = some row ∧ row.state.isSettled = true) := by
  rcases jobStep h j with ⟨-, hrows, -⟩ | ⟨who, key, payload, id, id', -, -, hrows, -⟩ |
    ⟨who, w, row, next, id, hmade, rfl, hrow, hnext, -, hjob, hrows, -⟩
  · rw [Database.deadLetters, hrows]
    exact .inl rfl
  · rw [Database.deadLetters, hrows, List.countP_append]
    exact .inl rfl
  · rw [Database.deadLetters, hrows, List.countP_append, List.countP_singleton]
    split
    · next hcount =>
      rw [EventRow.deadLetters, Bool.and_eq_true, decide_eq_true_eq, decide_eq_true_eq] at hcount
      obtain ⟨hev, hdetail⟩ := hcount
      dsimp only at hev hdetail
      refine .inr ⟨rfl, ?_, ⟨row, hrow, ?_⟩, _, hjob, ?_⟩
      · obtain ⟨streamSeq', deliveries, rfl, hw⟩ := deadLetter_of_makes hmade hev
        rw [hw] at hdetail
        obtain rfl : streamSeq' = streamSeq := Option.some.inj hdetail
        exact ⟨deliveries, rfl⟩
      · cases hset : row.state.isSettled with
        | false => rfl
        | true =>
          rw [(deadLetter_of_settled_transitions hset hnext).2] at hev
          exact nomatch hev
      · rw [Database.acceptRow, target_of_transitions hnext, hev]
        rfl
    · exact .inl rfl

/-- Once dead-lettered for this sequence, the job is settled. -/
def SettledFor (f : Fleet) (j : Uuid) (streamSeq : ℤ) : Prop :=
  0 < f.world.db.deadLetters j streamSeq →
    ∃ row, f.world.db.job? j = some row ∧ row.state.isSettled = true

/-- Only an accepted replay ends that. -/
theorem SettledFor.step {j : Uuid} {streamSeq : ℤ} (hf : f.SettledFor j streamSeq)
    (h : f.step cfg a = some f')
    (hreplay : a = .replay j → 0 < f.world.db.deadLetters j streamSeq →
      ∀ row, f.world.db.job? j = some row → row.state ≠ .deadLetter) :
    f'.SettledFor j streamSeq := by
  intro hpos
  rcases deadLetters_cases h j streamSeq with hsame | ⟨-, -, -, hset⟩
  · rw [hsame] at hpos
    obtain ⟨row, hrow, hset⟩ := hf hpos
    rcases jobStep h j with ⟨hjob, -, -⟩ | ⟨who, key, payload, id, id', habs, -, -, -⟩ |
      ⟨who, w, row₀, next, id, hmade, rfl, hrow₀, hnext, -, -, -, -⟩
    · exact ⟨row, hjob.trans hrow, hset⟩
    · rw [habs] at hrow
      exact absurd hrow (by simp)
    · obtain rfl := Option.some.inj (hrow.symm.trans hrow₀)
      obtain ⟨hdead, hev⟩ := deadLetter_of_settled_transitions hset hnext
      have ha := replay_of_makes hmade hev
      exact absurd hdead (hreplay ha hpos row hrow)
  · exact hset

end Fleet

/-- A control point between the fetch and the record. -/
def QuarantinePc.Unrecorded (pc : QuarantinePc) (adv : MaxDeliveriesAdvisory)
    (raw : Message SubmitRequest) : Prop := pc = .publish adv raw ∨ pc = .record adv raw

/-- Whoever is before its record was so, or has just fetched the message. -/
theorem QuarantineMove.to_unrecorded {p : Pipeline} {pc pc' : QuarantinePc} {c : ListenerCall}
    {ans : Answer} {reply : Except ListenerExc c.Resp} (h : QuarantineMove p pc c ans reply pc')
    {adv : MaxDeliveriesAdvisory} {raw : Message SubmitRequest} (hpc : pc'.Unrecorded adv raw) :
    pc.Unrecorded adv raw ∨ (pc = .getMsg adv ∧ ans = .served ∧
      ∃ m, p.stream.stored? adv.streamSeq = some m ∧ m.data = raw) := by
  cases h with
  | @fetched adv' m hm =>
    rcases hpc with hpc | hpc
    · obtain ⟨rfl, rfl⟩ := QuarantinePc.publish.inj hpc
      exact .inr ⟨rfl, rfl, m, hm, rfl⟩
    · exact nomatch hpc
  | copied adv' raw' =>
    rcases hpc with hpc | hpc
    · exact nomatch hpc
    · obtain ⟨rfl, rfl⟩ := QuarantinePc.record.inj hpc
      exact .inl (.inl rfl)
  | _ => rcases hpc with hpc | hpc <;> exact nomatch hpc

namespace Pipeline

variable {cfg : Settings} {p p' : Pipeline} {a : PipelineStep}

/-- The guard: a message is fetched for a quarantine only while its job, if it was dead-lettered for
that message before, is still settled; and no replay is accepted while a living quarantine of the
job that comes too late is before its record. -/
def NoneRedone (p : Pipeline) : PipelineStep → Prop
  | .quarantine qid .served _ => ∀ q adv m, p.quarantines[qid]? = some q → q.pc = .getMsg adv →
      p.stream.stored? adv.streamSeq = some m →
      p.fleet.SettledFor m.data.jobId adv.streamSeq
  | .replay j => ∀ (qid : ℕ) q adv raw, p.quarantines[qid]? = some q → q.alive = true →
      q.pc.Unrecorded adv raw → raw.jobId = j →
      0 < p.fleet.world.db.deadLetters j adv.streamSeq →
      ∀ row, p.fleet.world.db.job? j = some row → row.state ≠ .deadLetter
  | _ => True

/-- Whoever will still record finds the job settled, if it was dead-lettered for that message. -/
def LateSettled (p : Pipeline) : Prop :=
  ∀ (qid : ℕ) (q : QuarantineRun) (adv : MaxDeliveriesAdvisory) (raw : Message SubmitRequest),
    p.quarantines[qid]? = some q → q.alive = true → q.pc.Unrecorded adv raw →
    p.fleet.SettledFor raw.jobId adv.streamSeq

/-- Under the condition, a job settled for a message stays so while somebody may still record it. -/
theorem settledFor_step (hg : NoneRedone p a) (h : p.step cfg a = some p') {qid : ℕ}
    {q : QuarantineRun} {adv : MaxDeliveriesAdvisory} {raw : Message SubmitRequest}
    (hget : p.quarantines[qid]? = some q) (halive : q.alive = true)
    (hpc : q.pc.Unrecorded adv raw) (hs : p.fleet.SettledFor raw.jobId adv.streamSeq) :
    p'.fleet.SettledFor raw.jobId adv.streamSeq := by
  rcases step_fleet h with hsame | ⟨b, hb, hstep⟩
  · rwa [hsame]
  · refine hs.step hstep ?_
    rintro rfl
    rcases hb with _ | _
    exact hg qid q adv raw hget halive hpc rfl

/-- **Every step under the condition** keeps late records harmless. -/
theorem LateSettled.step (hp : p.LateSettled) (hg : NoneRedone p a)
    (h : p.step cfg a = some p') : p'.LateSettled := by
  intro qid q' adv raw hget halive hpc
  rcases step_quarantine h hget with ⟨hold, -⟩ | ⟨q, hold, -, rfl⟩ | ⟨aid, x, rfl, hx, -, rfl⟩ |
    ⟨q, ans, remembered, c, reply, pc, rfl, hold, halive₀, hmove, rfl⟩
  · exact settledFor_step hg h hold halive hpc (hp qid q' adv raw hold halive hpc)
  · exact absurd halive (by simp)
  · have hraw := raw?_start x.raw
    rcases hpc with hpc | hpc <;> rw [show QuarantinePc.start x.raw = _ from hpc] at hraw <;>
      exact nomatch hraw
  · rcases hmove.to_unrecorded hpc with hpc₀ | ⟨hfetch, rfl, m, hm, rfl⟩
    · exact settledFor_step hg h hold halive₀ hpc₀ (hp qid q adv raw hold halive₀ hpc₀)
    · have hs := hg q adv m hold hfetch hm
      rcases step_fleet h with hsame | ⟨b, hb, hstep⟩
      · rwa [hsame]
      · refine hs.step hstep ?_
        rintro rfl
        exact nomatch hb

/-- Late records are harmless in every state reached under the condition. -/
theorem lateSettled_of_reachable (h : (system cfg).Reachable NoneRedone p) : p.LateSettled := by
  refine h.induct (I := LateSettled) (fun p hp ↦ ?_) fun p a p' _ ih hg hs ↦ ih.step hg hs
  rw [hp]
  exact fun qid q adv raw hget ↦ absurd hget (by simp [empty])

/-- **A job is dead-lettered for a message once**, in every run in which no quarantine is redone for
a job that was replayed after it. -/
theorem deadLetters_le_one (h : (system cfg).Reachable NoneRedone p) (j : Uuid)
    (streamSeq : ℤ) : p.fleet.world.db.deadLetters j streamSeq ≤ 1 := by
  refine h.induct (I := fun p ↦ p.fleet.world.db.deadLetters j streamSeq ≤ 1) (fun p hp ↦ ?_)
    fun p a p' hr ih _ hs ↦ ?_
  · rw [hp]
    exact Nat.zero_le 1
  · rcases step_fleet hs with hsame | ⟨b, hb, hstep⟩
    · rwa [hsame]
    · rcases Fleet.deadLetters_cases hstep j streamSeq with hsame |
        ⟨hone, ⟨deliveries, rfl⟩, ⟨row, hrow, hunsettled⟩, -⟩
      · rwa [hsame]
      · -- The job is not settled, so it was not dead-lettered for this message before.
        rcases hb with _ | _ | _ | _ | _ | _ | ⟨ans, remembered, hget, halive, hpc⟩
        rw [hone]
        refine Nat.succ_le_succ (Nat.le_of_not_lt fun hpos ↦ ?_)
        obtain ⟨row', hrow', hset⟩ :=
          lateSettled_of_reachable hr _ _ _ _ hget halive (.inr hpc) hpos
        obtain rfl := Option.some.inj (hrow.symm.trans hrow')
        rw [hunsettled] at hset
        exact absurd hset (by decide)

/-- A test that implies the guard. -/
def noneRedone? (p : Pipeline) : PipelineStep → Bool
  | .quarantine qid .served _ => p.quarantines[qid]?.all fun q ↦
      match q.pc with
      | .getMsg adv => (p.stream.stored? adv.streamSeq).all fun m ↦
          p.fleet.world.db.deadLetters m.data.jobId adv.streamSeq = 0
      | _ => true
  | .replay _ => p.quarantines.all fun q ↦
      match q.pc with
      | .publish _ _ | .record _ _ => false
      | _ => true
  | _ => true

theorem noneRedone_of_noneRedone? (h : p.noneRedone? a = true) : NoneRedone p a := by
  cases a with
  | quarantine qid ans remembered =>
    match ans with
    | .served =>
      intro q adv m hget hpc hm hpos
      have hzero : p.fleet.world.db.deadLetters m.data.jobId adv.streamSeq = 0 := by
        simpa [noneRedone?, hget, hpc, hm] using h
      exact absurd hzero (Nat.pos_iff_ne_zero.1 hpos)
    | .executed _ _ | .failed _ => trivial
  | replay j =>
    intro qid q adv raw hget _ hpc
    have hq := List.all_eq_true.1 h q (List.mem_of_getElem? hget)
    rcases hpc with hpc | hpc <;> rw [hpc] at hq <;> exact nomatch hq
  | _ => trivial

/-- A poison job is quarantined, replayed, and quarantined for its second message. -/
def quarantinesTwoMessages : List PipelineStep :=
  quarantinesPoison ++ [.quarantine 0 .served true, .replay ⟨0⟩, .beginRelay,
    .relay 1 .served true, .relay 1 .served true, .relay 1 .served true,
    .deliver 2 "a", .handle 5 .served, .deliver 2 "a", .handle 6 .served,
    .deliver 2 "a", .handle 7 .served, .deliver 2 "a", .handle 8 .served,
    .deliver 2 "a", .handle 9 .served, .exhaust 2, .fetch 1, .quarantine 1 .served true,
    .quarantine 1 .served true, .quarantine 1 .served true]

/-- Its log holds two dead-letterings, one for each message. -/
theorem deadLetters_le_one_of_two_messages : ∃ p : Pipeline,
    (system {}).Reachable NoneRedone p ∧
    p.fleet.world.db.log ⟨0⟩ = [.submitted, .enqueued, .deadLettered, .replayed, .deadLettered] ∧
    p.fleet.world.db.deadLetters ⟨0⟩ 1 ≤ 1 ∧ p.fleet.world.db.deadLetters ⟨0⟩ 2 ≤ 1 := by
  have hrun : ((system {}).execGuarded noneRedone? empty quarantinesTwoMessages).any (fun p ↦
      p.fleet.world.db.log ⟨0⟩ =
        [.submitted, .enqueued, .deadLettered, .replayed, .deadLettered]) = true := by
    rfl
  obtain ⟨p, hl, hlog⟩ := TransitionSystem.exists_leads_of_execGuarded
    (fun p a ↦ noneRedone_of_noneRedone? (p := p) (a := a)) hrun
  have hr : (system {}).Reachable NoneRedone p := ⟨_, rfl, hl⟩
  exact ⟨p, hr, of_decide_eq_true hlog, deadLetters_le_one hr ⟨0⟩ 1, deadLetters_le_one hr ⟨0⟩ 2⟩

/-- The listener dies after its record, the operator replays the job, and the next listener is given
the same advisory. -/
def redoesQuarantine : List PipelineStep :=
  exhaustsPoison ++ [.fetch 0, .quarantine 0 .served true, .quarantine 0 .served true,
    .quarantine 0 .served true, .killListener 0, .replay ⟨0⟩, .fetch 0,
    .quarantine 1 .served true, .quarantine 1 .served true, .quarantine 1 .served true]

/-- **The replayed job is dead-lettered for the same message again.** -/
theorem deadLettered_twice : ∃ p : Pipeline,
    (system {}).Reachable TransitionSystem.anyStep p ∧
    p.fleet.world.db.log ⟨0⟩ = [.submitted, .enqueued, .deadLettered, .replayed, .deadLettered] ∧
    p.fleet.world.db.deadLetters ⟨0⟩ 1 = 2 := by
  have hrun : ((system {}).exec empty redoesQuarantine).any (fun p ↦
      p.fleet.world.db.log ⟨0⟩ =
        [.submitted, .enqueued, .deadLettered, .replayed, .deadLettered] &&
      p.fleet.world.db.deadLetters ⟨0⟩ 1 = 2) = true := by
    rfl
  obtain ⟨p, hl, hp⟩ := TransitionSystem.exists_leads_of_exec hrun
  simp only [Bool.and_eq_true, decide_eq_true_eq] at hp
  exact ⟨p, ⟨_, rfl, hl⟩, hp.1, hp.2⟩

end Pipeline

end Orbiter
