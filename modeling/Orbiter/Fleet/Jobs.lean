import Orbiter.Fleet.Moves

/-!
# What a run of the fleet does to a job

Every step of the fleet, whoever makes it, does to each job one of the three things a transaction
can do, and what it writes is one of six kinds of write (`Fleet.Makes`). From this and the
projection of the ledger: an outcome ends a job for good. The store plays no part, so nothing that
expires, vanishes or is claimed twice can change it.

## Main results

* `jobStep` — **the step lemma for jobs**: every step leaves a job alone, creates it, or adds one
  accepted write of a kind in `Makes`. Later modules prove their invariants about jobs from it;
* `consistent_of_reachable` — table, log and history tell one story in every reachable state;
* `result_iff_of_reachable` — a job has a result exactly when it has succeeded;
* `outcome_is_final` — a job has one final event at most, it is the last of its log, and from then
  on the row and the log do not change. Takeovers, quarantines, replays and deaths are all among the
  steps, and none of them is accepted on a terminal job.
-/

namespace Orbiter

open Worker

/-- The four writes of a `handle` call, each at its control point and under its lease. -/
theorem HandleCall.recordEvent_of_call? {cfg : Settings} {hc : HandleCall} {w : Write}
    (h : hc.call? cfg = some (.recordEvent w)) :
    hc.alive = true ∧ ∃ l, (hc.pc = .recordStarted l ∧ w = startedWrite hc.delivery l) ∨
      (∃ result, hc.pc = .recordCompleted l result ∧ w = completedWrite hc.delivery l result) ∨
      (∃ message, hc.pc = .recordRequeued l message ∧ w = requeuedWrite hc.delivery l message) ∨
      (∃ message, hc.pc = .recordFailed l message ∧ w = failedWrite hc.delivery l message) := by
  obtain ⟨halive, h⟩ := call?_eq_some.1 h
  refine ⟨halive, ?_⟩
  generalize hc.pc = pc at h ⊢
  cases pc with
  | recordStarted l => cases h; exact ⟨l, .inl ⟨rfl, rfl⟩⟩
  | recordCompleted l result => cases h; exact ⟨l, .inr (.inl ⟨result, rfl, rfl⟩)⟩
  | recordRequeued l message => cases h; exact ⟨l, .inr (.inr (.inl ⟨message, rfl, rfl⟩))⟩
  | recordFailed l message => cases h; exact ⟨l, .inr (.inr (.inr ⟨message, rfl, rfl⟩))⟩
  | _ => cases h

namespace Fleet

variable {cfg : Settings}

/-- The writes a step may make: a `handle` step the one its call is about to make, the operator and
the listener theirs, without a token and without a result. -/
def Makes (cfg : Settings) (f : Fleet) : FleetStep → Writer → Write → Prop
  | .handle pid _, who, w =>
    who = .handle pid ∧ ∃ hc, f.calls[pid]? = some hc ∧ hc.call? cfg = some (.recordEvent w)
  | .replay jobId, who, w => who = .operator ∧ w = Database.replayWrite jobId
  | .deadLetter jobId streamSeq deliveries, who, w =>
    who = .listener ∧ w = deadLetterWrite jobId streamSeq deliveries
  | _, _, _ => False

/-- **One step, one thing to each job.** -/
theorem jobStep {f f' : Fleet} {a : FleetStep} (h : f.step cfg a = some f') (j : Uuid) :
    World.JobStep (f.Makes cfg a) f.world f'.world j := by
  cases a with
  | submit jobId key payload carrier =>
    obtain rfl := Option.some.inj h
    refine (World.jobStep_transact f.world .submitter _ j).mono fun who w hw ↦ ?_
    exact absurd hw.2 (by simp [RepoCall.write?])
  | replay jobId =>
    obtain rfl := Option.some.inj h
    refine (World.jobStep_transact f.world .operator _ j).mono fun who w hw ↦ ?_
    exact ⟨hw.1, (Option.some.inj hw.2).symm⟩
  | deadLetter jobId streamSeq deliveries =>
    obtain rfl := Option.some.inj h
    refine (World.jobStep_transact f.world .listener _ j).mono fun who w hw ↦ ?_
    exact ⟨hw.1, (Option.some.inj hw.2).symm⟩
  | handle pid ans =>
    obtain ⟨hc, c, pc, hget, hcall, -, rfl⟩ := stepHandle_eq_some h
    refine (World.jobStep_serve f.world (.handle pid) c ans j).mono fun who w hw ↦ ?_
    obtain ⟨rfl, rfl⟩ := hw
    exact ⟨rfl, hc, hget, hcall⟩
  | publish ids | start d | die pid | tick ms | vanish key =>
    obtain rfl := Option.some.inj h
    exact .unchanged rfl rfl rfl

/-- Table, log and history tell one story in every run of the fleet. -/
theorem consistent_of_reachable {f : Fleet}
    (h : (system cfg).Reachable TransitionSystem.anyStep f) : f.world.ledger.Consistent := by
  refine h.induct (I := fun f ↦ f.world.ledger.Consistent) (fun f hf ↦ ?_)
    fun f a f' _ hc _ hs ↦ ?_
  · rw [hf]
    exact World.consistent_empty
  · cases a with
    | submit | replay | deadLetter =>
      obtain rfl := Option.some.inj hs
      exact World.consistent_transact hc ..
    | handle pid ans =>
      obtain ⟨hc', c, pc, -, -, -, rfl⟩ := stepHandle_eq_some hs
      exact World.consistent_serve hc ..
    | publish ids =>
      obtain rfl := Option.some.inj hs
      exact World.consistent_markPublished hc ids
    | start d | die pid | tick ms | vanish key =>
      obtain rfl := Option.some.inj hs
      exact hc

/-- Only a quarantine writes `deadLettered`. -/
theorem deadLetter_of_makes {f : Fleet} {a : FleetStep} {who : Writer} {w : Write}
    (h : f.Makes cfg a who w) (hev : w.event = .deadLettered) :
    ∃ streamSeq deliveries, a = .deadLetter w.jobId streamSeq deliveries ∧
      w = deadLetterWrite w.jobId streamSeq deliveries := by
  cases a with
  | deadLetter jobId streamSeq deliveries =>
    obtain ⟨-, rfl⟩ := h
    exact ⟨streamSeq, deliveries, rfl, rfl⟩
  | replay jobId =>
    obtain ⟨-, rfl⟩ := h
    exact nomatch hev
  | handle pid ans =>
    obtain ⟨-, hc, -, hcall⟩ := h
    obtain ⟨-, l, ⟨-, rfl⟩ | ⟨result, -, rfl⟩ | ⟨message, -, rfl⟩ | ⟨message, -, rfl⟩⟩ :=
      HandleCall.recordEvent_of_call? hcall <;> exact nomatch hev
  | submit | publish | start | die | tick | vanish => exact h.elim

/-- Only an operator writes `replayed`. -/
theorem replay_of_makes {f : Fleet} {a : FleetStep} {who : Writer} {w : Write}
    (h : f.Makes cfg a who w) (hev : w.event = .replayed) : a = .replay w.jobId := by
  cases a with
  | replay jobId =>
    obtain ⟨-, rfl⟩ := h
    rfl
  | deadLetter jobId streamSeq deliveries =>
    obtain ⟨-, rfl⟩ := h
    exact nomatch hev
  | handle pid ans =>
    obtain ⟨-, hc, -, hcall⟩ := h
    obtain ⟨-, l, ⟨-, rfl⟩ | ⟨result, -, rfl⟩ | ⟨message, -, rfl⟩ | ⟨message, -, rfl⟩⟩ :=
      HandleCall.recordEvent_of_call? hcall <;> exact nomatch hev
  | submit | publish | start | die | tick | vanish => exact h.elim

/-! ### Results -/

/-- Only a completion carries a result, and every completion does. -/
theorem result_of_makes {f : Fleet} {a : FleetStep} {who : Writer} {w : Write}
    (h : f.Makes cfg a who w) : w.result.isSome = true ↔ w.event = .completed := by
  cases a with
  | replay jobId =>
    obtain ⟨-, rfl⟩ := h
    simp [Database.replayWrite]
  | deadLetter jobId streamSeq deliveries =>
    obtain ⟨-, rfl⟩ := h
    simp [deadLetterWrite]
  | handle pid ans =>
    obtain ⟨-, hc, -, hcall⟩ := h
    obtain ⟨-, l, ⟨-, rfl⟩ | ⟨result, -, rfl⟩ | ⟨message, -, rfl⟩ | ⟨message, -, rfl⟩⟩ :=
      HandleCall.recordEvent_of_call? hcall
    · simp [startedWrite]
    · simp [completedWrite]
    · simp [requeuedWrite]
    · simp [failedWrite]
  | submit | publish | start | die | tick | vanish => exact absurd h id

/-- **A result is there exactly when the job has succeeded.** -/
theorem result_iff_of_reachable {f : Fleet}
    (h : (system cfg).Reachable TransitionSystem.anyStep f) :
    ∀ j row, f.world.db.job? j = some row →
      (row.result.isSome = true ↔ row.state = .succeeded) := by
  refine h.induct (I := fun f ↦ ∀ j row, f.world.db.job? j = some row →
    (row.result.isSome = true ↔ row.state = .succeeded)) (fun f hf ↦ ?_) fun f a f' _ ih _ hs ↦ ?_
  · rw [hf]
    exact fun j row hj ↦ absurd hj (by simp [World.empty])
  · intro j row' hj'
    rcases jobStep hs j with ⟨hjob, -, -⟩ | ⟨who, key, payload, id, id', -, hjob, -, -⟩ |
      ⟨who, w, row, next, id, hmade, hid, hrow, hnext, -, hjob, -, -⟩
    · exact ih j row' (hjob ▸ hj')
    · obtain rfl := Option.some.inj (hjob.symm.trans hj')
      simp [Database.newRow]
    · obtain rfl := Option.some.inj (hjob.symm.trans hj')
      have hold := ih j row hrow
      have hres := result_of_makes hmade
      have htarget := target_of_transitions hnext
      -- The job was not terminal, so it had no result before this write.
      have hnone : row.result = none := by
        cases hr : row.result with
        | none => rfl
        | some r =>
          rw [hr] at hold
          rw [hold.1 rfl, transitions_terminal rfl] at hnext
          exact absurd hnext (by simp)
      rw [Database.acceptRow, hnone, Option.or_none, hres, htarget]
      cases w.event <;> simp [EventType.target]

/-! ### The end of a job -/

/-- A job in a terminal state is left alone by every step. -/
theorem unchanged_of_terminal {f f' : Fleet} {a : FleetStep} (h : f.step cfg a = some f')
    {j : Uuid} {row : JobRow SubmitRequest} (hj : f.world.db.job? j = some row)
    (ht : row.state.isTerminal = true) :
    f'.world.db.job? j = some row ∧ f'.world.db.eventRows j = f.world.db.eventRows j := by
  rcases jobStep h j with ⟨hjob, hrows, -⟩ | ⟨who, key, payload, id, id', habs, -, -, -⟩ |
    ⟨who, w, row', next, id, -, -, hrow, hnext, -, -, -, -⟩
  · exact ⟨hjob.trans hj, hrows⟩
  · rw [habs] at hj
    exact absurd hj (by simp)
  · obtain rfl := Option.some.inj (hrow.symm.trans hj)
    rw [transitions_terminal ht] at hnext
    exact absurd hnext (by simp)

theorem leads_of_terminal {f f' : Fleet}
    (hr : (system cfg).Reachable TransitionSystem.anyStep f)
    (hl : (system cfg).Leads TransitionSystem.anyStep f f') {j : Uuid} {row : JobRow SubmitRequest}
    (hj : f.world.db.job? j = some row) (ht : row.state.isTerminal = true) :
    f'.world.db.job? j = some row ∧ f'.world.db.eventRows j = f.world.db.eventRows j := by
  refine TransitionSystem.Leads.stable (P := fun g : Fleet ↦ g.world.db.job? j = some row ∧
    g.world.db.eventRows j = f.world.db.eventRows j) ?_ hr hl ⟨hj, rfl⟩
  rintro g a g' - ⟨hg, hrows⟩ - hs
  obtain ⟨hjob, hrows'⟩ := unchanged_of_terminal hs hg ht
  exact ⟨hjob, hrows'.trans hrows⟩

/-- A log that holds an outcome belongs to a job in a terminal state. -/
theorem terminal_of_mem_log {s : World} (hc : s.ledger.Consistent) {j : Uuid} {e : EventType}
    (he : e ∈ s.db.log j) (hf : e.isFinal = true) :
    ∃ row, s.db.job? j = some row ∧ row.state.isTerminal = true := by
  cases hj : s.db.job? j with
  | none =>
    have hnil : s.db.eventRows j = [] := (hc.absent j hj).1
    rw [Database.log, hnil] at he
    exact absurd he (by simp)
  | some row =>
    refine ⟨row, rfl, ?_⟩
    have hstate : replay (s.db.log j) = .ok row.state := (hc.projects j row hj).state
    obtain ⟨i, hi⟩ := List.mem_iff_getElem?.1 he
    have hlen := succ_eq_length_of_replay_final hstate hi hf
    obtain ⟨e', hlast, htarget⟩ := getLast?_of_replay hstate
    rw [List.getLast?_eq_getElem?, ← hlen, Nat.add_sub_cancel, hi, Option.some.injEq] at hlast
    rw [htarget, isTerminal_target, ← hlast, hf]

/-- Where final events are last, there is one at most. -/
theorem countP_final_le_one {l : List EventType}
    (h : ∀ i e, l[i]? = some e → e.isFinal = true → i + 1 = l.length) :
    l.countP EventType.isFinal ≤ 1 := by
  rcases List.eq_nil_or_concat l with rfl | ⟨l', x, rfl⟩
  · simp
  · rw [List.concat_eq_append, List.countP_append]
    have hzero : l'.countP EventType.isFinal = 0 := by
      refine List.countP_eq_zero.2 fun e he hf ↦ ?_
      obtain ⟨i, hi, rfl⟩ := List.mem_iff_getElem.1 he
      have hlen := h i l'[i] (by simp [List.getElem?_append_left, hi]) hf
      simp only [List.concat_eq_append, List.length_append, List.length_singleton] at hlen
      omega
    rw [hzero, Nat.zero_add]
    exact List.countP_le_length

/-- **An outcome ends a job for good.** In every run, a log holds at most one completion or failure
and ends with it; from then on neither the row nor the events of the job ever change; and a job has
a result exactly when it has succeeded. -/
theorem outcome_is_final {f : Fleet} (h : (system cfg).Reachable TransitionSystem.anyStep f)
    (j : Uuid) :
    (f.world.db.log j).countP EventType.isFinal ≤ 1 ∧
    (∀ i e, (f.world.db.log j)[i]? = some e → e.isFinal = true →
      i + 1 = (f.world.db.log j).length) ∧
    ((∃ e ∈ f.world.db.log j, e.isFinal = true) →
      ∀ f', (system cfg).Leads TransitionSystem.anyStep f f' →
        f'.world.db.job? j = f.world.db.job? j ∧
        f'.world.db.eventRows j = f.world.db.eventRows j) ∧
    ∀ row, f.world.db.job? j = some row →
      (row.result ≠ none ↔ row.state = .succeeded) := by
  have hcons := consistent_of_reachable h
  have hlast : ∀ i e, (f.world.db.log j)[i]? = some e → e.isFinal = true →
      i + 1 = (f.world.db.log j).length := by
    intro i e hi he
    cases hj : f.world.db.job? j with
    | none =>
      have hnil : f.world.db.eventRows j = [] := (hcons.absent j hj).1
      rw [Database.log, hnil] at hi
      exact absurd hi (by simp)
    | some row => exact succ_eq_length_of_replay_final (hcons.projects j row hj).state hi he
  refine ⟨countP_final_le_one hlast, hlast, ?_, ?_⟩
  · rintro ⟨e, he, hf⟩ f' hl
    obtain ⟨row, hj, ht⟩ := terminal_of_mem_log hcons he hf
    rw [hj]
    exact leads_of_terminal h hl hj ht
  · intro row hj
    rw [← result_iff_of_reachable h j row hj, Option.isSome_iff_ne_none]

/-- One job, handled to its end by one worker: the completion is the last of its four events, and
the row keeps its result whatever follows. -/
theorem outcome_is_final_of_completed : ∃ f : Fleet,
    (system {}).Reachable TransitionSystem.anyStep f ∧
    f.world.db.log ⟨0⟩ = [.submitted, .enqueued, .started, .completed] ∧
    (∀ i e, (f.world.db.log ⟨0⟩)[i]? = some e → e.isFinal = true → i = 3) ∧
    ∀ f', (system {}).Leads TransitionSystem.anyStep f f' →
      (f'.world.db.job? ⟨0⟩).bind JobRow.result = some (executionResult 10) := by
  have hrun : ∃ f, (system {}).exec ⟨.empty, []⟩
      [.submit ⟨0⟩ "k" (.healthy 10 ten_le_limit) [],
        .start ⟨1, "w", ⟨0⟩, .healthy 10 ten_le_limit, 1⟩,
        .handle 0 .served, .handle 0 .served, .handle 0 .served, .handle 0 .served,
        .handle 0 .served, .handle 0 (.executed 0 10), .handle 0 .served] = some f ∧
      f.world.db.log ⟨0⟩ = [.submitted, .enqueued, .started, .completed] ∧
      (f.world.db.job? ⟨0⟩).bind JobRow.result = some (executionResult 10) :=
    ⟨_, rfl, rfl, rfl⟩
  obtain ⟨f, hf, hlog, hres⟩ := hrun
  have hr : (system {}).Reachable TransitionSystem.anyStep f :=
    ⟨_, rfl, TransitionSystem.leads_of_exec hf⟩
  obtain ⟨-, hlast, hfixed, -⟩ := outcome_is_final hr ⟨0⟩
  refine ⟨f, hr, hlog, fun i e hi he ↦ ?_, fun f' hl ↦ ?_⟩
  · have hlen := hlast i e hi he
    rw [hlog] at hlen
    exact Nat.succ.inj hlen
  · rw [(hfixed ⟨.completed, by rw [hlog]; decide, rfl⟩ f' hl).1]
    exact hres

end Fleet

end Orbiter
