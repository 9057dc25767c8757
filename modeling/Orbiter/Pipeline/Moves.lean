import Orbiter.Fleet.Moves
import Orbiter.Foundation.Records
import Orbiter.Pipeline.System

/-!
# What one step of the pipeline can do

The inversion of the step function, part by part. A step changes a little of the state in one of
many ways, and a proof about runs looks at one part at a time; so there is one lemma for each part,
and it says of the part after the step what it was before and what has been done to it.

## The parts

* `RelayMove`, `QuarantineMove` — the answered calls of a relay and of a listener, control point by
  control point: the call, the answer, where it leads. `RelayMove.of_view` and
  `QuarantineMove.of_view` say that the lists are complete; `relay_cases` and `quarantine_cases` add
  what the call does to the rest of the state;
* `step_fleet` — **a step of the pipeline is at most one step of the fleet** (`Drives` says which),
  so everything that holds in all runs of the fleet holds here;
* `step_msg`, `step_msg_new` — a message after a step is a message before it, changed in one of the
  ways of `MsgStep`, or has just been published. `MsgStep` has a constructor for a delivery, for one
  that reaches nobody, for an advisory, for a negative acknowledgement, and for each of the
  removals;
* `step_relay`, `step_advisory`, `step_quarantine` — a relay, an advisory and a listener's run after
  a step are those before it, have just begun, have been killed, or have made a move.

`deliver_eq_some`, `miss_eq_some` and their companions are the steps of the broker, with the
conditions under which it makes them.
-/

namespace Orbiter

/-- The moves of a relay. -/
inductive RelayMove (cfg : Settings) (p : Pipeline) : RelayPc → RelayCall → Answer → RelayPc → Prop
  | fault {pc : RelayPc} {c : RelayCall} {k : Except RelayExc c.Resp → RelayPc}
      (hv : pc.view cfg = .inr ⟨c, k⟩) (applied : Bool) :
      RelayMove cfg p pc c (.failed applied) (.finished (.error .fault))
  | selected : RelayMove cfg p .select (.select cfg.relayBatchSize) .served
      (.loop (p.selectUnpublished cfg.relayBatchSize) (p.selectUnpublished cfg.relayBatchSize))
  | published (batch : List OutboxEntry) (entry : OutboxEntry) (rest : List OutboxEntry) :
      RelayMove cfg p (.publish batch entry rest) (.publish entry) .served (.loop batch rest)
  | marked (batch : List OutboxEntry) :
      RelayMove cfg p (.mark batch) (.mark (batch.map Prod.fst)) .served
        (.finished (.ok batch.length))

/-- The moves of a listener at work on an advisory. -/
inductive QuarantineMove (p : Pipeline) :
    QuarantinePc → (c : ListenerCall) → Answer → Except ListenerExc c.Resp → QuarantinePc → Prop
  | fault {pc : QuarantinePc} {c : ListenerCall} {k : Except ListenerExc c.Resp → QuarantinePc}
      (hv : pc.view = .inr ⟨c, k⟩) (hc : c ≠ .ack) (applied : Bool) :
      QuarantineMove p pc c (.failed applied) (.error .fault) .ackAdvisory
  | fetched (adv : MaxDeliveriesAdvisory) {m : StreamMsg}
      (h : p.stream.stored? adv.streamSeq = some m) :
      QuarantineMove p (.getMsg adv) (.getMsg adv.streamSeq) .served (.ok m.data)
        (.publish adv m.data)
  | missing (adv : MaxDeliveriesAdvisory) (h : p.stream.stored? adv.streamSeq = none) :
      QuarantineMove p (.getMsg adv) (.getMsg adv.streamSeq) .served (.error .fault) .ackAdvisory
  | copied (adv : MaxDeliveriesAdvisory) (raw : Message SubmitRequest) :
      QuarantineMove p (.publish adv raw) (.publishDlq adv.streamSeq raw) .served (.ok ())
        (.record adv raw)
  | recorded (adv : MaxDeliveriesAdvisory) (raw : Message SubmitRequest) {state : JobState}
      {db : Database SubmitRequest}
      (h : p.fleet.world.db.recordEvent p.fleet.world.now
        (deadLetterWrite raw.jobId adv.streamSeq adv.deliveries) = .ok (state, db)) :
      QuarantineMove p (.record adv raw)
        (.recordEvent (deadLetterWrite raw.jobId adv.streamSeq adv.deliveries)) .served
        (.ok state) (.delete adv raw)
  | refused (adv : MaxDeliveriesAdvisory) (raw : Message SubmitRequest) {e : IllegalTransition}
      (h : p.fleet.world.db.recordEvent p.fleet.world.now
        (deadLetterWrite raw.jobId adv.streamSeq adv.deliveries) = .error (.illegalTransition e)) :
      QuarantineMove p (.record adv raw)
        (.recordEvent (deadLetterWrite raw.jobId adv.streamSeq adv.deliveries)) .served
        (.error (.db (.illegalTransition e))) (.delete adv raw)
  | recordRaised (adv : MaxDeliveriesAdvisory) (raw : Message SubmitRequest) {e : DbError}
      (he : ∀ e', e ≠ .illegalTransition e')
      (h : p.fleet.world.db.recordEvent p.fleet.world.now
        (deadLetterWrite raw.jobId adv.streamSeq adv.deliveries) = .error e) :
      QuarantineMove p (.record adv raw)
        (.recordEvent (deadLetterWrite raw.jobId adv.streamSeq adv.deliveries)) .served
        (.error (.db e)) .ackAdvisory
  | deleted (adv : MaxDeliveriesAdvisory) (raw : Message SubmitRequest) {m : StreamMsg}
      (h : p.stream.stored? adv.streamSeq = some m) :
      QuarantineMove p (.delete adv raw) (.deleteMsg adv.streamSeq) .served (.ok ()) .ackAdvisory
  | deleteMissing (adv : MaxDeliveriesAdvisory) (raw : Message SubmitRequest)
      (h : p.stream.stored? adv.streamSeq = none) :
      QuarantineMove p (.delete adv raw) (.deleteMsg adv.streamSeq) .served (.error .fault)
        .ackAdvisory
  | acked : QuarantineMove p .ackAdvisory .ack .served (.ok ()) (.finished (.ok ()))
  | ackRaised (applied : Bool) :
      QuarantineMove p .ackAdvisory .ack (.failed applied) (.error .fault)
        (.finished (.error .fault))

section Machines

variable {cfg : Settings} {p : Pipeline}

/-- Every answered call of a relay is one of the moves. -/
theorem RelayMove.of_view {pc : RelayPc} {c : RelayCall} {k : Except RelayExc c.Resp → RelayPc}
    {ans : Answer} {r : Except RelayExc c.Resp} (hv : pc.view cfg = .inr ⟨c, k⟩)
    (hr : p.relayReply c ans = some r) : RelayMove cfg p pc c ans (k r) := by
  match ans with
  | .failed applied =>
    have hfault : r = .error .fault := by
      cases c <;> exact (Option.some.inj hr).symm
    have hk : k r = .finished (.error .fault) := by
      rw [hfault]
      cases pc <;> cases hv <;> rfl
    rw [hk]
    exact .fault hv applied
  | .executed draw ms => cases c <;> exact absurd hr (by simp [Pipeline.relayReply])
  | .served =>
    cases pc with
    | select => cases hv; cases hr; exact .selected
    | publish batch entry rest => cases hv; cases hr; exact .published batch entry rest
    | mark batch => cases hv; cases hr; exact .marked batch
    | finished exit => cases hv

/-- The call of a relay is that of its control point. -/
theorem RelayMove.call_cases {pc pc' : RelayPc} {c : RelayCall} {ans : Answer}
    (h : RelayMove cfg p pc c ans pc') :
    (pc = .select ∧ c = .select cfg.relayBatchSize) ∨
    (∃ batch entry rest, pc = .publish batch entry rest ∧ c = .publish entry) ∨
    ∃ batch, pc = .mark batch ∧ c = .mark (batch.map Prod.fst) := by
  rcases h with ⟨hv, applied⟩ | _ | ⟨batch, entry, rest⟩ | ⟨batch⟩
  · cases pc with
    | select => cases hv; exact .inl ⟨rfl, rfl⟩
    | publish batch entry rest => cases hv; exact .inr (.inl ⟨batch, entry, rest, rfl, rfl⟩)
    | mark batch => cases hv; exact .inr (.inr ⟨batch, rfl, rfl⟩)
    | finished exit => cases hv
  · exact .inl ⟨rfl, rfl⟩
  · exact .inr (.inl ⟨batch, entry, rest, rfl, rfl⟩)
  · exact .inr (.inr ⟨batch, rfl, rfl⟩)

/-- Every answered call of a listener is one of the moves. -/
theorem QuarantineMove.of_view {pc : QuarantinePc} {c : ListenerCall}
    {k : Except ListenerExc c.Resp → QuarantinePc} {ans : Answer}
    {r : Except ListenerExc c.Resp} (hv : pc.view = .inr ⟨c, k⟩)
    (hr : p.listenerReply c ans = some r) : QuarantineMove p pc c ans r (k r) := by
  match ans with
  | .failed applied =>
    have hfault : r = .error .fault := by
      cases c <;> exact (Option.some.inj hr).symm
    subst hfault
    cases pc with
    | ackAdvisory => cases hv; exact .ackRaised applied
    | getMsg adv => cases hv; exact .fault rfl (by simp) applied
    | publish adv raw => cases hv; exact .fault rfl (by simp) applied
    | record adv raw => cases hv; exact .fault rfl (by simp) applied
    | delete adv raw => cases hv; exact .fault rfl (by simp) applied
    | finished exit => cases hv
  | .executed draw ms => cases c <;> exact absurd hr (by simp [Pipeline.listenerReply])
  | .served =>
    cases pc with
    | getMsg adv =>
      cases hv
      rw [Pipeline.listenerReply] at hr
      split at hr
      · next m hm => cases hr; exact .fetched adv hm
      · next hm => cases hr; exact .missing adv hm
    | publish adv raw => cases hv; cases hr; exact .copied adv raw
    | record adv raw =>
      cases hv
      rw [Pipeline.listenerReply] at hr
      split at hr
      · next e he =>
        cases hr
        rcases e with j | e | e | j
        · exact .recordRaised adv raw (by simp) he
        · exact .refused adv raw he
        · exact .recordRaised adv raw (by simp) he
        · exact .recordRaised adv raw (by simp) he
      · next state db he => cases hr; exact .recorded adv raw he
    | delete adv raw =>
      cases hv
      rw [Pipeline.listenerReply] at hr
      split at hr
      · next m hm => cases hr; exact .deleted adv raw hm
      · next hm => cases hr; exact .deleteMissing adv raw hm
    | ackAdvisory => cases hv; cases hr; exact .acked
    | finished exit => cases hv

/-- The call of a listener is that of its control point. -/
theorem QuarantineMove.call_cases {pc pc' : QuarantinePc} {c : ListenerCall} {ans : Answer}
    {reply : Except ListenerExc c.Resp} (h : QuarantineMove p pc c ans reply pc') :
    (∃ adv, pc = .getMsg adv ∧ c = .getMsg adv.streamSeq) ∨
    (∃ adv raw, pc = .publish adv raw ∧ c = .publishDlq adv.streamSeq raw) ∨
    (∃ adv raw, pc = .record adv raw ∧
      c = .recordEvent (deadLetterWrite raw.jobId adv.streamSeq adv.deliveries)) ∨
    (∃ adv raw, pc = .delete adv raw ∧ c = .deleteMsg adv.streamSeq) ∨
    (pc = .ackAdvisory ∧ c = .ack) := by
  cases h with
  | fault hv hc applied =>
    cases pc with
    | getMsg adv => cases hv; exact .inl ⟨adv, rfl, rfl⟩
    | publish adv raw => cases hv; exact .inr (.inl ⟨adv, raw, rfl, rfl⟩)
    | record adv raw => cases hv; exact .inr (.inr (.inl ⟨adv, raw, rfl, rfl⟩))
    | delete adv raw => cases hv; exact .inr (.inr (.inr (.inl ⟨adv, raw, rfl, rfl⟩)))
    | ackAdvisory => cases hv; exact absurd rfl hc
    | finished exit => cases hv
  | fetched adv h | missing adv h => exact .inl ⟨adv, rfl, rfl⟩
  | copied adv raw => exact .inr (.inl ⟨adv, raw, rfl, rfl⟩)
  | recorded adv raw h | refused adv raw h | recordRaised adv raw he h =>
    exact .inr (.inr (.inl ⟨adv, raw, rfl, rfl⟩))
  | deleted adv raw h | deleteMissing adv raw h =>
    exact .inr (.inr (.inr (.inl ⟨adv, raw, rfl, rfl⟩)))
  | acked | ackRaised => exact .inr (.inr (.inr (.inr ⟨rfl, rfl⟩)))

/-- The deletion comes after the transaction. -/
theorem QuarantineMove.to_delete {pc : QuarantinePc} {c : ListenerCall} {ans : Answer}
    {reply : Except ListenerExc c.Resp} {adv : MaxDeliveriesAdvisory} {raw : Message SubmitRequest}
    (h : QuarantineMove p pc c ans reply (.delete adv raw)) :
    pc = .record adv raw ∧ ans = .served := by
  generalize hpc : QuarantinePc.delete adv raw = pc' at h
  cases h with
  | recorded adv' raw' he | refused adv' raw' he =>
    obtain ⟨rfl, rfl⟩ := QuarantinePc.delete.inj hpc
    exact ⟨rfl, rfl⟩
  | _ => exact nomatch hpc

/-- The transaction comes after the publish. -/
theorem QuarantineMove.to_record {pc : QuarantinePc} {c : ListenerCall} {ans : Answer}
    {reply : Except ListenerExc c.Resp} {adv : MaxDeliveriesAdvisory} {raw : Message SubmitRequest}
    (h : QuarantineMove p pc c ans reply (.record adv raw)) :
    pc = .publish adv raw ∧ ans = .served := by
  generalize hpc : QuarantinePc.record adv raw = pc' at h
  cases h with
  | copied adv' raw' =>
    obtain ⟨rfl, rfl⟩ := QuarantinePc.record.inj hpc
    exact ⟨rfl, rfl⟩
  | _ => exact nomatch hpc

end Machines

namespace Pipeline

variable {cfg : Settings} {p p' : Pipeline}

/-- **A step of a relay.** -/
theorem stepRelay_eq_some {rid : ℕ} {ans : Answer} {remembered : Bool}
    (h : p.stepRelay cfg rid ans remembered = some p') :
    ∃ r c pc, p.relays[rid]? = some r ∧ r.alive = true ∧ RelayMove cfg p r.pc c ans pc ∧
      p' = { (if ans.takesEffect then p.relayEffect remembered c else p) with
        relays := p.relays.set rid { r with pc := pc } } := by
  rw [stepRelay] at h
  split at h
  · exact absurd h (by simp)
  · next r hget =>
    split at h
    · next halive =>
      split at h
      · exact absurd h (by simp)
      · next c k hv =>
        obtain ⟨reply, hr, rfl⟩ := Option.map_eq_some_iff.1 h
        exact ⟨r, c, k reply, hget, halive, RelayMove.of_view hv hr, rfl⟩
    · exact absurd h (by simp)

/-- **A step of a listener.** -/
theorem stepQuarantine_eq_some {qid : ℕ} {ans : Answer} {remembered : Bool}
    (h : p.stepQuarantine qid ans remembered = some p') :
    ∃ q c reply pc p₁, p.quarantines[qid]? = some q ∧ q.alive = true ∧
      QuarantineMove p q.pc c ans reply pc ∧
      p₁ = (if ans.takesEffect then p.listenerEffect q.advisory remembered c else p) ∧
      p' = { p₁ with
        quarantines := p.quarantines.set qid (q.advance p₁.fleet.world.db c reply pc) } := by
  rw [stepQuarantine] at h
  split at h
  · exact absurd h (by simp)
  · next q hget =>
    split at h
    · next halive =>
      split at h
      · exact absurd h (by simp)
      · next c k hv =>
        obtain ⟨reply, hr, rfl⟩ := Option.map_eq_some_iff.1 h
        exact ⟨q, c, reply, k reply, _, hget, halive, QuarantineMove.of_view hv hr, rfl, rfl⟩
    · exact absurd h (by simp)

/-- What a step of a relay does, apart from moving it: nothing, or a publish, or the mark. -/
theorem relay_cases {rid : ℕ} {ans : Answer} {remembered : Bool}
    (h : p.stepRelay cfg rid ans remembered = some p') :
    ∃ r pc, p.relays[rid]? = some r ∧ r.alive = true ∧
      (∃ c, RelayMove cfg p r.pc c ans pc) ∧
      p'.relays = p.relays.set rid { r with pc := pc } ∧ p'.advisories = p.advisories ∧
      p'.quarantines = p.quarantines ∧ p'.dlq = p.dlq ∧
      ((p'.fleet = p.fleet ∧ p'.stream = p.stream ∧
          ((∃ batch entry rest, r.pc = .publish batch entry rest) ∨ (∃ batch, r.pc = .mark batch) →
            ans ≠ .served)) ∨
        (∃ batch entry rest, r.pc = .publish batch entry rest ∧ p'.fleet = p.fleet ∧
          p'.stream = p.stream.publish entry.2.subject entry.1 entry.2.payload remembered) ∨
        ∃ batch, r.pc = .mark batch ∧ p'.stream = p.stream ∧
          p.fleet.step cfg (.publish (batch.map Prod.fst)) = some p'.fleet) := by
  obtain ⟨r, c, pc, hget, halive, hmove, rfl⟩ := stepRelay_eq_some h
  refine ⟨r, pc, hget, halive, ⟨c, hmove⟩, rfl, ?_⟩
  split
  · rcases hmove.call_cases with ⟨hpc, rfl⟩ | ⟨batch, entry, rest, hpc, rfl⟩ | ⟨batch, hpc, rfl⟩
    · refine ⟨rfl, rfl, rfl, .inl ⟨rfl, rfl, ?_⟩⟩
      rw [hpc]
      simp
    · exact ⟨rfl, rfl, rfl, .inr (.inl ⟨batch, entry, rest, hpc, rfl, rfl⟩)⟩
    · exact ⟨rfl, rfl, rfl, .inr (.inr ⟨batch, hpc, rfl, rfl⟩)⟩
  · next heff =>
    refine ⟨rfl, rfl, rfl, .inl ⟨rfl, rfl, ?_⟩⟩
    rintro - rfl
    exact heff rfl

variable (cfg) in
/-- What a step of a listener does, apart from moving it: nothing to fleet, stream and advisories,
or the transaction, the deletion or the acknowledgement. -/
theorem quarantine_cases {qid : ℕ} {ans : Answer} {remembered : Bool}
    (h : p.stepQuarantine qid ans remembered = some p') :
    ∃ q c reply pc, p.quarantines[qid]? = some q ∧ q.alive = true ∧
      QuarantineMove p q.pc c ans reply pc ∧
      p'.quarantines = p.quarantines.set qid (q.advance p'.fleet.world.db c reply pc) ∧
      p'.relays = p.relays ∧
      ((p'.fleet = p.fleet ∧ p'.stream = p.stream ∧ p'.advisories = p.advisories ∧
          ((∃ adv raw, q.pc = .record adv raw) ∨ (∃ adv raw, q.pc = .delete adv raw) →
            ans ≠ .served)) ∨
        (∃ adv raw, q.pc = .record adv raw ∧ p'.stream = p.stream ∧
          p'.advisories = p.advisories ∧
          p.fleet.step cfg (.deadLetter raw.jobId adv.streamSeq adv.deliveries) = some p'.fleet) ∨
        (∃ adv raw, q.pc = .delete adv raw ∧ p'.fleet = p.fleet ∧
          p'.stream = p.stream.remove adv.streamSeq ∧ p'.advisories = p.advisories) ∨
        (q.pc = .ackAdvisory ∧ p'.fleet = p.fleet ∧ p'.stream = p.stream ∧
          p'.advisories = p.advisories.modify q.advisory fun a ↦ { a with acked := true })) := by
  obtain ⟨q, c, reply, pc, p₁, hget, halive, hmove, hp₁, rfl⟩ := stepQuarantine_eq_some h
  refine ⟨q, c, reply, pc, hget, halive, hmove, rfl, ?_⟩
  dsimp only
  split at hp₁
  · subst hp₁
    rcases hmove.call_cases with ⟨adv, hpc, rfl⟩ | ⟨adv, raw, hpc, rfl⟩ | ⟨adv, raw, hpc, rfl⟩ |
      ⟨adv, raw, hpc, rfl⟩ | ⟨hpc, rfl⟩
    · refine ⟨rfl, .inl ⟨rfl, rfl, rfl, ?_⟩⟩
      rw [hpc]
      simp
    · rw [listenerEffect]
      split <;>
      · refine ⟨rfl, .inl ⟨rfl, rfl, rfl, ?_⟩⟩
        rw [hpc]
        simp
    · exact ⟨rfl, .inr (.inl ⟨adv, raw, hpc, rfl, rfl, rfl⟩)⟩
    · exact ⟨rfl, .inr (.inr (.inl ⟨adv, raw, hpc, rfl, rfl, rfl⟩))⟩
    · exact ⟨rfl, .inr (.inr (.inr ⟨hpc, rfl, rfl, rfl⟩))⟩
  · next heff =>
    subst hp₁
    refine ⟨rfl, .inl ⟨rfl, rfl, rfl, ?_⟩⟩
    rintro - rfl
    exact heff rfl

/-! ### The fleet -/

/-- Which step of the fleet a step of the pipeline makes. -/
inductive Drives (cfg : Settings) (p : Pipeline) : PipelineStep → FleetStep → Prop
  | submit (jobId : Uuid) (key : String) (payload : SubmitRequest) (carrier : Carrier) :
      Drives cfg p (.submit jobId key payload carrier) (.submit jobId key payload carrier)
  | replay (jobId : Uuid) : Drives cfg p (.replay jobId) (.replay jobId)
  | mark {rid : ℕ} (ans : Answer) (remembered : Bool) {r : RelayRun} {batch : List OutboxEntry}
      (hr : p.relays[rid]? = some r) (halive : r.alive = true) (hpc : r.pc = .mark batch) :
      Drives cfg p (.relay rid ans remembered) (.publish (batch.map Prod.fst))
  | deliver {seq : ℕ} (workerId : String) {m : StreamMsg} (hm : p.stream.stored? seq = some m)
      (hlt : m.delivered < cfg.maxDeliver) :
      Drives cfg p (.deliver seq workerId) (.start (delivery seq workerId m))
  | handle (pid : ℕ) (ans : Answer) : Drives cfg p (.handle pid ans) (.handle pid ans)
  | die (pid : ℕ) : Drives cfg p (.die pid) (.die pid)
  | record {qid : ℕ} (ans : Answer) (remembered : Bool) {q : QuarantineRun}
      {adv : MaxDeliveriesAdvisory} {raw : Message SubmitRequest}
      (hq : p.quarantines[qid]? = some q) (halive : q.alive = true)
      (hpc : q.pc = .record adv raw) :
      Drives cfg p (.quarantine qid ans remembered)
        (.deadLetter raw.jobId adv.streamSeq adv.deliveries)
  | tick (ms : ℕ) : Drives cfg p (.tick ms) (.tick ms)
  | vanish (key : String) : Drives cfg p (.vanish key) (.vanish key)

/-- A step on the fleet alone leaves the rest of the pipeline. -/
theorem onFleet_eq_some {a : FleetStep} (h : p.onFleet cfg a = some p') :
    ∃ f, p.fleet.step cfg a = some f ∧ p' = { p with fleet := f } := by
  obtain ⟨f, hf, rfl⟩ := Option.map_eq_some_iff.1 h
  exact ⟨f, hf, rfl⟩

/-- A delivery begins a call for a message that is stored and has deliveries left. -/
theorem deliver_eq_some {n : ℕ} {workerId : String}
    (h : p.step cfg (.deliver n workerId) = some p') :
    ∃ m f, p.stream.stored? n = some m ∧ m.delivered < cfg.maxDeliver ∧
      p.fleet.step cfg (.start (delivery n workerId m)) = some f ∧
      p' = { p with fleet := f, stream := p.stream.deliver n p.fleet.world.now } := by
  rw [step] at h
  split at h
  · exact absurd h (by simp)
  · next m hm =>
    split at h
    · next hlt =>
      obtain ⟨f, hf, rfl⟩ := onFleet_eq_some h
      exact ⟨m, f, hm, hlt, hf, rfl⟩
    · exact absurd h (by simp)

/-- A delivery that reaches nobody is one the broker counts, and nothing else. -/
theorem miss_eq_some {n : ℕ} (h : p.step cfg (.miss n) = some p') :
    ∃ m, p.stream.stored? n = some m ∧ m.delivered < cfg.maxDeliver ∧
      p' = { p with stream := p.stream.deliver n p.fleet.world.now } := by
  rw [step] at h
  split at h
  · exact absurd h (by simp)
  · next m hm =>
    split at h
    · next hlt => exact ⟨m, hm, hlt, (Option.some.inj h).symm⟩
    · exact absurd h (by simp)

/-- What giving a message up requires, and what it leaves: one advisory of the broker. -/
theorem exhaust_eq_some {n : ℕ} (h : p.step cfg (.exhaust n) = some p') :
    ∃ m, p.stream.stored? n = some m ∧ cfg.maxDeliver ≤ m.delivered ∧ m.advisory = none ∧
      p' = { p with
        stream := p.stream.exhaust n p.advisories.length
        advisories := p.advisories ++ [{ raw := brokerAdvisory cfg n m.delivered }] } := by
  rw [step] at h
  split at h
  · exact absurd h (by simp)
  · next m hm =>
    split at h
    · next hx => exact ⟨m, hm, hx.1, hx.2, (Option.some.inj h).symm⟩
    · exact absurd h (by simp)

/-- A listener is given an advisory that nobody has acknowledged. -/
theorem fetch_eq_some {aid : ℕ} (h : p.step cfg (.fetch aid) = some p') :
    ∃ x, p.advisories[aid]? = some x ∧ x.acked = false ∧
      p' = { p with
        quarantines := p.quarantines ++ [{ advisory := aid, pc := .start x.raw }] } := by
  rw [step] at h
  split at h
  · exact absurd h (by simp)
  · next x hx =>
    split at h
    · exact absurd h (by simp)
    · next hacked => exact ⟨x, hx, by simpa using hacked, (Option.some.inj h).symm⟩

/-- **At most one step of the fleet.** -/
theorem step_fleet {a : PipelineStep} (h : p.step cfg a = some p') :
    p'.fleet = p.fleet ∨ ∃ b, Drives cfg p a b ∧ p.fleet.step cfg b = some p'.fleet := by
  cases a with
  | submit jobId key payload carrier =>
    obtain ⟨f, hf, rfl⟩ := onFleet_eq_some h
    exact .inr ⟨_, .submit .., hf⟩
  | replay jobId =>
    obtain ⟨f, hf, rfl⟩ := onFleet_eq_some h
    exact .inr ⟨_, .replay .., hf⟩
  | die pid =>
    obtain ⟨f, hf, rfl⟩ := onFleet_eq_some h
    exact .inr ⟨_, .die .., hf⟩
  | handle pid ans =>
    obtain ⟨f, hf, rfl⟩ := onFleet_eq_some h
    exact .inr ⟨_, .handle .., hf⟩
  | tick ms =>
    obtain ⟨f, hf, rfl⟩ := onFleet_eq_some h
    exact .inr ⟨_, .tick .., hf⟩
  | vanish key =>
    obtain ⟨f, hf, rfl⟩ := onFleet_eq_some h
    exact .inr ⟨_, .vanish .., hf⟩
  | deliver seq workerId =>
    obtain ⟨m, f, hm, hlt, hf, rfl⟩ := deliver_eq_some h
    exact .inr ⟨_, .deliver workerId hm hlt, hf⟩
  | relay rid ans remembered =>
    obtain ⟨r, pc, hget, halive, -, -, -, -, -, ⟨hf, -, -⟩ | ⟨batch, entry, rest, -, hf, -⟩ |
      ⟨batch, hpc, -, hf⟩⟩ := relay_cases h
    · exact .inl hf
    · exact .inl hf
    · exact .inr ⟨_, .mark ans remembered hget halive hpc, hf⟩
  | quarantine qid ans remembered =>
    obtain ⟨q, c, reply, pc, hget, halive, -, -, -, ⟨hf, -, -, -⟩ | ⟨adv, raw, hpc, -, -, hf⟩ |
      ⟨adv, raw, -, hf, -, -⟩ | ⟨-, hf, -, -⟩⟩ := quarantine_cases cfg h
    · exact .inl hf
    · exact .inr ⟨_, .record ans remembered hget halive hpc, hf⟩
    · exact .inl hf
    · exact .inl hf
  | miss seq =>
    obtain ⟨m, -, -, rfl⟩ := miss_eq_some h
    exact .inl rfl
  | exhaust seq =>
    obtain ⟨m, -, -, -, rfl⟩ := exhaust_eq_some h
    exact .inl rfl
  | fetch aid =>
    obtain ⟨x, -, -, rfl⟩ := fetch_eq_some h
    exact .inl rfl
  | beginRelay | killRelay | advise | killListener =>
    obtain rfl := Option.some.inj h
    exact .inl rfl

/-! ### The stream -/

/-- What a step does to the message `m` with sequence number `seq`. -/
inductive MsgStep (cfg : Settings) (p : Pipeline) (seq : ℤ) (m : StreamMsg) :
    PipelineStep → StreamMsg → Prop
  | same (a : PipelineStep) : MsgStep cfg p seq m a m
  | consumed {pid : ℕ} (ans : Answer) {hc : HandleCall} (hget : p.fleet.calls[pid]? = some hc)
      (hcall : hc.call? cfg = some .ack ∨ hc.call? cfg = some .term)
      (hseq : (hc.delivery.seq : ℤ) = seq) :
      MsgStep cfg p seq m (.handle pid ans) { m with present := false }
  | refused {pid : ℕ} (ans : Answer) {hc : HandleCall} {delay : NakDelay}
      (hget : p.fleet.calls[pid]? = some hc) (hcall : hc.call? cfg = some (.nak delay))
      (hseq : (hc.delivery.seq : ℤ) = seq) :
      MsgStep cfg p seq m (.handle pid ans) { m with outstanding := none }
  | deleted {qid : ℕ} (ans : Answer) (remembered : Bool) {q : QuarantineRun}
      {adv : MaxDeliveriesAdvisory} {raw : Message SubmitRequest}
      (hget : p.quarantines[qid]? = some q) (halive : q.alive = true)
      (hpc : q.pc = .delete adv raw) (hseq : adv.streamSeq = seq) :
      MsgStep cfg p seq m (.quarantine qid ans remembered) { m with present := false }
  | delivered {n : ℕ} (workerId : String) (hseq : (n : ℤ) = seq) (hpresent : m.present = true)
      (hlt : m.delivered < cfg.maxDeliver) :
      MsgStep cfg p seq m (.deliver n workerId)
        { m with delivered := m.delivered + 1, outstanding := some p.fleet.world.now }
  | missed {n : ℕ} (hseq : (n : ℤ) = seq) (hpresent : m.present = true)
      (hlt : m.delivered < cfg.maxDeliver) :
      MsgStep cfg p seq m (.miss n)
        { m with delivered := m.delivered + 1, outstanding := some p.fleet.world.now }
  | exhausted {n : ℕ} (hseq : (n : ℤ) = seq) (hpresent : m.present = true)
      (hle : cfg.maxDeliver ≤ m.delivered) (hnone : m.advisory = none) :
      MsgStep cfg p seq m (.exhaust n) { m with advisory := some p.advisories.length }

/-- The update of one message is a step of that message and of no other. -/
theorem msgStep_update {a : PipelineStep} {seq seq' : ℤ} {f : StreamMsg → StreamMsg}
    {m : StreamMsg} (hm : p.stream.msg? seq' = some m)
    (hf : seq = seq' → MsgStep cfg p seq' m a (f m)) :
    ∃ m', (p.stream.update seq f).msg? seq' = some m' ∧ MsgStep cfg p seq' m a m' := by
  refine ⟨_, by rw [WorkStream.msg?_update, hm]; rfl, ?_⟩
  split
  · next heq => exact hf heq
  · exact .same a

/-- An acknowledgement of a worker, when it takes effect. -/
theorem ack_step {pid : ℕ} {ans : Answer} {hc : HandleCall}
    (h : p.step cfg (.handle pid ans) = some p') (hget : p.fleet.calls[pid]? = some hc)
    (hcall : hc.call? cfg = some .ack) (heff : ans.takesEffect = true) :
    p'.stream = p.stream.remove hc.delivery.seq := by
  obtain ⟨f, -, rfl⟩ := onFleet_eq_some h
  show p.streamAfter cfg pid ans = _
  simp only [streamAfter, hget, hcall, heff, if_true, workerEffect]

/-- The mark of a relay, when it is answered. -/
theorem mark_step {rid : ℕ} {remembered : Bool} {r : RelayRun} {batch : List OutboxEntry}
    (h : p.step cfg (.relay rid .served remembered) = some p')
    (hget : p.relays[rid]? = some r) (hpc : r.pc = .mark batch) :
    p.fleet.step cfg (.publish (batch.map Prod.fst)) = some p'.fleet := by
  obtain ⟨r', pc, hget', -, -, -, -, -, -, ⟨-, -, hne⟩ | ⟨batch', entry', rest', hpc', -, -⟩ |
    ⟨batch', hpc', -, hf⟩⟩ := relay_cases h
  all_goals obtain rfl := Option.some.inj (hget'.symm.trans hget)
  · exact absurd rfl (hne (.inr ⟨batch, hpc⟩))
  · exact nomatch hpc'.symm.trans hpc
  · obtain rfl := RelayPc.mark.inj (hpc'.symm.trans hpc)
    exact hf

/-- The transaction of a quarantine, when it is answered. -/
theorem record_step {qid : ℕ} {remembered : Bool} {q : QuarantineRun}
    {adv : MaxDeliveriesAdvisory} {raw : Message SubmitRequest}
    (h : p.step cfg (.quarantine qid .served remembered) = some p')
    (hget : p.quarantines[qid]? = some q) (hpc : q.pc = .record adv raw) :
    p.fleet.step cfg (.deadLetter raw.jobId adv.streamSeq adv.deliveries) = some p'.fleet ∧
      p'.stream = p.stream := by
  obtain ⟨q', c, reply, pc, hget', -, -, -, -, ⟨-, -, -, hne⟩ | ⟨adv', raw', hpc', hs, -, hf⟩ |
    ⟨adv', raw', hpc', -⟩ | ⟨hpc', -⟩⟩ := quarantine_cases cfg h
  all_goals obtain rfl := Option.some.inj (hget'.symm.trans hget)
  · exact absurd rfl (hne (.inl ⟨adv, raw, hpc⟩))
  · obtain ⟨rfl, rfl⟩ := QuarantinePc.record.inj (hpc'.symm.trans hpc)
    exact ⟨hf, hs⟩
  · exact nomatch hpc'.symm.trans hpc
  · exact nomatch hpc'.symm.trans hpc

/-- The deletion, when it is answered. -/
theorem delete_step {qid : ℕ} {remembered : Bool} {q : QuarantineRun}
    {adv : MaxDeliveriesAdvisory} {raw : Message SubmitRequest}
    (h : p.step cfg (.quarantine qid .served remembered) = some p')
    (hget : p.quarantines[qid]? = some q) (hpc : q.pc = .delete adv raw) :
    p'.stream = p.stream.remove adv.streamSeq := by
  obtain ⟨q', c, reply, pc, hget', -, -, -, -, ⟨-, -, -, hne⟩ | ⟨adv', raw', hpc', -⟩ |
    ⟨adv', raw', hpc', -, hs, -⟩ | ⟨hpc', -⟩⟩ := quarantine_cases cfg h
  all_goals obtain rfl := Option.some.inj (hget'.symm.trans hget)
  · exact absurd rfl (hne (.inr ⟨adv, raw, hpc⟩))
  · exact nomatch hpc'.symm.trans hpc
  · obtain ⟨rfl, rfl⟩ := QuarantinePc.delete.inj (hpc'.symm.trans hpc)
    exact hs
  · exact nomatch hpc'.symm.trans hpc

/-- **A message once stored stays**, and a step does one of seven things to it. -/
theorem step_msg {a : PipelineStep} (h : p.step cfg a = some p') {seq : ℤ} {m : StreamMsg}
    (hm : p.stream.msg? seq = some m) :
    ∃ m', p'.stream.msg? seq = some m' ∧ MsgStep cfg p seq m a m' := by
  cases a with
  | submit | replay | die | tick | vanish =>
    obtain ⟨f, -, rfl⟩ := onFleet_eq_some h
    exact ⟨m, hm, .same _⟩
  | handle pid ans =>
    obtain ⟨f, -, rfl⟩ := onFleet_eq_some h
    show ∃ m', (p.streamAfter cfg pid ans).msg? seq = some m' ∧ _
    rw [streamAfter]
    split
    · exact ⟨m, hm, .same _⟩
    · next hc hget =>
      split
      · exact ⟨m, hm, .same _⟩
      · next c hcall =>
        split
        · cases c with
          | ack => exact msgStep_update hm fun hseq ↦ .consumed ans hget (.inl hcall) hseq
          | term => exact msgStep_update hm fun hseq ↦ .consumed ans hget (.inr hcall) hseq
          | nak delay => exact msgStep_update hm fun hseq ↦ .refused ans hget hcall hseq
          | kv | recordEvent | execute => exact ⟨m, hm, .same _⟩
        · exact ⟨m, hm, .same _⟩
  | deliver n workerId =>
    obtain ⟨m₀, f, hm₀, hlt, -, rfl⟩ := deliver_eq_some h
    refine msgStep_update hm fun hseq ↦ ?_
    obtain ⟨hget, hpresent⟩ := WorkStream.stored?_eq_some.1 hm₀
    rw [hseq, hm, Option.some.injEq] at hget
    subst hget
    exact .delivered workerId hseq hpresent hlt
  | miss n =>
    obtain ⟨m₀, hm₀, hlt, rfl⟩ := miss_eq_some h
    refine msgStep_update hm fun hseq ↦ ?_
    obtain ⟨hget, hpresent⟩ := WorkStream.stored?_eq_some.1 hm₀
    rw [hseq, hm, Option.some.injEq] at hget
    subst hget
    exact .missed hseq hpresent hlt
  | exhaust n =>
    obtain ⟨m₀, hm₀, hle, hadv, rfl⟩ := exhaust_eq_some h
    refine msgStep_update hm fun hseq ↦ ?_
    obtain ⟨hget, hpresent⟩ := WorkStream.stored?_eq_some.1 hm₀
    rw [hseq, hm, Option.some.injEq] at hget
    subst hget
    exact .exhausted hseq hpresent hle hadv
  | relay rid ans remembered =>
    obtain ⟨r, pc, -, -, -, -, -, -, -, ⟨-, hs, -⟩ | ⟨batch, entry, rest, -, -, hs⟩ |
      ⟨batch, -, hs, -⟩⟩ := relay_cases h
    · exact ⟨m, by rw [hs, hm], .same _⟩
    · exact ⟨m, by rw [hs, WorkStream.msg?_publish_of_some hm], .same _⟩
    · exact ⟨m, by rw [hs, hm], .same _⟩
  | quarantine qid ans remembered =>
    obtain ⟨q, c, reply, pc, hget, halive, -, -, -, ⟨-, hs, -, -⟩ | ⟨adv, raw, -, hs, -, -⟩ |
      ⟨adv, raw, hpc, -, hs, -⟩ | ⟨-, -, hs, -⟩⟩ := quarantine_cases cfg h
    · exact ⟨m, by rw [hs, hm], .same _⟩
    · exact ⟨m, by rw [hs, hm], .same _⟩
    · rw [hs]
      exact msgStep_update hm fun hseq ↦ .deleted ans remembered hget halive hpc hseq
    · exact ⟨m, by rw [hs, hm], .same _⟩
  | fetch aid =>
    obtain ⟨x, -, -, rfl⟩ := fetch_eq_some h
    exact ⟨m, hm, .same _⟩
  | beginRelay | killRelay | advise | killListener =>
    obtain rfl := Option.some.inj h
    exact ⟨m, hm, .same _⟩

theorem msg?_update_eq_none {stream : WorkStream} {seq seq' : ℤ} {f : StreamMsg → StreamMsg}
    (h : stream.msg? seq' = none) : (stream.update seq f).msg? seq' = none := by
  rw [WorkStream.msg?_update, h]
  rfl

/-- **A message is stored by a relay**, from the entry it is about to publish. -/
theorem step_msg_new {a : PipelineStep} (h : p.step cfg a = some p') {seq : ℤ} {m' : StreamMsg}
    (hm' : p'.stream.msg? seq = some m') (hnone : p.stream.msg? seq = none) :
    ∃ rid ans remembered r batch entry rest, a = .relay rid ans remembered ∧
      p.relays[rid]? = some r ∧ r.alive = true ∧ r.pc = .publish batch entry rest ∧
      seq = ((p.stream.length + 1 : ℕ) : ℤ) ∧ p'.fleet = p.fleet ∧
      m' = { subject := entry.2.subject, msgId := entry.1, data := entry.2.payload } := by
  have hsame : p'.stream.msg? seq ≠ none := by rw [hm']; simp
  cases a with
  | submit | replay | die | tick | vanish =>
    obtain ⟨f, -, rfl⟩ := onFleet_eq_some h
    exact absurd hnone hsame
  | handle pid ans =>
    obtain ⟨f, -, rfl⟩ := onFleet_eq_some h
    refine absurd (?_ : (p.streamAfter cfg pid ans).msg? seq = none) hsame
    rw [streamAfter]
    split
    · exact hnone
    · split
      · exact hnone
      · next c hcall =>
        split
        · cases c with
          | ack | term | nak delay => exact msg?_update_eq_none hnone
          | kv | recordEvent | execute => exact hnone
        · exact hnone
  | deliver n workerId =>
    obtain ⟨m, f, -, -, -, rfl⟩ := deliver_eq_some h
    exact absurd (msg?_update_eq_none hnone) hsame
  | miss n =>
    obtain ⟨m, -, -, rfl⟩ := miss_eq_some h
    exact absurd (msg?_update_eq_none hnone) hsame
  | exhaust n =>
    obtain ⟨m, -, -, -, rfl⟩ := exhaust_eq_some h
    exact absurd (msg?_update_eq_none hnone) hsame
  | relay rid ans remembered =>
    obtain ⟨r, pc, hget, halive, -, -, -, -, -, ⟨-, hs, -⟩ | ⟨batch, entry, rest, hpc, hf, hs⟩ |
      ⟨batch, -, hs, -⟩⟩ := relay_cases h
    · exact absurd (hs ▸ hnone) hsame
    · rw [hs] at hm'
      rcases WorkStream.msg?_publish_eq_some hm' with hold | ⟨hseq, rfl⟩
      · rw [hnone] at hold
        exact absurd hold (by simp)
      · exact ⟨rid, ans, remembered, r, batch, entry, rest, rfl, hget, halive, hpc, hseq, hf,
          rfl⟩
    · exact absurd (hs ▸ hnone) hsame
  | quarantine qid ans remembered =>
    obtain ⟨q, c, reply, pc, -, -, -, -, -, ⟨-, hs, -, -⟩ | ⟨adv, raw, -, hs, -, -⟩ |
      ⟨adv, raw, -, -, hs, -⟩ | ⟨-, -, hs, -⟩⟩ := quarantine_cases cfg h
    · exact absurd (hs ▸ hnone) hsame
    · exact absurd (hs ▸ hnone) hsame
    · exact absurd (hs ▸ msg?_update_eq_none hnone) hsame
    · exact absurd (hs ▸ hnone) hsame
  | fetch aid =>
    obtain ⟨x, -, -, rfl⟩ := fetch_eq_some h
    exact absurd hnone hsame
  | beginRelay | killRelay | advise | killListener =>
    obtain rfl := Option.some.inj h
    exact absurd hnone hsame

/-! ### Relays, advisories, listeners -/

/-- **What a step does to the relays.** -/
theorem step_relay {a : PipelineStep} (h : p.step cfg a = some p') {rid : ℕ} {r' : RelayRun}
    (hget : p'.relays[rid]? = some r') :
    (p.relays[rid]? = some r' ∧ ∀ ans remembered, a ≠ .relay rid ans remembered) ∨
    (∃ r, p.relays[rid]? = some r ∧ a = .killRelay rid ∧ r' = { r with alive := false }) ∨
    (p.relays[rid]? = none ∧ r' = {}) ∨
    ∃ r ans remembered c pc, a = .relay rid ans remembered ∧ p.relays[rid]? = some r ∧
      r.alive = true ∧ RelayMove cfg p r.pc c ans pc ∧ r' = { r with pc := pc } := by
  cases a with
  | submit | replay | die | tick | vanish | handle =>
    obtain ⟨f, -, rfl⟩ := onFleet_eq_some h
    exact .inl ⟨hget, by simp⟩
  | deliver n workerId =>
    obtain ⟨m, f, -, -, -, rfl⟩ := deliver_eq_some h
    exact .inl ⟨hget, by simp⟩
  | miss n =>
    obtain ⟨m, -, -, rfl⟩ := miss_eq_some h
    exact .inl ⟨hget, by simp⟩
  | exhaust n =>
    obtain ⟨m, -, -, -, rfl⟩ := exhaust_eq_some h
    exact .inl ⟨hget, by simp⟩
  | relay rid' ans remembered =>
    obtain ⟨r, pc, hget', halive, ⟨c, hmove⟩, hr, -⟩ := relay_cases h
    rw [hr] at hget
    rcases List.getElem?_set_eq_some hget with ⟨rfl, rfl⟩ | ⟨hne, hold⟩
    · exact .inr (.inr (.inr ⟨r, ans, remembered, c, pc, rfl, hget', halive, hmove, rfl⟩))
    · exact .inl ⟨hold, by simp [hne]⟩
  | quarantine qid ans remembered =>
    obtain ⟨q, c, reply, pc, -, -, -, -, hr, -⟩ := quarantine_cases cfg h
    exact .inl ⟨hr ▸ hget, by simp⟩
  | fetch aid =>
    obtain ⟨x, -, -, rfl⟩ := fetch_eq_some h
    exact .inl ⟨hget, by simp⟩
  | beginRelay =>
    obtain rfl := Option.some.inj h
    rcases List.getElem?_concat_eq_some hget with hold | ⟨hnone, -, rfl⟩
    · exact .inl ⟨hold, by simp⟩
    · exact .inr (.inr (.inl ⟨hnone, rfl⟩))
  | killRelay rid' =>
    obtain rfl := Option.some.inj h
    obtain ⟨r, hr, ⟨rfl, rfl⟩ | ⟨-, rfl⟩⟩ := List.getElem?_modify_eq_some hget
    · exact .inr (.inl ⟨r, hr, rfl, rfl⟩)
    · exact .inl ⟨hr, by simp⟩
  | advise | killListener =>
    obtain rfl := Option.some.inj h
    exact .inl ⟨hget, by simp⟩

/-- A relay once begun stays. -/
theorem step_relay_of_some {a : PipelineStep} (h : p.step cfg a = some p') {rid : ℕ} {r : RelayRun}
    (hget : p.relays[rid]? = some r) : ∃ r', p'.relays[rid]? = some r' := by
  have hlt := (List.getElem?_eq_some_iff.1 hget).1
  cases a with
  | submit | replay | die | tick | vanish | handle =>
    obtain ⟨f, -, rfl⟩ := onFleet_eq_some h
    exact ⟨r, hget⟩
  | deliver n workerId =>
    obtain ⟨m, f, -, -, -, rfl⟩ := deliver_eq_some h
    exact ⟨r, hget⟩
  | miss n =>
    obtain ⟨m, -, -, rfl⟩ := miss_eq_some h
    exact ⟨r, hget⟩
  | exhaust n =>
    obtain ⟨m, -, -, -, rfl⟩ := exhaust_eq_some h
    exact ⟨r, hget⟩
  | relay rid' ans remembered =>
    obtain ⟨r₀, pc, -, -, -, hr, -⟩ := relay_cases h
    exact ⟨_, List.getElem?_eq_getElem (by rw [hr, List.length_set]; exact hlt)⟩
  | quarantine qid ans remembered =>
    obtain ⟨q, c, reply, pc, -, -, -, -, hr, -⟩ := quarantine_cases cfg h
    exact ⟨r, hr ▸ hget⟩
  | fetch aid =>
    obtain ⟨x, -, -, rfl⟩ := fetch_eq_some h
    exact ⟨r, hget⟩
  | beginRelay =>
    obtain rfl := Option.some.inj h
    exact ⟨r, by rw [List.getElem?_append_left hlt, hget]⟩
  | killRelay rid' =>
    obtain rfl := Option.some.inj h
    exact ⟨_, by rw [List.getElem?_modify, hget]; rfl⟩
  | advise | killListener =>
    obtain rfl := Option.some.inj h
    exact ⟨r, hget⟩

/-- **What a step does to the advisories**: none is lost or changed but for its acknowledgement, by
a listener that has come to it. -/
theorem step_advisory {a : PipelineStep} (h : p.step cfg a = some p') {aid : ℕ}
    {x : StoredAdvisory} (hget : p.advisories[aid]? = some x) :
    ∃ x', p'.advisories[aid]? = some x' ∧ x'.raw = x.raw ∧
      (x'.acked = x.acked ∨ ∃ qid ans remembered q, a = .quarantine qid ans remembered ∧
        p.quarantines[qid]? = some q ∧ q.alive = true ∧ q.pc = .ackAdvisory ∧
        q.advisory = aid) := by
  have hlt := (List.getElem?_eq_some_iff.1 hget).1
  cases a with
  | submit | replay | die | tick | vanish | handle =>
    obtain ⟨f, -, rfl⟩ := onFleet_eq_some h
    exact ⟨x, hget, rfl, .inl rfl⟩
  | deliver n workerId =>
    obtain ⟨m, f, -, -, -, rfl⟩ := deliver_eq_some h
    exact ⟨x, hget, rfl, .inl rfl⟩
  | miss n =>
    obtain ⟨m, -, -, rfl⟩ := miss_eq_some h
    exact ⟨x, hget, rfl, .inl rfl⟩
  | exhaust n =>
    obtain ⟨m, -, -, -, rfl⟩ := exhaust_eq_some h
    exact ⟨x, by rw [List.getElem?_append_left hlt, hget], rfl, .inl rfl⟩
  | relay rid ans remembered =>
    obtain ⟨r, pc, -, -, -, -, ha, -⟩ := relay_cases h
    exact ⟨x, ha ▸ hget, rfl, .inl rfl⟩
  | quarantine qid ans remembered =>
    obtain ⟨q, c, reply, pc, hq, halive, -, -, -, ⟨-, -, ha, -⟩ | ⟨adv, raw, -, -, ha, -⟩ |
      ⟨adv, raw, -, -, -, ha⟩ | ⟨hpc, -, -, ha⟩⟩ := quarantine_cases cfg h
    · exact ⟨x, ha ▸ hget, rfl, .inl rfl⟩
    · exact ⟨x, ha ▸ hget, rfl, .inl rfl⟩
    · exact ⟨x, ha ▸ hget, rfl, .inl rfl⟩
    · refine ⟨_, by rw [ha, List.getElem?_modify, hget]; rfl, ?_⟩
      dsimp only
      split
      · next heq => exact ⟨rfl, .inr ⟨qid, ans, remembered, q, rfl, hq, halive, hpc, heq⟩⟩
      · exact ⟨rfl, .inl rfl⟩
  | fetch aid' =>
    obtain ⟨x', -, -, rfl⟩ := fetch_eq_some h
    exact ⟨x, hget, rfl, .inl rfl⟩
  | advise raw =>
    obtain rfl := Option.some.inj h
    exact ⟨x, by rw [List.getElem?_append_left hlt, hget], rfl, .inl rfl⟩
  | beginRelay | killRelay | killListener =>
    obtain rfl := Option.some.inj h
    exact ⟨x, hget, rfl, .inl rfl⟩

/-- An advisory was there before, or the broker or somebody else has just stored it. -/
theorem advisory_cases {a : PipelineStep} (h : p.step cfg a = some p') {aid : ℕ}
    {x' : StoredAdvisory} (hget : p'.advisories[aid]? = some x') :
    (∃ x, p.advisories[aid]? = some x) ∨
    aid = p.advisories.length ∧ ((∃ n, a = .exhaust n) ∨ ∃ raw, a = .advise raw) := by
  cases a with
  | submit | replay | die | tick | vanish | handle =>
    obtain ⟨f, -, rfl⟩ := onFleet_eq_some h
    exact .inl ⟨x', hget⟩
  | deliver n workerId =>
    obtain ⟨m, f, -, -, -, rfl⟩ := deliver_eq_some h
    exact .inl ⟨x', hget⟩
  | miss n =>
    obtain ⟨m, -, -, rfl⟩ := miss_eq_some h
    exact .inl ⟨x', hget⟩
  | exhaust n =>
    obtain ⟨m, -, -, -, rfl⟩ := exhaust_eq_some h
    rcases List.getElem?_concat_eq_some hget with hold | ⟨-, hlen, -⟩
    · exact .inl ⟨x', hold⟩
    · exact .inr ⟨hlen, .inl ⟨n, rfl⟩⟩
  | relay rid ans remembered =>
    obtain ⟨r, pc, -, -, -, -, ha, -⟩ := relay_cases h
    exact .inl ⟨x', ha ▸ hget⟩
  | quarantine qid ans remembered =>
    obtain ⟨q, c, reply, pc, -, -, -, -, -, ⟨-, -, ha, -⟩ | ⟨adv, raw, -, -, ha, -⟩ |
      ⟨adv, raw, -, -, -, ha⟩ | ⟨-, -, -, ha⟩⟩ := quarantine_cases cfg h
    · exact .inl ⟨x', ha ▸ hget⟩
    · exact .inl ⟨x', ha ▸ hget⟩
    · exact .inl ⟨x', ha ▸ hget⟩
    · obtain ⟨x, hx, -⟩ := List.getElem?_modify_eq_some (ha ▸ hget)
      exact .inl ⟨x, hx⟩
  | fetch aid' =>
    obtain ⟨x, -, -, rfl⟩ := fetch_eq_some h
    exact .inl ⟨x', hget⟩
  | advise raw =>
    obtain rfl := Option.some.inj h
    rcases List.getElem?_concat_eq_some hget with hold | ⟨-, hlen, -⟩
    · exact .inl ⟨x', hold⟩
    · exact .inr ⟨hlen, .inr ⟨raw, rfl⟩⟩
  | beginRelay | killRelay | killListener =>
    obtain rfl := Option.some.inj h
    exact .inl ⟨x', hget⟩

/-- **What a step does to the listeners at work.** -/
theorem step_quarantine {a : PipelineStep} (h : p.step cfg a = some p') {qid : ℕ}
    {q' : QuarantineRun} (hget : p'.quarantines[qid]? = some q') :
    (p.quarantines[qid]? = some q' ∧ ∀ ans remembered, a ≠ .quarantine qid ans remembered) ∨
    (∃ q, p.quarantines[qid]? = some q ∧ a = .killListener qid ∧
      q' = { q with alive := false }) ∨
    (∃ aid x, a = .fetch aid ∧ p.advisories[aid]? = some x ∧ x.acked = false ∧
      q' = { advisory := aid, pc := .start x.raw }) ∨
    ∃ q ans remembered c reply pc, a = .quarantine qid ans remembered ∧
      p.quarantines[qid]? = some q ∧ q.alive = true ∧ QuarantineMove p q.pc c ans reply pc ∧
      q' = q.advance p'.fleet.world.db c reply pc := by
  cases a with
  | submit | replay | die | tick | vanish | handle =>
    obtain ⟨f, -, rfl⟩ := onFleet_eq_some h
    exact .inl ⟨hget, by simp⟩
  | deliver n workerId =>
    obtain ⟨m, f, -, -, -, rfl⟩ := deliver_eq_some h
    exact .inl ⟨hget, by simp⟩
  | miss n =>
    obtain ⟨m, -, -, rfl⟩ := miss_eq_some h
    exact .inl ⟨hget, by simp⟩
  | exhaust n =>
    obtain ⟨m, -, -, -, rfl⟩ := exhaust_eq_some h
    exact .inl ⟨hget, by simp⟩
  | relay rid ans remembered =>
    obtain ⟨r, pc, -, -, -, -, -, hq, -⟩ := relay_cases h
    exact .inl ⟨hq ▸ hget, by simp⟩
  | quarantine qid' ans remembered =>
    obtain ⟨q, c, reply, pc, hget', halive, hmove, hq, -⟩ := quarantine_cases cfg h
    rw [hq] at hget
    rcases List.getElem?_set_eq_some hget with ⟨rfl, rfl⟩ | ⟨hne, hold⟩
    · exact .inr (.inr (.inr ⟨q, ans, remembered, c, reply, pc, rfl, hget', halive, hmove, rfl⟩))
    · exact .inl ⟨hold, by simp [hne]⟩
  | fetch aid =>
    obtain ⟨x, hx, hacked, rfl⟩ := fetch_eq_some h
    rcases List.getElem?_concat_eq_some hget with hold | ⟨-, -, rfl⟩
    · exact .inl ⟨hold, by simp⟩
    · exact .inr (.inr (.inl ⟨aid, x, rfl, hx, hacked, rfl⟩))
  | killListener qid' =>
    obtain rfl := Option.some.inj h
    obtain ⟨q, hq, ⟨rfl, rfl⟩ | ⟨-, rfl⟩⟩ := List.getElem?_modify_eq_some hget
    · exact .inr (.inl ⟨q, hq, rfl, rfl⟩)
    · exact .inl ⟨hq, by simp⟩
  | beginRelay | killRelay | advise =>
    obtain rfl := Option.some.inj h
    exact .inl ⟨hget, by simp⟩

end Pipeline

end Orbiter
