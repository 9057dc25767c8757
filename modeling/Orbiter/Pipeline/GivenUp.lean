import Orbiter.Pipeline.Bounded
import Orbiter.Pipeline.Quarantines

/-!
# No job is given up early

A job is given up in two ways: a worker fails it for good, or a listener dead-letters it. The worker
looks at the number of its own delivery, the listener at an advisory; neither asks the broker how
often it has delivered the message. In every run whose advisories are the broker's own, it has done
so as often as the settings allow.

* `TriedOut`: a message of the job has been delivered `max_deliver` times, by the broker's count.
* `Genuine`: an advisory speaks of a message at its limit, and says the limit.
* `Justified`: an event that gives a job up carries the limit as its attempt, and such a message
  stands behind it.

Each of the three stays once it holds, since messages keep their count and advisories their text.
New events come from two places, and there is a lemma for each: a call of a worker at the limit
(`justified_of_call`), whose attempt is the number of a delivery, and the record of a listener
(`triedOut_of_record`), whose attempt is what the advisory says. `not_given_up_early` reads the
result off a job's log and off its row.

The broker counts deliveries, not calls. One that reaches nobody, because `fetch` had just given up
or its process was dead, counts like the others; so a job can be given up of which hardly any worker
ever heard (`not_given_up_early_of_missesAll`). With an advisory of somebody else it is
dead-lettered without having been delivered at all (`given_up_unheard`).
-/

namespace Orbiter

/-- The step publishes an advisory that is not the broker's. -/
def PipelineStep.forges : PipelineStep → Bool
  | .advise _ => true
  | _ => false

namespace Pipeline

variable {cfg : Settings} {G : Pipeline → PipelineStep → Prop} {p p' : Pipeline}
  {a : PipelineStep} {j : Uuid}

/-! ### Tried out -/

/-- The message with this sequence number is for the job, and the broker has delivered it as often
as the settings allow. -/
def TriedOut (cfg : Settings) (p : Pipeline) (j : Uuid) (seq : ℤ) : Prop :=
  ∃ m, p.stream.msg? seq = some m ∧ m.data.jobId = j ∧ m.delivered = cfg.maxDeliver

theorem triedOut_of_delivered (h : (system cfg).Reachable G p) {seq : ℤ} {m : StreamMsg}
    (hm : p.stream.msg? seq = some m) (hle : cfg.maxDeliver ≤ m.delivered) :
    p.TriedOut cfg m.data.jobId seq :=
  ⟨m, hm, rfl, Nat.le_antisymm (delivered_le_maxDeliver h hm) hle⟩

/-- The broker's count never falls. -/
theorem TriedOut.step {seq : ℤ} (ht : p.TriedOut cfg j seq) (hr : (system cfg).Reachable G p')
    (h : p.step cfg a = some p') : p'.TriedOut cfg j seq := by
  obtain ⟨m, hm, rfl, hdel⟩ := ht
  obtain ⟨m', hm', hstep⟩ := step_msg h hm
  rw [← hstep.data]
  exact triedOut_of_delivered hr hm' (hdel ▸ hstep.delivered_le)

/-! ### Advisories of the broker -/

/-- Nobody but the broker publishes advisories. -/
def NoneForged (_ : Pipeline) (a : PipelineStep) : Prop := a.forges = false

/-- An advisory is the broker's, about a message delivered to the limit. -/
def Genuine (cfg : Settings) (p : Pipeline) (x : StoredAdvisory) : Prop :=
  ∃ (n : ℕ) (m : StreamMsg), p.stream.msg? n = some m ∧ m.delivered = cfg.maxDeliver ∧
    x.raw = brokerAdvisory cfg n cfg.maxDeliver

theorem Genuine.step {x x' : StoredAdvisory} (hx : p.Genuine cfg x)
    (hr : (system cfg).Reachable G p') (h : p.step cfg a = some p') (hraw : x'.raw = x.raw) :
    p'.Genuine cfg x' := by
  obtain ⟨n, m, hm, hdel, hxr⟩ := hx
  obtain ⟨m', hm', hstep⟩ := step_msg h hm
  exact ⟨n, m', hm', Nat.le_antisymm (delivered_le_maxDeliver hr hm')
    (hdel ▸ hstep.delivered_le), hraw.trans hxr⟩

/-- **Where only the broker publishes advisories, they are true.** -/
theorem genuine_of_reachable (h : (system cfg).Reachable NoneForged p) {aid : ℕ}
    {x : StoredAdvisory} (hx : p.advisories[aid]? = some x) : p.Genuine cfg x := by
  refine h.induct (I := fun p ↦ ∀ (aid : ℕ) (x : StoredAdvisory), p.advisories[aid]? = some x →
    p.Genuine cfg x) (fun p hp ↦ ?_) (fun p a p' hr ih hg (hs : p.step cfg a = some p') ↦ ?_)
    aid x hx
  · rw [hp]
    exact fun aid x hx ↦ absurd hx (by simp [empty])
  · intro aid x' hx'
    have hr' : (system cfg).Reachable NoneForged p' := hr.next hg hs
    rcases advisory_cases hs hx' with ⟨x, hx⟩ | ⟨rfl, ⟨n, rfl⟩ | ⟨raw, rfl⟩⟩
    · obtain ⟨x₁, hx₁, hraw, -⟩ := step_advisory hs hx
      obtain rfl := Option.some.inj (hx₁.symm.trans hx')
      exact (ih aid x hx).step hr' hs hraw
    · obtain ⟨m, hm, hle, -, rfl⟩ := exhaust_eq_some hs
      have hm := (WorkStream.stored?_eq_some.1 hm).1
      have hmax := Nat.le_antisymm (delivered_le_maxDeliver hr hm) hle
      obtain rfl := Option.some.inj (List.getElem?_concat_length.symm.trans hx')
      refine ⟨n, { m with advisory := some p.advisories.length }, ?_, hmax, ?_⟩
      · show (p.stream.update n _).msg? n = _
        rw [WorkStream.msg?_update, hm, Option.map_some, if_pos rfl]
      · show brokerAdvisory cfg n m.delivered = _
        rw [hmax]
    · exact absurd hg (by simp [NoneForged, PipelineStep.forges])

/-- What a listener is about to record is about a message that was tried to its limit. -/
theorem triedOut_of_record (h : (system cfg).Reachable NoneForged p) {qid : ℕ}
    {q : QuarantineRun} {adv : MaxDeliveriesAdvisory} {raw : Message SubmitRequest}
    (hq : p.quarantines[qid]? = some q) (hpc : q.pc = .record adv raw) :
    adv.deliveries = cfg.maxDeliver ∧ p.TriedOut cfg raw.jobId adv.streamSeq := by
  have hadvised := advised_of_reachable h
  have hadv : q.pc.adv? = some adv := by rw [hpc]; rfl
  obtain ⟨x, hx, hparse⟩ := hadvised.run qid q hq
  obtain ⟨n, m, hm, hdel, hraw⟩ := genuine_of_reachable h hx
  have hown := hparse adv hadv
  rw [hraw, parseAdvisory_brokerAdvisory, Except.ok.injEq, Option.some.injEq] at hown
  obtain ⟨m', hm', rfl⟩ := hadvised.fetched qid q adv raw hq hadv (by rw [hpc]; rfl)
  subst hown
  obtain rfl := Option.some.inj (hm.symm.trans hm')
  exact ⟨rfl, triedOut_of_delivered h hm hdel.ge⟩

/-! ### What stands behind an event -/

/-- An event names a delivery that can be, and one that gives the job up, a message that was tried
to its limit. -/
structure Justified (cfg : Settings) (p : Pipeline) (e : EventRow) : Prop where
  range : 0 ≤ e.attempt ∧ e.attempt ≤ cfg.maxDeliver
  failed : e.event = .failed →
    e.attempt = cfg.maxDeliver ∧ ∃ seq, p.TriedOut cfg e.jobId seq
  deadLettered : e.event = .deadLettered → e.attempt = cfg.maxDeliver ∧
    ∃ seq, e.deadLetters seq = true ∧ p.TriedOut cfg e.jobId seq

theorem Justified.step {e : EventRow} (he : p.Justified cfg e)
    (hr : (system cfg).Reachable G p') (h : p.step cfg a = some p') : p'.Justified cfg e where
  range := he.range
  failed hev := by
    obtain ⟨hatt, seq, ht⟩ := he.failed hev
    exact ⟨hatt, seq, ht.step hr h⟩
  deadLettered hev := by
    obtain ⟨hatt, seq, hseq, ht⟩ := he.deadLettered hev
    exact ⟨hatt, seq, hseq, ht.step hr h⟩

/-- An event that gives nobody up. -/
theorem justified_of_event {e : EventRow} (hrange : 0 ≤ e.attempt ∧ e.attempt ≤ cfg.maxDeliver)
    (hfailed : e.event ≠ .failed) (hdead : e.event ≠ .deadLettered) : p.Justified cfg e :=
  ⟨hrange, fun h ↦ absurd h hfailed, fun h ↦ absurd h hdead⟩

/-- What a call of a worker writes is justified by its own delivery. -/
theorem justified_of_call (h : (system cfg).Reachable G p) {pid : ℕ} {hc : HandleCall} {w : Write}
    (hget : p.fleet.calls[pid]? = some hc) (hcall : hc.call? cfg = some (.recordEvent w))
    (now : ℕ) :
    p.Justified cfg ⟨w.jobId, w.event, w.attempt, w.detail.getD (.obj []), now⟩ := by
  obtain ⟨m, hm, hjob, -, hle⟩ := delivered_of_reachable h pid hc hget
  have hmax := delivered_le_maxDeliver h hm
  have hlimit := Fleet.withinLimit_of_reachable (fleet_reachable h) hget
  have hrange : (0 : ℤ) ≤ hc.delivery.attempt ∧ (hc.delivery.attempt : ℤ) ≤ cfg.maxDeliver :=
    ⟨Int.natCast_nonneg _, Int.ofNat_le.2 (hle.trans hmax)⟩
  obtain ⟨-, l, ⟨-, rfl⟩ | ⟨result, -, rfl⟩ | ⟨message, -, rfl⟩ | ⟨message, hpc, rfl⟩⟩ :=
    HandleCall.recordEvent_of_call? hcall
  · exact justified_of_event hrange (by simp [Worker.startedWrite])
      (by simp [Worker.startedWrite])
  · exact justified_of_event hrange (by simp [Worker.completedWrite])
      (by simp [Worker.completedWrite])
  · exact justified_of_event hrange (by simp [Worker.requeuedWrite])
      (by simp [Worker.requeuedWrite])
  · -- The last delivery of its message, so all of them were made.
    rw [hpc] at hlimit
    have hlast : hc.delivery.attempt = cfg.maxDeliver :=
      Nat.le_antisymm (hle.trans hmax) (not_lt.1 hlimit)
    refine ⟨hrange, fun _ ↦ ⟨congrArg _ hlast, hc.delivery.seq, ?_⟩, fun hev ↦ ?_⟩
    · show p.TriedOut cfg hc.delivery.jobId _
      rw [hjob]
      exact triedOut_of_delivered h hm (hlast ▸ hle)
    · exact absurd hev (by simp [Worker.failedWrite])

/-- What a step of the pipeline writes is justified. -/
theorem justified_of_makes (h : (system cfg).Reachable NoneForged p) {b : FleetStep}
    (hb : Drives cfg p a b) {who : Writer} {w : Write} (hmakes : p.fleet.Makes cfg b who w)
    (now : ℕ) :
    p.Justified cfg ⟨w.jobId, w.event, w.attempt, w.detail.getD (.obj []), now⟩ := by
  cases hb with
  | handle pid ans =>
    obtain ⟨-, hc, hget, hcall⟩ := hmakes
    exact justified_of_call h hget hcall now
  | replay jobId =>
    obtain ⟨-, rfl⟩ := hmakes
    exact justified_of_event ⟨le_rfl, Int.natCast_nonneg _⟩ (by simp [Database.replayWrite])
      (by simp [Database.replayWrite])
  | @record qid ans remembered q adv raw hq halive hpc =>
    obtain ⟨-, rfl⟩ := hmakes
    obtain ⟨hdel, ht⟩ := triedOut_of_record h hq hpc
    refine ⟨⟨hdel ▸ Int.natCast_nonneg _, hdel.le⟩, fun hev ↦ ?_, fun _ ↦
      ⟨hdel, adv.streamSeq, ?_, ht⟩⟩
    · exact absurd hev (by simp [deadLetterWrite])
    · simp [EventRow.deadLetters, deadLetterWrite, Json.get?, Json.int?]
  | submit | mark | deliver | die | tick | vanish => exact hmakes.elim

/-- **In runs without forged advisories every event is justified.** -/
theorem justified_of_reachable (h : (system cfg).Reachable NoneForged p) {id : ℕ} {e : EventRow}
    (he : (id, e) ∈ p.fleet.world.db.eventRows j) : e.jobId = j ∧ p.Justified cfg e := by
  refine h.induct (I := fun p ↦ ∀ (id : ℕ) (e : EventRow),
    (id, e) ∈ p.fleet.world.db.eventRows j → e.jobId = j ∧ p.Justified cfg e) (fun p hp ↦ ?_)
    (fun p a p' hr ih hg (hs : p.step cfg a = some p') ↦ ?_) id e he
  · rw [hp]
    exact fun id e he ↦ absurd he (by simp [empty, World.empty])
  · intro id e he
    have hr' : (system cfg).Reachable NoneForged p' := hr.next hg hs
    have hold : (id, e) ∈ p.fleet.world.db.eventRows j → e.jobId = j ∧ p'.Justified cfg e :=
      fun he ↦ (ih id e he).imp_right fun hj ↦ hj.step hr' hs
    rcases step_fleet hs with hsame | ⟨b, hb, hstep⟩
    · exact hold (hsame ▸ he)
    · rcases Fleet.jobStep hstep j with ⟨-, hrows, -⟩ |
        ⟨who, key, payload, id₁, id₂, -, -, hrows, -⟩ |
        ⟨who, w, row, next, id₁, hmade, rfl, -, -, -, -, hrows, -⟩
      · exact hold (hrows ▸ he)
      · rw [hrows] at he
        rcases List.mem_append.1 he with he | hnew
        · exact hold he
        · have hzero : (0 : ℤ) ≤ cfg.maxDeliver := Int.natCast_nonneg _
          simp only [List.mem_cons, Prod.mk.injEq, List.not_mem_nil, or_false] at hnew
          rcases hnew with ⟨-, rfl⟩ | ⟨-, rfl⟩
          · exact ⟨rfl, justified_of_event ⟨le_rfl, hzero⟩ (by simp) (by simp)⟩
          · exact ⟨rfl, justified_of_event ⟨le_rfl, hzero⟩ (by simp) (by simp)⟩
      · rw [hrows] at he
        rcases List.mem_append.1 he with he | hnew
        · exact hold he
        · obtain ⟨-, rfl⟩ := Prod.mk.inj (List.mem_singleton.1 hnew)
          exact ⟨rfl, (justified_of_makes hr hb hmade _).step hr' hs⟩

theorem eq_of_target_givenUp {e : EventType} (h : e.target = .failed ∨ e.target = .deadLetter) :
    e = .failed ∨ e = .deadLettered := by
  cases e <;> simp_all [EventType.target]

/-- The event a state comes from is in the log. -/
theorem exists_event_of_row (h : (system cfg).Reachable G p) {row : JobRow SubmitRequest}
    (hj : p.fleet.world.db.job? j = some row) :
    ∃ id e, (id, e) ∈ p.fleet.world.db.eventRows j ∧ row.state = e.event.target := by
  have hcons := Fleet.consistent_of_reachable (fleet_reachable h)
  obtain ⟨ev, hlast, htarget⟩ := getLast?_of_replay (hcons.projects j row hj).state
  obtain ⟨⟨id, e⟩, he, rfl⟩ := List.mem_map.1 (List.mem_of_getLast? hlast)
  exact ⟨id, e, he, htarget⟩

/-- **No job is given up early.** In every run whose advisories are the broker's own, an event that
fails or dead-letters a job carries the delivery limit as its attempt, and there is a message of the
job, for a dead-lettering the one it names, which the broker has delivered as often as the limit
says; a job that is failed or dead-lettered has such a message, and no job shows more attempts than
the limit. -/
theorem not_given_up_early (h : (system cfg).Reachable NoneForged p) (j : Uuid) :
    (∀ id e, (id, e) ∈ p.fleet.world.db.eventRows j →
      (e.event = .failed → e.attempt = cfg.maxDeliver ∧ ∃ seq, p.TriedOut cfg j seq) ∧
      (e.event = .deadLettered → e.attempt = cfg.maxDeliver ∧
        ∃ seq, e.deadLetters seq = true ∧ p.TriedOut cfg j seq)) ∧
    ∀ row, p.fleet.world.db.job? j = some row →
      row.attempts ≤ cfg.maxDeliver ∧
      (row.state = .failed ∨ row.state = .deadLetter → ∃ seq, p.TriedOut cfg j seq) := by
  have hall : ∀ id e, (id, e) ∈ p.fleet.world.db.eventRows j → e.jobId = j ∧ p.Justified cfg e :=
    fun id e he ↦ justified_of_reachable h he
  constructor
  · intro id e he
    obtain ⟨rfl, hjust⟩ := hall id e he
    exact ⟨hjust.failed, hjust.deadLettered⟩
  · intro row hrow
    have hcons := Fleet.consistent_of_reachable (fleet_reachable h)
    obtain ⟨⟨⟨id, e⟩, he, hatt⟩, -⟩ := (hcons.projects j row hrow).attempts
    refine ⟨hatt ▸ (hall id e he).2.range.2, fun hstate ↦ ?_⟩
    obtain ⟨id, e, he, htarget⟩ := exists_event_of_row h hrow
    obtain ⟨rfl, hjust⟩ := hall id e he
    rw [htarget] at hstate
    rcases eq_of_target_givenUp hstate with hev | hev
    · exact (hjust.failed hev).2
    · obtain ⟨-, seq, -, ht⟩ := hjust.deadLettered hev
      exact ⟨seq, ht⟩

/-- A job whose worker is killed at once. Its other four deliveries reach nobody, and a listener
works through the advisory. -/
def missesAll : List PipelineStep :=
  [.submit ⟨0⟩ "k" (.healthy 10 ten_le_limit) [], .beginRelay, .relay 0 .served true,
    .relay 0 .served true, .relay 0 .served true, .deliver 1 "w", .die 0, .miss 1, .miss 1, .miss 1,
    .miss 1, .exhaust 1, .fetch 0, .quarantine 0 .served true, .quarantine 0 .served true,
    .quarantine 0 .served true, .quarantine 0 .served true, .quarantine 0 .served true]

/-- The healthy job is dead-lettered after five deliveries, of which one call got to know. -/
theorem not_given_up_early_of_missesAll : ∃ p : Pipeline,
    (system {}).Reachable NoneForged p ∧ p.fleet.deliveries.length = 1 ∧
    p.fleet.world.db.log ⟨0⟩ = [.submitted, .enqueued, .deadLettered] ∧
    ∃ seq m, p.stream.msg? seq = some m ∧ m.data.jobId = ⟨0⟩ ∧ m.delivered = 5 := by
  have hrun : ((system {}).execGuarded (fun _ a ↦ !a.forges) empty missesAll).any
      (fun p ↦ p.fleet.deliveries.length = 1 &&
        (p.fleet.world.db.log ⟨0⟩ = [.submitted, .enqueued, .deadLettered] &&
        (p.fleet.world.db.job? ⟨0⟩).any fun row ↦ row.state = .deadLetter)) = true := by
    rfl
  obtain ⟨p, hl, hp⟩ := TransitionSystem.exists_leads_of_execGuarded
    (G := NoneForged) (fun _ a ha ↦ by simpa [NoneForged] using ha) hrun
  obtain ⟨hone, hp⟩ := Bool.and_eq_true_iff.1 hp
  obtain ⟨hlog, hp⟩ := Bool.and_eq_true_iff.1 hp
  obtain ⟨row, hrow, hstate⟩ := (Option.any_eq_true _ _).1 hp
  have hr : (system {}).Reachable NoneForged p := ⟨_, rfl, hl⟩
  obtain ⟨seq, m, hm, hjob, hdel⟩ := ((not_given_up_early hr ⟨0⟩).2 row hrow).2
    (.inr (of_decide_eq_true hstate))
  exact ⟨p, hr, of_decide_eq_true hone, of_decide_eq_true hlog, seq, m, hm, hjob, hdel⟩

/-- **A forged advisory gives a job up unheard**: it was never delivered. -/
theorem given_up_unheard : ∃ p : Pipeline,
    (system {}).Reachable TransitionSystem.anyStep p ∧ p.fleet.deliveries = [] ∧
    p.fleet.world.db.log ⟨0⟩ = [.submitted, .enqueued, .deadLettered] := by
  have hrun : ((system {}).exec empty
      [.submit ⟨0⟩ "k" (.healthy 10 ten_le_limit) [], .beginRelay, .relay 0 .served true,
        .relay 0 .served true, .relay 0 .served true, .advise (brokerAdvisory {} 1 5), .fetch 0,
        .quarantine 0 .served true, .quarantine 0 .served true,
        .quarantine 0 .served true]).any (fun p ↦ p.fleet.calls.isEmpty &&
      p.fleet.world.db.log ⟨0⟩ = [.submitted, .enqueued, .deadLettered]) = true := by
    rfl
  obtain ⟨p, hl, hp⟩ := TransitionSystem.exists_leads_of_exec hrun
  obtain ⟨hnone, hlog⟩ := Bool.and_eq_true_iff.1 hp
  refine ⟨p, ⟨_, rfl, hl⟩, ?_, of_decide_eq_true hlog⟩
  rw [Fleet.deliveries, List.isEmpty_iff.1 hnone, List.map_nil]

end Pipeline

end Orbiter
