import Orbiter.Fleet.Course
import Orbiter.Foundation.Records
import Orbiter.Pipeline.Backlog
import Orbiter.Pipeline.Tending
import Orbiter.Services.System

/-!
# The machines of the pipeline, seen alike

Of a machine a service sees three things: whether its process lives, how it ended, and how many
answers it is from its end at most (`MachineState`). The three kinds of machine differ in what they
do and in nothing that matters to the loop around them, so what is proved of services is proved from
the following, once for all kinds.

* `PipelineStep.machine?` — the machine a step concerns, at most one;
* `machine?_of_ne` — **a step leaves all other machines alone.** It is put together from one lemma
  for each kind: `call_of_ne`, `relay_of_ne`, `quarantine_of_ne`;
* `exists_machine_of_begins`, `machine?_kill`, `exists_machine_of_step` — what a step does to its
  own machine: begin it, kill it, or answer it, and every answer brings it nearer to its end,
  whatever the answer is. `machine_cases` says that there is no fourth;
* `machine_served` — while a machine lives and is at work, some answer fits, and not a failed one;
* `left_le_budget` — no machine is ever farther from its end than one of its kind at the beginning.

The ranks of a call and of a listener are those of their modules. A relay's depends on the size of a
batch.
-/

namespace Orbiter

/-- How many answers a relay is from its end at most. -/
def RelayPc.rank (cfg : Settings) : RelayPc → ℕ
  | select => cfg.relayBatchSize + 2
  | publish _ _ rest => rest.length + 2
  | mark _ => 1
  | finished _ => 0

/-- A relay in its loop has an answer to get for each row, and one for the mark. -/
theorem RelayPc.rank_loop_le (cfg : Settings) (batch rest : List OutboxEntry) :
    (loop batch rest).rank cfg ≤ rest.length + 1 := by
  match rest with
  | _ :: rest =>
    show rest.length + 2 ≤ rest.length + 1 + 1
    omega
  | [] =>
    rw [loop]
    split <;> simp [rank]

/-- **Every answer brings a relay nearer to its end.** -/
theorem RelayMove.rank_lt {cfg : Settings} {p : Pipeline} {pc pc' : RelayPc} {c : RelayCall}
    {ans : Answer} (h : RelayMove cfg p pc c ans pc') : pc'.rank cfg < pc.rank cfg := by
  cases h with
  | fault hv applied =>
    cases pc with
    | finished exit => cases hv
    | _ => simp [RelayPc.rank]
  | selected =>
    have hle := RelayPc.rank_loop_le cfg (p.selectUnpublished cfg.relayBatchSize)
      (p.selectUnpublished cfg.relayBatchSize)
    have hlen : (p.selectUnpublished cfg.relayBatchSize).length ≤ cfg.relayBatchSize :=
      List.length_take_le ..
    show _ < cfg.relayBatchSize + 2
    omega
  | published batch entry rest =>
    have hle := RelayPc.rank_loop_le cfg batch rest
    show _ < rest.length + 2
    omega
  | marked batch => exact Nat.zero_lt_one

/-! ### At its end or not -/

/-- A call is at work as long as answers are to come. -/
theorem HandlePc.outcome?_eq_none {pc : HandlePc} : pc.outcome? = none ↔ 0 < pc.rank := by
  match pc with
  | .finished (.ok _) | .finished (.error _) => simp [outcome?, rank]
  | .nakPoison | .readDone | .ackDuplicate | .setClaim | .nakInProgress | .drawToken | .setLease _
  | .releaseClaimUnleased | .nakUnleased | .recordStarted _ | .executing _ | .recordCompleted _ _
  | .setDone _ | .clearClaim _ | .ackCompleted _ | .recordRequeued _ _ | .releaseClaimRequeued _
  | .nakRequeued _ | .recordFailed _ _ | .releaseClaimFailed _ | .termFailed _
  | .releaseClaimObsolete _ | .termObsolete _ | .releaseLease _ _ => simp [outcome?, rank]

theorem RelayPc.outcome?_eq_none {cfg : Settings} {pc : RelayPc} :
    pc.outcome? = none ↔ 0 < pc.rank cfg := by
  match pc with
  | .finished (.ok _) | .finished (.error _) => simp [outcome?, rank]
  | .select | .publish _ _ _ | .mark _ => simp [outcome?, rank]

theorem QuarantinePc.outcome?_eq_none {pc : QuarantinePc} : pc.outcome? = none ↔ 0 < pc.rank := by
  match pc with
  | .finished (.ok _) | .finished (.error _) => simp [outcome?, rank]
  | .getMsg _ | .publish _ _ | .record _ _ | .delete _ _ | .ackAdvisory => simp [outcome?, rank]

/-- What a service sees of a machine. -/
structure MachineState where
  /-- Its process lives. -/
  alive : Bool
  outcome : Option Outcome
  /-- How many answers it is from its end at most. -/
  left : ℕ
  outcome_eq_none : outcome = none ↔ 0 < left

def HandleCall.machine (hc : HandleCall) : MachineState :=
  ⟨hc.alive, hc.pc.outcome?, hc.pc.rank, HandlePc.outcome?_eq_none⟩

def RelayRun.machine (cfg : Settings) (r : RelayRun) : MachineState :=
  ⟨r.alive, r.pc.outcome?, r.pc.rank cfg, RelayPc.outcome?_eq_none⟩

def QuarantineRun.machine (q : QuarantineRun) : MachineState :=
  ⟨q.alive, q.pc.outcome?, q.pc.rank, QuarantinePc.outcome?_eq_none⟩

/-- How many answers a machine can need. -/
def Machine.budget (cfg : Settings) : Machine → ℕ
  | call _ => 11
  | relay _ => cfg.relayBatchSize + 2
  | advisory _ => 5

theorem QuarantinePc.rank_le (pc : QuarantinePc) : pc.rank ≤ 5 := by
  cases pc <;> simp [rank]

namespace Pipeline

variable {cfg : Settings} {p p' : Pipeline} {b : PipelineStep} {m : Machine}

/-- The machine, if it was ever begun. -/
def machine? (cfg : Settings) (p : Pipeline) : Machine → Option MachineState
  | .call pid => p.fleet.calls[pid]?.map HandleCall.machine
  | .relay rid => p.relays[rid]?.map (RelayRun.machine cfg)
  | .advisory qid => p.quarantines[qid]?.map QuarantineRun.machine

/-- How a machine ended is a part of what a service sees. -/
theorem outcome?_eq (cfg : Settings) (p : Pipeline) (m : Machine) :
    p.outcome? m = (p.machine? cfg m).bind MachineState.outcome := by
  cases m <;> simp only [outcome?, machine?, Option.bind_map] <;> rfl

/-- It lives and is not at its end. -/
def AtWork (cfg : Settings) (p : Pipeline) (m : Machine) : Prop :=
  ∃ x, p.machine? cfg m = some x ∧ x.alive = true ∧ x.outcome = none

end Pipeline

/-- The machine a step concerns. -/
def PipelineStep.machine? (p : Pipeline) : PipelineStep → Option Machine
  | deliver _ _ => some (.call p.fleet.calls.length)
  | handle pid _ | die pid => some (.call pid)
  | beginRelay => some (.relay p.relays.length)
  | relay rid _ _ | killRelay rid => some (.relay rid)
  | fetch _ => some (.advisory p.quarantines.length)
  | quarantine qid _ _ | killListener qid => some (.advisory qid)
  | submit _ _ _ _ | replay _ | miss _ | exhaust _ | advise _ | tick _ | vanish _ => none

@[simp] theorem Machine.machine?_step (p : Pipeline) (m : Machine) (ans : Answer)
    (remembered : Bool) : (m.step ans remembered).machine? p = some m := by
  cases m <;> rfl

@[simp] theorem Machine.machine?_kill (p : Pipeline) (m : Machine) :
    m.kill.machine? p = some m := by
  cases m <;> rfl

theorem PipelineStep.machine?_of_isOutside {b : PipelineStep} (h : b.isOutside = true)
    (p : Pipeline) : b.machine? p = none := by
  cases b <;> first | rfl | exact nomatch h

namespace Pipeline

variable {cfg : Settings} {p p' : Pipeline} {b : PipelineStep} {m : Machine}

/-! ### One step, one machine -/

/-- The fleet's part of a relay's or a listener's step leaves the calls alone. -/
theorem calls_of_publish {f f' : Fleet} {ids : List ℕ}
    (h : f.step cfg (.publish ids) = some f') : f'.calls = f.calls := by
  rw [← Option.some.inj h]

theorem calls_of_deadLetter {f f' : Fleet} {j : Uuid} {seq deliveries : ℤ}
    (h : f.step cfg (.deadLetter j seq deliveries) = some f') : f'.calls = f.calls := by
  rw [← Option.some.inj h]

theorem calls_of_stepRelay {rid : ℕ} {ans : Answer} {remembered : Bool}
    (h : p.stepRelay cfg rid ans remembered = some p') : p'.fleet.calls = p.fleet.calls := by
  obtain ⟨r, pc, -, -, -, -, -, -, -, ⟨hf, -⟩ | ⟨batch, entry, rest, -, hf, -⟩ |
    ⟨batch, -, -, hf⟩⟩ := relay_cases h
  · rw [hf]
  · rw [hf]
  · exact calls_of_publish hf

theorem calls_of_stepQuarantine {qid : ℕ} {ans : Answer} {remembered : Bool}
    (h : p.stepQuarantine qid ans remembered = some p') : p'.fleet.calls = p.fleet.calls := by
  obtain ⟨q, c, reply, pc, -, -, -, -, -, ⟨hf, -⟩ | ⟨adv, raw, -, -, -, hf⟩ |
    ⟨adv, raw, -, hf, -⟩ | ⟨-, hf, -⟩⟩ := quarantine_cases {} h
  · rw [hf]
  · exact calls_of_deadLetter hf
  · rw [hf]
  · rw [hf]

/-- A call that a step does not concern is left alone. -/
theorem call_of_ne {pid : ℕ} (h : p.step cfg b = some p')
    (hne : b.machine? p ≠ some (.call pid)) : p'.fleet.calls[pid]? = p.fleet.calls[pid]? := by
  cases b with
  | submit | replay | tick | vanish =>
    obtain ⟨f, hf, rfl⟩ := onFleet_eq_some h
    rw [← Option.some.inj hf]
  | deliver n workerId =>
    obtain ⟨x, f, -, -, hf, rfl⟩ := deliver_eq_some h
    obtain rfl := Option.some.inj hf
    have hlen : pid ≠ p.fleet.calls.length := fun heq ↦ hne (by rw [heq]; rfl)
    exact List.getElem?_concat_of_ne hlen _
  | handle pid' ans =>
    obtain ⟨f, hf, rfl⟩ := onFleet_eq_some h
    obtain ⟨hc, c, pc, -, -, -, rfl⟩ := Fleet.stepHandle_eq_some hf
    exact List.getElem?_set_ne fun heq ↦ hne (by rw [heq]; rfl)
  | die pid' =>
    obtain ⟨f, hf, rfl⟩ := onFleet_eq_some h
    obtain rfl := Option.some.inj hf
    exact List.getElem?_modify_ne _ _ fun heq ↦ hne (by rw [heq]; rfl)
  | relay rid ans remembered => rw [calls_of_stepRelay h]
  | quarantine qid ans remembered => rw [calls_of_stepQuarantine h]
  | miss n =>
    obtain ⟨-, -, -, rfl⟩ := miss_eq_some h
    rfl
  | exhaust n =>
    obtain ⟨-, -, -, -, rfl⟩ := exhaust_eq_some h
    rfl
  | fetch aid =>
    obtain ⟨x, -, -, rfl⟩ := fetch_eq_some h
    rfl
  | beginRelay | killRelay | advise | killListener =>
    obtain rfl := Option.some.inj h
    rfl

/-- A relay that a step does not concern is left alone. -/
theorem relay_of_ne {rid : ℕ} (h : p.step cfg b = some p')
    (hne : b.machine? p ≠ some (.relay rid)) : p'.relays[rid]? = p.relays[rid]? := by
  cases b with
  | submit | replay | tick | vanish | handle | die =>
    obtain ⟨f, -, rfl⟩ := onFleet_eq_some h
    rfl
  | deliver n workerId =>
    obtain ⟨x, f, -, -, -, rfl⟩ := deliver_eq_some h
    rfl
  | beginRelay =>
    obtain rfl := Option.some.inj h
    have hlen : rid ≠ p.relays.length := fun heq ↦ hne (by rw [heq]; rfl)
    exact List.getElem?_concat_of_ne hlen _
  | relay rid' ans remembered =>
    obtain ⟨r, pc, -, -, -, hrelays, -⟩ := relay_cases h
    have hrid : rid' ≠ rid := fun heq ↦ hne (by rw [heq]; rfl)
    rw [hrelays, List.getElem?_set_ne hrid]
  | killRelay rid' =>
    obtain rfl := Option.some.inj h
    exact List.getElem?_modify_ne _ _ fun heq ↦ hne (by rw [heq]; rfl)
  | quarantine qid ans remembered =>
    obtain ⟨q, c, reply, pc, -, -, -, -, hrelays, -⟩ := quarantine_cases cfg h
    rw [hrelays]
  | miss n =>
    obtain ⟨-, -, -, rfl⟩ := miss_eq_some h
    rfl
  | exhaust n =>
    obtain ⟨-, -, -, -, rfl⟩ := exhaust_eq_some h
    rfl
  | fetch aid =>
    obtain ⟨x, -, -, rfl⟩ := fetch_eq_some h
    rfl
  | advise | killListener =>
    obtain rfl := Option.some.inj h
    rfl

/-- A listener that a step does not concern is left alone. -/
theorem quarantine_of_ne {qid : ℕ} (h : p.step cfg b = some p')
    (hne : b.machine? p ≠ some (.advisory qid)) :
    p'.quarantines[qid]? = p.quarantines[qid]? := by
  cases b with
  | submit | replay | tick | vanish | handle | die =>
    obtain ⟨f, -, rfl⟩ := onFleet_eq_some h
    rfl
  | deliver n workerId =>
    obtain ⟨x, f, -, -, -, rfl⟩ := deliver_eq_some h
    rfl
  | relay rid ans remembered =>
    obtain ⟨r, pc, -, -, -, -, -, hquarantines, -⟩ := relay_cases h
    rw [hquarantines]
  | fetch aid =>
    obtain ⟨x, -, -, rfl⟩ := fetch_eq_some h
    have hlen : qid ≠ p.quarantines.length := fun heq ↦ hne (by rw [heq]; rfl)
    exact List.getElem?_concat_of_ne hlen _
  | quarantine qid' ans remembered =>
    obtain ⟨q, c, reply, pc, -, -, -, hquarantines, -⟩ := quarantine_cases cfg h
    have hqid : qid' ≠ qid := fun heq ↦ hne (by rw [heq]; rfl)
    rw [hquarantines, List.getElem?_set_ne hqid]
  | killListener qid' =>
    obtain rfl := Option.some.inj h
    exact List.getElem?_modify_ne _ _ fun heq ↦ hne (by rw [heq]; rfl)
  | miss n =>
    obtain ⟨-, -, -, rfl⟩ := miss_eq_some h
    rfl
  | exhaust n =>
    obtain ⟨-, -, -, -, rfl⟩ := exhaust_eq_some h
    rfl
  | beginRelay | killRelay | advise =>
    obtain rfl := Option.some.inj h
    rfl

/-- **A step leaves all machines alone but the one it concerns.** -/
theorem machine?_of_ne (h : p.step cfg b = some p') (hne : b.machine? p ≠ some m) :
    p'.machine? cfg m = p.machine? cfg m := by
  cases m with
  | call pid => rw [machine?, machine?, call_of_ne h hne]
  | relay rid => rw [machine?, machine?, relay_of_ne h hne]
  | advisory qid => rw [machine?, machine?, quarantine_of_ne h hne]

/-! ### What the step does to its own machine -/

/-- **It begins**, under a number nobody had. -/
theorem exists_machine_of_begins (h : p.step cfg b = some p')
    (hb : (∃ n workerId, b = .deliver n workerId) ∨ b = .beginRelay ∨ ∃ aid, b = .fetch aid)
    (hm : b.machine? p = some m) :
    p.machine? cfg m = none ∧
      ∃ x, p'.machine? cfg m = some x ∧ x.alive = true ∧ x.left ≤ m.budget cfg := by
  rcases hb with ⟨n, workerId, rfl⟩ | rfl | ⟨aid, rfl⟩
  · obtain rfl := Option.some.inj hm
    obtain ⟨x, f, -, -, hf, rfl⟩ := deliver_eq_some h
    obtain rfl := Option.some.inj hf
    refine ⟨?_, _, congrArg (Option.map _) List.getElem?_concat_length, rfl,
      HandlePc.rank_start_le _⟩
    rw [machine?, List.getElem?_eq_none le_rfl]
    rfl
  · obtain rfl := Option.some.inj hm
    obtain rfl := Option.some.inj h
    refine ⟨?_, _, congrArg (Option.map _) List.getElem?_concat_length, rfl, le_rfl⟩
    rw [machine?, List.getElem?_eq_none le_rfl]
    rfl
  · obtain rfl := Option.some.inj hm
    obtain ⟨x, -, -, rfl⟩ := fetch_eq_some h
    refine ⟨?_, _, congrArg (Option.map _) List.getElem?_concat_length, rfl,
      QuarantinePc.rank_le _⟩
    rw [machine?, List.getElem?_eq_none le_rfl]
    rfl

/-- **It dies.** -/
theorem machine?_kill (h : p.step cfg m.kill = some p') :
    p'.machine? cfg m = (p.machine? cfg m).map fun x ↦ { x with alive := false } := by
  cases m with
  | call pid =>
    obtain ⟨f, hf, rfl⟩ := onFleet_eq_some h
    obtain rfl := Option.some.inj hf
    show Option.map _ (p.fleet.calls.modify pid _)[pid]? = _
    rw [List.getElem?_modify_eq, machine?]
    cases p.fleet.calls[pid]? <;> rfl
  | relay rid =>
    obtain rfl := Option.some.inj h
    show Option.map _ (p.relays.modify rid _)[rid]? = _
    rw [List.getElem?_modify_eq, machine?]
    cases p.relays[rid]? <;> rfl
  | advisory qid =>
    obtain rfl := Option.some.inj h
    show Option.map _ (p.quarantines.modify qid _)[qid]? = _
    rw [List.getElem?_modify_eq, machine?]
    cases p.quarantines[qid]? <;> rfl

/-- **It gets an answer**, which brings it nearer to its end. -/
theorem exists_machine_of_step {ans : Answer} {remembered : Bool}
    (h : p.step cfg (m.step ans remembered) = some p') :
    ∃ x x', p.machine? cfg m = some x ∧ p'.machine? cfg m = some x' ∧ x.alive = true ∧
      x'.alive = true ∧ x'.left < x.left := by
  cases m with
  | call pid =>
    obtain ⟨f, hf, rfl⟩ := onFleet_eq_some h
    obtain ⟨hc, c, pc, hget, hcall, hmove, rfl⟩ := Fleet.stepHandle_eq_some hf
    have halive := (HandleCall.call?_eq_some.1 hcall).1
    refine ⟨hc.machine, (hc.advance p.fleet.world (p.fleet.world.serve (.handle pid) c ans)
      c pc).machine, by rw [machine?, hget]; rfl, ?_, halive, halive, hmove.rank_lt⟩
    exact congrArg (Option.map _) (List.getElem?_set_self (List.lt_length_of_getElem? hget))
  | relay rid =>
    obtain ⟨r, pc, hget, halive, ⟨c, hmove⟩, hrelays, -⟩ := relay_cases h
    refine ⟨r.machine cfg, ({ r with pc := pc } : RelayRun).machine cfg,
      by rw [machine?, hget]; rfl, ?_, halive, halive, hmove.rank_lt⟩
    rw [machine?, hrelays, List.getElem?_set_self (List.lt_length_of_getElem? hget)]
    rfl
  | advisory qid =>
    obtain ⟨q, c, reply, pc, hget, halive, hmove, hquarantines, -⟩ := quarantine_cases cfg h
    refine ⟨q.machine, (q.advance p'.fleet.world.db c reply pc).machine,
      by rw [machine?, hget]; rfl, ?_, halive, halive, hmove.rank_lt⟩
    rw [machine?, hquarantines, List.getElem?_set_self (List.lt_length_of_getElem? hget)]
    rfl

/-- These are all the steps that concern a machine. -/
theorem machine_cases (hm : b.machine? p = some m) :
    ((∃ n workerId, b = .deliver n workerId) ∨ b = .beginRelay ∨ ∃ aid, b = .fetch aid) ∨
      b = m.kill ∨ ∃ ans remembered, b = m.step ans remembered := by
  cases b with
  | deliver n workerId => exact .inl (.inl ⟨n, workerId, rfl⟩)
  | beginRelay => exact .inl (.inr (.inl rfl))
  | fetch aid => exact .inl (.inr (.inr ⟨aid, rfl⟩))
  | handle pid ans =>
    obtain rfl := Option.some.inj hm
    exact .inr (.inr ⟨ans, true, rfl⟩)
  | relay rid ans remembered | quarantine rid ans remembered =>
    obtain rfl := Option.some.inj hm
    exact .inr (.inr ⟨ans, remembered, rfl⟩)
  | die n | killRelay n | killListener n =>
    obtain rfl := Option.some.inj hm
    exact .inr (.inl rfl)
  | submit | replay | miss | exhaust | advise | tick | vanish => exact nomatch hm

/-- **A machine needs no more answers than its budget.** -/
theorem left_le_budget {G : Pipeline → PipelineStep → Prop} (h : (system cfg).Reachable G p)
    {x : MachineState} (hx : p.machine? cfg m = some x) : x.left ≤ m.budget cfg := by
  revert m x
  refine h.induct (I := fun p ↦ ∀ {m : Machine} {x : MachineState}, p.machine? cfg m = some x →
    x.left ≤ m.budget cfg) (fun p hp m x hx ↦ ?_) fun p b p' _ ih _ hs m x' hx' ↦ ?_
  · rw [hp] at hx
    cases m <;> exact nomatch hx
  · by_cases hm : b.machine? p = some m
    · rcases machine_cases hm with hb | rfl | ⟨ans, remembered, rfl⟩
      · obtain ⟨-, x, hx, -, hle⟩ := exists_machine_of_begins hs hb hm
        rwa [Option.some.inj (hx'.symm.trans hx)]
      · rw [machine?_kill hs] at hx'
        obtain ⟨x, hx, rfl⟩ := Option.map_eq_some_iff.1 hx'
        exact ih (x := x) hx
      · obtain ⟨x, x₁, hx, hx₁, -, -, hlt⟩ := exists_machine_of_step hs
        obtain rfl := Option.some.inj (hx'.symm.trans hx₁)
        exact hlt.le.trans (ih hx)
    · rw [machine?_of_ne hs hm] at hx'
      exact ih hx'

/-- **A machine at work can be answered**, by a call that does not fail. -/
theorem machine_served (h : p.AtWork cfg m) : ∃ ans p', ans.isFailed = false ∧
    p.step cfg (m.step ans true) = some p' := by
  obtain ⟨x, hx, halive, hout⟩ := h
  cases m with
  | call pid =>
    obtain ⟨hc, hget, rfl⟩ := Option.map_eq_some_iff.1 hx
    have hpos : 0 < hc.pc.rank := hc.machine.outcome_eq_none.1 hout
    obtain ⟨c, k, hv⟩ := HandlePc.view_of_not_finished cfg hc.delivery hc.pc
      fun exit heq ↦ by rw [heq] at hpos; exact nomatch hpos
    obtain ⟨ans, r, hkind, hr⟩ := World.exists_kind cfg hc.delivery p.fleet.world hv
    refine ⟨ans, _, ?_, congrArg (Option.map _) (Fleet.stepHandle_of_view hget halive hv hr)⟩
    match ans with
    | .served | .executed _ _ => rfl
    | .failed _ => exact hkind.elim
  | relay rid =>
    obtain ⟨r, hget, rfl⟩ := Option.map_eq_some_iff.1 hx
    have hpos : 0 < r.pc.rank cfg := (r.machine cfg).outcome_eq_none.1 hout
    have hview : ∃ c k, r.pc.view cfg = .inr ⟨c, k⟩ := by
      cases heq : r.pc with
      | finished exit => rw [heq] at hpos; exact nomatch hpos
      | _ => exact ⟨_, _, rfl⟩
    obtain ⟨c, k, hv⟩ := hview
    obtain ⟨reply, hr⟩ : ∃ reply, p.relayReply c .served = some reply := by
      cases c <;> exact ⟨_, rfl⟩
    obtain ⟨p', hstep, -⟩ := relay_served cfg hget halive hv true hr
    exact ⟨.served, p', rfl, hstep⟩
  | advisory qid =>
    obtain ⟨q, hget, rfl⟩ := Option.map_eq_some_iff.1 hx
    have hpos : 0 < q.pc.rank := q.machine.outcome_eq_none.1 hout
    obtain ⟨p', -, -, -, -, hstep, -⟩ := listener_served cfg hget halive
      fun exit heq ↦ by rw [heq] at hpos; exact nomatch hpos
    exact ⟨.served, p', rfl, hstep⟩

end Pipeline

end Orbiter
