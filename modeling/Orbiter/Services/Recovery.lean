import Orbiter.Pipeline.Recovery
import Orbiter.Services.Shutdown

/-!
# The services bring about the recovery

That the pipeline can bring everything to an end would be worth little if no services did it. They
can: whatever step the recovery takes next, some process takes it. A machine at work has its
process, by `Manned`; and what begins, a new process begins. So from every state an orderly
deployment can be in, with processes killed anywhere, starting services and answering them is
enough.

* `Orderly`, `Unaided` — the guards of `Pipeline.Recovery`, along the steps of the pipeline that a
  step of the deployment takes;
* `launches`, `waits` — a new service can be brought to its loop, and to where it asks for a
  message;
* `follows` — **one step of the recovery is a run of the deployment**, in which only starts and
  answers occur and whose own steps are unaided;
* `recovers_by_services` — the recovery, lifted by `Leads.lift`.

Services that are there already are not asked to do more than they do: a killed one is replaced by a
new one, and one that works is answered.
-/

namespace Orbiter

open TransitionSystem

/-- Nobody comes from outside, nobody is stopped or killed, nothing fails and nothing is lost. -/
def DeploymentStep.unaided : DeploymentStep → Bool
  | start _ => true
  | sigterm _ | kill _ => false
  | own _ .raised | own _ (.lost _) => false
  | own _ (.reply ans _) => !ans.isFailed
  | own _ _ => true
  | outside b => b.unaided

namespace Deployment

variable {cfg : Settings} {d d' : Deployment} {i : ℕ}

/-- The steps a step of the deployment stands for are orderly. -/
def Orderly (cfg : Settings) : Deployment → DeploymentStep → Prop :=
  Within (Pipeline.system cfg) (Pipeline.Orderly cfg) controller

/-- An orderly step, with no help from outside and no hindrance. -/
def Unaided (cfg : Settings) (d : Deployment) (a : DeploymentStep) : Prop :=
  Orderly cfg d a ∧ a.unaided = true

variable (cfg) in
/-- An answer that keeps the service out of the pipeline. -/
theorem unaided_returned {sv : Service} (hget : d.2[i]? = some sv) {pc : ServicePc}
    (hnext : sv.next d.1 .returned = some (Service.goTo pc)) :
    (system cfg).Leads (Unaided cfg) d (d.1, d.2.set i { sv with pc := pc }) := by
  refine .single (a := .own i .returned) ⟨fun as next hplan ↦ ?_, rfl⟩
    (step_of_next hget hnext rfl)
  simp only [controller, hget, hnext] at hplan
  cases hplan
  trivial

variable (cfg) in
/-- An answer by which the service makes one step of the pipeline. -/
theorem unaided_drive {sv : Service} (hget : d.2[i]? = some sv) {x : ServiceAnswer}
    (hx : (DeploymentStep.own i x).unaided = true) {b : PipelineStep} {m : Machine}
    (hnext : sv.next d.1 x = some (sv.drive b m)) (hb : Pipeline.Orderly cfg d.1 b)
    {p' : Pipeline} (h : d.1.step cfg b = some p') :
    ∃ services', (system cfg).Leads (Unaided cfg) d (p', services') := by
  refine ⟨_, .single (a := .own i x) ⟨fun as next hplan ↦ ?_, hx⟩
    (step_of_next hget hnext (exec_singleton.2 h))⟩
  simp only [controller, hget, hnext] at hplan
  cases hplan
  exact along_singleton.2 hb

/-- **A new process gets to its loop.** -/
theorem launches (cfg : Settings) (d : Deployment) (kind : ServiceKind) :
    (system cfg).Leads (Unaided cfg) d (d.1, d.2 ++ [⟨kind, .loop, false⟩]) := by
  have hrest : ∀ rest : List SetUpCall, (system cfg).Leads (Unaided cfg)
      (d.1, d.2 ++ [⟨kind, .setUp rest, false⟩]) (d.1, d.2 ++ [⟨kind, .loop, false⟩]) := by
    intro rest
    induction rest with
    | nil => exact Relation.ReflTransGen.refl
    | cons call rest ih =>
      refine Relation.ReflTransGen.trans ?_ ih
      have hget : (d.2 ++ [(⟨kind, .setUp (call :: rest), false⟩ : Service)])[d.2.length]? =
          some ⟨kind, .starting call rest, false⟩ := List.getElem?_concat_length
      have hl := unaided_returned cfg
        (d := (d.1, d.2 ++ [(⟨kind, .setUp (call :: rest), false⟩ : Service)])) hget rfl
      rwa [List.set_append_right _ _ le_rfl, Nat.sub_self] at hl
  refine Relation.ReflTransGen.trans ?_ (hrest kind.setUp)
  refine Leads.single (a := .start kind) ⟨fun as next hplan ↦ ?_, rfl⟩ rfl
  cases hplan
  trivial

/-- And one that is not a relay goes on to wait for a message. -/
theorem waits (cfg : Settings) (d : Deployment) (kind : ServiceKind) (hkind : kind ≠ .relay) :
    (system cfg).Leads (Unaided cfg) d (d.1, d.2 ++ [⟨kind, .fetching, false⟩]) := by
  refine (launches cfg d kind).trans ?_
  have hnext : Service.next ⟨kind, .loop, false⟩ d.1 .returned =
      some (Service.goTo .fetching) := by
    cases kind with
    | relay => exact absurd rfl hkind
    | worker | listener => rfl
  have hl := unaided_returned cfg (d := (d.1, d.2 ++ [(⟨kind, .loop, false⟩ : Service)]))
    List.getElem?_concat_length hnext
  rwa [List.set_append_right _ _ le_rfl, Nat.sub_self] at hl

/-- **Whatever step the pipeline takes next, some process takes it.** -/
theorem follows {p' : Pipeline} {a : PipelineStep} (hd : Manned cfg d)
    (ha : Pipeline.Unaided cfg d.1 a) (h : d.1.step cfg a = some p') :
    (system cfg).CanReach (Unaided cfg) (fun y ↦ y.1 = p' ∧ Manned cfg y) d := by
  -- It is enough to come to the pipeline's next state.
  suffices hl : ∃ services', (system cfg).Leads (Unaided cfg) d (p', services') by
    obtain ⟨services', hl⟩ := hl
    exact ⟨(p', services'), hl, rfl, hl.preserves (fun _ _ _ h _ hs ↦ h.step hs) hd⟩
  -- What is at work is answered by its process.
  have hwork : ∀ {m : Machine} {ans : Answer} {b : Bool}, a = m.step ans b →
      ans.isFailed = false →
        ∃ services', (system cfg).Leads (Unaided cfg) d (p', services') := by
    rintro m ans b rfl hans
    obtain ⟨x, x', hx, -, halive, -, hlt⟩ := Pipeline.exists_machine_of_step h
    obtain ⟨i, ⟨kind, pc, stop⟩, hget, hpc⟩ := hd.manned m
      ⟨x, hx, halive, x.outcome_eq_none.2 ((Nat.zero_le _).trans_lt hlt)⟩
    obtain rfl : pc = .working m := hpc
    refine unaided_drive cfg hget (x := .reply ans b) ?_ rfl ha.1 h
    rw [DeploymentStep.unaided, hans]
    rfl
  -- What begins, a new process begins.
  have hbegin : ∀ {sv : Service} {x : ServiceAnswer} {m : Machine},
      (system cfg).Leads (Unaided cfg) d (d.1, d.2 ++ [sv]) →
      (DeploymentStep.own d.2.length x).unaided = true → sv.next d.1 x = some (sv.drive a m) →
        ∃ services', (system cfg).Leads (Unaided cfg) d (p', services') := by
    intro sv x m hl hx hnext
    obtain ⟨services', hl'⟩ := unaided_drive cfg (d := (d.1, d.2 ++ [sv]))
      (i := d.2.length) List.getElem?_concat_length hx hnext ha.1 h
    exact ⟨services', hl.trans hl'⟩
  -- And time and the broker need none.
  have houtside : a.isOutside = true →
      ∃ services', (system cfg).Leads (Unaided cfg) d (p', services') := by
    intro hout
    have hplan : controller.plan d.1 d.2 (.outside a) = some ([a], fun _ ↦ d.2) := if_pos hout
    refine ⟨d.2, .single (a := .outside a) ⟨fun as next h' ↦ ?_, ha.2⟩
      (driven_eq_some.2 ⟨[a], fun _ ↦ d.2, hplan, exec_singleton.2 h, rfl⟩)⟩
    cases hplan.symm.trans h'
    exact along_singleton.2 ha.1
  have hserved : ∀ {ans : Answer}, (!ans.isFailed) = true → ans.isFailed = false := fun h ↦ by
    simpa using h
  cases a with
  | handle pid ans => exact hwork (m := .call pid) (b := true) rfl (hserved ha.2)
  | relay rid ans remembered => exact hwork (m := .relay rid) rfl (hserved ha.2)
  | quarantine qid ans remembered => exact hwork (m := .advisory qid) rfl (hserved ha.2)
  | beginRelay => exact hbegin (x := .returned) (launches cfg d .relay) rfl rfl
  | deliver n workerId =>
    exact hbegin (x := .message n) (waits cfg d (.worker workerId) nofun) rfl rfl
  | fetch aid => exact hbegin (x := .message aid) (waits cfg d .listener nofun) rfl rfl
  | exhaust | tick => exact houtside rfl
  | submit | replay | miss | advise | killRelay | die | killListener | vanish => exact nomatch ha.2

/-- **The services bring about the recovery.** From every state an orderly deployment can be in, it
is enough to start services and to answer them: a run in which nobody is stopped or killed, nothing
fails and nobody comes from outside leads to a state in which every row is published, no message is
left and every job is at rest. A job at rest before is as it was; an open job that can succeed, and
is not down to a message at its limit, has succeeded. -/
theorem recovers_by_services (hsize : 0 < cfg.relayBatchSize) (httl : 0 < cfg.leaseTtlMs)
    (hmax : 0 < cfg.maxDeliver) (hr : (system cfg).Reachable (Orderly cfg) d) :
    (system cfg).CanReach (Unaided cfg) (fun d' ↦ d'.1.Drained ∧
      ∀ (j : Uuid) (row : JobRow SubmitRequest), d.1.fleet.world.db.job? j = some row →
        ∃ row', d'.1.fleet.world.db.job? j = some row' ∧ row'.state.isSettled = true ∧
          (row.state.isSettled = true → row' = row) ∧
          (row.state.isSettled = false → row.payload.CanSucceed → ¬ d.1.Spent cfg j →
            row'.state = .succeeded)) d := by
  have hp : (Pipeline.system cfg).Reachable (Pipeline.Orderly cfg) d.1 :=
    (toPipeline cfg (Pipeline.Orderly cfg)).reachable hr
  obtain ⟨p', hl, hdrained, hdone⟩ := Pipeline.drains hsize httl hmax hp
  refine (hl.lift (fun y a s' hy ha hs ↦ follows hy ha hs) rfl (manned_of_reachable hr)).mono
    (fun _ _ h ↦ h) fun d' _ h ↦ ?_
  rw [h.1]
  exact ⟨hdrained, fun _ _ hrow ↦ Pipeline.rests_of_drained hp hl hdrained hdone hrow⟩

/-- A test for `Orderly`. -/
def orderly? (cfg : Settings) (d : Deployment) (a : DeploymentStep) : Bool :=
  (controller.plan d.1 d.2 a).all fun move ↦
    (Pipeline.system cfg).allAlong (Pipeline.orderly? cfg) d.1 move.1

theorem orderly_of_orderly? {a : DeploymentStep} (h : orderly? cfg d a = true) :
    Orderly cfg d a := by
  intro as next hplan
  rw [orderly?, hplan] at h
  exact along_of_allAlong (fun p a ↦ Pipeline.orderly_of_orderly? (p := p) (a := a)) h

/-- A relay is killed between publish and mark, another publishes the row again, and the worker that
executes the job is killed. -/
def kills : List DeploymentStep :=
  [.outside (.submit ⟨0⟩ "k" (.healthy 5 five_le_limit) []), .start .relay,
    .own 0 .returned, .own 0 .returned, .own 0 .returned, .own 0 .returned, .own 0 .returned,
    .own 0 (.reply .served true), .own 0 (.reply .served true), .kill 0, .start .relay,
    .own 1 .returned, .own 1 .returned, .own 1 .returned, .own 1 .returned, .own 1 .returned,
    .own 1 (.reply .served true), .own 1 (.reply .served false), .own 1 (.reply .served true),
    .start (.worker "w"), .own 2 .returned, .own 2 .returned, .own 2 .returned, .own 2 .returned,
    .own 2 .returned, .own 2 .returned, .own 2 .returned, .own 2 (.message 1),
    .own 2 (.reply .served true), .own 2 (.reply .served true), .own 2 (.reply .served true),
    .own 2 (.reply .served true), .own 2 (.reply .served true), .kill 2]

/-- The job succeeds. -/
theorem recovers_by_services_of_kills : ∃ d d' : Deployment,
    (system {}).Reachable (Orderly {}) d ∧ d.1.stream.length = 2 ∧
    (∃ row, d.1.fleet.world.db.job? ⟨0⟩ = some row ∧ row.state = .running) ∧
    (system {}).Leads (Unaided {}) d d' ∧ d'.1.Drained ∧ d'.1.fleet.world.Done ⟨0⟩ := by
  have hrun : ((system {}).execGuarded (orderly? {}) (.empty, []) kills).any (fun d ↦
      (d.1.stream.length = 2) &&
      ((d.1.fleet.world.db.job? ⟨0⟩).any fun row ↦
        row.state = .running && !row.payload.poison && row.payload.failureRate = 0) &&
      d.1.stream.all fun m ↦ m.delivered < 5) = true := by
    rfl
  obtain ⟨d, hl, hd⟩ := exists_leads_of_execGuarded
    (fun d a ↦ orderly_of_orderly? (d := d) (a := a)) hrun
  simp only [Bool.and_eq_true, Option.any_eq_true, decide_eq_true_eq, List.all_eq_true,
    Bool.not_eq_true'] at hd
  obtain ⟨⟨hlen, row, hrow, ⟨hrunning, hpoison⟩, hrate⟩, hleft⟩ := hd
  have hr : (system {}).Reachable (Orderly {}) d := ⟨(.empty, []), ⟨rfl, rfl⟩, hl⟩
  obtain ⟨d', hl', hdrained, hall⟩ :=
    recovers_by_services (by decide) (by decide) (by decide) hr
  obtain ⟨row', hrow', -, -, hdone⟩ := hall ⟨0⟩ row hrow
  refine ⟨d, d', hr, hlen, ⟨row, hrow, hrunning⟩, hl', hdrained, row', hrow',
    hdone (by rw [hrunning]; rfl) ⟨hpoison, by rw [hrate]; exact zero_lt_one⟩ ?_⟩
  rintro ⟨seq, m, hm, -, hle, -⟩
  obtain ⟨n, -, hn⟩ := WorkStream.exists_of_msg? hm
  exact absurd (hleft m (List.mem_of_getElem? hn)) (not_lt.2 hle)

end Deployment

end Orbiter
