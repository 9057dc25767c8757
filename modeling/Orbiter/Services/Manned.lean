import Orbiter.Services.Machines

/-!
# Who works on what

In every run of the services each machine of the pipeline that lives and is not at its end is worked
on by exactly one process, and a process works on one machine at a time. So no message is in
anybody's hands but those of a process that awaits something for it, and a worker that waits, closes
or has exited holds none.

* `OwnMove`, `DeploymentMove`, `move_of_step` — the inversion of the step function: what one answer
  does to a service, and what a step does to the deployment. Later modules case on these;
* `Works`, `Manned` — a process works on a machine; and the invariant: a machine is at work exactly
  when somebody works on it, and nobody else does;
* `Manned.set` — **the one place where a service changes what it works on.** `Manned.stay`,
  `Manned.begin`, `Manned.answer` and `Manned.kill` are its uses, and `Manned.congr` is a step that
  leaves all machines as they are;
* `Named` — a call bears the name of the worker that works on it. A delivery keeps its name, so this
  is a matter of the step that began it (`OwnMove.call_cases`);
* `one_process_each` — both, in every reachable state, for any starts, kills and stops.
-/

namespace Orbiter

open TransitionSystem

/-- What a service can need for the body of its loop. -/
def ServiceKind.budget (cfg : Settings) : ServiceKind → ℕ
  | worker _ => 11
  | relay => cfg.relayBatchSize + 2
  | listener => 5

/-- What an answer does: the pipeline and the control point it leads to. -/
inductive OwnMove (cfg : Settings) (p : Pipeline) (sv : Service) :
    ServiceAnswer → Pipeline → ServicePc → Prop
  | setUp {call : SetUpCall} {rest : List SetUpCall} (hpc : sv.pc = .starting call rest) :
      OwnMove cfg p sv .returned p (.setUp rest)
  | setUpRaised {call : SetUpCall} {rest : List SetUpCall} (hpc : sv.pc = .starting call rest) :
      OwnMove cfg p sv .raised p .exited
  | stops (hpc : sv.pc = .loop) (hstop : sv.stop = true) :
      OwnMove cfg p sv .returned p (.close sv.kind.close)
  | fetches (hpc : sv.pc = .loop) (hstop : sv.stop = false) :
      OwnMove cfg p sv .returned p .fetching
  | begins {m : Machine} {p' : Pipeline} (hpc : sv.pc = .loop) (hstop : sv.stop = false)
      (hm : m = .relay p.relays.length) (hbudget : m.budget cfg = sv.kind.budget cfg)
      (h : p.step cfg .beginRelay = some p') :
      OwnMove cfg p sv .returned p' (.after sv.kind m (p'.outcome? m))
  | receives {n : ℕ} {b : PipelineStep} {m : Machine} {p' : Pipeline} (hpc : sv.pc = .fetching)
      (hb : (∃ workerId, sv.kind = .worker workerId ∧ b = .deliver n workerId) ∨ b = .fetch n)
      (hm : b.machine? p = some m)
      (hbudget : m.budget cfg = sv.kind.budget cfg) (h : p.step cfg b = some p') :
      OwnMove cfg p sv (.message n) p' (.after sv.kind m (p'.outcome? m))
  | misses {n : ℕ} {p' : Pipeline} (hpc : sv.pc = .fetching)
      (h : p.step cfg (.miss n) = some p') : OwnMove cfg p sv (.lost n) p' .loop
  | timesOut (hpc : sv.pc = .fetching) : OwnMove cfg p sv .timeout p .loop
  | fetchRaised (hpc : sv.pc = .fetching) : OwnMove cfg p sv .raised p (.close sv.kind.close)
  | answered {m : Machine} {ans : Answer} {remembered : Bool} {p' : Pipeline}
      (hpc : sv.pc = .working m) (h : p.step cfg (m.step ans remembered) = some p') :
      OwnMove cfg p sv (.reply ans remembered) p' (.after sv.kind m (p'.outcome? m))
  | wakes (hpc : sv.pc = .pausing) : OwnMove cfg p sv .returned p .loop
  | closes {call : CloseCall} {rest : List CloseCall} (hpc : sv.pc = .closing call rest) :
      OwnMove cfg p sv .returned p (.close rest)
  | closeRaised {call : CloseCall} {rest : List CloseCall} (hpc : sv.pc = .closing call rest) :
      OwnMove cfg p sv .raised p .exited

/-- What a step of the deployment does. -/
inductive DeploymentMove (cfg : Settings) (d : Deployment) : DeploymentStep → Deployment → Prop
  | start (kind : ServiceKind) :
      DeploymentMove cfg d (.start kind) (d.1, d.2 ++ [Service.launch kind])
  | sigterm (i : ℕ) :
      DeploymentMove cfg d (.sigterm i) (d.1, d.2.modify i fun sv ↦ { sv with stop := true })
  | kill {i : ℕ} {sv : Service} (hget : d.2[i]? = some sv) (hpc : ∀ m, sv.pc ≠ .working m) :
      DeploymentMove cfg d (.kill i) (d.1, d.2.set i { sv with pc := .killed })
  | killWorking {i : ℕ} {sv : Service} {m : Machine} {p' : Pipeline} (hget : d.2[i]? = some sv)
      (hpc : sv.pc = .working m) (h : d.1.step cfg m.kill = some p') :
      DeploymentMove cfg d (.kill i) (p', d.2.set i { sv with pc := .killed })
  | own {i : ℕ} {sv : Service} {x : ServiceAnswer} {p' : Pipeline} {pc : ServicePc}
      (hget : d.2[i]? = some sv) (h : OwnMove cfg d.1 sv x p' pc) :
      DeploymentMove cfg d (.own i x) (p', d.2.set i { sv with pc := pc })
  | outside {b : PipelineStep} {p' : Pipeline} (hb : b.isOutside = true)
      (h : d.1.step cfg b = some p') : DeploymentMove cfg d (.outside b) (p', d.2)

variable {cfg : Settings} {p p' : Pipeline} {sv : Service} {x : ServiceAnswer}

/-- **Each answer makes one move.** -/
theorem OwnMove.of_next {as : List PipelineStep} {next : Pipeline → ServicePc}
    (hnext : sv.next p x = some (as, next)) (h : (Pipeline.system cfg).exec p as = some p') :
    OwnMove cfg p sv x p' (next p') := by
  obtain ⟨kind, pc, stop⟩ := sv
  cases pc with
  | starting call rest =>
    cases x with
    | returned => cases hnext; cases h; exact .setUp rfl
    | raised => cases hnext; cases h; exact .setUpRaised rfl
    | _ => cases hnext
  | loop =>
    cases x with
    | returned =>
      cases stop with
      | true => cases hnext; cases h; exact .stops rfl rfl
      | false =>
        cases kind with
        | relay => cases hnext; exact .begins rfl rfl rfl rfl (exec_singleton.1 h)
        | worker | listener => cases hnext; cases h; exact .fetches rfl rfl
    | _ => cases hnext
  | fetching =>
    cases x with
    | timeout => cases hnext; cases h; exact .timesOut rfl
    | raised => cases hnext; cases h; exact .fetchRaised rfl
    | message n =>
      cases kind with
      | worker workerId =>
        cases hnext
        exact .receives rfl (.inl ⟨workerId, rfl, rfl⟩) rfl rfl (exec_singleton.1 h)
      | listener => cases hnext; exact .receives rfl (.inr rfl) rfl rfl (exec_singleton.1 h)
      | relay => cases hnext
    | lost n =>
      cases kind with
      | worker workerId => cases hnext; exact .misses rfl (exec_singleton.1 h)
      | relay | listener => cases hnext
    | _ => cases hnext
  | working m =>
    cases x with
    | reply ans remembered => cases hnext; exact .answered rfl (exec_singleton.1 h)
    | _ => cases hnext
  | pausing =>
    cases x with
    | returned => cases hnext; cases h; exact .wakes rfl
    | _ => cases hnext
  | closing call rest =>
    cases x with
    | returned => cases hnext; cases h; exact .closes rfl
    | raised => cases hnext; cases h; exact .closeRaised rfl
    | _ => cases hnext
  | exited | killed => cases hnext

namespace Deployment

variable {d d' : Deployment} {a : DeploymentStep}

/-- **The steps of the deployment.** -/
theorem move_of_step (h : (system cfg).step d a = some d') : DeploymentMove cfg d a d' := by
  obtain ⟨p, services⟩ := d
  obtain ⟨p', services'⟩ := d'
  obtain ⟨as, next, hplan, hexec, hs⟩ := driven_eq_some.1 h
  dsimp only at hplan hexec hs
  subst hs
  cases a with
  | start kind => cases hplan; cases hexec; exact .start kind
  | sigterm i => cases hplan; cases hexec; exact .sigterm i
  | kill i =>
    simp only [controller] at hplan
    split at hplan
    · exact nomatch hplan
    · next sv hget =>
      obtain ⟨as', hkill, heq⟩ := Option.map_eq_some_iff.1 hplan
      cases heq
      rw [Service.kill] at hkill
      split at hkill
      · exact nomatch hkill
      · exact nomatch hkill
      · next m hpc => cases hkill; exact .killWorking hget hpc (exec_singleton.1 hexec)
      · next hpc => cases hkill; cases hexec; exact .kill hget hpc
  | own i x =>
    simp only [controller] at hplan
    split at hplan
    · exact nomatch hplan
    · next sv hget =>
      obtain ⟨⟨as', next'⟩, hnext, heq⟩ := Option.map_eq_some_iff.1 hplan
      cases heq
      exact .own hget (.of_next hnext hexec)
  | outside b =>
    simp only [controller] at hplan
    split at hplan
    · next hb => cases hplan; exact .outside hb (exec_singleton.1 hexec)
    · exact nomatch hplan

end Deployment

/-! ### Where the body of a loop leads -/

theorem ServicePc.setUp_ne_working (rest : List SetUpCall) (m : Machine) :
    setUp rest ≠ working m := by
  cases rest <;> exact nofun

theorem ServicePc.close_ne_working (rest : List CloseCall) (m : Machine) :
    close rest ≠ working m := by
  cases rest <;> exact nofun

/-- After an answer a service works on if its machine has not ended. -/
theorem ServicePc.after_eq_working {kind : ServiceKind} {m m' : Machine} {o : Option Outcome} :
    after kind m o = working m' ↔ o = none ∧ m = m' := by
  match o with
  | none => simp [after]
  | some .again | some .idle => simp [after]
  | some .raised => simp [after, close_ne_working]

namespace Pipeline

variable {m : Machine}

/-- Whether a machine is at work depends on what a service sees of it. -/
theorem atWork_congr (h : p'.machine? cfg m = p.machine? cfg m) :
    p'.AtWork cfg m ↔ p.AtWork cfg m := by
  rw [AtWork, AtWork, h]

/-- A machine that lives is at work if its service stays with it. -/
theorem atWork_iff_after (kind : ServiceKind) {x : MachineState} (hx : p.machine? cfg m = some x)
    (halive : x.alive = true) :
    ServicePc.after kind m (p.outcome? m) = .working m ↔ p.AtWork cfg m := by
  rw [ServicePc.after_eq_working, outcome?_eq cfg, hx]
  constructor
  · rintro ⟨hout, -⟩
    exact ⟨x, hx, halive, hout⟩
  · rintro ⟨x', hx', -, hout⟩
    obtain rfl := Option.some.inj (hx.symm.trans hx')
    exact ⟨hout, rfl⟩

theorem atWork_kill (h : p.step cfg m.kill = some p') : ¬ p'.AtWork cfg m := by
  rintro ⟨x, hx, halive, -⟩
  rw [machine?_kill h] at hx
  obtain ⟨x₀, -, rfl⟩ := Option.map_eq_some_iff.1 hx
  exact nomatch halive

end Pipeline

/-! ### One process for each machine -/

namespace Deployment

variable {d d' : Deployment} {a : DeploymentStep}

/-- Service number `i` works on the machine. -/
def Works (services : List Service) (i : ℕ) (m : Machine) : Prop :=
  ∃ sv, services[i]? = some sv ∧ sv.pc = .working m

/-- The machines at work are those the services work on, each on its own. -/
structure Manned (cfg : Settings) (d : Deployment) : Prop where
  manned : ∀ m, d.1.AtWork cfg m → ∃ i, Works d.2 i m
  working : ∀ i m, Works d.2 i m → d.1.AtWork cfg m
  one : ∀ i i' m, Works d.2 i m → Works d.2 i' m → i = i'

variable {services services' : List Service} {i : ℕ}

/-- After one service has moved, the others work on what they did. -/
theorem works_set (hget : services[i]? = some sv) {pc : ServicePc} {i' : ℕ} {m : Machine} :
    Works (services.set i { sv with pc := pc }) i' m ↔
      i = i' ∧ pc = .working m ∨ i ≠ i' ∧ Works services i' m := by
  constructor
  · rintro ⟨sv', hget', hpc'⟩
    rcases List.getElem?_set_eq_some hget' with ⟨heq, rfl⟩ | ⟨hne, hget'⟩
    · exact .inl ⟨heq, hpc'⟩
    · exact .inr ⟨hne, sv', hget', hpc'⟩
  · rintro (⟨rfl, hpc⟩ | ⟨hne, sv', hget', hpc'⟩)
    · exact ⟨_, List.getElem?_set_self (List.lt_length_of_getElem? hget), hpc⟩
    · exact ⟨sv', by rw [List.getElem?_set_ne hne, hget'], hpc'⟩

/-- A service works on what its control point says. -/
theorem works_iff (hget : services[i]? = some sv) {m : Machine} :
    Works services i m ↔ sv.pc = .working m := by
  constructor
  · rintro ⟨sv', hget', hpc'⟩
    rwa [Option.some.inj (hget.symm.trans hget')]
  · exact fun h ↦ ⟨sv, hget, h⟩

/-- A new service works on nothing. -/
theorem works_start (kind : ServiceKind) {m : Machine} :
    Works (services ++ [Service.launch kind]) i m ↔ Works services i m := by
  constructor
  · rintro ⟨sv, hget, hpc⟩
    rcases List.getElem?_concat_eq_some hget with hget | ⟨-, -, rfl⟩
    · exact ⟨sv, hget, hpc⟩
    · exact absurd hpc (ServicePc.setUp_ne_working _ m)
  · rintro ⟨sv, hget, hpc⟩
    exact ⟨sv, List.getElem?_concat_of_some hget _, hpc⟩

/-- The flag is nobody's work. -/
theorem works_sigterm {k : ℕ} {m : Machine} :
    Works (services.modify k fun sv ↦ { sv with stop := true }) i m ↔ Works services i m := by
  constructor
  · rintro ⟨sv, hget, hpc⟩
    obtain ⟨sv₀, hget₀, ⟨-, rfl⟩ | ⟨-, rfl⟩⟩ := List.getElem?_modify_eq_some hget
    · exact ⟨sv₀, hget₀, hpc⟩
    · exact ⟨sv, hget₀, hpc⟩
  · rintro ⟨sv, hget, hpc⟩
    refine ⟨_, by rw [List.getElem?_modify, hget]; rfl, ?_⟩
    split <;> exact hpc

/-- What changes neither machines nor services changes nothing here. -/
theorem Manned.congr (hd : Manned cfg (p, services))
    (hs : ∀ i m, Works services' i m ↔ Works services i m)
    (hp : ∀ m, p'.AtWork cfg m ↔ p.AtWork cfg m) : Manned cfg (p', services') where
  manned m hm := by
    obtain ⟨i, hw⟩ := hd.manned m ((hp m).1 hm)
    exact ⟨i, (hs i m).2 hw⟩
  working i m hw := (hp m).2 (hd.working i m ((hs i m).1 hw))
  one i i' m hw hw' := hd.one i i' m ((hs i m).1 hw) ((hs i' m).1 hw')

/-- **A service leaves a machine and enters another, or neither.** The machine it leaves is not at
work any more, the one it enters was not before. -/
theorem Manned.set (hd : Manned cfg (p, services)) (hget : services[i]? = some sv)
    {pc : ServicePc}
    (hother : ∀ m, sv.pc ≠ .working m → pc ≠ .working m → (p'.AtWork cfg m ↔ p.AtWork cfg m))
    (hleft : ∀ m, sv.pc = .working m → pc ≠ .working m → ¬ p'.AtWork cfg m)
    (hnew : ∀ m, pc = .working m →
      p'.AtWork cfg m ∧ (sv.pc = .working m ∨ ¬ p.AtWork cfg m)) :
    Manned cfg (p', services.set i { sv with pc := pc }) := by
  have hown : ∀ m, sv.pc = .working m → Works services i m := fun m ↦ (works_iff hget).2
  -- Nobody but the service itself works on what it enters.
  have honly : ∀ i' m, Works services i' m → pc = .working m → i = i' := by
    intro i' m hw hpc
    rcases (hnew m hpc).2 with hsame | hnot
    · exact hd.one i i' m (hown m hsame) hw
    · exact absurd (hd.working i' m hw) hnot
  constructor
  · intro m hm
    by_cases hpc : pc = .working m
    · exact ⟨i, (works_set hget).2 (.inl ⟨rfl, hpc⟩)⟩
    · have hsv : sv.pc ≠ .working m := fun hsv ↦ hleft m hsv hpc hm
      obtain ⟨i', hw⟩ := hd.manned m ((hother m hsv hpc).1 hm)
      refine ⟨i', (works_set hget).2 (.inr ⟨?_, hw⟩)⟩
      rintro rfl
      exact hsv ((works_iff hget).1 hw)
  · intro i' m hw
    rcases (works_set hget).1 hw with ⟨-, hpc⟩ | ⟨hne, hw⟩
    · exact (hnew m hpc).1
    · refine (hother m (fun hsv ↦ hne ?_) fun hpc ↦ hne (honly i' m hw hpc)).2
        (hd.working i' m hw)
      exact hd.one i i' m (hown m hsv) hw
  · intro i₁ i₂ m hw₁ hw₂
    rcases (works_set hget).1 hw₁ with ⟨rfl, hpc₁⟩ | ⟨-, hw₁⟩ <;>
    rcases (works_set hget).1 hw₂ with ⟨heq, hpc₂⟩ | ⟨-, hw₂⟩
    · exact heq
    · exact honly i₂ m hw₂ hpc₁
    · exact heq ▸ (honly i₁ m hw₁ hpc₂).symm
    · exact hd.one i₁ i₂ m hw₁ hw₂

/-- A service that works on nothing goes on to work on nothing. -/
theorem Manned.stay (hd : Manned cfg (p, services)) (hget : services[i]? = some sv)
    {pc : ServicePc} (hsv : ∀ m, sv.pc ≠ .working m) (hpc : ∀ m, pc ≠ .working m)
    (hp : ∀ m, p'.AtWork cfg m ↔ p.AtWork cfg m) :
    Manned cfg (p', services.set i { sv with pc := pc }) :=
  hd.set hget (fun m _ _ ↦ hp m) (fun m h ↦ absurd h (hsv m)) fun m h ↦ absurd h (hpc m)

/-- A service begins a machine. -/
theorem Manned.begin (hd : Manned cfg (p, services)) (hget : services[i]? = some sv)
    (hsv : ∀ m, sv.pc ≠ .working m) {b : PipelineStep} {m : Machine}
    (hb : (∃ n workerId, b = .deliver n workerId) ∨ b = .beginRelay ∨ ∃ aid, b = .fetch aid)
    (hm : b.machine? p = some m) (h : p.step cfg b = some p') :
    Manned cfg (p', services.set i { sv with pc := .after sv.kind m (p'.outcome? m) }) := by
  obtain ⟨hnone, x, hx, halive, -⟩ := Pipeline.exists_machine_of_begins h hb hm
  have hiff := Pipeline.atWork_iff_after sv.kind hx halive
  have hother : ∀ m', m' ≠ m → (p'.AtWork cfg m' ↔ p.AtWork cfg m') := fun m' hne ↦
    Pipeline.atWork_congr (Pipeline.machine?_of_ne h fun heq ↦
      hne (Option.some.inj (heq.symm.trans hm)))
  have hfresh : ¬ p.AtWork cfg m := by
    rintro ⟨x', hx', -⟩
    exact nomatch hnone.symm.trans hx'
  refine hd.set hget (fun m' _ hpc ↦ ?_) (fun m' h ↦ absurd h (hsv m')) fun m' hpc ↦ ?_
  · by_cases heq : m' = m
    · subst heq
      exact ⟨fun hat ↦ absurd (hiff.2 hat) hpc, fun hat ↦ absurd hat hfresh⟩
    · exact hother m' heq
  · obtain ⟨-, rfl⟩ := ServicePc.after_eq_working.1 hpc
    exact ⟨hiff.1 hpc, .inr hfresh⟩

/-- A service answers the machine it works on. -/
theorem Manned.answer (hd : Manned cfg (p, services)) (hget : services[i]? = some sv)
    {m : Machine} {ans : Answer} {remembered : Bool} (hsv : sv.pc = .working m)
    (h : p.step cfg (m.step ans remembered) = some p') :
    Manned cfg (p', services.set i { sv with pc := .after sv.kind m (p'.outcome? m) }) := by
  obtain ⟨-, x, -, hx, -, halive, -⟩ := Pipeline.exists_machine_of_step h
  have hiff := Pipeline.atWork_iff_after sv.kind hx halive
  refine hd.set hget (fun m' hne _ ↦ ?_) (fun m' heq hpc ↦ ?_) fun m' hpc ↦ ?_
  · refine Pipeline.atWork_congr (Pipeline.machine?_of_ne h fun heq ↦ hne ?_)
    rw [Machine.machine?_step, Option.some.injEq] at heq
    rw [hsv, heq]
  · obtain rfl := ServicePc.working.inj (hsv.symm.trans heq)
    exact fun hat ↦ hpc (hiff.2 hat)
  · obtain ⟨-, rfl⟩ := ServicePc.after_eq_working.1 hpc
    exact ⟨hiff.1 hpc, .inl hsv⟩

/-- A service is killed with the machine it works on. -/
theorem Manned.kill (hd : Manned cfg (p, services)) (hget : services[i]? = some sv)
    {m : Machine} (hsv : sv.pc = .working m) (h : p.step cfg m.kill = some p') :
    Manned cfg (p', services.set i { sv with pc := .killed }) := by
  refine hd.set hget (fun m' hne _ ↦ ?_) (fun m' heq _ ↦ ?_) fun m' hpc ↦ nomatch hpc
  · refine Pipeline.atWork_congr (Pipeline.machine?_of_ne h fun heq ↦ hne ?_)
    rw [Machine.machine?_kill, Option.some.injEq] at heq
    rw [hsv, heq]
  · obtain rfl := ServicePc.working.inj (hsv.symm.trans heq)
    exact Pipeline.atWork_kill h

/-- **Every answer to a service keeps one process for each machine.** -/
theorem Manned.own {pc : ServicePc} (hd : Manned cfg (p, services))
    (hget : services[i]? = some sv) (h : OwnMove cfg p sv x p' pc) :
    Manned cfg (p', services.set i { sv with pc := pc }) := by
  cases h with
  | setUp hpc =>
    exact hd.stay hget (by simp [hpc]) (ServicePc.setUp_ne_working _) fun _ ↦ Iff.rfl
  | stops hpc | fetchRaised hpc | closes hpc =>
    exact hd.stay hget (by simp [hpc]) (ServicePc.close_ne_working _) fun _ ↦ Iff.rfl
  | setUpRaised hpc | fetches hpc | timesOut hpc | wakes hpc | closeRaised hpc =>
    exact hd.stay hget (by simp [hpc]) (by simp) fun _ ↦ Iff.rfl
  | begins hpc hstop hm hbudget h =>
    exact hd.begin hget (by simp [hpc]) (.inr (.inl rfl)) (by rw [hm]; rfl) h
  | receives hpc hb hm hbudget h =>
    refine hd.begin hget (by simp [hpc]) ?_ hm h
    rcases hb with ⟨workerId, -, rfl⟩ | rfl
    · exact .inl ⟨_, workerId, rfl⟩
    · exact .inr (.inr ⟨_, rfl⟩)
  | misses hpc h =>
    exact hd.stay hget (by simp [hpc]) (by simp) fun m ↦
      Pipeline.atWork_congr (Pipeline.machine?_of_ne h nofun)
  | answered hpc h => exact hd.answer hget hpc h

/-- **Every step keeps each machine at work with one process.** -/
theorem Manned.step (hd : Manned cfg d) (hs : (system cfg).step d a = some d') :
    Manned cfg d' := by
  cases move_of_step hs with
  | start kind => exact hd.congr (fun i m ↦ works_start kind) fun _ ↦ Iff.rfl
  | sigterm i => exact hd.congr (fun i m ↦ works_sigterm) fun _ ↦ Iff.rfl
  | kill hget hpc => exact hd.stay hget hpc (by simp) fun _ ↦ Iff.rfl
  | killWorking hget hpc h => exact hd.kill hget hpc h
  | own hget h => exact hd.own hget h
  | outside hb h =>
    refine hd.congr (fun _ _ ↦ Iff.rfl) fun m ↦
      Pipeline.atWork_congr (Pipeline.machine?_of_ne h ?_)
    rw [PipelineStep.machine?_of_isOutside hb]
    simp

/-- One process for each machine, in every reachable state. -/
theorem manned_of_reachable {G : Deployment → DeploymentStep → Prop}
    (h : (system cfg).Reachable G d) : Manned cfg d := by
  refine h.induct (I := Manned cfg) (fun d hd ↦ ?_) fun d a d' _ ih _ hs ↦ ih.step hs
  obtain ⟨p, services⟩ := d
  obtain ⟨rfl, rfl⟩ := hd
  refine ⟨?_, ?_, ?_⟩
  · rintro m ⟨x, hx, -⟩
    cases m <;> exact nomatch hx
  · rintro i m ⟨sv, hget, -⟩
    exact nomatch hget
  · rintro i i' m ⟨sv, hget, -⟩
    exact nomatch hget

/-- The calls of a deployment are worked on by the workers they name. -/
def Named (d : Deployment) : Prop :=
  ∀ (i pid : ℕ) (sv : Service) (hc : HandleCall), d.2[i]? = some sv →
    sv.pc = .working (.call pid) → d.1.fleet.calls[pid]? = some hc →
      sv.kind = .worker hc.delivery.workerId

/-- It is enough to look at the service that moves. -/
theorem Named.of_moves (hn : Named (p, services)) (hd : Manned cfg (p, services))
    (hp : ∀ (pid : ℕ) (hc : HandleCall), p.fleet.calls[pid]? = some hc →
      ∃ hc', p'.fleet.calls[pid]? = some hc' ∧ hc'.delivery = hc.delivery)
    (hs : ∀ (i pid : ℕ) (sv' : Service), services'[i]? = some sv' →
      sv'.pc = .working (.call pid) → (∃ sv, services[i]? = some sv ∧
        sv.pc = .working (.call pid) ∧ sv.kind = sv'.kind) ∨
      ∀ hc, p'.fleet.calls[pid]? = some hc → sv'.kind = .worker hc.delivery.workerId) :
    Named (p', services') := by
  intro i pid sv' hc' hget' hpc' hcall'
  rcases hs i pid sv' hget' hpc' with ⟨sv, hget, hpc, hkind⟩ | hnew
  · obtain ⟨x, hx, -⟩ := hd.working i _ ⟨sv, hget, hpc⟩
    obtain ⟨hc, hcall, -⟩ := Option.map_eq_some_iff.1 hx
    obtain ⟨hc₁, hcall₁, hdel⟩ := hp pid hc hcall
    obtain rfl := Option.some.inj (hcall'.symm.trans hcall₁)
    rw [← hkind, hn i pid sv hc hget hpc hcall, hdel]
  · exact hnew hc' hcall'

theorem delivery_step {b : PipelineStep} (h : p.step cfg b = some p') (pid : ℕ)
    (hc : HandleCall) (hget : p.fleet.calls[pid]? = some hc) :
    ∃ hc', p'.fleet.calls[pid]? = some hc' ∧ hc'.delivery = hc.delivery := by
  rcases Pipeline.step_fleet h with hsame | ⟨b, -, hstep⟩
  · exact ⟨hc, by rw [hsame, hget], rfl⟩
  · exact Fleet.step_call_of_some hstep hget

/-- A service that moves either stays with its call or has just received it. -/
theorem OwnMove.call_cases {pc : ServicePc} (h : OwnMove cfg p sv x p' pc) {pid : ℕ}
    (hpc : pc = .working (.call pid)) : sv.pc = .working (.call pid) ∨
      ∀ hc, p'.fleet.calls[pid]? = some hc → sv.kind = .worker hc.delivery.workerId := by
  cases h with
  | setUp => exact absurd hpc (ServicePc.setUp_ne_working _ _)
  | stops | fetchRaised | closes => exact absurd hpc (ServicePc.close_ne_working _ _)
  | setUpRaised | fetches | timesOut | wakes | closeRaised | misses => exact nomatch hpc
  | begins hpc₀ hstop hm hbudget h =>
    obtain ⟨-, heq⟩ := ServicePc.after_eq_working.1 hpc
    exact nomatch hm.symm.trans heq
  | answered hpc₀ h =>
    obtain ⟨-, rfl⟩ := ServicePc.after_eq_working.1 hpc
    exact .inl hpc₀
  | receives hpc₀ hb hm hbudget h =>
    obtain ⟨-, rfl⟩ := ServicePc.after_eq_working.1 hpc
    rcases hb with ⟨workerId, hkind, rfl⟩ | rfl
    · refine .inr fun hc hget ↦ ?_
      obtain rfl := Machine.call.inj (Option.some.inj hm)
      rcases Pipeline.delivery_cases h hget with ⟨hc₀, hget₀, -⟩ | ⟨n', w, msg, heq, -, -, rfl⟩
      · exact absurd (List.lt_length_of_getElem? hget₀) (lt_irrefl _)
      · cases heq
        exact hkind
    · exact nomatch hm

/-- A call is worked on by the worker it names. -/
theorem named_of_reachable {G : Deployment → DeploymentStep → Prop}
    (h : (system cfg).Reachable G d) : Named d := by
  refine h.induct (I := Named) (fun d hd i pid sv hc hget ↦ ?_) fun d a d' hr ih _ hs ↦ ?_
  · rw [hd.2] at hget
    exact nomatch hget
  · have hd := manned_of_reachable hr
    have hid : ∀ (pid : ℕ) (hc : HandleCall), d.1.fleet.calls[pid]? = some hc →
        ∃ hc', d.1.fleet.calls[pid]? = some hc' ∧ hc'.delivery = hc.delivery :=
      fun pid hc hget ↦ ⟨hc, hget, rfl⟩
    -- Whoever is not moved stays with its call.
    have hset : ∀ {i : ℕ} {sv : Service} {pc : ServicePc} {p' : Pipeline},
        d.2[i]? = some sv → (∀ pid, pc = .working (.call pid) → sv.pc = .working (.call pid) ∨
          ∀ hc, p'.fleet.calls[pid]? = some hc → sv.kind = .worker hc.delivery.workerId) →
        ∀ (i' pid : ℕ) (sv' : Service), (d.2.set i { sv with pc := pc })[i']? = some sv' →
          sv'.pc = .working (.call pid) → (∃ sv, d.2[i']? = some sv ∧
            sv.pc = .working (.call pid) ∧ sv.kind = sv'.kind) ∨
          ∀ hc, p'.fleet.calls[pid]? = some hc → sv'.kind = .worker hc.delivery.workerId := by
      intro i sv pc p' hget hpc i' pid sv' hget' hpc'
      rcases List.getElem?_set_eq_some hget' with ⟨rfl, rfl⟩ | ⟨-, hget'⟩
      · exact (hpc pid hpc').imp_left fun hsv ↦ ⟨sv, hget, hsv, rfl⟩
      · exact .inl ⟨sv', hget', hpc', rfl⟩
    cases move_of_step hs with
    | start kind =>
      refine ih.of_moves hd hid fun i pid sv' hget' hpc' ↦ .inl ?_
      rcases List.getElem?_concat_eq_some hget' with hget | ⟨-, -, rfl⟩
      · exact ⟨sv', hget, hpc', rfl⟩
      · exact absurd hpc' (ServicePc.setUp_ne_working _ _)
    | sigterm k =>
      refine ih.of_moves hd hid fun i pid sv' hget' hpc' ↦ .inl ?_
      obtain ⟨sv, hget, ⟨-, rfl⟩ | ⟨-, rfl⟩⟩ := List.getElem?_modify_eq_some hget'
      · exact ⟨sv, hget, hpc', rfl⟩
      · exact ⟨sv', hget, hpc', rfl⟩
    | kill hget hpc => exact ih.of_moves hd hid (hset hget fun pid h ↦ nomatch h)
    | killWorking hget hpc h =>
      exact ih.of_moves hd (delivery_step h) (hset hget fun pid h ↦ nomatch h)
    | own hget h =>
      refine ih.of_moves hd ?_ (hset hget fun pid hpc ↦ OwnMove.call_cases h hpc)
      cases h with
      | begins _ _ _ _ h | receives _ _ _ _ h | misses _ h | answered _ h => exact delivery_step h
      | _ => exact hid
    | outside hb h =>
      exact ih.of_moves hd (delivery_step h) fun i pid sv hget hpc ↦ .inl ⟨sv, hget, hpc, rfl⟩

/-- **One process for each call, and one call for each process.** In every run, a `handle` call that
lives and has not ended is awaited by exactly one process, the worker it names; a relay run and an
advisory at work by exactly one as well; and what a process awaits is such a machine. -/
theorem one_process_each {G : Deployment → DeploymentStep → Prop}
    (h : (system cfg).Reachable G d) :
    (∀ m, d.1.AtWork cfg m ↔ ∃! i, Works d.2 i m) ∧
      ∀ (i pid : ℕ) (sv : Service) (hc : HandleCall), d.2[i]? = some sv →
        sv.pc = .working (.call pid) → d.1.fleet.calls[pid]? = some hc →
        hc.alive = true ∧ sv.kind = .worker hc.delivery.workerId := by
  have hd := manned_of_reachable h
  refine ⟨fun m ↦ ⟨fun hm ↦ ?_, ?_⟩, fun i pid sv hc hget hpc hcall ↦
    ⟨?_, named_of_reachable h i pid sv hc hget hpc hcall⟩⟩
  · obtain ⟨i, hw⟩ := hd.manned m hm
    exact ⟨i, hw, fun i' hw' ↦ hd.one i' i m hw' hw⟩
  · rintro ⟨i, hw, -⟩
    exact hd.working i m hw
  · obtain ⟨x, hx, halive, -⟩ := hd.working i _ ⟨sv, hget, hpc⟩
    rw [Pipeline.machine?, hcall] at hx
    obtain rfl := Option.some.inj hx
    exact halive

/-- A relay publishes a job, and a worker waits for a message when it is told to stop. -/
def lateFetch : List DeploymentStep :=
  [.outside (.submit ⟨0⟩ "k" (.healthy 5 five_le_limit) []), .start .relay,
    .own 0 .returned, .own 0 .returned, .own 0 .returned, .own 0 .returned, .own 0 .returned,
    .own 0 (.reply .served true), .own 0 (.reply .served true), .own 0 (.reply .served true),
    .start (.worker "w"), .own 1 .returned, .own 1 .returned, .own 1 .returned, .own 1 .returned,
    .own 1 .returned, .own 1 .returned, .own 1 .returned, .sigterm 1]

/-- It is given one and works on it, and nobody else does. -/
theorem one_process_each_of_lateFetch : ∃ d : Deployment, (system {}).Reachable anyStep d ∧
    d.1.AtWork {} (.call 0) ∧ d.2.length = 2 ∧ ∃! i, Works d.2 i (.call 0) := by
  have hrun : ((system {}).exec (.empty, []) (lateFetch ++ [.own 1 (.message 1)])).any (fun d ↦
      ((d.1.machine? {} (.call 0)).any fun x ↦ x.alive && x.outcome = none) &&
        d.2.length = 2) = true := by
    rfl
  obtain ⟨d, hl, hd⟩ := exists_leads_of_exec hrun
  simp only [Bool.and_eq_true, Option.any_eq_true, decide_eq_true_eq] at hd
  obtain ⟨⟨x, hx, halive, hout⟩, hlen⟩ := hd
  have hr : (system {}).Reachable anyStep d := ⟨(.empty, []), ⟨rfl, rfl⟩, hl⟩
  have hat : d.1.AtWork {} (.call 0) := ⟨x, hx, halive, hout⟩
  exact ⟨d, hr, hat, hlen, ((one_process_each hr).1 _).1 hat⟩

end Deployment

end Orbiter
