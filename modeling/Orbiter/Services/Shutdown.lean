import Orbiter.Services.Manned

/-!
# Shutting down

SIGTERM sets a flag, and from then on a service is a bounded number of answers from its end,
whatever the answers are and whatever anybody else does: it makes an end of the body of its loop,
which is bounded because every machine is, and closes. It may still be given one message, if it was
waiting for one, and never a second.

The bound counts answers and not time: a worker inside `execute` awaits one answer, however long the
job takes.

## The argument

* `Service.left` — how many answers a service that was told to stop is from its end. Each of its own
  steps makes it smaller (`OwnMove.left_lt`), and nobody else's makes it larger
  (`left_le_of_others`, since others do not concern its machine);
* `ServiceKind.grace`, `left_le_grace` — the bound for a service of a kind, wherever it stands when
  the signal comes;
* `waiting` — one while the service waits for a message. It is spent by the message it is given, and
  does not come back once the flag is set;
* `Service.exists_next`, `exists_own_step` — a service is never stuck: some answer fits that is
  neither an exception nor a message;
* `shutdown_bounded` — **the three together**, for one service in every run from the signal on;
* `can_end`, `shuts_down` — a whole deployment told to stop can come to its end by answers alone,
  one service after the other, and then no machine is at work.
-/

namespace Orbiter

open TransitionSystem

variable {cfg : Settings} {p p' : Pipeline} {sv : Service} {x : ServiceAnswer}

/-! ### The end is near -/

/-- How many answers a service that was told to stop is from its end at most. -/
def Service.left (cfg : Settings) (p : Pipeline) (sv : Service) : ℕ :=
  match sv.pc with
  | .starting _ rest => rest.length + sv.kind.close.length + 2
  | .loop => sv.kind.close.length + 1
  | .fetching => sv.kind.budget cfg + sv.kind.close.length + 3
  | .working m => ((p.machine? cfg m).elim 0 MachineState.left) + sv.kind.close.length + 2
  | .pausing => sv.kind.close.length + 2
  | .closing _ rest => rest.length + 1
  | .exited | .killed => 0

/-- It has returned, raised or been killed. -/
def Service.ended (sv : Service) : Bool :=
  match sv.pc with
  | .exited | .killed => true
  | _ => false

/-- What is left during the set-up: the rest of it, one look at the flag, and the calls at the
end. -/
theorem Service.left_setUp (cfg : Settings) (p : Pipeline) (kind : ServiceKind) (stop : Bool)
    (rest : List SetUpCall) :
    Service.left cfg p ⟨kind, .setUp rest, stop⟩ = rest.length + kind.close.length + 1 := by
  cases rest with
  | nil => exact (Nat.zero_add _).symm ▸ rfl
  | cons call rest =>
    show rest.length + kind.close.length + 2 = rest.length + 1 + kind.close.length + 1
    omega

/-- What is left during the close is the rest of it. -/
theorem Service.left_close (cfg : Settings) (p : Pipeline) (kind : ServiceKind) (stop : Bool)
    (rest : List CloseCall) : Service.left cfg p ⟨kind, .close rest, stop⟩ = rest.length := by
  cases rest <;> rfl

/-- After the body of the loop the end is as near as the machine's, and the loop's. -/
theorem Service.left_after_le {kind : ServiceKind} {m : Machine} {y : MachineState}
    (hy : p.machine? cfg m = some y) (stop : Bool) :
    Service.left cfg p ⟨kind, .after kind m (p.outcome? m), stop⟩ ≤
      y.left + kind.close.length + 2 := by
  have hout : p.outcome? m = y.outcome := by rw [Pipeline.outcome?_eq cfg, hy]; rfl
  rw [hout]
  match y.outcome with
  | none =>
    show (p.machine? cfg m).elim 0 MachineState.left + _ + 2 ≤ _
    rw [hy]
    exact le_rfl
  | some .again =>
    show kind.close.length + 1 ≤ _
    omega
  | some .idle =>
    show kind.close.length + 2 ≤ _
    omega
  | some .raised =>
    rw [ServicePc.after, left_close]
    omega

/-- **Every answer brings a service that was told to stop nearer to its end.** -/
theorem OwnMove.left_lt {pc : ServicePc} (h : OwnMove cfg p sv x p' pc) (hstop : sv.stop = true) :
    ({ sv with pc := pc } : Service).left cfg p' < sv.left cfg p := by
  obtain ⟨kind, pc₀, stop⟩ := sv
  obtain rfl : stop = true := hstop
  cases h with
  | @setUp call rest hpc =>
    obtain rfl : pc₀ = .starting call rest := hpc
    rw [Service.left_setUp]
    dsimp only
    show _ < rest.length + kind.close.length + 2
    omega
  | @setUpRaised call rest hpc =>
    obtain rfl : pc₀ = .starting call rest := hpc
    exact Nat.succ_pos _
  | stops hpc =>
    obtain rfl : pc₀ = .loop := hpc
    rw [Service.left_close]
    exact Nat.lt_succ_self _
  | fetches hpc hstop | begins hpc hstop => exact nomatch hstop
  | @receives n b m p' hpc hb hm hbudget h =>
    obtain rfl : pc₀ = .fetching := hpc
    obtain ⟨-, y, hy, -, hle⟩ := Pipeline.exists_machine_of_begins h (by
      rcases hb with ⟨workerId, -, rfl⟩ | rfl
      · exact .inl ⟨n, workerId, rfl⟩
      · exact .inr (.inr ⟨n, rfl⟩)) hm
    refine lt_of_le_of_lt (Service.left_after_le hy true) ?_
    dsimp only
    show _ < kind.budget cfg + kind.close.length + 3
    have hbudget' : m.budget cfg = kind.budget cfg := hbudget
    omega
  | misses hpc =>
    obtain rfl : pc₀ = .fetching := hpc
    show kind.close.length + 1 < kind.budget cfg + kind.close.length + 3
    omega
  | timesOut hpc =>
    obtain rfl : pc₀ = .fetching := hpc
    show kind.close.length + 1 < kind.budget cfg + kind.close.length + 3
    omega
  | fetchRaised hpc =>
    obtain rfl : pc₀ = .fetching := hpc
    rw [Service.left_close]
    dsimp only
    show _ < kind.budget cfg + kind.close.length + 3
    omega
  | @answered m ans remembered p' hpc h =>
    obtain rfl : pc₀ = .working m := hpc
    obtain ⟨y, y', hy, hy', -, -, hlt⟩ := Pipeline.exists_machine_of_step h
    refine lt_of_le_of_lt (Service.left_after_le hy' true) ?_
    dsimp only
    show _ < (p.machine? cfg m).elim 0 MachineState.left + kind.close.length + 2
    rw [hy]
    show _ < y.left + kind.close.length + 2
    omega
  | wakes hpc =>
    obtain rfl : pc₀ = .pausing := hpc
    exact Nat.lt_succ_self _
  | @closes call rest hpc =>
    obtain rfl : pc₀ = .closing call rest := hpc
    rw [Service.left_close]
    exact Nat.lt_succ_self _
  | @closeRaised call rest hpc =>
    obtain rfl : pc₀ = .closing call rest := hpc
    exact Nat.succ_pos _

/-- It waits for a message. -/
def ServicePc.isFetching : ServicePc → Bool
  | fetching => true
  | _ => false

/-- **A service that was told to stop fetches no more.** -/
theorem OwnMove.isFetching_eq {pc : ServicePc} (h : OwnMove cfg p sv x p' pc)
    (hstop : sv.stop = true) : pc.isFetching = false := by
  have hafter : ∀ (kind : ServiceKind) (m : Machine) (o : Option Outcome),
      (ServicePc.after kind m o).isFetching = false := by
    intro kind m o
    match o with
    | none | some .again | some .idle => rfl
    | some .raised => cases kind <;> rfl
  cases h with
  | @setUp call rest | @closes call rest => cases rest <;> rfl
  | stops | fetchRaised => cases sv.kind <;> rfl
  | fetches hpc hrun => exact nomatch hstop.symm.trans hrun
  | begins | receives | answered => exact hafter ..
  | setUpRaised | misses | timesOut | wakes | closeRaised => rfl

variable (cfg) in
/-- It is not stuck before its end: some answer is possible that does not raise. -/
theorem Service.exists_next (hend : sv.ended = false)
    (hat : ∀ m, sv.pc = .working m → p.AtWork cfg m) :
    ∃ x as next p', x ≠ .raised ∧ (∀ ans remembered, x = .reply ans remembered →
      ans.isFailed = false) ∧ sv.next p x = some (as, next) ∧
      (Pipeline.system cfg).exec p as = some p' := by
  obtain ⟨kind, pc, stop⟩ := sv
  cases pc with
  | starting | pausing | closing => exact ⟨.returned, [], _, p, nofun, nofun, rfl, rfl⟩
  | fetching => exact ⟨.timeout, [], _, p, nofun, nofun, rfl, rfl⟩
  | loop =>
    cases stop with
    | true => exact ⟨.returned, [], _, p, nofun, nofun, rfl, rfl⟩
    | false =>
      cases kind with
      | relay =>
        exact ⟨.returned, [.beginRelay], _, _, nofun, nofun, rfl, exec_singleton.2 rfl⟩
      | worker | listener => exact ⟨.returned, [], _, p, nofun, nofun, rfl, rfl⟩
  | working m =>
    obtain ⟨ans, p', hans, h⟩ := Pipeline.machine_served (hat m rfl)
    refine ⟨.reply ans true, _, _, p', nofun, fun ans' remembered heq ↦ ?_, rfl,
      exec_singleton.2 h⟩
    rwa [← (ServiceAnswer.reply.inj heq).1]
  | exited | killed => exact nomatch hend

/-! ### What the others do -/

/-- The step is an answer to service number `i`. -/
def DeploymentStep.isOwn (i : ℕ) : DeploymentStep → Bool
  | own k _ => k = i
  | _ => false

/-- The broker gives service number `i` a message. -/
def DeploymentStep.isMessage (i : ℕ) : DeploymentStep → Bool
  | own k (.message _) => k = i
  | _ => false

/-- No answer is an exception or a failed call. -/
def DeploymentStep.answered : DeploymentStep → Bool
  | own _ .raised => false
  | own _ (.reply ans _) => !ans.isFailed
  | own _ _ => true
  | _ => false

/-- A service leaves the machines at work alone, its own apart. -/
theorem OwnMove.machine?_eq {pc : ServicePc} (h : OwnMove cfg p sv x p' pc) {m : Machine}
    (hat : p.AtWork cfg m) (hne : sv.pc ≠ .working m) :
    p'.machine? cfg m = p.machine? cfg m := by
  -- What begins had no machine before.
  have hfresh : ∀ {b : PipelineStep} {p₁ : Pipeline} {m₀ : Machine}, p.step cfg b = some p₁ →
      ((∃ n workerId, b = .deliver n workerId) ∨ b = .beginRelay ∨ ∃ aid, b = .fetch aid) →
      b.machine? p = some m₀ → m₀ ≠ m := by
    rintro b p₁ m₀ h hb hm rfl
    obtain ⟨y, hy, -⟩ := hat
    exact nomatch (Pipeline.exists_machine_of_begins h hb hm).1.symm.trans hy
  cases h with
  | begins hpc hstop hm hbudget h =>
    refine Pipeline.machine?_of_ne h fun heq ↦ ?_
    exact hfresh h (.inr (.inl rfl)) heq rfl
  | @receives n b m₀ p' hpc hb hm hbudget h =>
    refine Pipeline.machine?_of_ne h fun heq ↦ hfresh h ?_ heq rfl
    rcases hb with ⟨workerId, -, rfl⟩ | rfl
    · exact .inl ⟨n, workerId, rfl⟩
    · exact .inr (.inr ⟨n, rfl⟩)
  | misses hpc h => exact Pipeline.machine?_of_ne h nofun
  | answered hpc h =>
    refine Pipeline.machine?_of_ne h fun heq ↦ hne ?_
    rw [Machine.machine?_step, Option.some.injEq] at heq
    rw [hpc, heq]
  | _ => rfl

namespace Deployment

variable {d d' : Deployment} {a : DeploymentStep} {i : ℕ}

/-- **What the others do to a service**: nothing, unless they kill it. -/
theorem others (hd : Manned cfg d) (hm : DeploymentMove cfg d a d') (ha : a.isOwn i = false)
    (hget : d.2[i]? = some sv) : ∃ sv', d'.2[i]? = some sv' ∧
      (sv.stop = true → sv'.stop = true) ∧ sv'.kind = sv.kind ∧ (sv'.pc = .killed ∨
        sv'.pc = sv.pc ∧ ∀ m, sv.pc = .working m →
          d'.1.machine? cfg m = d.1.machine? cfg m) := by
  -- Somebody else works on another machine.
  have hone : ∀ {k : ℕ} {sv₀ : Service} {m : Machine}, d.2[k]? = some sv₀ → k ≠ i →
      sv.pc = .working m → sv₀.pc ≠ .working m := fun hget₀ hne hpc hpc₀ ↦
    hne (hd.one _ _ _ ⟨_, hget₀, hpc₀⟩ ⟨sv, hget, hpc⟩)
  have hat : ∀ m, sv.pc = .working m → d.1.AtWork cfg m := fun m hpc ↦
    hd.working i m ⟨sv, hget, hpc⟩
  cases hm with
  | start kind =>
    exact ⟨sv, List.getElem?_concat_of_some hget _, id, rfl, .inr ⟨rfl, fun _ _ ↦ rfl⟩⟩
  | sigterm k =>
    refine ⟨if k = i then { sv with stop := true } else sv, ?_, ?_⟩
    · show (d.2.modify k _)[i]? = _
      rw [List.getElem?_modify, hget]
      split <;> rfl
    · split
      · exact ⟨fun _ ↦ rfl, rfl, .inr ⟨rfl, fun _ _ ↦ rfl⟩⟩
      · exact ⟨id, rfl, .inr ⟨rfl, fun _ _ ↦ rfl⟩⟩
  | @kill k sv₀ hget₀ hpc₀ =>
    by_cases hk : k = i
    · subst hk
      obtain rfl := Option.some.inj (hget.symm.trans hget₀)
      exact ⟨_, List.getElem?_set_self (List.lt_length_of_getElem? hget), id, rfl, .inl rfl⟩
    · exact ⟨sv, (List.getElem?_set_ne hk).trans hget, id, rfl, .inr ⟨rfl, fun _ _ ↦ rfl⟩⟩
  | @killWorking k sv₀ m p' hget₀ hpc₀ h =>
    by_cases hk : k = i
    · subst hk
      obtain rfl := Option.some.inj (hget.symm.trans hget₀)
      exact ⟨_, List.getElem?_set_self (List.lt_length_of_getElem? hget), id, rfl, .inl rfl⟩
    · refine ⟨sv, (List.getElem?_set_ne hk).trans hget, id, rfl, .inr ⟨rfl, fun m' hpc ↦ ?_⟩⟩
      refine Pipeline.machine?_of_ne h fun heq ↦ hone hget₀ hk hpc ?_
      rw [Machine.machine?_kill, Option.some.injEq] at heq
      rw [hpc₀, heq]
  | @own k sv₀ x p' pc hget₀ h =>
    have hk : k ≠ i := fun heq ↦ by
      rw [DeploymentStep.isOwn, decide_eq_false_iff_not] at ha
      exact ha heq
    exact ⟨sv, (List.getElem?_set_ne hk).trans hget, id, rfl, .inr ⟨rfl, fun m hpc ↦
      h.machine?_eq (hat m hpc) (hone hget₀ hk hpc)⟩⟩
  | outside hb h =>
    refine ⟨sv, hget, id, rfl, .inr ⟨rfl, fun m _ ↦ Pipeline.machine?_of_ne h ?_⟩⟩
    rw [PipelineStep.machine?_of_isOutside hb]
    exact nofun

/-- Service number `i` was told to stop. -/
def Told (d : Deployment) (i : ℕ) : Prop := ∃ sv, d.2[i]? = some sv ∧ sv.stop = true

/-- How many answers service number `i` is from its end. -/
def left (cfg : Settings) (d : Deployment) (i : ℕ) : ℕ :=
  (d.2[i]?).elim 0 (Service.left cfg d.1)

/-- How many messages service number `i` may be given before it looks at the flag again. -/
def waiting (d : Deployment) (i : ℕ) : ℕ :=
  (d.2[i]?).elim 0 fun sv ↦ sv.pc.isFetching.toNat

/-- Nobody else takes a service farther from its end. -/
theorem left_le_of_others (hd : Manned cfg d) (hm : DeploymentMove cfg d a d')
    (ha : a.isOwn i = false) (hget : d.2[i]? = some sv) : d'.left cfg i ≤ d.left cfg i := by
  obtain ⟨⟨kind', pc', stop'⟩, hget', -, hkind, hpc⟩ := others hd hm ha hget
  obtain ⟨kind, pc, stop⟩ := sv
  obtain rfl : kind' = kind := hkind
  rw [left, left, hget, hget']
  show Service.left cfg d'.1 _ ≤ Service.left cfg d.1 _
  rcases hpc with hpc | ⟨hpc, hmach⟩
  · obtain rfl : pc' = .killed := hpc
    exact Nat.zero_le _
  · obtain rfl : pc' = pc := hpc
    cases pc' with
    | working m =>
      show (d'.1.machine? cfg m).elim 0 MachineState.left + _ + 2 ≤ _
      rw [hmach m rfl]
      exact le_rfl
    | _ => exact le_rfl

theorem told_step (hd : Manned cfg d) (hs : (system cfg).step d a = some d') (ht : d.Told i) :
    d'.Told i := by
  obtain ⟨sv, hget, hstop⟩ := ht
  have hm := move_of_step hs
  cases ha : a.isOwn i with
  | false =>
    obtain ⟨sv', hget', hkeep, -⟩ := others hd hm ha hget
    exact ⟨sv', hget', hkeep hstop⟩
  | true =>
    cases hm with
    | @own k sv₀ x p' pc hget₀ h =>
      obtain rfl : k = i := by simpa [DeploymentStep.isOwn] using ha
      obtain rfl := Option.some.inj (hget.symm.trans hget₀)
      exact ⟨_, List.getElem?_set_self (List.lt_length_of_getElem? hget), hstop⟩
    | _ => exact nomatch ha

end Deployment

/-! ### The bound -/

/-- How many answers a service that is told to stop can still need. -/
def ServiceKind.grace (cfg : Settings) (kind : ServiceKind) : ℕ :=
  kind.budget cfg + kind.close.length + 3

/-- What the control points of a service hold has the size it had at the beginning. -/
def Service.Shaped (cfg : Settings) (sv : Service) : Prop :=
  match sv.pc with
  | .starting _ rest => rest.length + 1 ≤ sv.kind.setUp.length
  | .working m => m.budget cfg = sv.kind.budget cfg
  | .closing _ rest => rest.length + 1 ≤ sv.kind.close.length
  | _ => True

/-- A service in its set-up has no more of it to come than there is. -/
theorem Service.shaped_setUp {kind : ServiceKind} {rest : List SetUpCall}
    (h : rest.length ≤ kind.setUp.length) (stop : Bool) :
    Service.Shaped cfg ⟨kind, .setUp rest, stop⟩ := by
  cases rest with
  | nil => trivial
  | cons call rest => exact h

theorem Service.shaped_close {kind : ServiceKind} {rest : List CloseCall}
    (h : rest.length ≤ kind.close.length) (stop : Bool) :
    Service.Shaped cfg ⟨kind, .close rest, stop⟩ := by
  cases rest with
  | nil => trivial
  | cons call rest => exact h

theorem Service.shaped_after {kind : ServiceKind} {m : Machine}
    (h : m.budget cfg = kind.budget cfg) (stop : Bool) (o : Option Outcome) :
    Service.Shaped cfg ⟨kind, .after kind m o, stop⟩ := by
  match o with
  | none => exact h
  | some .again | some .idle => trivial
  | some .raised => exact shaped_close le_rfl stop

theorem OwnMove.shaped {pc : ServicePc} (h : OwnMove cfg p sv x p' pc) (hs : sv.Shaped cfg) :
    ({ sv with pc := pc } : Service).Shaped cfg := by
  obtain ⟨kind, pc₀, stop⟩ := sv
  cases h with
  | @setUp call rest hpc =>
    obtain rfl : pc₀ = .starting call rest := hpc
    exact Service.shaped_setUp ((Nat.le_succ _).trans hs) stop
  | stops | fetchRaised => exact Service.shaped_close le_rfl stop
  | @closes call rest hpc =>
    obtain rfl : pc₀ = .closing call rest := hpc
    exact Service.shaped_close ((Nat.le_succ _).trans hs) stop
  | begins hpc hstop hm hbudget h => exact Service.shaped_after hbudget stop _
  | receives hpc hb hm hbudget h => exact Service.shaped_after hbudget stop _
  | @answered m ans remembered p' hpc h =>
    obtain rfl : pc₀ = .working m := hpc
    exact Service.shaped_after hs stop _
  | setUpRaised | fetches | timesOut | wakes | closeRaised | misses => trivial

namespace Deployment

variable {d d' : Deployment} {a : DeploymentStep} {i : ℕ} {G : Deployment → DeploymentStep → Prop}

/-- Services are in shape in every reachable state. -/
theorem shaped_of_reachable (h : (system cfg).Reachable G d) {sv : Service}
    (hget : d.2[i]? = some sv) : sv.Shaped cfg := by
  revert i sv
  refine h.induct (I := fun d ↦ ∀ {i : ℕ} {sv : Service}, d.2[i]? = some sv → sv.Shaped cfg)
    (fun d hd i sv hget ↦ ?_) fun d a d' _ ih _ hs i sv' hget' ↦ ?_
  · rw [hd.2] at hget
    exact nomatch hget
  · cases move_of_step hs with
    | start kind =>
      rcases List.getElem?_concat_eq_some hget' with hget | ⟨-, -, rfl⟩
      · exact ih hget
      · exact Service.shaped_setUp le_rfl false
    | sigterm k =>
      obtain ⟨sv, hget, ⟨-, rfl⟩ | ⟨-, rfl⟩⟩ := List.getElem?_modify_eq_some hget'
      · show sv.Shaped cfg
        exact ih hget
      · exact ih hget
    | kill hget hpc | killWorking hget hpc h =>
      rcases List.getElem?_set_eq_some hget' with ⟨rfl, rfl⟩ | ⟨-, hget'⟩
      · trivial
      · exact ih hget'
    | own hget h =>
      rcases List.getElem?_set_eq_some hget' with ⟨rfl, rfl⟩ | ⟨-, hget'⟩
      · exact h.shaped (ih hget)
      · exact ih hget'
    | outside hb h => exact ih hget'

/-- **No service is farther from its end than its grace.** -/
theorem left_le_grace (h : (system cfg).Reachable G d) {sv : Service}
    (hget : d.2[i]? = some sv) : d.left cfg i ≤ sv.kind.grace cfg := by
  have hshape := shaped_of_reachable h hget
  have hp : (Pipeline.system cfg).Reachable anyStep d.1 :=
    (toPipeline cfg anyStep).reachable (h.mono fun _ _ _ as _ _ ↦ along_anyStep as _)
  rw [left, hget]
  show sv.left cfg d.1 ≤ _
  obtain ⟨kind, pc, stop⟩ := sv
  cases pc with
  | starting call rest =>
    have hle : rest.length + 1 ≤ kind.setUp.length := hshape
    show rest.length + kind.close.length + 2 ≤ kind.budget cfg + kind.close.length + 3
    have hlen : kind.setUp.length ≤ kind.budget cfg + 2 := by
      cases kind <;> simp [ServiceKind.setUp, ServiceKind.budget]
    omega
  | loop =>
    show kind.close.length + 1 ≤ kind.budget cfg + kind.close.length + 3
    omega
  | fetching => exact le_rfl
  | working m =>
    have hbudget : m.budget cfg = kind.budget cfg := hshape
    show (d.1.machine? cfg m).elim 0 MachineState.left + kind.close.length + 2 ≤
      kind.budget cfg + kind.close.length + 3
    cases hx : d.1.machine? cfg m with
    | none =>
      show 0 + kind.close.length + 2 ≤ _
      omega
    | some y =>
      have hle := Pipeline.left_le_budget hp hx
      show y.left + kind.close.length + 2 ≤ _
      omega
  | pausing =>
    show kind.close.length + 2 ≤ kind.budget cfg + kind.close.length + 3
    omega
  | closing call rest =>
    have hle : rest.length + 1 ≤ kind.close.length := hshape
    show rest.length + 1 ≤ kind.budget cfg + kind.close.length + 3
    omega
  | exited | killed => exact Nat.zero_le _

/-! ### The run -/

/-- An answer brings a service that was told to stop nearer to its end, and a message is the last
one it is given. -/
theorem own_step (hs : (system cfg).step d a = some d') (ha : a.isOwn i = true)
    (ht : d.Told i) : d'.left cfg i < d.left cfg i ∧ d'.waiting i = 0 ∧
      (a.isMessage i = true → d.waiting i = 1) := by
  obtain ⟨sv, hget, hstop⟩ := ht
  cases move_of_step hs with
  | @own k sv₀ x p' pc hget₀ h =>
    obtain rfl : k = i := by simpa [DeploymentStep.isOwn] using ha
    obtain rfl := Option.some.inj (hget.symm.trans hget₀)
    have hget' := List.getElem?_set_self (a := { sv with pc := pc })
      (List.lt_length_of_getElem? hget)
    refine ⟨?_, ?_, fun hmsg ↦ ?_⟩
    · rw [left, left, hget, hget']
      exact h.left_lt hstop
    · rw [waiting, hget']
      show pc.isFetching.toNat = 0
      rw [h.isFetching_eq hstop]
      rfl
    · cases h with
      | receives hpc =>
        rw [waiting, hget]
        show sv.pc.isFetching.toNat = 1
        rw [hpc]
        rfl
      | _ => exact nomatch hmsg
  | _ => exact nomatch ha

theorem isOwn_of_isMessage (h : a.isMessage i = true) : a.isOwn i = true := by
  cases a with
  | own k x =>
    cases x with
    | message n => exact h
    | _ => exact nomatch h
  | _ => exact nomatch h

/-- Nobody else makes a service wait for a message. -/
theorem waiting_le_of_others (hd : Manned cfg d) (hm : DeploymentMove cfg d a d')
    (ha : a.isOwn i = false) (hget : d.2[i]? = some sv) : d'.waiting i ≤ d.waiting i := by
  obtain ⟨sv', hget', -, -, hpc⟩ := others hd hm ha hget
  rw [waiting, waiting, hget, hget']
  show sv'.pc.isFetching.toNat ≤ sv.pc.isFetching.toNat
  rcases hpc with hpc | ⟨hpc, -⟩
  · rw [hpc]
    exact Nat.zero_le _
  · rw [hpc]

/-- What a service goes on to do, the deployment does. -/
theorem step_of_next {sv : Service} (hget : d.2[i]? = some sv) {x : ServiceAnswer}
    {as : List PipelineStep} {next : Pipeline → ServicePc}
    (hnext : sv.next d.1 x = some (as, next)) {p' : Pipeline}
    (h : (Pipeline.system cfg).exec d.1 as = some p') :
    (system cfg).step d (.own i x) = some (p', d.2.set i { sv with pc := next p' }) := by
  refine driven_eq_some.2 ⟨as, fun p' ↦ d.2.set i { sv with pc := next p' }, ?_, h, rfl⟩
  simp only [controller, hget, hnext]
  rfl

/-- **Nobody is stuck.** -/
theorem exists_own_step (hd : Manned cfg d) {sv : Service} (hget : d.2[i]? = some sv)
    (hend : sv.ended = false) : ∃ x d', (system cfg).step d (.own i x) = some d' ∧
      (DeploymentStep.own i x).answered = true := by
  obtain ⟨x, as, next, p', hx, hans, hnext, h⟩ := Service.exists_next cfg hend
    fun m hpc ↦ hd.working i m ⟨sv, hget, hpc⟩
  refine ⟨x, (p', d.2.set i { sv with pc := next p' }), step_of_next hget hnext h, ?_⟩
  match x with
  | .reply ans remembered => rw [DeploymentStep.answered, hans ans remembered rfl]; rfl
  | .returned | .timeout | .message _ | .lost _ => rfl

/-- **A service that was told to stop stops.** In every run from there, whatever it is answered and
whatever all others do, it awaits no more than `grace` answers, is given at most one message, and
that only if it was waiting for one; and as long as it has not ended some answer is possible. -/
theorem shutdown_bounded (hr : (system cfg).Reachable G d) {sv : Service}
    (hget : d.2[i]? = some sv) (hstop : sv.stop = true) {as : List DeploymentStep}
    (h : (system cfg).exec d as = some d') :
    as.countP (DeploymentStep.isOwn i) ≤ sv.kind.grace cfg ∧
      as.countP (DeploymentStep.isMessage i) ≤ sv.pc.isFetching.toNat ∧
      ∃ sv', d'.2[i]? = some sv' ∧ sv'.stop = true ∧
        (sv'.ended = false → ∃ x d'', (system cfg).step d' (.own i x) = some d'') := by
  have hI : Manned cfg d ∧ d.Told i := ⟨manned_of_reachable hr, sv, hget, hstop⟩
  have hstep : ∀ s a s', Manned cfg s ∧ s.Told i → (system cfg).step s a = some s' →
      Manned cfg s' ∧ s'.Told i := fun s a s' hs h ↦ ⟨hs.1.step h, told_step hs.1 h hs.2⟩
  refine ⟨?_, ?_, ?_⟩
  · have hle := countP_add_rank_le (DeploymentStep.isOwn i) (fun s ↦ s.left cfg i)
      hstep (fun s a s' hs ha h ↦ (own_step h ha hs.2).1)
      (fun s a s' hs ha h ↦ by
        obtain ⟨sv₀, hget₀, -⟩ := hs.2
        exact left_le_of_others hs.1 (move_of_step h) ha hget₀) hI h
    have hgrace := left_le_grace hr hget
    omega
  · have hle := countP_add_rank_le (DeploymentStep.isMessage i) (fun s ↦ s.waiting i)
      hstep (fun s a s' hs ha h ↦ by
        obtain ⟨-, hzero, hone⟩ := own_step h (isOwn_of_isMessage ha) hs.2
        rw [hzero, hone ha]
        exact Nat.zero_lt_one) (fun s a s' hs ha h ↦ by
        cases hown : a.isOwn i with
        | true => exact (own_step h hown hs.2).2.1 ▸ Nat.zero_le _
        | false =>
          obtain ⟨sv₀, hget₀, -⟩ := hs.2
          exact waiting_le_of_others hs.1 (move_of_step h) hown hget₀) hI h
    have hwait : d.waiting i = sv.pc.isFetching.toNat := by rw [waiting, hget]; rfl
    omega
  · obtain ⟨hd', sv', hget', hstop'⟩ :=
      (leads_of_exec h).preserves (fun s a s' hs _ ↦ hstep s a s' hs) hI
    refine ⟨sv', hget', hstop', fun hend ↦ ?_⟩
    obtain ⟨x, d'', hx, -⟩ := exists_own_step hd' hget' hend
    exact ⟨x, d'', hx⟩

/-- The worker's last message, from the delivery to the last connection closed. -/
def lastMessage : List DeploymentStep :=
  [.own 1 (.message 1), .own 1 (.reply .served true), .own 1 (.reply .served true),
    .own 1 (.reply .served true), .own 1 (.reply .served true), .own 1 (.reply .served true),
    .own 1 (.reply (.executed 0 5) true), .own 1 (.reply .served true),
    .own 1 (.reply .served true), .own 1 (.reply .served true), .own 1 (.reply .served true),
    .own 1 (.reply .served true), .own 1 .returned, .own 1 .returned, .own 1 .returned,
    .own 1 .returned]

/-- It takes sixteen answers of seventeen. -/
theorem shutdown_bounded_of_lateFetch : ∃ d d' : Deployment, (system {}).Reachable anyStep d ∧
    (∃ sv, d.2[1]? = some sv ∧ sv.stop = true ∧ sv.pc.isFetching = true) ∧
    (system {}).exec d lastMessage = some d' ∧
    lastMessage.countP (DeploymentStep.isOwn 1) = 16 ∧ 16 ≤ (ServiceKind.worker "w").grace {} ∧
    lastMessage.countP (DeploymentStep.isMessage 1) ≤ 1 ∧
    ∃ sv', d'.2[1]? = some sv' ∧ sv'.ended = true := by
  have hrun : ((system {}).exec (.empty, []) lateFetch).any (fun d ↦
      (d.2[1]?.any fun sv ↦ sv.stop && sv.pc.isFetching && match sv.kind with
        | .worker w => w = "w"
        | _ => false) &&
      ((system {}).exec d lastMessage).any fun d' ↦ d'.2[1]?.any Service.ended) = true := by
    rfl
  obtain ⟨d, hl, hd⟩ := exists_leads_of_exec hrun
  simp only [Bool.and_eq_true, Option.any_eq_true] at hd
  obtain ⟨⟨sv, hget, ⟨hstop, hfetch⟩, hkind⟩, d', hexec, sv', hget', hend⟩ := hd
  have hr : (system {}).Reachable anyStep d := ⟨(.empty, []), ⟨rfl, rfl⟩, hl⟩
  obtain ⟨hown, hmsg, -⟩ := shutdown_bounded hr hget hstop hexec
  have hcount : lastMessage.countP (DeploymentStep.isOwn 1) = 16 := by decide
  refine ⟨d, d', hr, ⟨sv, hget, hstop, hfetch⟩, hexec, hcount, by decide, ?_, sv', hget', hend⟩
  rwa [hfetch] at hmsg

/-! ### All services -/

/-- Service number `i` has ended. -/
def Ended (d : Deployment) (i : ℕ) : Prop := ∃ sv, d.2[i]? = some sv ∧ sv.ended = true

/-- What has ended stays so. -/
theorem ended_step (hd : Manned cfg d) (hs : (system cfg).step d a = some d') (he : d.Ended i) :
    d'.Ended i := by
  obtain ⟨sv, hget, hend⟩ := he
  have hm := move_of_step hs
  cases ha : a.isOwn i with
  | false =>
    obtain ⟨sv', hget', -, -, hpc⟩ := others hd hm ha hget
    refine ⟨sv', hget', ?_⟩
    rcases hpc with hpc | ⟨hpc, -⟩
    · rw [Service.ended, hpc]
    · rw [Service.ended, hpc]
      exact hend
  | true =>
    cases hm with
    | @own k sv₀ x p' pc hget₀ h =>
      obtain rfl : k = i := by simpa [DeploymentStep.isOwn] using ha
      obtain rfl := Option.some.inj (hget.symm.trans hget₀)
      cases h <;> simp_all [Service.ended]
    | _ => exact nomatch ha

/-- Answers start no service. -/
theorem length_step (hs : (system cfg).step d a = some d') (ha : a.answered = true) :
    d'.2.length = d.2.length := by
  cases move_of_step hs with
  | own hget h => exact List.length_set
  | _ => exact nomatch ha

/-- A service that was told to stop can come to its end by answers to it alone. -/
theorem can_end (hd : Manned cfg d) (ht : d.Told i) :
    (system cfg).CanReach (fun _ a ↦ a.answered = true ∧ a.isOwn i = true) (·.Ended i) d := by
  refine (CanReach.of_rank (I := fun s ↦ Manned cfg s ∧ s.Told i) (fun s ↦ s.left cfg i)
    (fun s hs hend ↦ ?_) ⟨hd, ht⟩).mono (fun _ _ h ↦ h) fun s' _ h ↦ h.2
  obtain ⟨sv, hget, hstop⟩ := hs.2
  have hsv : sv.ended = false := by
    cases he : sv.ended with
    | false => rfl
    | true => exact absurd ⟨sv, hget, he⟩ hend
  obtain ⟨x, s', hstep, hans⟩ := exists_own_step hs.1 hget hsv
  have hown : (DeploymentStep.own i x).isOwn i = true := decide_eq_true rfl
  exact ⟨s', .single ⟨hans, hown⟩ hstep, ⟨hs.1.step hstep, told_step hs.1 hstep hs.2⟩,
    (own_step hstep hown hs.2).1⟩

/-- **A deployment that was told to stop can come to its end**, by answers alone, and then nothing
is at work. -/
theorem shuts_down (hr : (system cfg).Reachable G d) (hall : ∀ sv ∈ d.2, sv.stop = true) :
    (system cfg).CanReach (fun _ a ↦ a.answered = true)
      (fun d' ↦ (∀ sv ∈ d'.2, sv.ended = true) ∧ ∀ m, ¬ d'.1.AtWork cfg m) d := by
  have hd := manned_of_reachable hr
  have htold : ∀ i ∈ List.range d.2.length, Manned cfg d ∧ d.Told i := by
    intro i hi
    have hget := List.getElem?_eq_getElem (List.mem_range.1 hi)
    exact ⟨hd, _, hget, hall _ (List.getElem_mem _)⟩
  have hreach : (system cfg).CanReach (fun _ a ↦ a.answered = true)
      (fun d' ↦ ∀ i ∈ List.range d.2.length, Manned cfg d' ∧ d'.Ended i) d :=
    CanReach.forall_mem (H := fun i _ a ↦ a.answered = true ∧ a.isOwn i = true)
      (R := fun i s ↦ Manned cfg s ∧ s.Told i) (P := fun i s ↦ Manned cfg s ∧ s.Ended i)
      (fun _ _ _ h ↦ h.1)
      (fun i s hs ↦ (can_end hs.1 hs.2).mono (fun _ _ h ↦ h) fun s' hl he ↦
        ⟨hl.preserves (fun _ _ _ h _ hs ↦ h.step hs) hs.1, he⟩)
      (fun i k s a s' _ hs _ h ↦ ⟨hs.1.step h, told_step hs.1 h hs.2⟩)
      (fun i k s a s' hs _ h ↦ ⟨hs.1.step h, ended_step hs.1 h hs.2⟩)
      List.nodup_range htold
  refine hreach.mono (fun _ _ h ↦ h) fun d' hl hp ↦ ?_
  have hd' : Manned cfg d' := hl.preserves (fun _ _ _ h _ hs ↦ h.step hs) hd
  have hlen : d'.2.length = d.2.length :=
    hl.preserves (P := fun s ↦ s.2.length = d.2.length)
      (fun _ _ _ h ha hs ↦ (length_step hs ha).trans h) rfl
  have hend : ∀ sv ∈ d'.2, sv.ended = true := by
    intro sv hsv
    obtain ⟨i, hget⟩ := List.mem_iff_getElem?.1 hsv
    have hi : i ∈ List.range d.2.length :=
      List.mem_range.2 (hlen ▸ List.lt_length_of_getElem? hget)
    obtain ⟨-, sv', hget', hend'⟩ := hp i hi
    rwa [Option.some.inj (hget.symm.trans hget')]
  refine ⟨hend, fun m hm ↦ ?_⟩
  obtain ⟨i, sv, hget, hpc⟩ := hd'.manned m hm
  have hsv := hend sv (List.mem_of_getElem? hget)
  rw [Service.ended, hpc] at hsv
  exact nomatch hsv

/-- From the last message on, with the relay told as well. -/
theorem shuts_down_of_lateFetch : ∃ d d' : Deployment, (system {}).Reachable anyStep d ∧
    d.1.AtWork {} (.call 0) ∧ (system {}).Leads (fun _ a ↦ a.answered = true) d d' ∧
    ∀ m, ¬ d'.1.AtWork {} m := by
  have hrun : ((system {}).exec (.empty, [])
      (lateFetch ++ [.own 1 (.message 1), .sigterm 0])).any (fun d ↦
        ((d.1.machine? {} (.call 0)).any fun x ↦ x.alive && x.outcome = none) &&
          d.2.all Service.stop) = true := by
    rfl
  obtain ⟨d, hl, hd⟩ := exists_leads_of_exec hrun
  simp only [Bool.and_eq_true, Option.any_eq_true, decide_eq_true_eq, List.all_eq_true] at hd
  obtain ⟨⟨x, hx, halive, hout⟩, hall⟩ := hd
  have hr : (system {}).Reachable anyStep d := ⟨(.empty, []), ⟨rfl, rfl⟩, hl⟩
  obtain ⟨d', hl', -, hnone⟩ := shuts_down hr hall
  exact ⟨d, d', hr, ⟨x, hx, halive, hout⟩, hl', hnone⟩

end Deployment

end Orbiter
