import Orbiter.Foundation.Possibility

/-!
# Systems in the hands of a controller

A **controller** decides which steps another system makes. Each of its own steps stands for finitely
many steps of that system, and where the controller goes next may depend on the state they lead to.
`driven` puts the two together.

## What is general about it

* `toPlant` — a controller only restricts: forgetting it is a simulation, so whatever holds in all
  runs of the system holds under any controller;
* `Leads.lift` — the converse is a question about the controller. If it can follow every step and is
  then able to follow the next, it can follow every run;
* `countP_add_rank_le` — **how often something can happen.** If the steps of one kind make a rank
  smaller and no other step makes it greater, a run has no more of them than the rank it starts at.
-/

namespace TransitionSystem

variable {σ α κ β : Type*} {T : TransitionSystem σ α} {G : σ → α → Prop}

/-! ### Guards along a schedule -/

variable (T G) in
/-- Every step of the schedule meets the guard. -/
def Along : σ → List α → Prop
  | _, [] => True
  | s, a :: as => G s a ∧ ∀ s', T.step s a = some s' → Along s' as

/-- A schedule that evaluates and meets the guard at each state on the way is a guarded run. -/
theorem leads_of_along : ∀ {as : List α} {s s' : σ}, T.Along G s as → T.exec s as = some s' →
    T.Leads G s s'
  | [], s, s', _, h => by
    obtain rfl := Option.some.inj h
    exact Relation.ReflTransGen.refl
  | a :: as, s, s', hg, h => by
    obtain ⟨s₁, hs₁, h'⟩ := Option.bind_eq_some_iff.1 h
    exact Relation.ReflTransGen.head ⟨a, hg.1, hs₁⟩ (leads_of_along (hg.2 s₁ hs₁) h')

theorem along_anyStep : ∀ (as : List α) (s : σ), T.Along anyStep s as
  | [], _ => trivial
  | _ :: as, _ => ⟨trivial, fun s' _ ↦ along_anyStep as s'⟩

theorem along_singleton {s : σ} {a : α} : T.Along G s [a] ↔ G s a :=
  ⟨fun h ↦ h.1, fun h ↦ ⟨h, fun _ _ ↦ trivial⟩⟩

theorem exec_singleton {s s' : σ} {a : α} :
    T.exec s [a] = some s' ↔ T.step s a = some s' := by
  rw [exec, Option.bind_eq_some_iff]
  constructor
  · rintro ⟨s₁, hs₁, h⟩
    rwa [← Option.some.inj h]
  · exact fun h ↦ ⟨s', h, rfl⟩

variable (T) in
/-- The same for a guard that can be evaluated. -/
def allAlong (g : σ → α → Bool) : σ → List α → Bool
  | _, [] => true
  | s, a :: as => g s a && (T.step s a).all fun s' ↦ allAlong g s' as

theorem along_of_allAlong {g : σ → α → Bool} (hg : ∀ s a, g s a = true → G s a) :
    ∀ {as : List α} {s : σ}, T.allAlong g s as = true → T.Along G s as
  | [], _, _ => trivial
  | a :: as, s, h => by
    rw [allAlong, Bool.and_eq_true] at h
    refine ⟨hg s a h.1, fun s' hs' ↦ along_of_allAlong hg ?_⟩
    have hall := h.2
    rwa [hs'] at hall

/-! ### Controllers -/

/-- A controller with states `κ` and steps `β`, of a system with states `σ` and steps `α`. -/
structure Controller (σ α κ β : Type*) where
  init : κ → Prop
  /-- The steps to make, and where their outcome leads; `none` when its own step is not enabled. -/
  plan : σ → κ → β → Option (List α × (σ → κ))

variable {C : Controller σ α κ β}

variable (T C) in
/-- The system under the controller. -/
def driven : TransitionSystem (σ × κ) β where
  init x := T.init x.1 ∧ C.init x.2
  step x b := (C.plan x.1 x.2 b).bind fun m ↦ (T.exec x.1 m.1).map fun s' ↦ (s', m.2 s')

/-- **What a step of a driven system is**: the controller's plan from here, carried out, and the
controller's next state as the outcome has it. -/
theorem driven_eq_some {x x' : σ × κ} {b : β} :
    (T.driven C).step x b = some x' ↔ ∃ as next, C.plan x.1 x.2 b = some (as, next) ∧
      T.exec x.1 as = some x'.1 ∧ x'.2 = next x'.1 := by
  rw [driven, Option.bind_eq_some_iff]
  constructor
  · rintro ⟨⟨as, next⟩, hplan, h⟩
    obtain ⟨s', hs', rfl⟩ := Option.map_eq_some_iff.1 h
    exact ⟨as, next, hplan, hs', rfl⟩
  · rintro ⟨as, next, hplan, hs', hk⟩
    refine ⟨(as, next), hplan, ?_⟩
    rw [Option.map_eq_some_iff]
    exact ⟨x'.1, hs', Prod.ext rfl hk.symm⟩

variable (T C G) in
/-- The steps a controller's step stands for meet the guard. -/
def Within (x : σ × κ) (b : β) : Prop :=
  ∀ as next, C.plan x.1 x.2 b = some (as, next) → T.Along G x.1 as

/-- **A controller only restricts.** -/
def toPlant : Simulation (T.driven C) (T.Within G C) T G where
  toFun := Prod.fst
  map_init _ h := h.1
  map_step x b x' _ hg h := by
    obtain ⟨as, next, hplan, hexec, -⟩ := driven_eq_some.1 h
    exact leads_of_along (hg as next hplan) hexec

/-! ### Following a run -/

/-- **A run that can be followed step by step can be followed.** `f` is what the follower shows of
its state, and `R` what lets it go on. -/
theorem Leads.lift {σ' α' : Type*} {T' : TransitionSystem σ' α'} {G' : σ' → α' → Prop}
    {f : σ' → σ} {R : σ' → Prop}
    (hstep : ∀ x a s', R x → G (f x) a → T.step (f x) a = some s' →
      T'.CanReach G' (fun y ↦ f y = s' ∧ R y) x) {s s' : σ} (h : T.Leads G s s') {x : σ'}
    (hx : f x = s) (hR : R x) : T'.CanReach G' (fun y ↦ f y = s' ∧ R y) x := by
  induction h with
  | refl => exact .here ⟨hx, hR⟩
  | tail _ hn ih =>
    obtain ⟨a, hg, hs⟩ := hn
    refine ih.trans fun y _ hy ↦ ?_
    obtain ⟨rfl, hRy⟩ := hy
    exact hstep y a _ hRy hg hs

/-! ### How often something can happen -/

/-- **A rank bounds a run.** -/
theorem countP_add_rank_le (own : α → Bool) (rank : σ → ℕ) {I : σ → Prop}
    (hstep : ∀ s a s', I s → T.step s a = some s' → I s')
    (hown : ∀ s a s', I s → own a = true → T.step s a = some s' → rank s' < rank s)
    (hother : ∀ s a s', I s → own a = false → T.step s a = some s' → rank s' ≤ rank s) :
    ∀ {as : List α} {s s' : σ}, I s → T.exec s as = some s' →
      as.countP own + rank s' ≤ rank s
  | [], s, s', _, h => by
    obtain rfl := Option.some.inj h
    exact Nat.le_of_eq (Nat.zero_add _)
  | a :: as, s, s', hI, h => by
    obtain ⟨s₁, hs₁, h'⟩ := Option.bind_eq_some_iff.1 h
    have hle := countP_add_rank_le own rank hstep hown hother (hstep s a s₁ hI hs₁) h'
    rw [List.countP_cons]
    cases ha : own a with
    | true =>
      have hlt := hown s a s₁ hI ha hs₁
      simp only [if_true]
      omega
    | false =>
      have hle' := hother s a s₁ hI ha hs₁
      simp only [Bool.false_eq_true, if_false]
      omega

end TransitionSystem
