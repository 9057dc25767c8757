import Mathlib.Logic.Relation
import Mathlib.Data.List.Basic

/-!
# Labelled transition systems with executable steps

A system is a set of initial states and a partial step function: `step s a = some s'` when the
labelled step `a` is enabled at `s`. Every choice the environment makes — who moves, what a call
returns, how far the clock advances — is part of the label, so a step is a function and a finite
schedule can be evaluated.

Restrictions on runs ("no call fails", "every holder finishes in time") are **guards**
`G : σ → α → Prop`, conditions on the state before a step and on the label. A run meets the guard
when each of its steps does; `fun _ _ ↦ True` leaves the system alone. Nothing is built into the
system itself, so results at different guards are about one and the same step function.

## Contents

* `Next`, `Leads`, `Reachable` — one guarded step, finitely many, and finitely many from an initial
  state;
* `Reachable.induct` — the invariant rule, with reachability of the source state available in the
  step obligation, so invariants can be proved one on top of another;
* `Leads.stable` — a property no step destroys survives every run;
* `exec` — the evaluator of a schedule, and `leads_of_exec` from evaluation to runs;
* `Simulation` — a state map carrying every step to finitely many steps of another system, hence
  reachable states to reachable states.
-/

/-- A transition system over states `σ` and step labels `α`. -/
structure TransitionSystem (σ α : Type*) where
  /-- The states a run may start in. -/
  init : σ → Prop
  /-- The enabled steps: `none` when the label is not enabled. -/
  step : σ → α → Option σ

namespace TransitionSystem

variable {σ α : Type*} (T : TransitionSystem σ α) (G : σ → α → Prop)

/-! ### Guarded runs -/

/-- One step that meets the guard. -/
def Next (s s' : σ) : Prop := ∃ a, G s a ∧ T.step s a = some s'

/-- Finitely many guarded steps. -/
def Leads : σ → σ → Prop := Relation.ReflTransGen (T.Next G)

/-- Reached from an initial state by guarded steps. -/
def Reachable (s : σ) : Prop := ∃ s₀, T.init s₀ ∧ T.Leads G s₀ s

/-- The guard every step meets. -/
def anyStep : σ → α → Prop := fun _ _ ↦ True

variable {T G}

theorem Reachable.of_init {s : σ} (h : T.init s) : T.Reachable G s :=
  ⟨s, h, Relation.ReflTransGen.refl⟩

/-- A guarded step leads from a reachable state to a reachable one. -/
theorem Reachable.next {s s' : σ} {a : α} (h : T.Reachable G s) (hg : G s a)
    (hs : T.step s a = some s') : T.Reachable G s' := by
  obtain ⟨s₀, h₀, hl⟩ := h
  exact ⟨s₀, h₀, hl.tail ⟨a, hg, hs⟩⟩

/-- A guarded run leads from a reachable state to a reachable one. -/
theorem Reachable.leads {s s' : σ} (h : T.Reachable G s) (hl : T.Leads G s s') :
    T.Reachable G s' := by
  obtain ⟨s₀, h₀, h₁⟩ := h
  exact ⟨s₀, h₀, h₁.trans hl⟩

/-- **The invariant rule.** The step obligation may use that the source is reachable, hence every
invariant proved before. -/
theorem Reachable.induct {I : σ → Prop} (hinit : ∀ s, T.init s → I s)
    (hstep : ∀ s a s', T.Reachable G s → I s → G s a → T.step s a = some s' → I s')
    {s : σ} (h : T.Reachable G s) : I s := by
  obtain ⟨s₀, h₀, hl⟩ := h
  induction hl with
  | refl => exact hinit s₀ h₀
  | tail hl hn ih =>
    obtain ⟨a, hg, hs⟩ := hn
    exact hstep _ a _ ⟨s₀, h₀, hl⟩ ih hg hs

/-- **Stability.** What no step from a reachable state destroys survives every run. -/
theorem Leads.stable {P : σ → Prop}
    (hstep : ∀ s a s', T.Reachable G s → P s → G s a → T.step s a = some s' → P s')
    {s s' : σ} (hr : T.Reachable G s) (hl : T.Leads G s s') (h : P s) : P s' := by
  induction hl with
  | refl => exact h
  | tail hl hn ih =>
    obtain ⟨a, hg, hs⟩ := hn
    exact hstep _ a _ (hr.leads hl) ih hg hs

/-- A weaker guard allows at least as many runs. -/
theorem Reachable.mono {G' : σ → α → Prop} (hG : ∀ s a, G s a → G' s a) {s : σ}
    (h : T.Reachable G s) : T.Reachable G' s :=
  h.induct (fun _ h₀ ↦ .of_init h₀) fun _ _ _ _ ih hg hs ↦ ih.next (hG _ _ hg) hs

/-! ### Evaluating a schedule -/

variable (T) in
/-- Run a schedule, step by step; `none` as soon as a step is not enabled. -/
def exec : σ → List α → Option σ
  | s, [] => some s
  | s, a :: as => (T.step s a).bind fun s' ↦ exec s' as

/-- Two schedules, one after the other. -/
theorem exec_append : ∀ {as bs : List α} {s s' s'' : σ}, T.exec s as = some s' →
    T.exec s' bs = some s'' → T.exec s (as ++ bs) = some s''
  | [], bs, s, s', s'', h, h' => by
    obtain rfl := Option.some.inj h
    exact h'
  | a :: as, bs, s, s', s'', h, h' => by
    obtain ⟨s₁, hs₁, h₁⟩ := Option.bind_eq_some_iff.1 h
    rw [List.cons_append, exec, hs₁, Option.bind_some]
    exact exec_append h₁ h'

variable (T) in
/-- A schedule all of whose steps meet a decidable guard. -/
def execGuarded (g : σ → α → Bool) : σ → List α → Option σ
  | s, [] => some s
  | s, a :: as => if g s a then (T.step s a).bind fun s' ↦ execGuarded g s' as else none

/-- **From evaluation to runs, with a guard.** A schedule evaluated with a test that implies the
guard at each step is a run under the guard. -/
theorem leads_of_execGuarded {g : σ → α → Bool} (hg : ∀ s a, g s a = true → G s a) :
    ∀ {as : List α} {s s' : σ}, T.execGuarded g s as = some s' → T.Leads G s s'
  | [], s, s', h => by
    obtain rfl := Option.some.inj h
    exact Relation.ReflTransGen.refl
  | a :: as, s, s', h => by
    rw [execGuarded] at h
    split at h
    · next hga =>
      obtain ⟨s₁, hs₁, h'⟩ := Option.bind_eq_some_iff.1 h
      exact Relation.ReflTransGen.head ⟨a, hg s a hga, hs₁⟩ (leads_of_execGuarded hg h')
    · exact absurd h (by simp)

/-- **From evaluation to runs.** What evaluates is a run. -/
theorem leads_of_exec : ∀ {as : List α} {s s' : σ}, T.exec s as = some s' →
    T.Leads anyStep s s'
  | [], s, s', h => by
    obtain rfl := Option.some.inj h
    exact Relation.ReflTransGen.refl
  | a :: as, s, s', h => by
    obtain ⟨s₁, hs₁, h'⟩ := Option.bind_eq_some_iff.1 h
    exact Relation.ReflTransGen.head ⟨a, trivial, hs₁⟩ (leads_of_exec h')

/-- A schedule whose last state passes a test is a run to such a state. -/
theorem exists_leads_of_exec {as : List α} {s : σ} {p : σ → Bool}
    (h : (T.exec s as).any p = true) : ∃ s', T.Leads anyStep s s' ∧ p s' = true := by
  obtain ⟨s', hs', hp⟩ := (Option.any_eq_true _ _).1 h
  exact ⟨s', leads_of_exec hs', hp⟩

/-- As `exists_leads_of_exec`, for a run that meets a guard. -/
theorem exists_leads_of_execGuarded {g : σ → α → Bool} (hg : ∀ s a, g s a = true → G s a)
    {as : List α} {s : σ} {p : σ → Bool} (h : (T.execGuarded g s as).any p = true) :
    ∃ s', T.Leads G s s' ∧ p s' = true := by
  obtain ⟨s', hs', hp⟩ := (Option.any_eq_true _ _).1 h
  exact ⟨s', leads_of_execGuarded hg hs', hp⟩

/-! ### Simulation -/

/-- A state map under which every guarded step of `T` becomes finitely many guarded steps of `T'`
(possibly none). The step obligation may use reachability of the source. -/
structure Simulation {σ' α' : Type*} (T : TransitionSystem σ α) (G : σ → α → Prop)
    (T' : TransitionSystem σ' α') (G' : σ' → α' → Prop) where
  /-- The state map. -/
  toFun : σ → σ'
  /-- Initial states go to initial states. -/
  map_init : ∀ s, T.init s → T'.init (toFun s)
  /-- Steps go to runs. -/
  map_step : ∀ s a s', T.Reachable G s → G s a → T.step s a = some s' →
    T'.Leads G' (toFun s) (toFun s')

namespace Simulation

variable {σ' α' : Type*} {T' : TransitionSystem σ' α'} {G' : σ' → α' → Prop}

/-- A simulation carries runs from reachable states to runs. -/
theorem leads (S : Simulation T G T' G') {s s' : σ} (hr : T.Reachable G s)
    (h : T.Leads G s s') : T'.Leads G' (S.toFun s) (S.toFun s') := by
  induction h with
  | refl => exact Relation.ReflTransGen.refl
  | tail hl hn ih =>
    obtain ⟨a, hg, hs⟩ := hn
    exact ih.trans (S.map_step _ a _ (hr.leads hl) hg hs)

/-- **Invariants transfer**: the image of a reachable state is reachable. -/
theorem reachable (S : Simulation T G T' G') {s : σ} (h : T.Reachable G s) :
    T'.Reachable G' (S.toFun s) := by
  obtain ⟨s₀, h₀, hl⟩ := h
  exact ⟨S.toFun s₀, S.map_init s₀ h₀, S.leads (.of_init h₀) hl⟩

end Simulation

end TransitionSystem
