import Orbiter.Foundation.TransitionSystem

/-!
# What a run can still reach

`CanReach` says that some guarded run from a state leads to a goal. The guard says which steps such
a run may consist of, so a goal that can be reached by a narrow guard needs little help: the fewer
steps the guard admits, the stronger the statement.

## The rules, and what each rests on

* `CanReach.of_rank` — **progress.** While the goal is not reached, some run makes a rank smaller.
  The invariant `I` is carried along, so the progress step may use all that is known of the states
  on the way;
* `CanReach.forall_mem` — **several goals, one after the other.** Goal `i` is worked on by steps of
  its own guard. It may be prepared (`R i`) by anything the other goals' steps leave alone, and once
  reached it stays. Both are needed: without the first the work on one goal could spoil the next,
  without the second it could undo the last.
-/

namespace TransitionSystem

variable {σ α : Type*} {T : TransitionSystem σ α} {G G' : σ → α → Prop} {P Q : σ → Prop} {s s' : σ}

/-- Fewer steps, fewer runs. -/
theorem Leads.mono (hG : ∀ s a, G s a → G' s a) (h : T.Leads G s s') : T.Leads G' s s' :=
  Relation.ReflTransGen.mono (fun _ _ ⟨a, hg, hs⟩ ↦ ⟨a, hG _ _ hg, hs⟩) _ _ h

theorem Leads.single {a : α} (hg : G s a) (hs : T.step s a = some s') : T.Leads G s s' :=
  Relation.ReflTransGen.single ⟨a, hg, hs⟩

/-- What no step destroys survives every run, reachability apart. -/
theorem Leads.preserves (hstep : ∀ s a s', P s → G s a → T.step s a = some s' → P s')
    (h : T.Leads G s s') (hs : P s) : P s' := by
  induction h with
  | refl => exact hs
  | tail _ hn ih =>
    obtain ⟨a, hg, hs⟩ := hn
    exact hstep _ a _ ih hg hs

variable (T G P) in
/-- Some guarded run from `s` leads to `P`. -/
def CanReach (s : σ) : Prop := ∃ s', T.Leads G s s' ∧ P s'

theorem CanReach.here (h : P s) : T.CanReach G P s := ⟨s, Relation.ReflTransGen.refl, h⟩

/-- A run can be put before one that reaches the goal. -/
theorem CanReach.after (hl : T.Leads G s s') (h : T.CanReach G P s') : T.CanReach G P s := by
  obtain ⟨s'', hl', hp⟩ := h
  exact ⟨s'', hl.trans hl', hp⟩

theorem CanReach.next {a : α} (hg : G s a) (hs : T.step s a = some s') (h : T.CanReach G P s') :
    T.CanReach G P s :=
  h.after (.single hg hs)

/-- One goal on the way to the next. -/
theorem CanReach.trans (h : T.CanReach G P s)
    (hPQ : ∀ s', T.Leads G s s' → P s' → T.CanReach G Q s') : T.CanReach G Q s := by
  obtain ⟨s', hl, hp⟩ := h
  exact (hPQ s' hl hp).after hl

/-- More may be admitted, and less asked for at the end of each run. -/
theorem CanReach.mono (hG : ∀ s a, G s a → G' s a) (hP : ∀ s', T.Leads G s s' → P s' → Q s')
    (h : T.CanReach G P s) : T.CanReach G' Q s := by
  obtain ⟨s', hl, hp⟩ := h
  exact ⟨s', hl.mono hG, hP s' hl hp⟩

/-- **Progress.** The rank cannot fall for ever. -/
theorem CanReach.of_rank {I : σ → Prop} (rank : σ → ℕ)
    (hprogress : ∀ s, I s → ¬ P s → ∃ s', T.Leads G s s' ∧ I s' ∧ rank s' < rank s) (hs : I s) :
    T.CanReach G (fun s' ↦ I s' ∧ P s') s := by
  induction hn : rank s using Nat.strongRecOn generalizing s with
  | ind n ih =>
    by_cases hp : P s
    · exact .here ⟨hs, hp⟩
    · obtain ⟨s', hl, hi, hlt⟩ := hprogress s hs hp
      exact (ih (rank s') (hn ▸ hlt) hi rfl).after hl

/-- **Several goals, one after the other.** -/
theorem CanReach.forall_mem {ι : Type*} {H : ι → σ → α → Prop} {R P : ι → σ → Prop}
    (hG : ∀ i s a, H i s a → G s a)
    (hreach : ∀ i s, R i s → T.CanReach (H i) (P i) s)
    (hready : ∀ i k s a s', i ≠ k → R i s → H k s a → T.step s a = some s' → R i s')
    (hstay : ∀ i k s a s', P i s → H k s a → T.step s a = some s' → P i s')
    {l : List ι} (hl : l.Nodup) (hs : ∀ i ∈ l, R i s) :
    T.CanReach G (fun s' ↦ ∀ i ∈ l, P i s') s := by
  suffices hall : ∀ (done todo : List ι) (s : σ), todo.Nodup → (∀ i ∈ done, P i s) →
      (∀ i ∈ todo, R i s) → T.CanReach G (fun s' ↦ ∀ i, i ∈ done ∨ i ∈ todo → P i s') s by
    refine (hall [] l s hl (by simp) hs).mono (fun _ _ h ↦ h) fun s' _ hp i hi ↦ hp i (.inr hi)
  intro done todo
  induction todo generalizing done with
  | nil => exact fun s _ hdone _ ↦ .here fun i hi ↦ hdone i (hi.resolve_right (by simp))
  | cons k todo ih =>
    intro s hnodup hdone htodo
    obtain ⟨hk, hnodup'⟩ := List.nodup_cons.1 hnodup
    obtain ⟨s₁, hl₁, hp₁⟩ := hreach k s (htodo k List.mem_cons_self)
    -- The work on `k` keeps what was reached before, and the others ready.
    have hdone₁ : ∀ i ∈ k :: done, P i s₁ := by
      intro i hi
      rcases List.mem_cons.1 hi with rfl | hi
      · exact hp₁
      · exact hl₁.preserves (P := P i) (fun s a s' ↦ hstay i k s a s') (hdone i hi)
    have htodo₁ : ∀ i ∈ todo, R i s₁ := fun i hi ↦
      hl₁.preserves (P := R i)
        (fun s a s' ↦ hready i k s a s' fun heq ↦ hk (heq ▸ hi))
        (htodo i (List.mem_cons_of_mem k hi))
    refine ((ih (k :: done) s₁ hnodup' hdone₁ htodo₁).mono (fun _ _ h ↦ h)
      fun s' _ hp i hi ↦ hp i ?_).after (hl₁.mono (hG k))
    rcases hi with hi | hi
    · exact .inl (List.mem_cons_of_mem k hi)
    · rcases List.mem_cons.1 hi with rfl | hi
      · exact .inl List.mem_cons_self
      · exact .inr hi

end TransitionSystem
