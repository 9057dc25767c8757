import Mathlib.Data.List.Basic

/-!
# Serial runs

Operations that either fail and change nothing, or succeed with a result and a new state, run one
after the other. A serial run is the list of the operations with their outcomes. It is the
specification a concurrent execution is measured against: some serial run has the outcomes the
callers saw and ends in the state that is there.

* `SerialRun exec s l s'` — run one after the other, the operations of `l` have the outcomes `l`
  gives and lead from `s` to `s'`;
* `concat_ok`, `concat_error`, `append` — a run can be continued;
* `invariant` — what each successful operation preserves, given the run so far, holds at the end;
* `filter` — an entry that changed nothing can be left out, so operations that were refused need not
  be accounted for.

The outcomes are part of the run and not a function of it, so a statement "in some order" is the
existence of one list and says of every caller what it was answered.
-/

variable {σ ι ε ρ : Type*}

/-- From `s` the operations of the list, run in order, have the outcomes of the list and end in the
last argument. -/
inductive SerialRun (exec : σ → ι → Except ε (ρ × σ)) : σ → List (ι × Except ε ρ) → σ → Prop
  | nil (s : σ) : SerialRun exec s [] s
  | ok {s s₁ s' : σ} {i : ι} {r : ρ} {l : List (ι × Except ε ρ)} (h : exec s i = .ok (r, s₁))
      (hl : SerialRun exec s₁ l s') : SerialRun exec s ((i, .ok r) :: l) s'
  | error {s s' : σ} {i : ι} {e : ε} {l : List (ι × Except ε ρ)} (h : exec s i = .error e)
      (hl : SerialRun exec s l s') : SerialRun exec s ((i, .error e) :: l) s'

namespace SerialRun

variable {exec : σ → ι → Except ε (ρ × σ)} {s s' s'' : σ} {l l' : List (ι × Except ε ρ)}

theorem append (h : SerialRun exec s l s') (h' : SerialRun exec s' l' s'') :
    SerialRun exec s (l ++ l') s'' := by
  induction h with
  | nil s => exact h'
  | ok he _ ih => exact .ok he (ih h')
  | error he _ ih => exact .error he (ih h')

/-- An operation that succeeds moves the state of the run on. -/
theorem concat_ok (h : SerialRun exec s l s') {i : ι} {r : ρ} (he : exec s' i = .ok (r, s'')) :
    SerialRun exec s (l ++ [(i, .ok r)]) s'' :=
  h.append (.ok he (.nil s''))

/-- An operation that fails is recorded and changes nothing. -/
theorem concat_error (h : SerialRun exec s l s') {i : ι} {e : ε} (he : exec s' i = .error e) :
    SerialRun exec s (l ++ [(i, .error e)]) s' :=
  h.append (.error he (.nil s'))

/-- **The invariant rule**: what one operation preserves, a run preserves; the property may speak of
the operations run so far. -/
theorem invariant {P : List (ι × Except ε ρ) → σ → Prop} (h : SerialRun exec s l s')
    (hok : ∀ pre s i r s₁, P pre s → exec s i = .ok (r, s₁) → P (pre ++ [(i, .ok r)]) s₁)
    (herr : ∀ pre s i e, P pre s → exec s i = .error e → P (pre ++ [(i, .error e)]) s)
    (pre : List (ι × Except ε ρ)) (h₀ : P pre s) : P (pre ++ l) s' := by
  induction h generalizing pre with
  | nil s => rwa [List.append_nil]
  | ok he _ ih =>
    rw [← List.singleton_append, ← List.append_assoc]
    exact ih _ (hok _ _ _ _ _ h₀ he)
  | error he _ ih =>
    rw [← List.singleton_append, ← List.append_assoc]
    exact ih _ (herr _ _ _ _ h₀ he)

/-- **What changed nothing can be left out.** -/
theorem filter {κ : Type*} {f : κ → ι × Except ε ρ} {keep : κ → Bool} {ks : List κ}
    (h : SerialRun exec s (ks.map f) s')
    (hskip : ∀ k ∈ ks, keep k = false → ∀ s₁ s₂ r, (f k).2 = .ok r →
      exec s₁ (f k).1 = .ok (r, s₂) → s₂ = s₁) :
    SerialRun exec s ((ks.filter keep).map f) s' := by
  induction ks generalizing s with
  | nil => exact h
  | cons k ks ih =>
    have hskip' := fun k' hk' ↦ hskip k' (List.mem_cons_of_mem _ hk')
    rw [List.map_cons] at h
    generalize hfk : f k = x at h
    cases hkeep : keep k with
    | true =>
      rw [List.filter_cons_of_pos hkeep, List.map_cons, hfk]
      rcases h with _ | ⟨he, hl⟩ | ⟨he, hl⟩
      · exact .ok he (ih hl hskip')
      · exact .error he (ih hl hskip')
    | false =>
      rw [List.filter_cons_of_neg (by rw [hkeep]; simp)]
      rcases h with _ | ⟨he, hl⟩ | ⟨he, hl⟩
      · obtain rfl := hskip k List.mem_cons_self hkeep _ _ _ (by rw [hfk]) (by rw [hfk]; exact he)
        exact ih hl hskip'
      · exact ih hl hskip'

end SerialRun
