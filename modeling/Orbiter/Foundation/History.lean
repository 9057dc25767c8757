import Orbiter.Foundation.TransitionSystem

/-!
# Runs with a record of their past

A statement about a run sometimes names what the state has forgotten: who wrote an entry, how often
something happened. `withHistory` adds a record that every step updates, from the state it starts in
and its label, and that no step reads.

* `erase` — the record can be erased from a run: what holds in every run without it holds with it;
* `Reachable.exists_record` — and added to one: every reachable state is reached with some record.

So the states reached are the same with the record and without, and a theorem proved with the record
that does not mention it is a theorem about the system as it is. This is what makes a record a proof
device and not a change of the model.
-/

namespace TransitionSystem

variable {σ α ρ : Type*} (T : TransitionSystem σ α) (record : σ → α → ρ → ρ) (r₀ : ρ)

/-- The system beside a record that starts as `r₀`. -/
def withHistory : TransitionSystem (σ × ρ) α where
  init s := T.init s.1 ∧ s.2 = r₀
  step s a := (T.step s.1 a).map fun s' ↦ (s', record s.1 a s.2)

variable {T record r₀}

/-- A step with a record is a step of the system, and the record is updated from where it
started. -/
theorem withHistory_eq_some {s s' : σ × ρ} {a : α} :
    (T.withHistory record r₀).step s a = some s' ↔
      T.step s.1 a = some s'.1 ∧ s'.2 = record s.1 a s.2 := by
  rw [withHistory, Option.map_eq_some_iff]
  constructor
  · rintro ⟨s₁, hs, rfl⟩
    exact ⟨hs, rfl⟩
  · rintro ⟨hs, hr⟩
    exact ⟨s'.1, hs, Prod.ext rfl hr.symm⟩

/-- **Erasing the record.** -/
def erase {G : σ × ρ → α → Prop} {G' : σ → α → Prop} (hG : ∀ s a, G s a → G' s.1 a) :
    Simulation (T.withHistory record r₀) G T G' where
  toFun := Prod.fst
  map_init _ h := h.1
  map_step s a _ _ hg hs :=
    Relation.ReflTransGen.single ⟨a, hG s a hg, (withHistory_eq_some.1 hs).1⟩

/-- **Adding the record.** -/
theorem Reachable.exists_record {G : σ → α → Prop} {s : σ} (h : T.Reachable G s) :
    ∃ r, (T.withHistory record r₀).Reachable (fun s a ↦ G s.1 a) (s, r) := by
  refine h.induct (I := fun s ↦ ∃ r, (T.withHistory record r₀).Reachable (fun s a ↦ G s.1 a) (s, r))
    (fun s hs ↦ ⟨r₀, .of_init ⟨hs, rfl⟩⟩) ?_
  rintro s a s' - ⟨r, hr⟩ hg hs
  exact ⟨record s a r, hr.next (a := a) hg (withHistory_eq_some.2 ⟨hs, rfl⟩)⟩

end TransitionSystem
