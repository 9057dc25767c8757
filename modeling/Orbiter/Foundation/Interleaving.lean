import Mathlib.Data.List.Basic
import Mathlib.Logic.Function.Basic
import Orbiter.Foundation.Program

/-!
# Interleaved programs on a store of independent keys

Programs of one kind of calls run against one store, one call at a time, in the order and at the
clock readings of a schedule. A store is **local** when a call reads and writes the slot of its key
and nothing else. Programs that belong to owners with disjoint sets of keys then do not notice each
other.

## Contents

* `LocalStore` — a store by its slots: what a call does to the slot of its key, and what it answers;
* `Interleaving`, `resume`, `run` — the programs in progress and the store between them. The clock
  may read anything, also earlier than before, and a call that is not scheduled is one that was
  never made, so a program that dies is one that is never resumed again;
* `KeepsTo` — every program keeps to the keys of its owner. `KeepsTo.resume` is its step lemma;
* `Alike` — two runs that agree on the programs of one owner and on the slots that are its own.
  `Alike.resume_other` and `Alike.resume_own` are the two kinds of step;
* `run_calls_eq` — **noninterference**: what becomes of the programs of one owner is what becomes of
  them when nobody else runs.

The statement compares two runs and is proved by a relation between their states, kept by each step
of the longer one; the shorter run takes the steps of the owner and no others.
-/

/-- A store in which a call sees and changes the slot of its key only. -/
structure LocalStore (σ τ C : Type) (R : C → Type) (ε K S : Type) where
  /-- One call, at a clock reading. -/
  perform : σ → τ → (c : C) → Except ε (R c) × σ
  /-- The key a call is about. -/
  key : C → K
  /-- What is stored under a key. -/
  slot : σ → K → S
  answer_eq : ∀ {s s' : σ} (t : τ) {c : C}, slot s (key c) = slot s' (key c) →
    (perform s t c).1 = (perform s' t c).1
  slot_eq : ∀ {s s' : σ} (t : τ) {c : C}, slot s (key c) = slot s' (key c) →
    slot (perform s t c).2 (key c) = slot (perform s' t c).2 (key c)
  frame : ∀ (s : σ) (t : τ) {c : C} {k : K}, k ≠ key c → slot (perform s t c).2 k = slot s k

/-- The store and the programs under way. -/
structure Interleaving (σ ι C : Type) (R : C → Type) (ε α : Type) where
  store : σ
  calls : ι → Prog C R ε α

namespace LocalStore

variable {σ τ C : Type} {R : C → Type} {ε K S ι α ω : Type} (M : LocalStore σ τ C R ε K S)
  [DecidableEq ι]

/-- A program makes its next call; one that has ended stays as it is. -/
def resume (x : Interleaving σ ι C R ε α) (i : ι) (t : τ) : Interleaving σ ι C R ε α :=
  match x.calls i with
  | .call c k => ⟨(M.perform x.store t c).2,
      Function.update x.calls i (k (M.perform x.store t c).1)⟩
  | .ret _ | .raise _ => x

/-- Run a schedule. -/
def run (x : Interleaving σ ι C R ε α) (schedule : List (ι × τ)) : Interleaving σ ι C R ε α :=
  schedule.foldl (fun x p ↦ M.resume x p.1 p.2) x

variable {M}

/-- Resuming a program that is at a call performs it and hands the answer over. -/
theorem resume_eq_of_call {x : Interleaving σ ι C R ε α} {i : ι} {c : C}
    {k : Except ε (R c) → Prog C R ε α} (h : x.calls i = .call c k) (t : τ) :
    M.resume x i t = ⟨(M.perform x.store t c).2,
      Function.update x.calls i (k (M.perform x.store t c).1)⟩ := by
  rw [resume, h]

/-- A program makes a call, or there is nothing left to do. -/
theorem resume_cases (x : Interleaving σ ι C R ε α) (i : ι) :
    (∃ c k, x.calls i = .call c k) ∨
    ∀ (y : Interleaving σ ι C R ε α) (t : τ), y.calls i = x.calls i → M.resume y i t = y := by
  cases h : x.calls i with
  | call c k => exact .inl ⟨c, k, rfl⟩
  | ret a => exact .inr fun y t hy ↦ by rw [resume, hy]
  | raise e => exact .inr fun y t hy ↦ by rw [resume, hy]

section Owners

variable {owner : ι → ω} {owns : ω → K → Prop}

variable (M) in
/-- Every program keeps to the keys of its owner. -/
def KeepsTo (owner : ι → ω) (owns : ω → K → Prop) (x : Interleaving σ ι C R ε α) : Prop :=
  ∀ i c, (x.calls i).Makes c → owns (owner i) (M.key c)

variable (M) in
/-- The owner `a` cannot tell the two apart. -/
structure Alike (owner : ι → ω) (owns : ω → K → Prop) (a : ω)
    (x x' : Interleaving σ ι C R ε α) : Prop where
  slots : ∀ k, owns a k → M.slot x.store k = M.slot x'.store k
  calls : ∀ i, owner i = a → x.calls i = x'.calls i

/-- A program that keeps to its owner's keys still does after an answer. -/
theorem KeepsTo.resume {x : Interleaving σ ι C R ε α} (h : M.KeepsTo owner owns x) (i : ι) (t : τ) :
    M.KeepsTo owner owns (M.resume x i t) := by
  rcases M.resume_cases x i with ⟨c, k, hi⟩ | hdone
  · intro i' c' hc
    rw [resume_eq_of_call hi] at hc
    replace hc : (Function.update x.calls i (k (M.perform x.store t c).1) i').Makes c' := hc
    by_cases heq : i' = i
    · subst heq
      rw [Function.update_self] at hc
      refine h i' c' ?_
      rw [hi]
      exact .later hc
    · rw [Function.update_of_ne heq] at hc
      exact h i' c' hc
  · rw [hdone x t rfl]
    exact h

/-- A step of somebody else. -/
theorem Alike.resume_other {a : ω} {x x' : Interleaving σ ι C R ε α}
    (hdisjoint : ∀ b k, owns a k → owns b k → a = b) (hkeep : M.KeepsTo owner owns x)
    (h : M.Alike owner owns a x x') {i : ι} (hi : owner i ≠ a) (t : τ) :
    M.Alike owner owns a (M.resume x i t) x' := by
  rcases M.resume_cases x i with ⟨c, k, hcall⟩ | hdone
  · have howns : owns (owner i) (M.key c) := hkeep i c (by rw [hcall]; exact .first c k)
    rw [resume_eq_of_call hcall]
    refine ⟨fun key hkey ↦ ?_, fun i' hi' ↦ ?_⟩
    · have hne : key ≠ M.key c := by
        rintro rfl
        exact hi (hdisjoint _ _ hkey howns).symm
      exact (M.frame x.store t hne).trans (h.slots key hkey)
    · have hne : i' ≠ i := by
        rintro rfl
        exact hi hi'
      exact (Function.update_of_ne hne _ _).trans (h.calls i' hi')
  · rw [hdone x t rfl]
    exact h

/-- A step of the owner, taken on both sides. -/
theorem Alike.resume_own {a : ω} {x x' : Interleaving σ ι C R ε α}
    (hkeep : M.KeepsTo owner owns x) (h : M.Alike owner owns a x x') {i : ι} (hi : owner i = a)
    (t : τ) : M.Alike owner owns a (M.resume x i t) (M.resume x' i t) := by
  have hsame := h.calls i hi
  rcases M.resume_cases x i with ⟨c, k, hcall⟩ | hdone
  · have hcall' : x'.calls i = .call c k := hsame.symm.trans hcall
    have howns : owns a (M.key c) := hi ▸ hkeep i c (by rw [hcall]; exact .first c k)
    have hslot := h.slots _ howns
    rw [resume_eq_of_call hcall, resume_eq_of_call hcall']
    refine ⟨fun key hkey ↦ ?_, fun i' hi' ↦ ?_⟩
    · by_cases heq : key = M.key c
      · rw [heq]
        exact M.slot_eq t hslot
      · exact (M.frame _ t heq).trans ((h.slots key hkey).trans (M.frame _ t heq).symm)
    · by_cases heq : i' = i
      · subst heq
        show Function.update _ i' _ i' = Function.update _ i' _ i'
        rw [Function.update_self, Function.update_self, M.answer_eq t hslot]
      · show Function.update _ i _ i' = Function.update _ i _ i'
        rw [Function.update_of_ne heq, Function.update_of_ne heq]
        exact h.calls i' hi'
  · rw [hdone x t rfl, hdone x' t hsame.symm]
    exact h

/-- **Noninterference.** Whatever else is scheduled, the programs of one owner come to what they
come to alone, at the same clock readings. -/
theorem run_calls_eq [DecidableEq ω] {a : ω} (hdisjoint : ∀ b k, owns a k → owns b k → a = b)
    {x : Interleaving σ ι C R ε α} (hkeep : M.KeepsTo owner owns x) (schedule : List (ι × τ))
    {i : ι} (hi : owner i = a) : (M.run x schedule).calls i =
      (M.run x (schedule.filter fun p ↦ owner p.1 = a)).calls i := by
  have hrun : ∀ {x x' : Interleaving σ ι C R ε α}, M.KeepsTo owner owns x →
      M.Alike owner owns a x x' →
      M.Alike owner owns a (M.run x schedule)
        (M.run x' (schedule.filter fun p ↦ owner p.1 = a)) := by
    induction schedule with
    | nil => exact fun _ h ↦ h
    | cons p ps ih =>
      intro x x' hkeep h
      by_cases hp : owner p.1 = a
      · rw [List.filter_cons_of_pos (by simpa using hp)]
        exact ih (hkeep.resume p.1 p.2) (h.resume_own hkeep hp p.2)
      · rw [List.filter_cons_of_neg (by simpa using hp)]
        exact ih (hkeep.resume p.1 p.2) (h.resume_other hdisjoint hkeep hp p.2)
  exact (hrun hkeep ⟨fun _ _ ↦ rfl, fun _ _ ↦ rfl⟩).calls i hi

end Owners

end LocalStore
