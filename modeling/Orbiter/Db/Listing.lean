import Mathlib.Data.List.Perm.Subperm
import Orbiter.Db.Schema

/-!
# The two listings

`list_jobs_by_state` and `list_recent_jobs` are one query: the newest rows of some kind, at most so
many. Rows of the same date come in any order, and when the limit falls among them any of them may
be missing, so an answer is right (`IsNewest`) rather than the one answer; `newest` computes one.

* `IsNewest date limit l rows` — rows of `l`, newest first, as many as the limit allows, and what is
  left out is not newer than what is shown;
* `listJobsByState`, `listRecentJobs` — the queries, with the columns each of them selects
  (`StateView`, `RecentView`);
* `ListsByState.ids` — what an operator may rely on: a listing names jobs that are in the state,
  each one once, and all of them when there are fewer than the limit.

The operator's tool works through such a listing, and the answer it gets is any of the right ones.
-/

namespace Orbiter

section Newest

variable {α : Type} (date : α → ℕ) (limit : ℕ)

/-- `ORDER BY date DESC LIMIT limit`. -/
structure IsNewest (l rows : List α) : Prop where
  subperm : rows.Subperm l
  length : rows.length = min limit l.length
  sorted : rows.Pairwise fun x y ↦ date y ≤ date x
  /-- What is left out is not newer than what is there. -/
  newest : ∀ x ∈ l, x ∉ rows → ∀ y ∈ rows, date x ≤ date y

/-- One such answer. -/
def newest (l : List α) : List α := (l.mergeSort fun x y ↦ date y ≤ date x).take limit

theorem isNewest_newest (l : List α) : IsNewest date limit l (newest date limit l) := by
  have hsorted : (l.mergeSort fun x y ↦ date y ≤ date x).Pairwise fun x y ↦ date y ≤ date x := by
    refine (List.pairwise_mergeSort (fun x y z hxy hyz ↦ ?_) (fun x y ↦ ?_) l).imp
      fun h ↦ of_decide_eq_true h
    · exact decide_eq_true ((of_decide_eq_true hyz).trans (of_decide_eq_true hxy))
    · simpa using Nat.le_total (date y) (date x)
  have hperm := List.mergeSort_perm l fun x y ↦ date y ≤ date x
  refine ⟨(List.take_sublist _ _).subperm.trans hperm.subperm, ?_, hsorted.take, ?_⟩
  · rw [newest, List.length_take, hperm.length_eq]
  · intro x hx hnot y hy
    rw [← List.take_append_drop limit (l.mergeSort _)] at hsorted
    have hx' := hperm.mem_iff.2 hx
    rw [← List.take_append_drop limit (l.mergeSort _)] at hx'
    exact (List.pairwise_append.1 hsorted).2.2 y hy x ((List.mem_append.1 hx').resolve_left hnot)

end Newest

variable {π : Type}

/-- What `list_jobs_by_state` shows of a job. -/
structure StateView (π : Type) where
  id : String
  payload : π
  attempts : ℤ
  updatedAt : ℕ

/-- What `list_recent_jobs` shows of a job. -/
structure RecentView where
  id : String
  state : JobState
  attempts : ℤ
  createdAt : ℕ
  updatedAt : ℕ

def JobRow.stateView (id : Uuid) (row : JobRow π) : StateView π :=
  ⟨id.str, row.payload, row.attempts, row.updatedAt⟩

def JobRow.recentView (id : Uuid) (row : JobRow π) : RecentView :=
  ⟨id.str, row.state, row.attempts, row.createdAt, row.updatedAt⟩

namespace Database

/-- The rows with a property. -/
def rowsWith (db : Database π) (keep : JobRow π → Bool) : List (Σ _ : Uuid, JobRow π) :=
  db.jobs.entries.filter fun e ↦ keep e.2

/-- `WHERE state = $1 ORDER BY updated_at DESC LIMIT 200`. -/
def listJobsByState (db : Database π) (state : JobState) : List (StateView π) :=
  (newest (fun e ↦ e.2.updatedAt) 200 (db.rowsWith fun row ↦ row.state = state)).map
    fun e ↦ e.2.stateView e.1

/-- `ORDER BY created_at DESC LIMIT $1`. -/
def listRecentJobs (db : Database π) (limit : ℕ) : List RecentView :=
  (newest (fun e ↦ e.2.createdAt) limit (db.rowsWith fun _ ↦ true)).map
    fun e ↦ e.2.recentView e.1

/-- An answer of `list_jobs_by_state`. -/
def ListsByState (db : Database π) (state : JobState) (views : List (StateView π)) : Prop :=
  ∃ rows, IsNewest (fun e ↦ e.2.updatedAt) 200 (db.rowsWith fun row ↦ row.state = state) rows ∧
    views = rows.map fun e ↦ e.2.stateView e.1

theorem listsByState_listJobsByState (db : Database π) (state : JobState) :
    db.ListsByState state (db.listJobsByState state) :=
  ⟨_, isNewest_newest .., rfl⟩

/-- The rows of a kind are those the table has of it. -/
theorem mem_rowsWith {db : Database π} {keep : JobRow π → Bool} {j : Uuid} {row : JobRow π} :
    ⟨j, row⟩ ∈ db.rowsWith keep ↔ db.job? j = some row ∧ keep row = true := by
  rw [rowsWith, List.mem_filter]
  exact and_congr_left' AList.mem_lookup_iff.symm

theorem nodup_rowsWith (db : Database π) (keep : JobRow π → Bool) :
    ((db.rowsWith keep).map Sigma.fst).Nodup :=
  db.jobs.nodupKeys.sublist List.filter_sublist

/-- **What a listing shows**: different jobs in the state, as many as there are up to the limit. -/
theorem ListsByState.ids {db : Database π} {state : JobState} {views : List (StateView π)}
    (h : db.ListsByState state views) :
    ∃ js : List Uuid, views.map StateView.id = js.map Uuid.str ∧ js.Nodup ∧
      (∀ j ∈ js, ∃ row, db.job? j = some row ∧ row.state = state) ∧
      js.length = min 200 (db.rowsWith fun row ↦ row.state = state).length := by
  obtain ⟨rows, hrows, rfl⟩ := h
  refine ⟨rows.map Sigma.fst, ?_, ?_, fun j hj ↦ ?_, ?_⟩
  · rw [List.map_map, List.map_map]
    rfl
  · obtain ⟨l, hperm, hsub⟩ := hrows.subperm
    exact (hperm.map _).nodup_iff.1 ((db.nodup_rowsWith _).sublist (hsub.map _))
  · obtain ⟨⟨j, row⟩, he, rfl⟩ := List.mem_map.1 hj
    obtain ⟨hrow, hstate⟩ := mem_rowsWith.1 (hrows.subperm.subset he)
    exact ⟨row, hrow, of_decide_eq_true hstate⟩
  · rw [List.length_map]
    exact hrows.length

end Database

end Orbiter
