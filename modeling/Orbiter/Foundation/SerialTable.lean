import Mathlib.Data.List.Basic
import Mathlib.Data.Nat.Basic

/-!
# Tables with a serial key

A table whose rows are numbered by a sequence: each insertion draws the next number. The rows are
listed in increasing number, and the structure carries the proof, so "order by id" is the order of
the list and needs no sorting at the point of use. The sequence only grows; an update keeps every
number.

## Contents

* `SerialTable` — rows in increasing number, none above the last number drawn;
* `insert`, `modify`, `filterMap` — the updates, each with the proof that the order is kept;
* `select` — the rows with a property, in order, and what an insertion and an update do to it
  (`select_insert_pos`, `select_insert_neg`, `length_select_modify`);
* `nodup_ids`, `eq_of_mem_rows` — numbers identify rows.

Rows are not deleted here: a table whose rows are only added and marked is what the outbox and an
event log are. `filterMap` makes the table another reader sees, where some rows are not visible.
-/

/-- Rows numbered by a sequence, in the order of their numbers. -/
structure SerialTable (α : Type*) where
  /-- The numbered rows. -/
  rows : List (ℕ × α)
  /-- The last number drawn from the sequence. -/
  last : ℕ
  /-- Rows are listed in the order of their numbers. -/
  sorted : rows.Pairwise fun r r' ↦ r.1 < r'.1
  /-- Every number was drawn. -/
  le_last : ∀ r ∈ rows, r.1 ≤ last

namespace SerialTable

variable {α : Type*}

/-- The table before any insertion. -/
def empty : SerialTable α where
  rows := []
  last := 0
  sorted := .nil
  le_last _ h := absurd h List.not_mem_nil

/-- Insert a row under the next number. -/
def insert (t : SerialTable α) (a : α) : SerialTable α where
  rows := t.rows ++ [(t.last + 1, a)]
  last := t.last + 1
  sorted := by
    refine List.pairwise_append.2 ⟨t.sorted, List.pairwise_singleton _ _, fun r hr r' hr' ↦ ?_⟩
    rw [List.mem_singleton.1 hr']
    exact Nat.lt_succ_of_le (t.le_last r hr)
  le_last r hr := by
    rcases List.mem_append.1 hr with h | h
    · exact Nat.le_succ_of_le (t.le_last r h)
    · exact Nat.le_of_eq (congrArg Prod.fst (List.mem_singleton.1 h))

/-- Change rows in place, keeping their numbers. -/
def modify (t : SerialTable α) (f : ℕ → α → α) : SerialTable α where
  rows := t.rows.map fun r ↦ (r.1, f r.1 r.2)
  last := t.last
  sorted := List.pairwise_map.2 (t.sorted.imp fun h ↦ h)
  le_last r hr := by
    obtain ⟨r', hr', rfl⟩ := List.mem_map.1 hr
    exact t.le_last r' hr'

/-- Leave out rows, or columns, keeping the numbers of the others. -/
def filterMap {β : Type*} (t : SerialTable α) (f : α → Option β) : SerialTable β where
  rows := t.rows.filterMap fun r ↦ (f r.2).map fun b ↦ (r.1, b)
  last := t.last
  sorted := by
    refine List.pairwise_filterMap.2 (t.sorted.imp fun {r r'} hlt b hb b' hb' ↦ ?_)
    obtain ⟨_, -, rfl⟩ := Option.map_eq_some_iff.1 hb
    obtain ⟨_, -, rfl⟩ := Option.map_eq_some_iff.1 hb'
    exact hlt
  le_last b hb := by
    obtain ⟨r, hr, hb⟩ := List.mem_filterMap.1 hb
    obtain ⟨_, -, rfl⟩ := Option.map_eq_some_iff.1 hb
    exact t.le_last r hr

/-- The rows that satisfy a predicate, in the order of their numbers. -/
def select (t : SerialTable α) (p : α → Bool) : List (ℕ × α) := t.rows.filter fun r ↦ p r.2

@[simp] theorem rows_empty : (empty : SerialTable α).rows = [] := rfl

@[simp] theorem rows_insert (t : SerialTable α) (a : α) :
    (t.insert a).rows = t.rows ++ [(t.last + 1, a)] := rfl

@[simp] theorem last_insert (t : SerialTable α) (a : α) : (t.insert a).last = t.last + 1 := rfl

@[simp] theorem rows_modify (t : SerialTable α) (f : ℕ → α → α) :
    (t.modify f).rows = t.rows.map fun r ↦ (r.1, f r.1 r.2) := rfl

@[simp] theorem last_modify (t : SerialTable α) (f : ℕ → α → α) : (t.modify f).last = t.last := rfl

@[simp] theorem select_empty (p : α → Bool) : (empty : SerialTable α).select p = [] := rfl

/-- A selection grows by the inserted row, if it is of the selected kind. -/
theorem select_insert (t : SerialTable α) (a : α) (p : α → Bool) :
    (t.insert a).select p = t.select p ++ if p a then [(t.last + 1, a)] else [] := by
  rw [select, rows_insert, List.filter_append]
  cases h : p a <;> simp [select, h]

@[simp] theorem select_insert_pos (t : SerialTable α) {a : α} {p : α → Bool} (h : p a = true) :
    (t.insert a).select p = t.select p ++ [(t.last + 1, a)] := by
  rw [select_insert, if_pos h]

@[simp] theorem select_insert_neg (t : SerialTable α) {a : α} {p : α → Bool} (h : p a = false) :
    (t.insert a).select p = t.select p := by
  rw [select_insert, h]
  simp

/-- An update that does not change what is selected keeps the number of selected rows. -/
theorem length_select_modify (t : SerialTable α) {f : ℕ → α → α} {p : α → Bool}
    (h : ∀ id a, p (f id a) = p a) : ((t.modify f).select p).length = (t.select p).length := by
  rw [select, rows_modify, List.filter_map, List.length_map, select]
  refine congrArg List.length (List.filter_congr fun r _ ↦ ?_)
  exact h r.1 r.2

/-- The number just drawn is new. -/
theorem lt_of_mem_rows (t : SerialTable α) {r : ℕ × α} (h : r ∈ t.rows) : r.1 < t.last + 1 :=
  Nat.lt_succ_of_le (t.le_last r h)

theorem nodup_ids (t : SerialTable α) : (t.rows.map Prod.fst).Nodup :=
  List.pairwise_map.2 (t.sorted.imp Nat.ne_of_lt)

/-- A number is carried by one row only. -/
theorem eq_of_mem_rows (t : SerialTable α) {r r' : ℕ × α} (h : r ∈ t.rows) (h' : r' ∈ t.rows)
    (heq : r.1 = r'.1) : r = r' := by
  obtain ⟨i, hi, rfl⟩ := List.mem_iff_getElem.1 h
  obtain ⟨k, hk, rfl⟩ := List.mem_iff_getElem.1 h'
  have hlt := List.pairwise_iff_getElem.1 t.sorted
  rcases Nat.lt_trichotomy i k with hik | rfl | hki
  · exact absurd heq (Nat.ne_of_lt (hlt i k hi hk hik))
  · rfl
  · exact absurd heq (Nat.ne_of_gt (hlt k i hk hi hki))

/-- Two selections side by side, when all numbers of the one are smaller than those of the other. -/
theorem filter_or_of_lt {p q : ℕ × α → Bool} {l : List (ℕ × α)}
    (hl : l.Pairwise fun r r' ↦ r.1 < r'.1)
    (h : ∀ r ∈ l, ∀ r' ∈ l, p r = true → q r' = true → r.1 < r'.1) :
    l.filter (fun r ↦ p r || q r) = l.filter p ++ l.filter q := by
  induction l with
  | nil => rfl
  | cons a l ih =>
    obtain ⟨ha, hl⟩ := List.pairwise_cons.1 hl
    have ih := ih hl fun r hr r' hr' ↦
      h r (List.mem_cons_of_mem _ hr) r' (List.mem_cons_of_mem _ hr')
    cases hp : p a with
    | true =>
      have hq : q a = false := by
        cases hq : q a with
        | false => rfl
        | true => exact absurd (h a List.mem_cons_self a List.mem_cons_self hp hq) (Nat.lt_irrefl _)
      simp [hp, hq, ih]
    | false =>
      cases hq : q a with
      | false => simp [hp, hq, ih]
      | true =>
        have hnil : l.filter p = [] := by
          refine List.filter_eq_nil_iff.2 fun r hr hpr ↦ ?_
          have hlt := h r (List.mem_cons_of_mem _ hr) a List.mem_cons_self hpr hq
          exact absurd (ha r hr) (Nat.lt_asymm hlt)
        simp [hp, hq, ih, hnil]

end SerialTable
