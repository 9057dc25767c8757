import Mathlib.Algebra.GroupWithZero.Nat
import Mathlib.Data.List.Basic
import Mathlib.Data.List.Induction

/-!
# Records numbered by position

A list that grows at its end and whose entries are changed in place, with positions as names: what a
state holds of processes that are started and never removed, or of a log that is only appended to.
Mathlib has the three updates (`++ [x]`, `modify`, `set`) and reads after writes at one index; this
module states them the way a proof about a step needs them, as an inversion of "the entry at `i`
after the update is `y`".

## Contents

* `getElem?_concat_eq_some`, `getElem?_modify_eq_some`, `getElem?_set_eq_some` — what an entry after
  an update was before it;
* `map_set_of_eq`, `map_modify_of_eq` — a view of the entries that an update does not touch;
* `countP_set_add`, `countP_set_of_not`, `sum_map_set_lt` — how many entries are of a kind, and what
  a weight of them adds up to, when one of them changes;
* `firsts` — the first entry of each key, as what deduplication by key keeps. `filter_firsts` says
  what that is for one key, and `firsts_concat` how a new entry is deduplicated or kept.
-/

namespace List

variable {α : Type*} {l : List α} {x y : α} {i k : ℕ}

/-- An entry of a grown list is an old one, or the new one at its end. -/
theorem getElem?_concat_eq_some (h : (l ++ [x])[i]? = some y) :
    l[i]? = some y ∨ (l[i]? = none ∧ i = l.length ∧ y = x) := by
  rw [List.getElem?_append] at h
  split at h
  · exact .inl h
  · next hlen =>
    rw [List.getElem?_singleton] at h
    split at h
    · next hi => exact .inr ⟨List.getElem?_eq_none (Nat.not_lt.1 hlen), by omega,
        (Option.some.inj h).symm⟩
    · exact absurd h (by simp)

/-- What does not come after something taken is taken. -/
theorem mem_take_of_not_rel {r : α → α → Prop} (hl : l.Pairwise r) (hx : x ∈ l)
    (hy : y ∈ l.take k) (hxy : ¬ r y x) : x ∈ l.take k := by
  rw [← List.take_append_drop k l] at hl hx
  rcases List.mem_append.1 hx with hx | hx
  · exact hx
  · exact absurd ((List.pairwise_append.1 hl).2.2 y hy x hx) hxy

/-- What is recorded keeps its number. -/
theorem getElem?_concat_of_some (h : l[i]? = some y) (x : α) : (l ++ [x])[i]? = some y := by
  rw [List.getElem?_append_left (List.getElem?_eq_some_iff.1 h).1, h]

theorem getElem?_concat_of_ne (h : i ≠ l.length) (x : α) : (l ++ [x])[i]? = l[i]? := by
  rw [List.getElem?_append]
  split
  · rfl
  · next hlen =>
    rw [List.getElem?_eq_none (Nat.not_lt.1 hlen), List.getElem?_singleton, if_neg (by omega)]

theorem lt_length_of_getElem? (h : l[i]? = some y) : i < l.length :=
  (List.getElem?_eq_some_iff.1 h).1

/-- An entry after a change in place is the changed one, or one at another position. -/
theorem getElem?_modify_eq_some {f : α → α} (h : (l.modify k f)[i]? = some y) :
    ∃ x, l[i]? = some x ∧ (k = i ∧ y = f x ∨ k ≠ i ∧ y = x) := by
  rw [List.getElem?_modify] at h
  obtain ⟨x, hx, rfl⟩ := Option.map_eq_some_iff.1 h
  refine ⟨x, hx, ?_⟩
  split
  · next heq => exact .inl ⟨heq, rfl⟩
  · next hne => exact .inr ⟨hne, rfl⟩

/-- An entry after an overwrite is the new value, or one at another position. -/
theorem getElem?_set_eq_some (h : (l.set k x)[i]? = some y) :
    (k = i ∧ y = x) ∨ (k ≠ i ∧ l[i]? = some y) := by
  rw [List.getElem?_set] at h
  split at h
  · next heq =>
    split at h
    · exact .inl ⟨heq, (Option.some.inj h).symm⟩
    · exact absurd h (by simp)
  · next hne => exact .inr ⟨hne, h⟩

theorem modify_eq_set_of_getElem? {f : α → α} (h : l[i]? = some x) :
    l.modify i f = l.set i (f x) := by
  refine List.ext_getElem? fun k ↦ ?_
  rw [List.getElem?_modify, List.getElem?_set]
  split
  · next heq =>
    subst heq
    rw [h, if_pos (List.getElem?_eq_some_iff.1 h).1]
    rfl
  · exact id_map _

/-! ### What an update leaves alone -/

/-- A view that does not tell the new entry from the old one does not see the overwrite. -/
theorem map_set_of_eq {β : Type*} {g : α → β} (hget : l[i]? = some x) (h : g y = g x) :
    (l.set i y).map g = l.map g := by
  obtain ⟨hlt, rfl⟩ := List.getElem?_eq_some_iff.1 hget
  refine List.ext_getElem? fun k ↦ ?_
  rw [List.getElem?_map, List.getElem?_map, List.getElem?_set]
  split
  · next heq =>
    subst heq
    simp [hlt, h]
  · rfl

/-- A view the change respects does not see the change. -/
theorem map_modify_of_eq {β : Type*} {f : α → α} {g : α → β} (h : ∀ x, g (f x) = g x) :
    (l.modify i f).map g = l.map g := by
  refine List.ext_getElem? fun k ↦ ?_
  rw [List.getElem?_map, List.getElem?_map, List.getElem?_modify]
  rcases l[k]? with _ | x
  · rfl
  · show some (g (if i = k then f x else x)) = some (g x)
    split
    · rw [h x]
    · rfl

/-! ### Counting entries -/

variable {p : α → Bool} {f : α → α}

/-- An entry that keeps what is counted. -/
theorem countP_le_countP_set (hget : l[i]? = some x) (h : p x = true → p y = true) :
    l.countP p ≤ (l.set i y).countP p := by
  obtain ⟨hlt, rfl⟩ := List.getElem?_eq_some_iff.1 hget
  have hpos : p l[i] = true → 0 < l.countP p := fun hp ↦
    List.countP_pos_iff.2 ⟨l[i], List.getElem_mem hlt, hp⟩
  rw [List.countP_set hlt]
  split
  · next hp =>
    rw [if_pos (h hp)]
    have := hpos hp
    omega
  · omega

/-- An entry that begins to be counted. -/
theorem countP_set_of_not (hget : l[i]? = some x) (hx : p x = false) (hy : p y = true) :
    (l.set i y).countP p = l.countP p + 1 := by
  obtain ⟨hlt, rfl⟩ := List.getElem?_eq_some_iff.1 hget
  rw [List.countP_set hlt, hx, hy]
  rfl

/-- An entry that is replaced by another. -/
theorem countP_set_add (hget : l[i]? = some x) :
    (l.set i y).countP p + (if p x = true then 1 else 0) =
      l.countP p + if p y = true then 1 else 0 := by
  obtain ⟨hlt, rfl⟩ := List.getElem?_eq_some_iff.1 hget
  have hpos : p l[i] = true → 0 < l.countP p := fun hp ↦
    List.countP_pos_iff.2 ⟨l[i], List.getElem_mem hlt, hp⟩
  rw [List.countP_set hlt]
  split
  · next hp =>
    have := hpos hp
    omega
  · omega

/-- A change that respects `p` leaves the number of entries with `p` alone. -/
theorem countP_modify (h : ∀ x, p (f x) = p x) : (l.modify i f).countP p = l.countP p := by
  induction l generalizing i with
  | nil => simp
  | cons x l ih =>
    rcases i with _ | i
    · simp [List.countP_cons, h]
    · simp [List.countP_cons, ih]

/-! ### Summing over entries -/

/-- One entry gets smaller, and with it the sum. -/
theorem sum_map_set_lt {g : α → ℕ} (hget : l[i]? = some x) (h : g y < g x) :
    ((l.set i y).map g).sum < (l.map g).sum := by
  induction l generalizing i with
  | nil => contradiction
  | cons z l ih =>
    rcases i with _ | i
    · obtain rfl := Option.some.inj hget
      show g y + (l.map g).sum < g z + (l.map g).sum
      exact Nat.add_lt_add_right h _
    · show g z + ((l.set i y).map g).sum < g z + (l.map g).sum
      exact Nat.add_lt_add_left (ih hget) _

/-! ### First occurrences -/

section Firsts

variable {κ : Type*} [DecidableEq κ] (key : α → κ)

/-- The entries whose key did not occur before. -/
def firsts (l : List α) : List α :=
  l.foldl (fun acc x ↦ if acc.any fun y ↦ key y = key x then acc else acc ++ [x]) []

/-- A new entry is dropped when its key was there, and comes last otherwise. -/
theorem firsts_concat (l : List α) (x : α) : (l ++ [x]).firsts key =
    if (l.firsts key).any fun y ↦ key y = key x then l.firsts key else l.firsts key ++ [x] := by
  rw [firsts, List.foldl_append]
  rfl

/-- **Each key that occurs is kept once**, at its first occurrence. -/
theorem filter_firsts (l : List α) (k : κ) :
    (l.firsts key).filter (fun y ↦ key y = k) = (l.find? fun y ↦ key y = k).toList := by
  induction l using List.reverseRecOn with
  | nil => rfl
  | append_singleton l x ih =>
    rw [firsts_concat, List.find?_append]
    by_cases hx : key x = k
    · subst hx
      cases hfind : l.find? fun y ↦ key y = key x with
      | none =>
        rw [hfind] at ih
        have hany : ((l.firsts key).any fun y ↦ key y = key x) = false := by
          rw [List.any_eq_false]
          exact List.filter_eq_nil_iff.1 ih
        rw [hany, if_neg Bool.false_ne_true, List.filter_append, ih]
        simp
      | some y =>
        rw [hfind] at ih
        have hany : ((l.firsts key).any fun y ↦ key y = key x) = true := by
          rw [List.any_eq_true]
          have hy : y ∈ (l.firsts key).filter fun y ↦ key y = key x := by
            rw [ih]
            exact List.mem_singleton_self y
          exact ⟨y, List.mem_filter.1 hy⟩
        rw [if_pos hany, ih]
        rfl
    · have hsame : (if (l.firsts key).any fun y ↦ key y = key x then l.firsts key
          else l.firsts key ++ [x]).filter (fun y ↦ key y = k) =
          (l.firsts key).filter fun y ↦ key y = k := by
        split
        · rfl
        · simp [hx]
      rw [hsame, ih]
      simp [hx]

theorem mem_of_mem_firsts {l : List α} {x : α} (h : x ∈ l.firsts key) : x ∈ l := by
  have hx : x ∈ (l.firsts key).filter fun y ↦ key y = key x :=
    List.mem_filter.2 ⟨h, decide_eq_true rfl⟩
  rw [filter_firsts, Option.mem_toList] at hx
  exact List.mem_of_find?_eq_some hx

end Firsts

end List
