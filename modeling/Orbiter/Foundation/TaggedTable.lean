import Orbiter.Foundation.SerialTable

/-!
# Tables whose rows have owners

A serial table into which several owners insert, each row tagged with the number of its owner; what
a reader sees are the rows of some of the owners. This is a table under transactions: the owner is
the transaction that wrote the row, and visible are the rows of the committed ones.

The sequence is shared and numbers are drawn at insertion, so the rows of an owner that becomes
visible may come to stand between others: "order by id" is not the order in which rows became
visible. Among the rows that a predicate selects they come last all the same, if each of them has a
larger number than what was selected before (`map_select_visible_or`), which is what a lock that the
writers of one key share brings about.

* `visible`, `ownedBy` — what a reader sees, and what one owner has written;
* `insertOwned` — an owner writes at most one row;
* `map_select_visible_insertOwned` — a row of an owner that is not visible changes nothing for the
  reader;
* `map_select_visible_or` — one more visible owner, as a row at the end of a selection.
-/

namespace SerialTable

variable {α : Type*}

/-- What a reader sees who sees the rows of the owners `c`. -/
def visible (t : SerialTable (ℕ × α)) (c : ℕ → Bool) : SerialTable α :=
  t.filterMap fun x ↦ if c x.1 then some x.2 else none

/-- The rows of one owner. -/
def ownedBy (t : SerialTable (ℕ × α)) (owner : ℕ) : List α :=
  (t.rows.filter fun r ↦ r.2.1 = owner).map fun r ↦ r.2.2

/-- What a reader selects, without the numbers: the rows of visible owners with the property. -/
theorem map_select_visible (t : SerialTable (ℕ × α)) (c : ℕ → Bool) (p : α → Bool) :
    ((t.visible c).select p).map Prod.snd =
      (t.rows.filter fun r ↦ c r.2.1 && p r.2.2).map fun r ↦ r.2.2 := by
  dsimp only [select, visible, filterMap]
  induction t.rows with
  | nil => rfl
  | cons r l ih =>
    rw [List.filterMap_cons, List.filter_cons]
    cases hc : c r.2.1 with
    | false => simpa using ih
    | true => cases hp : p r.2.2 <;> simpa [hp] using ih

/-- A reader sees the rows of visible owners and no others. -/
theorem mem_visible_rows {t : SerialTable (ℕ × α)} {c : ℕ → Bool} {id : ℕ} {a : α} :
    (id, a) ∈ (t.visible c).rows ↔ ∃ owner, c owner = true ∧ (id, (owner, a)) ∈ t.rows := by
  rw [visible, filterMap, List.mem_filterMap]
  constructor
  · rintro ⟨⟨id', owner, a'⟩, hr, h⟩
    obtain ⟨b, hb, heq⟩ := Option.map_eq_some_iff.1 h
    obtain ⟨rfl, rfl⟩ := Prod.mk.inj heq
    dsimp only at hb
    split at hb
    · next hc =>
      obtain rfl := Option.some.inj hb
      exact ⟨owner, hc, hr⟩
    · exact nomatch hb
  · rintro ⟨owner, hc, hr⟩
    exact ⟨(id, (owner, a)), hr, by simp [hc]⟩

/-- An update that leaves the owners alone. -/
theorem rows_visible_modify (t : SerialTable (ℕ × α)) (c : ℕ → Bool) (f : ℕ → α → α) :
    ((t.modify fun id x ↦ (x.1, f id x.2)).visible c).rows =
      (t.visible c).rows.map fun r ↦ (r.1, f r.1 r.2) := by
  dsimp only [visible, filterMap, modify]
  rw [List.filterMap_map, List.map_filterMap]
  refine List.filterMap_congr fun r _ ↦ ?_
  dsimp only [Function.comp_apply]
  split <;> rfl

/-- Insert a row, if there is one. -/
def insertOwned (t : SerialTable (ℕ × α)) (owner : ℕ) : Option α → SerialTable (ℕ × α)
  | none => t
  | some a => t.insert (owner, a)

/-- What an owner has written grows by what it writes. -/
theorem ownedBy_insertOwned_self (t : SerialTable (ℕ × α)) (owner : ℕ) (o : Option α) :
    (t.insertOwned owner o).ownedBy owner = t.ownedBy owner ++ o.toList := by
  cases o with
  | none => exact (List.append_nil _).symm
  | some a => simp [insertOwned, ownedBy]

theorem ownedBy_insertOwned_ne (t : SerialTable (ℕ × α)) {owner owner' : ℕ} (h : owner' ≠ owner)
    (o : Option α) : (t.insertOwned owner' o).ownedBy owner = t.ownedBy owner := by
  cases o with
  | none => rfl
  | some a => simp [insertOwned, ownedBy, h]

/-- A row that was there, or the one inserted, whose number is larger than all others. -/
theorem mem_insertOwned {t : SerialTable (ℕ × α)} {owner : ℕ} {o : Option α} {r : ℕ × ℕ × α}
    (h : r ∈ (t.insertOwned owner o).rows) :
    r ∈ t.rows ∨ (r.2.1 = owner ∧ ∀ r' ∈ t.rows, r'.1 < r.1) := by
  cases o with
  | none => exact .inl h
  | some a =>
    rw [insertOwned, rows_insert] at h
    rcases List.mem_append.1 h with h | h
    · exact .inl h
    · rw [List.mem_singleton.1 h]
      exact .inr ⟨rfl, fun r' hr' ↦ t.lt_of_mem_rows hr'⟩

/-- An owner has written what stands under its tag, whatever the number. -/
theorem mem_ownedBy {t : SerialTable (ℕ × α)} {owner : ℕ} {a : α} :
    a ∈ t.ownedBy owner ↔ ∃ id, (id, (owner, a)) ∈ t.rows := by
  rw [ownedBy, List.mem_map]
  constructor
  · rintro ⟨⟨id, owner', a'⟩, hr, rfl⟩
    obtain ⟨hmem, ho⟩ := List.mem_filter.1 hr
    obtain rfl : owner' = owner := of_decide_eq_true ho
    exact ⟨id, hmem⟩
  · rintro ⟨id, hr⟩
    exact ⟨(id, (owner, a)), List.mem_filter.2 ⟨hr, decide_eq_true rfl⟩, rfl⟩

/-- An insertion by an owner who is not seen shows nothing. -/
theorem map_select_visible_insertOwned (t : SerialTable (ℕ × α)) {c : ℕ → Bool} {owner : ℕ}
    (h : c owner = false) (o : Option α) (p : α → Bool) :
    (((t.insertOwned owner o).visible c).select p).map Prod.snd =
      ((t.visible c).select p).map Prod.snd := by
  cases o with
  | none => rfl
  | some a => simp [insertOwned, map_select_visible, h]

/-- **An owner becomes visible.** -/
theorem map_select_visible_or (t : SerialTable (ℕ × α)) {c : ℕ → Bool} {owner : ℕ} {p : α → Bool}
    (h : ∀ r ∈ t.rows, ∀ r' ∈ t.rows, c r.2.1 = true → r'.2.1 = owner → p r.2.2 = true →
      p r'.2.2 = true → r.1 < r'.1) :
    ((t.visible fun o ↦ c o || decide (o = owner)).select p).map Prod.snd =
      ((t.visible c).select p).map Prod.snd ++ (t.ownedBy owner).filter p := by
  have hsplit : t.rows.filter (fun r ↦ (c r.2.1 || decide (r.2.1 = owner)) && p r.2.2) =
      t.rows.filter (fun r ↦ c r.2.1 && p r.2.2) ++
        t.rows.filter fun r ↦ decide (r.2.1 = owner) && p r.2.2 := by
    rw [← filter_or_of_lt t.sorted]
    · refine List.filter_congr fun r _ ↦ ?_
      rw [Bool.and_or_distrib_right]
    · intro r hr r' hr' hc ho
      rw [Bool.and_eq_true_iff] at hc ho
      exact h r hr r' hr' hc.1 (of_decide_eq_true ho.1) hc.2 ho.2
  rw [map_select_visible, map_select_visible, hsplit, List.map_append, ownedBy, List.filter_map,
    List.filter_filter]
  refine congrArg _ (congrArg _ (List.filter_congr fun r _ ↦ ?_))
  exact Bool.and_comm ..

end SerialTable
