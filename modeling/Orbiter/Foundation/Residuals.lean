import Mathlib.Computability.Language

/-!
# Residual languages of a fallible fold

A fold `l.foldlM step s` in `Except ε` reads a word letter by letter and stops at the first letter
`step` refuses. A family of **residuals** assigns a language to every state such that a word of a
state's language is a letter the state accepts followed by a word of the state it leads to. When no
residual is empty, nothing a fold has accepted is a dead end.

* `Residuals step` — the family, with the two conditions as fields;
* `append_mem_iff` — what may follow after a word that was accepted is the residual of the state it
  led to;
* `foldlM_ok_iff` — **the words a fold accepts are exactly the prefixes of the words of the residual
  it started from**;
* `exists_of_foldlM_error` — a word that is refused has an accepted part, after which its next
  letter is the first one that is not.

The conditions are about one letter at a time; words enter by induction here and nowhere else.
-/

section

variable {α : Type*}

/-- A word of `{[a]} * m` is the letter `a` followed by a word of `m`. -/
@[simp] theorem Language.cons_mem_singleton_mul {a b : α} {w : List α} {m : Language α} :
    b :: w ∈ ({[a]} : Language α) * m ↔ b = a ∧ w ∈ m := by
  constructor
  · rintro ⟨u, hu, v, hv, h⟩
    obtain rfl : u = [a] := hu
    obtain ⟨rfl, rfl⟩ := List.cons.inj h
    exact ⟨rfl, hv⟩
  · rintro ⟨rfl, hw⟩
    exact ⟨[b], rfl, w, hw, rfl⟩

/-- The words that start with a letter are not empty. -/
@[simp] theorem Language.nil_notMem_singleton_mul {a : α} {m : Language α} :
    [] ∉ ({[a]} : Language α) * m := by
  rintro ⟨u, hu, v, -, h⟩
  obtain rfl : u = [a] := hu
  exact absurd h (by simp)

end

/-- A language for every state of a fallible fold, in which the letters a word may begin with are
those the state accepts. -/
structure Residuals {σ α ε : Type*} (step : σ → α → Except ε σ) where
  /-- What may still be read from a state. -/
  lang : σ → Language α
  /-- A word is read one accepted letter at a time. -/
  cons_mem : ∀ s a w, a :: w ∈ lang s ↔ ∃ s', step s a = .ok s' ∧ w ∈ lang s'
  /-- No state is a dead end. -/
  nonempty : ∀ s, ∃ w, w ∈ lang s

namespace Residuals

variable {σ α ε : Type*} {step : σ → α → Except ε σ} (R : Residuals step)

/-- A fold leads to the residual of what it read. -/
theorem append_mem_iff {s s' : σ} {l w : List α} (h : l.foldlM step s = .ok s') :
    l ++ w ∈ R.lang s ↔ w ∈ R.lang s' := by
  induction l generalizing s with
  | nil =>
    obtain rfl := Except.ok.inj h
    rfl
  | cons a l ih =>
    rw [List.foldlM_cons] at h
    cases ha : step s a with
    | error x =>
      rw [ha] at h
      exact absurd h (by simp [bind, Except.bind])
    | ok mid =>
      rw [ha] at h
      rw [List.cons_append, R.cons_mem, ← ih h]
      constructor
      · rintro ⟨mid', hmid, hw⟩
        obtain rfl := Except.ok.inj (ha.symm.trans hmid)
        exact hw
      · exact fun hw ↦ ⟨mid, ha, hw⟩

/-- A fold reads every prefix of a word of the residual. -/
theorem exists_ok_of_prefix {s : σ} {l w : List α} (hw : w ∈ R.lang s) (h : l <+: w) :
    ∃ s', l.foldlM step s = .ok s' := by
  induction l generalizing s w with
  | nil => exact ⟨s, rfl⟩
  | cons a l ih =>
    obtain ⟨v, rfl⟩ := h
    obtain ⟨mid, ha, hv⟩ := (R.cons_mem s a (l ++ v)).1 hw
    obtain ⟨s', hs'⟩ := ih hv (l.prefix_append v)
    exact ⟨s', by rw [List.foldlM_cons, ha]; exact hs'⟩

/-- **Acceptance.** A fold succeeds on exactly the prefixes of the words of its residual. -/
theorem foldlM_ok_iff {s : σ} {l : List α} :
    (∃ s', l.foldlM step s = .ok s') ↔ ∃ w ∈ R.lang s, l <+: w := by
  constructor
  · rintro ⟨s', h⟩
    obtain ⟨w, hw⟩ := R.nonempty s'
    exact ⟨l ++ w, (R.append_mem_iff h).2 hw, l.prefix_append w⟩
  · rintro ⟨w, hw, h⟩
    exact R.exists_ok_of_prefix hw h

/-- **Refusal.** A failed fold has stopped at the first letter that takes what was read out of the
language, with the error of that letter. -/
theorem exists_of_foldlM_error {s : σ} {l : List α} {x : ε} (h : l.foldlM step s = .error x) :
    ∃ pre a post mid, l = pre ++ a :: post ∧ pre.foldlM step s = .ok mid ∧
      step mid a = .error x ∧ ¬∃ w ∈ R.lang s, pre ++ [a] <+: w := by
  induction l generalizing s with
  | nil => exact absurd h (by simp [pure, Except.pure])
  | cons a l ih =>
    rw [List.foldlM_cons] at h
    cases ha : step s a with
    | error y =>
      rw [ha] at h
      obtain rfl : y = x := Except.error.inj h
      refine ⟨[], a, l, s, rfl, rfl, ha, ?_⟩
      rintro ⟨w, hw, v, rfl⟩
      obtain ⟨s', hs', -⟩ := (R.cons_mem s a v).1 hw
      exact absurd (ha.symm.trans hs') (by simp)
    | ok next =>
      rw [ha] at h
      obtain ⟨pre, b, post, mid, rfl, hpre, hb, hno⟩ := ih h
      refine ⟨a :: pre, b, post, mid, rfl, by rw [List.foldlM_cons, ha]; exact hpre, hb, ?_⟩
      rintro ⟨w, hw, v, rfl⟩
      obtain ⟨s', hs', hv⟩ := (R.cons_mem s a (pre ++ [b] ++ v)).1 hw
      obtain rfl := Except.ok.inj (ha.symm.trans hs')
      exact hno ⟨_, hv, (pre ++ [b]).prefix_append v⟩

end Residuals
