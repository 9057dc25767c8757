import Mathlib.Logic.Function.Basic
import Mathlib.Order.Lattice
import Orbiter.Foundation.Program

/-!
# The key-value store

`InMemoryKV`: entries with an expiry time, counters that never expire, and a clock that is read on
every call. An expired entry is removed by whichever call next looks at its key, so what a caller
can observe of the store is its **live** part, and the operations are specified by what they do to
`live` at the present and at every later time. The lazy removal is invisible (`live_evict`).

## Contents

* `InMemoryKV`, with `get`, `setIfAbsent`, `incr`, `compareAndDelete` — the store, and the four
  operations of its interface. `vanish` is not one of them: it is an eviction the store makes of its
  own accord;
* `live_get`, `live_setIfAbsent_self`, `live_compareAndDelete_of_ne`, … — one lemma for each
  operation and each case a caller can tell apart: the key is another one, is free, or is taken;
* `KvCall`, `KvProg` — the interface as calls, and programs over it;
* `KvCall.live_of_perform`, `KvCall.live_perform_of_live` — what is live after any call was live
  before it or has just been set, and what is live stays unless its own value is deleted. These are
  the two facts every invariant about an entry uses.

The clock ranges over any linearly ordered type with an addition: rational seconds where the source
computes in seconds, whole milliseconds where a run counts them.
-/

namespace Orbiter

variable {τ : Type}

/-- A value with its expiry time. -/
structure Entry (τ : Type) where
  value : String
  expiresAt : Option τ
  deriving DecidableEq

/-- The store: entries and counters. -/
structure InMemoryKV (τ : Type) where
  data : String → Option (Entry τ)
  counters : String → ℕ

namespace InMemoryKV

/-- Nothing stored. -/
def empty : InMemoryKV τ := ⟨fun _ ↦ none, fun _ ↦ 0⟩

variable [LinearOrder τ]

/-- Expiry is at `now >= expires_at`. -/
def expired (now : τ) (e : Entry τ) : Bool :=
  match e.expiresAt with
  | none => false
  | some t => decide (t ≤ now)

/-- The entry of a key, unless it has expired. -/
def live (kv : InMemoryKV τ) (now : τ) (key : String) : Option (Entry τ) :=
  (kv.data key).filter fun e ↦ !expired now e

omit [LinearOrder τ] in
/-- Write or clear one slot of the dictionary. -/
def put (kv : InMemoryKV τ) (key : String) (slot : Option (Entry τ)) : InMemoryKV τ :=
  { kv with data := Function.update kv.data key slot }

/-- The lazy removal every look at a key makes. -/
def evict (kv : InMemoryKV τ) (now : τ) (key : String) : InMemoryKV τ :=
  kv.put key (kv.live now key)

def get (kv : InMemoryKV τ) (now : τ) (key : String) : Option String × InMemoryKV τ :=
  ((kv.live now key).map Entry.value, kv.evict now key)

def setIfAbsent [Add τ] (kv : InMemoryKV τ) (now : τ) (key value : String) (ttlS : τ) :
    Bool × InMemoryKV τ :=
  if (kv.live now key).isSome then (false, kv.evict now key)
  else (true, kv.put key (some ⟨value, some (now + ttlS)⟩))

omit [LinearOrder τ] in
def incr (kv : InMemoryKV τ) (key : String) : ℕ × InMemoryKV τ :=
  (kv.counters key + 1,
    { kv with counters := Function.update kv.counters key (kv.counters key + 1) })

def compareAndDelete (kv : InMemoryKV τ) (now : τ) (key expected : String) :
    Bool × InMemoryKV τ :=
  if (kv.live now key).any fun e ↦ e.value = expected then
    (true, kv.put key none)
  else (false, kv.evict now key)

omit [LinearOrder τ] in
/-- An entry lost by the store: eviction under memory pressure, a restart, a failover. -/
def vanish (kv : InMemoryKV τ) (key : String) : InMemoryKV τ := kv.put key none

/-! ### What each operation does to the live part -/

@[simp] theorem live_empty (now : τ) (key : String) : (empty : InMemoryKV τ).live now key = none :=
  rfl

/-- What is written under a key is live until it expires. -/
theorem live_put_self (kv : InMemoryKV τ) (now : τ) (key : String) (slot : Option (Entry τ)) :
    (kv.put key slot).live now key = slot.filter fun e ↦ !expired now e := by
  simp only [live, put, Function.update_self]

theorem live_put_ne (kv : InMemoryKV τ) (now : τ) {key key' : String} (hk : key' ≠ key)
    (slot : Option (Entry τ)) : (kv.put key slot).live now key' = kv.live now key' := by
  simp only [live, put, Function.update_of_ne hk]

/-- Clearing a slot creates nothing. -/
theorem live_of_put_none {kv : InMemoryKV τ} {now : τ} {key key' : String} {e : Entry τ}
    (h : (kv.put key none).live now key' = some e) : kv.live now key' = some e := by
  by_cases hk : key' = key
  · subst hk
    rw [live_put_self] at h
    exact absurd h (by simp)
  · rwa [live_put_ne kv now hk] at h

/-- Entries only die. -/
theorem live_of_le {kv : InMemoryKV τ} {now now' : τ} {key : String} {e : Entry τ}
    (hle : now ≤ now') (h : kv.live now' key = some e) : kv.live now key = some e := by
  rw [live, Option.filter_eq_some_iff] at h ⊢
  refine ⟨h.1, ?_⟩
  obtain ⟨-, hx⟩ := h
  cases ht : e.expiresAt with
  | none => simp [expired, ht]
  | some t =>
    simp only [expired, ht, Bool.not_eq_true', decide_eq_false_iff_not, not_le] at hx ⊢
    exact lt_of_le_of_lt hle hx

/-- A key that is free stays free when nobody sets it. -/
theorem live_eq_none_of_le {kv : InMemoryKV τ} {now now' : τ} {key : String} (hle : now ≤ now')
    (h : kv.live now key = none) : kv.live now' key = none := by
  cases hl : kv.live now' key with
  | none => rfl
  | some e => rw [live_of_le hle hl] at h; exact absurd h (by simp)

/-- An entry that is live now is live later, or its time has come. -/
theorem live_or_expired {kv : InMemoryKV τ} {now : τ} {key value : String} {t : τ}
    (h : kv.live now key = some ⟨value, some t⟩) (now' : τ) :
    t ≤ now' ∨ kv.live now' key = some ⟨value, some t⟩ := by
  rcases le_or_gt t now' with hle | hlt
  · exact .inl hle
  · refine .inr ?_
    rw [live, (Option.filter_eq_some_iff.1 h).1]
    simp [Option.filter, expired, hlt]

@[simp] theorem live_evict {kv : InMemoryKV τ} {now now' : τ} (hle : now ≤ now')
    (key key' : String) : (kv.evict now key).live now' key' = kv.live now' key' := by
  by_cases hk : key' = key
  · subst hk
    rw [evict, live_put_self]
    cases hl : kv.live now key' with
    | none => exact (live_eq_none_of_le hle hl).symm
    | some e =>
      have hd := (Option.filter_eq_some_iff.1 hl).1
      rw [live, hd]
  · exact live_put_ne kv now' hk _

@[simp] theorem counters_evict (kv : InMemoryKV τ) (now : τ) (key : String) :
    (kv.evict now key).counters = kv.counters := rfl

@[simp] theorem live_get {kv : InMemoryKV τ} {now now' : τ} (hle : now ≤ now')
    (key key' : String) : (kv.get now key).2.live now' key' = kv.live now' key' :=
  live_evict hle key key'

@[simp] theorem counters_get (kv : InMemoryKV τ) (now : τ) (key : String) :
    (kv.get now key).2.counters = kv.counters := rfl

section SetIfAbsent

variable [Add τ]

@[simp] theorem setIfAbsent_fst (kv : InMemoryKV τ) (now : τ) (key value : String) (ttlS : τ) :
    (kv.setIfAbsent now key value ttlS).1 = (kv.live now key).isNone := by
  rw [setIfAbsent]
  cases h : kv.live now key <;> simp

theorem live_setIfAbsent_ne {kv : InMemoryKV τ} {now now' : τ} (hle : now ≤ now')
    {key key' : String} (hk : key' ≠ key) (value : String) (ttlS : τ) :
    (kv.setIfAbsent now key value ttlS).2.live now' key' = kv.live now' key' := by
  rw [setIfAbsent]
  split
  · exact live_evict hle key key'
  · exact live_put_ne kv now' hk _

/-- A refused set leaves the holder in place. -/
theorem live_setIfAbsent_of_live {kv : InMemoryKV τ} {now now' : τ} (hle : now ≤ now')
    {key : String} {e : Entry τ} (h : kv.live now key = some e) (value : String) (ttlS : τ)
    (key' : String) :
    (kv.setIfAbsent now key value ttlS).2.live now' key' = kv.live now' key' := by
  rw [setIfAbsent, h]
  exact live_evict hle key key'

/-- A set that succeeds holds the key until its time to live has elapsed. -/
theorem live_setIfAbsent_self {kv : InMemoryKV τ} {now now' : τ} {key : String}
    (h : kv.live now key = none) (value : String) (ttlS : τ) :
    (kv.setIfAbsent now key value ttlS).2.live now' key =
      if now' < now + ttlS then some ⟨value, some (now + ttlS)⟩ else none := by
  rw [setIfAbsent, h]
  simp only [Option.isSome_none, Bool.false_eq_true, if_false, live_put_self]
  by_cases hlt : now' < now + ttlS
  · simp [Option.filter, expired, hlt]
  · simp [Option.filter, expired, hlt, not_lt.1 hlt]

@[simp] theorem counters_setIfAbsent (kv : InMemoryKV τ) (now : τ) (key value : String)
    (ttlS : τ) : (kv.setIfAbsent now key value ttlS).2.counters = kv.counters := by
  rw [setIfAbsent]
  split <;> rfl

end SetIfAbsent

omit [LinearOrder τ] in
@[simp] theorem incr_fst (kv : InMemoryKV τ) (key : String) :
    (kv.incr key).1 = kv.counters key + 1 := rfl

@[simp] theorem live_incr (kv : InMemoryKV τ) (key : String) (now : τ) (key' : String) :
    (kv.incr key).2.live now key' = kv.live now key' := rfl

omit [LinearOrder τ] in
theorem counters_incr (kv : InMemoryKV τ) (key key' : String) :
    (kv.incr key).2.counters key' =
      if key' = key then kv.counters key + 1 else kv.counters key' := by
  simp [incr, Function.update_apply]

@[simp] theorem compareAndDelete_fst (kv : InMemoryKV τ) (now : τ) (key expected : String) :
    (kv.compareAndDelete now key expected).1 =
      (kv.live now key).any fun e ↦ e.value = expected := by
  rw [compareAndDelete]
  split
  · next h => exact h.symm
  · next h => exact (Bool.not_eq_true _ ▸ h).symm

theorem live_compareAndDelete_ne {kv : InMemoryKV τ} {now now' : τ} (hle : now ≤ now')
    {key key' : String} (hk : key' ≠ key) (expected : String) :
    (kv.compareAndDelete now key expected).2.live now' key' = kv.live now' key' := by
  rw [compareAndDelete]
  split
  · exact live_put_ne kv now' hk _
  · exact live_evict hle key key'

/-- A value other than the expected one stays. -/
theorem live_compareAndDelete_of_ne {kv : InMemoryKV τ} {now now' : τ} (hle : now ≤ now')
    {key expected : String} (h : ∀ e, kv.live now key = some e → e.value ≠ expected)
    (key' : String) :
    (kv.compareAndDelete now key expected).2.live now' key' = kv.live now' key' := by
  rw [compareAndDelete, if_neg]
  · exact live_evict hle key key'
  · cases hl : kv.live now key with
    | none => simp
    | some e => simpa using h e hl

/-- The expected value goes. -/
theorem live_compareAndDelete_self {kv : InMemoryKV τ} {now now' : τ} {key : String} {e : Entry τ}
    (h : kv.live now key = some e) :
    (kv.compareAndDelete now key e.value).2.live now' key = none := by
  have hmatch : (kv.live now key).any (fun e' ↦ e'.value = e.value) = true := by
    rw [h]
    simp
  rw [compareAndDelete, if_pos hmatch, live_put_self]
  rfl

/-- Deletion creates nothing. -/
theorem live_of_compareAndDelete {kv : InMemoryKV τ} {now now' : τ} (hle : now ≤ now')
    {key expected key' : String} {e : Entry τ}
    (h : (kv.compareAndDelete now key expected).2.live now' key' = some e) :
    kv.live now' key' = some e := by
  rw [compareAndDelete] at h
  split at h
  · exact live_of_put_none h
  · rwa [live_evict hle] at h

@[simp] theorem counters_compareAndDelete (kv : InMemoryKV τ) (now : τ) (key expected : String) :
    (kv.compareAndDelete now key expected).2.counters = kv.counters := by
  rw [compareAndDelete]
  split <;> rfl

/-- What is live after an eviction was live before it. -/
theorem live_of_vanish {kv : InMemoryKV τ} {now : τ} {key key' : String} {e : Entry τ}
    (h : (kv.vanish key).live now key' = some e) : kv.live now key' = some e :=
  live_of_put_none h

omit [LinearOrder τ] in
@[simp] theorem counters_vanish (kv : InMemoryKV τ) (key : String) :
    (kv.vanish key).counters = kv.counters := rfl

end InMemoryKV

/-! ### The store's interface -/

/-- The calls of the `KeyValueStore` protocol. -/
inductive KvCall (τ : Type)
  | get (key : String)
  | setIfAbsent (key value : String) (ttlS : τ)
  | incr (key : String)
  | compareAndDelete (key expected : String)

/-- What each call answers. -/
def KvCall.Resp : KvCall τ → Type
  | .get _ => Option String
  | .setIfAbsent _ _ _ => Bool
  | .incr _ => ℕ
  | .compareAndDelete _ _ => Bool

/-- Programs that call the store and nothing else. -/
abbrev KvProg (τ ε α : Type) : Type := Prog (KvCall τ) KvCall.Resp ε α

namespace KeyValueStore

variable {ε : Type}

def get (key : String) : KvProg τ ε (Option String) := Prog.await (KvCall.get key)

/-- Returns `true` only if the key did not exist (or had expired). -/
def setIfAbsent (key value : String) (ttlS : τ) : KvProg τ ε Bool :=
  Prog.await (KvCall.setIfAbsent key value ttlS)

/-- Counters never expire. -/
def incr (key : String) : KvProg τ ε ℕ := Prog.await (KvCall.incr key)

/-- Delete the key only if it currently holds `expected`. -/
def compareAndDelete (key expected : String) : KvProg τ ε Bool :=
  Prog.await (KvCall.compareAndDelete key expected)

end KeyValueStore

/-- One atomic call against the store. -/
def KvCall.perform [LinearOrder τ] [Add τ] (kv : InMemoryKV τ) (now : τ) :
    (c : KvCall τ) → c.Resp × InMemoryKV τ
  | .get key => kv.get now key
  | .setIfAbsent key value ttlS => kv.setIfAbsent now key value ttlS
  | .incr key => kv.incr key
  | .compareAndDelete key expected => kv.compareAndDelete now key expected

/-- **Where an entry comes from**: it was there before, or a set of this very key wrote it. -/
theorem KvCall.live_of_perform [LinearOrder τ] [Add τ] {kv : InMemoryKV τ} {now now' : τ}
    (hle : now ≤ now') (c : KvCall τ) {key : String} {e : Entry τ}
    (h : (c.perform kv now).2.live now' key = some e) :
    kv.live now' key = some e ∨ ∃ value ttlS, c = .setIfAbsent key value ttlS ∧
      kv.live now key = none ∧ e = ⟨value, some (now + ttlS)⟩ := by
  cases c with
  | get key' => exact .inl ((InMemoryKV.live_get hle key' key).symm.trans h)
  | incr key' => exact .inl h
  | compareAndDelete key' expected => exact .inl (InMemoryKV.live_of_compareAndDelete hle h)
  | setIfAbsent key' value ttlS =>
    rw [perform] at h
    by_cases hk : key = key'
    · subst hk
      cases hl : kv.live now key with
      | some e' =>
        rw [InMemoryKV.live_setIfAbsent_of_live hle hl] at h
        exact .inl h
      | none =>
        rw [InMemoryKV.live_setIfAbsent_self hl] at h
        split at h
        · exact .inr ⟨value, ttlS, rfl, rfl, (Option.some.inj h).symm⟩
        · exact absurd h (by simp)
    · rw [InMemoryKV.live_setIfAbsent_ne hle hk] at h
      exact .inl h

/-- **An entry stays** until it expires, unless it is deleted by a call that names its value. -/
theorem KvCall.live_perform_of_live [LinearOrder τ] [Add τ] {kv : InMemoryKV τ}
    {now t : τ} (hle : now ≤ t) {c : KvCall τ} {key : String} {e : Entry τ}
    (hl : kv.live t key = some e) (hc : c ≠ .compareAndDelete key e.value) :
    (c.perform kv now).2.live t key = some e := by
  have hnow := InMemoryKV.live_of_le hle hl
  cases c with
  | get key' => exact (InMemoryKV.live_get hle key' key).trans hl
  | incr key' => exact hl
  | setIfAbsent key' value ttl =>
    by_cases hk : key = key'
    · subst hk
      exact (InMemoryKV.live_setIfAbsent_of_live hle hnow value ttl key).trans hl
    · exact (InMemoryKV.live_setIfAbsent_ne hle hk value ttl).trans hl
  | compareAndDelete key' expected =>
    by_cases hk : key = key'
    · subst hk
      refine (InMemoryKV.live_compareAndDelete_of_ne hle (fun e' he' heq ↦ hc ?_) key).trans hl
      rw [← heq, Option.some.inj (hnow.symm.trans he')]
    · exact (InMemoryKV.live_compareAndDelete_ne hle hk expected).trans hl

/-- What is not there stays away while nobody sets it. -/
theorem KvCall.live_perform_eq_none [LinearOrder τ] [Add τ] {kv : InMemoryKV τ} {now now' : τ}
    (hle : now ≤ now') {c : KvCall τ} {key : String}
    (hc : ∀ value ttlS, c ≠ .setIfAbsent key value ttlS) (h : kv.live now key = none) :
    (c.perform kv now).2.live now' key = none := by
  cases hl : (c.perform kv now).2.live now' key with
  | none => rfl
  | some e =>
    rcases c.live_of_perform hle hl with hold | ⟨value, ttlS, hset, -, -⟩
    · rw [InMemoryKV.live_of_le hle hold] at h
      exact absurd h (by simp)
    · exact absurd hset (hc value ttlS)

end Orbiter
