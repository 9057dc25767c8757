import Mathlib.Data.Rat.Floor
import Mathlib.Tactic.Linarith
import Mathlib.Tactic.NormNum
import Orbiter.Worker.Idempotency

/-!
# The production store

`ValkeyKV` against a Valkey server. The server has one keyspace: counters and entries live side by
side, and what it stores are texts. An entry set with `PX p` at `t` is absent from `t + p` on; a
counter has no expiry. The server's clock counts whole milliseconds, and a time to live in seconds
is rounded up to them.

The in-memory store keeps counters apart, removes expired entries lazily and compares rational
seconds. No caller can tell the two apart through the calls that leases and guard make.

## The simulation

* `Issued` — the calls leases and guard make, with the keys and times to live they use. A counter's
  key is never an entry's (`tokenKey_ne_of_isEntryKey`), so the shared keyspace does no harm;
* `Valkey.Simulates` — the two stores show the same value under every entry key at every moment from
  now on, and the same number under every counter key;
* `lt_add_px` — the rounding. The clock stands at whole milliseconds whenever it is read, and a
  moment that is a whole millisecond lies before the rounded end of an entry exactly if it lies
  before the end itself;
* `Simulates.setIfAbsent`, `Simulates.compareAndDelete`, `Simulates.incr` — the step lemma, call by
  call;
* `results_eq` — **the answers to any sequence of calls are the same**, at any start of the clock
  and at any moments that do not decrease.

The range of the server's integers is left out.
-/

namespace Orbiter

open ExecutionGuard LeaseManager

/-- What a call returns to Python. -/
inductive KvResult
  | value (value : Option String)
  | flag (flag : Bool)
  | number (n : ℤ)
  /-- An error reply of the server is raised. -/
  | raised
  deriving DecidableEq

/-- The keyspace of the server: texts, with the millisecond from which they are absent. -/
structure Valkey where
  keyspace : String → Option (Entry ℕ)

namespace Valkey

/-- Nothing stored. -/
def empty : Valkey := ⟨fun _ ↦ none⟩

/-- What is stored under the key at this moment. -/
def lookup (db : Valkey) (now : ℕ) (key : String) : Option (Entry ℕ) :=
  (db.keyspace key).filter fun e ↦ !InMemoryKV.expired now e

/-- Write or clear a key. -/
def store (db : Valkey) (key : String) (slot : Option (Entry ℕ)) : Valkey :=
  ⟨Function.update db.keyspace key slot⟩

/-- `GET key`. -/
def get (db : Valkey) (now : ℕ) (key : String) : Option String :=
  (db.lookup now key).map Entry.value

/-- `SET key value NX PX px`. -/
def setNxPx (db : Valkey) (now : ℕ) (key value : String) (px : ℕ) : Bool × Valkey :=
  if (db.lookup now key).isSome then (false, db)
  else (true, db.store key (some ⟨value, some (now + px)⟩))

/-- A text is an integer when it is the decimal text of one. -/
def integer? (text : String) : Option ℤ :=
  match text.toList with
  | '-' :: digits =>
    let n : ℤ := -(Nat.ofDigitChars 10 digits 0 : ℕ)
    if toString n = text then some n else none
  | digits =>
    let n : ℤ := (Nat.ofDigitChars 10 digits 0 : ℕ)
    if toString n = text then some n else none

/-- `INCR key`: an absent key counts from zero, and a text that is no integer is an error. The
expiry of the key stays. -/
def incr (db : Valkey) (now : ℕ) (key : String) : Option ℤ × Valkey :=
  match db.lookup now key with
  | none => (some 1, db.store key (some ⟨toString (1 : ℤ), none⟩))
  | some e =>
    match integer? e.value with
    | none => (none, db)
    | some n => (some (n + 1), db.store key (some ⟨toString (n + 1), e.expiresAt⟩))

/-- The script: `GET`, compare, `DEL`. It answers the number of keys deleted. -/
def compareAndDelete (db : Valkey) (now : ℕ) (key expected : String) : ℕ × Valkey :=
  if db.get now key = some expected then (1, db.store key none) else (0, db)

end Valkey

namespace ValkeyKV

/-- `max(1, math.ceil(ttl_s * 1000))`. -/
def px (ttlS : ℚ) : ℕ := (max 1 ⌈ttlS * 1000⌉).toNat

/-- The methods of `ValkeyKV`, as commands to the server at its millisecond `now`. -/
def perform (db : Valkey) (now : ℕ) : KvCall ℚ → KvResult × Valkey
  | .get key => (.value (db.get now key), db)
  | .setIfAbsent key value ttlS =>
    let (ok, db') := db.setNxPx now key value (px ttlS)
    (.flag ok, db')
  | .incr key =>
    match db.incr now key with
    | (some n, db') => (.number n, db')
    | (none, db') => (.raised, db')
  | .compareAndDelete key expected =>
    let (deleted, db') := db.compareAndDelete now key expected
    (.flag (deleted ≠ 0), db')

/-- The results of a sequence of calls, each at its millisecond. -/
def results : Valkey → List (ℕ × KvCall ℚ) → List KvResult
  | _, [] => []
  | db, (now, c) :: calls => (perform db now c).1 :: results (perform db now c).2 calls

end ValkeyKV

namespace InMemoryKV

/-- What a call returns to Python. -/
def result : (c : KvCall ℚ) → c.Resp → KvResult
  | .get _, (value : Option String) => .value value
  | .setIfAbsent _ _ _, (ok : Bool) => .flag ok
  | .incr _, (n : ℕ) => .number n
  | .compareAndDelete _ _, (deleted : Bool) => .flag deleted

/-- A clock that started at `start` and moves in whole milliseconds. -/
def clock (start : ℚ) (ms : ℕ) : ℚ := start + ms / 1000

/-- The results of a sequence of calls, each at its millisecond. -/
def results (start : ℚ) : InMemoryKV ℚ → List (ℕ × KvCall ℚ) → List KvResult
  | _, [] => []
  | kv, (now, c) :: calls =>
    result c (c.perform kv (clock start now)).1 ::
      results start (c.perform kv (clock start now)).2 calls

end InMemoryKV

/-- The calls `LeaseManager` and `ExecutionGuard` make for jobs named by UUIDs, with positive times
to live. -/
inductive Issued : KvCall ℚ → Prop
  | acquire (job : Uuid) (holder : String) {ttlS : ℚ} (h : 0 < ttlS) {c : KvCall ℚ}
      (hc : (acquire ttlS job.str holder : KvProg ℚ Empty _).Makes c) : Issued c
  | release (job : Uuid) (holder : String) (token : ℕ) {c : KvCall ℚ}
      (hc : (release ⟨job.str, holder, token⟩ : KvProg ℚ Empty _).Makes c) : Issued c
  | tryClaim (job : Uuid) (delivery : String) {claimTtlS : ℚ} (h : 0 < claimTtlS) {c : KvCall ℚ}
      (hc : (tryClaim claimTtlS job.str delivery : KvProg ℚ Empty _).Makes c) : Issued c
  | markDone (job : Uuid) (delivery : String) {doneTtlS : ℚ} (h : 0 < doneTtlS) {c : KvCall ℚ}
      (hc : (markDone doneTtlS job.str delivery : KvProg ℚ Empty _).Makes c) : Issued c
  | releaseClaim (job : Uuid) (delivery : String) {c : KvCall ℚ}
      (hc : (releaseClaim job.str delivery : KvProg ℚ Empty _).Makes c) : Issued c

/-! ### The keys of entries and of counters -/

/-- The keys of done markers, claims and leases. -/
def IsEntryKey (key : String) : Prop :=
  ∃ job : Uuid, key = doneKey job.str ∨ key = claimKey job.str ∨ key = leaseKey job.str

/-- A counter's key is no entry's: it has a colon where a lease key has none, and the guard's keys
differ in their ninth character. -/
theorem tokenKey_ne_of_isEntryKey {key : String} (h : IsEntryKey key) (job : Uuid) :
    tokenKey job.str ≠ key := by
  intro heq
  have htoken : tokenKey job.str = leaseKey (job.str ++ ":token") := by
    rw [tokenKey, leaseKey, String.append_assoc]
  obtain ⟨j, rfl | rfl | rfl⟩ := h
  · exact doneKey_ne_leaseKey _ _ (heq.symm.trans htoken)
  · exact claimKey_ne_leaseKey _ _ (heq.symm.trans htoken)
  · have hstr := leaseKey_inj.1 (htoken.symm.trans heq)
    have hcolon : ':' ∈ j.str.toList := by
      rw [← hstr, String.toList_append]
      exact List.mem_append_right _ (by decide)
    exact j.colon_not_mem_str hcolon

/-- **The calls that are made**: sets and deletions of entries, reads of entries, draws from
counters. -/
theorem Issued.cases {c : KvCall ℚ} (h : Issued c) :
    (∃ key, c = .get key ∧ IsEntryKey key) ∨
    (∃ key value ttlS, c = .setIfAbsent key value ttlS ∧ IsEntryKey key ∧ 0 < ttlS) ∨
    (∃ job : Uuid, c = .incr (tokenKey job.str)) ∨
    ∃ key expected, c = .compareAndDelete key expected ∧ IsEntryKey key := by
  cases h with
  | acquire job holder hpos hc =>
    rcases Prog.makes_call hc with rfl | ⟨⟨⟨⟩⟩ | token, hc⟩
    · exact .inr (.inr (.inl ⟨job, rfl⟩))
    rcases Prog.makes_call hc with rfl | ⟨⟨⟨⟩⟩ | acquired, hc⟩
    · exact .inr (.inl ⟨_, _, _, rfl, ⟨job, .inr (.inr rfl)⟩, hpos⟩)
    match acquired, hc with
    | true, hc => exact (Prog.not_makes_ret hc).elim
    | false, hc => exact (Prog.not_makes_ret hc).elim
  | release job holder token hc =>
    rcases Prog.makes_call hc with rfl | ⟨⟨⟨⟩⟩ | _, hc⟩
    · exact .inr (.inr (.inr ⟨_, _, rfl, job, .inr (.inr rfl)⟩))
    · exact (Prog.not_makes_ret hc).elim
  | tryClaim job delivery hpos hc =>
    rcases Prog.makes_call hc with rfl | ⟨⟨⟨⟩⟩ | done, hc⟩
    · exact .inl ⟨_, rfl, job, .inl rfl⟩
    match done, hc with
    | some _, hc => exact (Prog.not_makes_ret hc).elim
    | none, hc =>
      rcases Prog.makes_call hc with rfl | ⟨⟨⟨⟩⟩ | claimed, hc⟩
      · exact .inr (.inl ⟨_, _, _, rfl, ⟨job, .inr (.inl rfl)⟩, hpos⟩)
      match claimed, hc with
      | true, hc => exact (Prog.not_makes_ret hc).elim
      | false, hc => exact (Prog.not_makes_ret hc).elim
  | markDone job delivery hpos hc =>
    rcases Prog.makes_call hc with rfl | ⟨⟨⟨⟩⟩ | _, hc⟩
    · exact .inr (.inl ⟨_, _, _, rfl, ⟨job, .inl rfl⟩, hpos⟩)
    rcases Prog.makes_call hc with rfl | ⟨⟨⟨⟩⟩ | _, hc⟩
    · exact .inr (.inr (.inr ⟨_, _, rfl, job, .inr (.inl rfl)⟩))
    · exact (Prog.not_makes_ret hc).elim
  | releaseClaim job delivery hc =>
    rcases Prog.makes_call hc with rfl | ⟨⟨⟨⟩⟩ | _, hc⟩
    · exact .inr (.inr (.inr ⟨_, _, rfl, job, .inr (.inl rfl)⟩))
    · exact (Prog.not_makes_ret hc).elim

/-! ### The simulation -/

/-- Nobody can tell the stores apart from millisecond `now` on: entry keys show the same values at
every later moment, and counters stand at the same numbers. -/
structure Valkey.Simulates (db : Valkey) (start : ℚ) (kv : InMemoryKV ℚ) (now : ℕ) : Prop where
  entries : ∀ key, IsEntryKey key → ∀ t, now ≤ t →
    db.get t key = (kv.live (InMemoryKV.clock start t) key).map Entry.value
  counters : ∀ job : Uuid, db.keyspace (tokenKey job.str) =
    if kv.counters (tokenKey job.str) = 0 then none
    else some ⟨toString (kv.counters (tokenKey job.str) : ℤ), none⟩

/-- The clock of the source follows the clock of the server. -/
theorem InMemoryKV.clock_le {start : ℚ} {t t' : ℕ} (h : t ≤ t') :
    clock start t ≤ clock start t' := by
  have hq : (t : ℚ) ≤ t' := Nat.cast_le.2 h
  rw [clock, clock]
  linarith

/-- **The rounding is exact**: at whole milliseconds, the rational deadline and the rounded one have
passed at the same moments. -/
theorem ValkeyKV.lt_add_px {start ttlS : ℚ} (hpos : 0 < ttlS) (now t : ℕ) :
    t < now + px ttlS ↔ InMemoryKV.clock start t < InMemoryKV.clock start now + ttlS := by
  have hceil : 1 ≤ ⌈ttlS * 1000⌉ := Int.one_le_ceil_iff.2 (by linarith)
  have hpx : (px ttlS : ℤ) = ⌈ttlS * 1000⌉ := by
    rw [px, max_eq_right hceil, Int.toNat_of_nonneg (by omega)]
  calc t < now + px ttlS ↔ (t : ℤ) - now < ⌈ttlS * 1000⌉ := by rw [← hpx]; omega
    _ ↔ ((t : ℚ) - now) < ttlS * 1000 := by rw [Int.lt_ceil]; push_cast; rfl
    _ ↔ _ := by
      rw [InMemoryKV.clock, InMemoryKV.clock]
      constructor <;> intro h <;> linarith

namespace Valkey

theorem integer?_toString (n : ℕ) : integer? (toString (n : ℤ)) = some (n : ℤ) := by
  have htext : (toString (n : ℤ)).toList = Nat.toDigits 10 n := Nat.toList_repr
  rw [integer?, htext]
  split
  · next digits hminus =>
    have hmem : '-' ∈ Nat.toDigits 10 n := by rw [hminus]; exact List.mem_cons_self
    exact absurd (Nat.isDigit_of_mem_toDigits (by decide) (by decide) hmem) (by decide)
  · rw [Nat.ofDigitChars_ten_toDigits, if_pos rfl]

/-- What is stored under a key is what is read, until it expires. -/
theorem get_store_self (db : Valkey) (now : ℕ) (key : String) (slot : Option (Entry ℕ)) :
    (db.store key slot).get now key =
      (slot.filter fun e ↦ !InMemoryKV.expired now e).map Entry.value := by
  simp only [get, lookup, store, Function.update_self]

theorem get_store_ne (db : Valkey) (now : ℕ) {key key' : String} (h : key' ≠ key)
    (slot : Option (Entry ℕ)) : (db.store key slot).get now key' = db.get now key' := by
  simp only [get, lookup, store, Function.update_of_ne h]

/-- A key exists exactly when a read finds a value. -/
theorem isSome_lookup (db : Valkey) (now : ℕ) (key : String) :
    (db.lookup now key).isSome = (db.get now key).isSome := by
  rw [get, Option.isSome_map]

variable {db : Valkey} {start : ℚ} {kv : InMemoryKV ℚ} {now : ℕ}

theorem Simulates.empty (start : ℚ) : Valkey.empty.Simulates start .empty 0 :=
  ⟨fun _ _ _ _ ↦ rfl, fun _ ↦ rfl⟩

/-- Two stores that show the same from now on show the same from any later moment on. -/
theorem Simulates.later (h : db.Simulates start kv now) {t : ℕ} (hle : now ≤ t) :
    db.Simulates start kv t :=
  ⟨fun key hkey t' ht' ↦ h.entries key hkey t' (hle.trans ht'), h.counters⟩

/-- A set. -/
theorem Simulates.setIfAbsent (h : db.Simulates start kv now) {key : String} (hkey : IsEntryKey key)
    (value : String) {ttlS : ℚ} (hpos : 0 < ttlS) :
    (db.setNxPx now key value (ValkeyKV.px ttlS)).1 =
      (kv.setIfAbsent (InMemoryKV.clock start now) key value ttlS).1 ∧
    (db.setNxPx now key value (ValkeyKV.px ttlS)).2.Simulates start
      (kv.setIfAbsent (InMemoryKV.clock start now) key value ttlS).2 now := by
  have hnow := h.entries key hkey now le_rfl
  have hsame : (db.lookup now key).isSome = (kv.live (InMemoryKV.clock start now) key).isSome := by
    rw [isSome_lookup, hnow, Option.isSome_map]
  rw [setNxPx, hsame, InMemoryKV.setIfAbsent_fst]
  cases hl : kv.live (InMemoryKV.clock start now) key with
  | some e =>
    refine ⟨rfl, fun key' hkey' t ht ↦ ?_, fun job ↦ ?_⟩
    · rw [InMemoryKV.live_setIfAbsent_of_live (InMemoryKV.clock_le ht) hl]
      exact h.entries key' hkey' t ht
    · rw [InMemoryKV.counters_setIfAbsent]
      exact h.counters job
  | none =>
    refine ⟨rfl, fun key' hkey' t ht ↦ ?_, fun job ↦ ?_⟩
    · by_cases heq : key' = key
      · subst heq
        rw [InMemoryKV.live_setIfAbsent_self hl]
        refine (get_store_self db t key' _).trans ?_
        by_cases hlt : t < now + ValkeyKV.px ttlS
        · rw [if_pos ((ValkeyKV.lt_add_px hpos now t).1 hlt)]
          simp [Option.filter, InMemoryKV.expired, hlt]
        · rw [if_neg fun hq ↦ hlt ((ValkeyKV.lt_add_px hpos now t).2 hq)]
          simp [Option.filter, InMemoryKV.expired, not_lt.1 hlt]
      · rw [InMemoryKV.live_setIfAbsent_ne (InMemoryKV.clock_le ht) heq]
        exact (get_store_ne db t heq _).trans (h.entries key' hkey' t ht)
    · rw [InMemoryKV.counters_setIfAbsent, ← h.counters job]
      exact Function.update_of_ne (tokenKey_ne_of_isEntryKey hkey job) _ _

/-- A deletion. -/
theorem Simulates.compareAndDelete (h : db.Simulates start kv now) {key : String}
    (hkey : IsEntryKey key) (expected : String) :
    decide ((db.compareAndDelete now key expected).1 ≠ 0) =
      (kv.compareAndDelete (InMemoryKV.clock start now) key expected).1 ∧
    (db.compareAndDelete now key expected).2.Simulates start
      (kv.compareAndDelete (InMemoryKV.clock start now) key expected).2 now := by
  have hnow := h.entries key hkey now le_rfl
  have hmatch : db.get now key = some expected ↔
      ((kv.live (InMemoryKV.clock start now) key).any fun e ↦ e.value = expected) = true := by
    rw [hnow]
    cases kv.live (InMemoryKV.clock start now) key <;> simp
  rw [Valkey.compareAndDelete, InMemoryKV.compareAndDelete]
  by_cases hv : db.get now key = some expected
  · rw [if_pos hv, if_pos (hmatch.1 hv)]
    refine ⟨rfl, fun key' hkey' t ht ↦ ?_, fun job ↦ ?_⟩
    · by_cases heq : key' = key
      · subst heq
        rw [InMemoryKV.live_put_self]
        exact get_store_self db t key' none
      · rw [InMemoryKV.live_put_ne _ _ heq]
        exact (get_store_ne db t heq none).trans (h.entries key' hkey' t ht)
    · refine Eq.trans ?_ (h.counters job)
      exact Function.update_of_ne (tokenKey_ne_of_isEntryKey hkey job) _ _
  · rw [if_neg hv, if_neg (hv ∘ hmatch.2)]
    refine ⟨rfl, fun key' hkey' t ht ↦ ?_, h.counters⟩
    rw [InMemoryKV.live_evict (InMemoryKV.clock_le ht)]
    exact h.entries key' hkey' t ht

/-- A draw. -/
theorem Simulates.incr (h : db.Simulates start kv now) (job : Uuid) :
    (db.incr now (tokenKey job.str)).1 = some ((kv.incr (tokenKey job.str)).1 : ℤ) ∧
    (db.incr now (tokenKey job.str)).2.Simulates start (kv.incr (tokenKey job.str)).2 now := by
  -- both stores have the next number under the key
  have hincr : db.incr now (tokenKey job.str) =
      (some ((kv.counters (tokenKey job.str) + 1 : ℕ) : ℤ),
      db.store (tokenKey job.str)
        (some ⟨toString ((kv.counters (tokenKey job.str) + 1 : ℕ) : ℤ), none⟩)) := by
    rw [Valkey.incr, lookup, h.counters job]
    by_cases hzero : kv.counters (tokenKey job.str) = 0
    · rw [if_pos hzero, hzero]
      rfl
    · rw [if_neg hzero]
      have hkeep : Option.filter (fun e ↦ !InMemoryKV.expired now e)
          (some (⟨toString (kv.counters (tokenKey job.str) : ℤ), none⟩ : Entry ℕ)) =
          some ⟨toString (kv.counters (tokenKey job.str) : ℤ), none⟩ := rfl
      simp only [hkeep, integer?_toString]
      rfl
  rw [hincr]
  refine ⟨rfl, fun key hkey t ht ↦ ?_, fun job' ↦ ?_⟩
  · rw [InMemoryKV.live_incr]
    exact (get_store_ne db t (tokenKey_ne_of_isEntryKey hkey job).symm _).trans
      (h.entries key hkey t ht)
  · rw [InMemoryKV.counters_incr]
    by_cases heq : tokenKey job'.str = tokenKey job.str
    · rw [heq, if_pos rfl, if_neg (Nat.succ_ne_zero _), store]
      simp only [Function.update_self]
    · rw [if_neg heq, ← h.counters job', store]
      simp only [Function.update_of_ne heq]

/-- **One call**: the same result, and the stores stay indistinguishable. -/
theorem Simulates.perform (h : db.Simulates start kv now) {c : KvCall ℚ} (hc : Issued c) :
    (ValkeyKV.perform db now c).1 =
      InMemoryKV.result c (c.perform kv (InMemoryKV.clock start now)).1 ∧
    (ValkeyKV.perform db now c).2.Simulates start
      (c.perform kv (InMemoryKV.clock start now)).2 now := by
  rcases hc.cases with ⟨key, rfl, hkey⟩ | ⟨key, value, ttlS, rfl, hkey, hpos⟩ | ⟨job, rfl⟩ |
    ⟨key, expected, rfl, hkey⟩
  · refine ⟨congrArg KvResult.value (h.entries key hkey now le_rfl), fun key' hkey' t ht ↦ ?_,
      h.counters⟩
    rw [KvCall.perform, InMemoryKV.live_get (InMemoryKV.clock_le ht)]
    exact h.entries key' hkey' t ht
  · obtain ⟨hans, hsim⟩ := h.setIfAbsent hkey value hpos
    exact ⟨congrArg KvResult.flag hans, hsim⟩
  · obtain ⟨hans, hsim⟩ := h.incr job
    rw [ValkeyKV.perform]
    cases hx : db.incr now (tokenKey job.str) with
    | mk n db' =>
      rw [hx] at hans hsim
      obtain rfl : n = _ := hans
      exact ⟨rfl, hsim⟩
  · obtain ⟨hans, hsim⟩ := h.compareAndDelete hkey expected
    exact ⟨congrArg KvResult.flag hans, hsim⟩

/-- **A run**: the same results call by call, from stores that are indistinguishable. -/
theorem Simulates.results : ∀ {calls : List (ℕ × KvCall ℚ)} {db : Valkey} {kv : InMemoryKV ℚ}
    {now : ℕ}, db.Simulates start kv now → (∀ x ∈ calls, now ≤ x.1) →
    calls.Pairwise (fun x y ↦ x.1 ≤ y.1) → (∀ x ∈ calls, Issued x.2) →
    ValkeyKV.results db calls = InMemoryKV.results start kv calls
  | [], _, _, _, _, _, _, _ => rfl
  | (t, c) :: calls, db, kv, now, h, hnow, hmono, hissued => by
    obtain ⟨hle, hmono⟩ := List.pairwise_cons.1 hmono
    have ht := h.later (hnow _ List.mem_cons_self)
    obtain ⟨hans, hsim⟩ := ht.perform (hissued _ List.mem_cons_self)
    rw [ValkeyKV.results, InMemoryKV.results, hans,
      hsim.results hle hmono fun x hx ↦ hissued x (List.mem_cons_of_mem _ hx)]

end Valkey

/-- **The stores agree**: for every sequence of calls that leases and guard make, at milliseconds
that do not decrease, the in-memory store and the production store return the same results call by
call. -/
theorem results_eq (start : ℚ) {calls : List (ℕ × KvCall ℚ)}
    (hmono : calls.Pairwise fun x y ↦ x.1 ≤ y.1) (hissued : ∀ x ∈ calls, Issued x.2) :
    InMemoryKV.results start .empty calls = ValkeyKV.results .empty calls :=
  ((Valkey.Simulates.empty start).results (fun _ _ ↦ Nat.zero_le _) hmono hissued).symm

/-- A lease of a third of a second, contended one millisecond before and at its rounded end. -/
def contention (job : Uuid) : List (ℕ × KvCall ℚ) :=
  [(0, .incr (tokenKey job.str)), (0, .setIfAbsent (leaseKey job.str) (leaseValue "w" 1) (1 / 3)),
    (333, .setIfAbsent (leaseKey job.str) (leaseValue "v" 2) (1 / 3)),
    (334, .setIfAbsent (leaseKey job.str) (leaseValue "v" 2) (1 / 3)),
    (334, .compareAndDelete (leaseKey job.str) (leaseValue "w" 1))]

/-- Two workers contend for one lease, and the second gets it when the first one has expired. -/
theorem results_eq_contention :
    InMemoryKV.results (7 / 2) .empty (contention ⟨1⟩) =
      [.number 1, .flag true, .flag false, .flag true, .flag false] := by
  have hvalkey : ValkeyKV.results .empty (contention ⟨1⟩) =
      [.number 1, .flag true, .flag false, .flag true, .flag false] := by decide +kernel
  refine (results_eq (7 / 2) (by decide) ?_).trans hvalkey
  have hset : ∀ holder token, Issued (.setIfAbsent (leaseKey (⟨1⟩ : Uuid).str)
      (leaseValue holder token) (1 / 3)) := fun holder token ↦
    .acquire ⟨1⟩ holder (by norm_num) (.later (r := .ok token) (.first _ _))
  intro x hx
  simp only [contention, List.mem_cons, List.not_mem_nil, or_false] at hx
  rcases hx with rfl | rfl | rfl | rfl | rfl
  · exact .acquire ⟨1⟩ "w" (by norm_num : (0 : ℚ) < 1 / 3) (.first _ _)
  · exact hset "w" 1
  · exact hset "v" 2
  · exact hset "v" 2
  · exact .release ⟨1⟩ "w" 1 (.first _ _)

end Orbiter
