import Orbiter.Foundation.Records
import Orbiter.Kv.Store

/-!
# The store with its history

A store, a clock, and the list of the calls it served: who called, when, and the answer. The list is
an observation; no call reads it. What is proved here holds of every store that is used through its
four calls, whoever uses it and for whatever keys:

* a live entry was written by the last set of its key that succeeded (`Recorded.origin`);
* an entry stays until its time to live has elapsed or a deletion of its very value succeeds
  (`Recorded.kept`), so two sets of one key that both succeed are that far apart (`Recorded.apart`);
* a deletion that succeeds removes what the last set wrote (`Recorded.removed`);
* the answers of a counter increase (`Recorded.increasing`).

## How it is used

Places in the history are numbers, and `At i x` says that the `i`-th call was `x`. `Untaken key i k`
says that no set of `key` succeeded strictly between two places, which is how "the last set" is said
without a search. `Recorded.serve` and `Recorded.later` keep the record over a call and over time
passing, so a system that only serves calls and lets time pass has it in every reachable state.

From there on a proof about leases or claims is about numbers: who made which call, and what stands
between. `LastTook.eq` says that the last set is one call, hence one caller's.
-/

namespace Orbiter

variable {ω τ : Type}

/-- A call as the store served it. -/
structure Served (ω τ : Type) where
  who : ω
  time : τ
  call : KvCall τ
  answer : call.Resp

namespace Served

/-- A set that succeeded: its key, value and time to live. -/
def took? (x : Served ω τ) : Option (String × String × τ) :=
  match x.call, x.answer with
  | .setIfAbsent key value ttlS, (taken : Bool) => if taken then some (key, value, ttlS) else none
  | _, _ => none

/-- A deletion that succeeded: its key and the value it named. -/
def dropped? (x : Served ω τ) : Option (String × String) :=
  match x.call, x.answer with
  | .compareAndDelete key expected, (deleted : Bool) =>
    if deleted then some (key, expected) else none
  | _, _ => none

/-- The number drawn from a counter. -/
def drew? (x : Served ω τ) : Option (String × ℕ) :=
  match x.call, x.answer with
  | .incr key, (n : ℕ) => some (key, n)
  | _, _ => none

end Served

/-- The store, the clock and the calls served so far. -/
structure TracedKV (ω τ : Type) where
  kv : InMemoryKV τ
  now : τ
  trace : List (Served ω τ)

namespace TracedKV

variable [LinearOrder τ] [Add τ]

/-- What a call is answered. -/
def answer (s : TracedKV ω τ) (c : KvCall τ) : c.Resp := (c.perform s.kv s.now).1

/-- One call. -/
def serve (s : TracedKV ω τ) (who : ω) (c : KvCall τ) : TracedKV ω τ :=
  { s with
    kv := (c.perform s.kv s.now).2
    trace := s.trace ++ [⟨who, s.now, c, s.answer c⟩] }

omit [LinearOrder τ] in
/-- Time passes. -/
def later (s : TracedKV ω τ) (d : τ) : TracedKV ω τ := { s with now := s.now + d }

/-- The live entry of a key. -/
def live (s : TracedKV ω τ) (key : String) : Option (Entry τ) := s.kv.live s.now key

omit [LinearOrder τ] [Add τ] in
/-- Call number `i` was `x`. -/
def At (s : TracedKV ω τ) (i : ℕ) (x : Served ω τ) : Prop := s.trace[i]? = some x

omit [LinearOrder τ] [Add τ] in
/-- No set of the key succeeded after call number `i` and before call number `k`. -/
def Untaken (s : TracedKV ω τ) (key : String) (i k : ℕ) : Prop :=
  ∀ m z, i < m → m < k → s.At m z → ∀ v t, z.took? ≠ some (key, v, t)

/-- What the history says about the store. -/
structure Recorded (s : TracedKV ω τ) : Prop where
  /-- Nothing is served in the future. -/
  past : ∀ {i x}, s.At i x → x.time ≤ s.now
  /-- Calls are listed in the order of time. -/
  chronological : ∀ {i k x y}, i < k → s.At i x → s.At k y → x.time ≤ y.time
  /-- A live entry was written by the last set of its key. -/
  origin : ∀ {key e}, s.live key = some e → ∃ i x ttlS, s.At i x ∧
    x.took? = some (key, e.value, ttlS) ∧ e.expiresAt = some (x.time + ttlS) ∧
    s.Untaken key i s.trace.length
  /-- What was written stays until it expires or is deleted by its value. -/
  kept : ∀ {i x key value ttlS}, s.At i x → x.took? = some (key, value, ttlS) →
    x.time + ttlS ≤ s.now ∨
    (∃ k y, i < k ∧ s.At k y ∧ y.dropped? = some (key, value) ∧ s.Untaken key i k) ∨
    s.live key = some ⟨value, some (x.time + ttlS)⟩ ∧ s.Untaken key i s.trace.length
  /-- Two sets of one key: the first had expired or was deleted in between. -/
  apart : ∀ {i k x y key value ttlS value' ttlS'}, i < k → s.At i x → s.At k y →
    x.took? = some (key, value, ttlS) → y.took? = some (key, value', ttlS') →
    x.time + ttlS ≤ y.time ∨
    ∃ m z, i < m ∧ m < k ∧ s.At m z ∧ z.dropped? = some (key, value) ∧ s.Untaken key i m
  /-- A deletion removes what the last set before it wrote. -/
  removed : ∀ {k y key value}, s.At k y → y.dropped? = some (key, value) →
    ∃ i x ttlS, i < k ∧ s.At i x ∧ x.took? = some (key, value, ttlS) ∧ s.Untaken key i k
  /-- A counter stands at the last number it gave out. -/
  drew_le : ∀ {i x key n}, s.At i x → x.drew? = some (key, n) → n ≤ s.kv.counters key
  /-- Counters count. -/
  increasing : ∀ {i k x y key n n'}, i < k → s.At i x → s.At k y → x.drew? = some (key, n) →
    y.drew? = some (key, n') → n < n'

/-! ### One call -/

section Serve

variable (s : TracedKV ω τ) (who : ω) (c : KvCall τ)

/-- The call just made. -/
def newest : Served ω τ := ⟨who, s.now, c, s.answer c⟩

variable {s who c}

/-- A call does not change what was served before it. -/
theorem at_serve_of_at {i : ℕ} {x : Served ω τ} (h : s.At i x) : (s.serve who c).At i x :=
  List.getElem?_concat_of_some h _

/-- The newest entry of the history is the call just served. -/
theorem at_serve_newest : (s.serve who c).At s.trace.length (s.newest who c) :=
  List.getElem?_concat_length

/-- An entry of the history is an old one, or the call just served. -/
theorem at_serve {i : ℕ} {x : Served ω τ} (h : (s.serve who c).At i x) :
    s.At i x ∨ (i = s.trace.length ∧ x = s.newest who c) := by
  rcases List.getElem?_concat_eq_some h with hold | ⟨-, hi, hx⟩
  · exact .inl hold
  · exact .inr ⟨hi, hx⟩

/-- A set succeeds when the key is free. -/
theorem took?_newest {key value : String} {ttlS : τ} :
    (s.newest who c).took? = some (key, value, ttlS) ↔
      c = .setIfAbsent key value ttlS ∧ s.live key = none := by
  cases c with
  | get | incr | compareAndDelete => simp [newest, Served.took?]
  | setIfAbsent key' value' ttlS' =>
    have hans : s.answer (.setIfAbsent key' value' ttlS') = (s.live key').isNone :=
      InMemoryKV.setIfAbsent_fst ..
    simp only [newest, Served.took?, hans]
    constructor
    · intro h
      split at h
      · next hfree =>
        obtain ⟨rfl, rfl, rfl⟩ := by simpa using h
        exact ⟨rfl, Option.isNone_iff_eq_none.1 hfree⟩
      · exact absurd h (by simp)
    · rintro ⟨heq, hfree⟩
      obtain ⟨rfl, rfl, rfl⟩ := by simpa using heq
      rw [hfree]
      rfl

/-- A deletion succeeds when the live entry has the value it names. -/
theorem dropped?_newest {key value : String} :
    (s.newest who c).dropped? = some (key, value) ↔
      c = .compareAndDelete key value ∧ ∃ e, s.live key = some e ∧ e.value = value := by
  cases c with
  | get | incr | setIfAbsent => simp [newest, Served.dropped?]
  | compareAndDelete key' value' =>
    have hans : s.answer (.compareAndDelete key' value') =
        (s.live key').any fun e ↦ e.value = value' := InMemoryKV.compareAndDelete_fst ..
    simp only [newest, Served.dropped?, hans]
    constructor
    · intro h
      split at h
      · next hmatch =>
        obtain ⟨rfl, rfl⟩ := by simpa using h
        obtain ⟨e, he, hv⟩ := (Option.any_eq_true _ _).1 hmatch
        exact ⟨rfl, e, he, of_decide_eq_true hv⟩
      · exact absurd h (by simp)
    · rintro ⟨heq, e, he, rfl⟩
      obtain ⟨rfl, rfl⟩ := by simpa using heq
      rw [he]
      simp

/-- A call draws a number if it is an increment, and draws the next one. -/
theorem drew?_newest {key : String} {n : ℕ} :
    (s.newest who c).drew? = some (key, n) ↔ c = .incr key ∧ n = s.kv.counters key + 1 := by
  cases c with
  | get | setIfAbsent | compareAndDelete => simp [newest, Served.drew?]
  | incr key' =>
    have hans : s.answer (.incr key') = s.kv.counters key' + 1 := rfl
    simp only [newest, Served.drew?, hans, Option.some.injEq, KvCall.incr.injEq]
    constructor
    · rintro ⟨⟩
      exact ⟨rfl, rfl⟩
    · rintro ⟨rfl, rfl⟩
      rfl

theorem counters_serve (key : String) :
    s.kv.counters key ≤ (s.serve who c).kv.counters key := by
  show _ ≤ (c.perform s.kv s.now).2.counters key
  cases c with
  | incr key' =>
    rw [KvCall.perform, InMemoryKV.counters_incr]
    split
    · next hk => exact hk ▸ Nat.le_succ _
    · exact le_rfl
  | get key' => rw [KvCall.perform, InMemoryKV.counters_get]
  | setIfAbsent key' value ttlS => rw [KvCall.perform, InMemoryKV.counters_setIfAbsent]
  | compareAndDelete key' expected => rw [KvCall.perform, InMemoryKV.counters_compareAndDelete]

/-- What is live after a call was live before it, or the call wrote it. -/
theorem live_serve {key : String} {e : Entry τ} (h : (s.serve who c).live key = some e) :
    s.live key = some e ∨ ∃ ttlS, (s.newest who c).took? = some (key, e.value, ttlS) ∧
      e.expiresAt = some (s.now + ttlS) := by
  rcases c.live_of_perform le_rfl h with hold | ⟨value, ttlS, rfl, hfree, rfl⟩
  · exact .inl hold
  · exact .inr ⟨ttlS, took?_newest.2 ⟨rfl, hfree⟩, rfl⟩

/-- What is live before a call is live after it, or the call deleted it. -/
theorem live_serve_of_live {key : String} {e : Entry τ} (h : s.live key = some e) :
    (s.serve who c).live key = some e ∨ (s.newest who c).dropped? = some (key, e.value) := by
  by_cases hc : c = .compareAndDelete key e.value
  · exact .inr (dropped?_newest.2 ⟨hc, e, h, rfl⟩)
  · exact .inl (KvCall.live_perform_of_live le_rfl h hc)

end Serve

/-! ### The record is kept -/

variable {s : TracedKV ω τ}

theorem Recorded.empty (t : τ) : (⟨.empty, t, []⟩ : TracedKV ω τ).Recorded where
  past h := absurd h (by simp [At])
  chronological _ h := absurd h (by simp [At])
  origin h := absurd h (by simp [live])
  kept h := absurd h (by simp [At])
  apart _ h := absurd h (by simp [At])
  removed h := absurd h (by simp [At])
  drew_le h := absurd h (by simp [At])
  increasing _ h := absurd h (by simp [At])

omit [LinearOrder τ] [Add τ] in
theorem At.lt_length {i : ℕ} {x : Served ω τ} (h : s.At i x) : i < s.trace.length :=
  List.lt_length_of_getElem? h

/-- A pair of calls after a call: both are old, or the second is the new one. -/
theorem at_serve_pair {who : ω} {c : KvCall τ} {i k : ℕ} {x y : Served ω τ} (hik : i < k)
    (hx : (s.serve who c).At i x) (hy : (s.serve who c).At k y) :
    s.At i x ∧ (s.At k y ∨ k = s.trace.length ∧ y = s.newest who c) := by
  rcases at_serve hy with hy | ⟨rfl, rfl⟩
  · rcases at_serve hx with hx | ⟨rfl, rfl⟩
    · exact ⟨hx, .inl hy⟩
    · exact absurd hy.lt_length (Nat.lt_asymm hik)
  · rcases at_serve hx with hx | ⟨rfl, rfl⟩
    · exact ⟨hx, .inr ⟨rfl, rfl⟩⟩
    · exact absurd hik (Nat.lt_irrefl _)

theorem Untaken.serve {who : ω} {c : KvCall τ} {key : String} {i k : ℕ} (h : s.Untaken key i k)
    (hk : k ≤ s.trace.length) : (s.serve who c).Untaken key i k := by
  intro m z him hmk hz
  rcases at_serve hz with hz | ⟨rfl, -⟩
  · exact h m z him hmk hz
  · exact absurd hk (Nat.not_le.2 hmk)

/-- A live key is not taken. -/
theorem Untaken.serve_length {who : ω} {c : KvCall τ} {key : String} {i : ℕ} {e : Entry τ}
    (h : s.Untaken key i s.trace.length) (hlive : s.live key = some e) :
    (s.serve who c).Untaken key i (s.serve who c).trace.length := by
  intro m z him hmk hz v t htook
  rcases at_serve hz with hz | ⟨-, rfl⟩
  · exact h m z him hz.lt_length hz v t htook
  · rw [(took?_newest.1 htook).2] at hlive
    exact absurd hlive (by simp)

/-- **The clause `kept` over a call**: the entry has expired, has been deleted by its value, or
stays. -/
theorem Recorded.kept_serve (hs : s.Recorded) (who : ω) (c : KvCall τ) {i : ℕ} {x : Served ω τ}
    {key value : String} {ttlS : τ} (hx : (s.serve who c).At i x)
    (htook : x.took? = some (key, value, ttlS)) :
    x.time + ttlS ≤ s.now ∨
    (∃ k y, i < k ∧ (s.serve who c).At k y ∧ y.dropped? = some (key, value) ∧
      (s.serve who c).Untaken key i k) ∨
    (s.serve who c).live key = some ⟨value, some (x.time + ttlS)⟩ ∧
      (s.serve who c).Untaken key i (s.serve who c).trace.length := by
  rcases at_serve hx with hx | ⟨rfl, rfl⟩
  · rcases hs.kept hx htook with hexp | ⟨k, y, hik, hy, hdrop, hun⟩ | ⟨hlive, hun⟩
    · exact .inl hexp
    · exact .inr (.inl ⟨k, y, hik, at_serve_of_at hy, hdrop, hun.serve hy.lt_length.le⟩)
    · rcases live_serve_of_live hlive with hlive' | hdrop
      · exact .inr (.inr ⟨hlive', hun.serve_length hlive⟩)
      · exact .inr (.inl ⟨_, _, hx.lt_length, at_serve_newest, hdrop, hun.serve le_rfl⟩)
  · obtain ⟨rfl, hfree⟩ := took?_newest.1 htook
    have hlive : (s.serve who (.setIfAbsent key value ttlS)).live key =
        if s.now < s.now + ttlS then some ⟨value, some (s.now + ttlS)⟩ else none :=
      InMemoryKV.live_setIfAbsent_self hfree value ttlS
    split at hlive
    · refine .inr (.inr ⟨hlive, fun m z him hmk hz ↦ ?_⟩)
      rcases at_serve hz with hz | ⟨rfl, -⟩
      · exact absurd hz.lt_length (Nat.lt_asymm him)
      · exact absurd him (Nat.lt_irrefl _)
    · next hle => exact .inl (not_lt.1 hle)

/-- **A call keeps the record.** -/
theorem Recorded.serve (hs : s.Recorded) (who : ω) (c : KvCall τ) :
    (s.serve who c).Recorded where
  past h := by
    rcases at_serve h with hold | ⟨-, rfl⟩
    · exact hs.past hold
    · exact le_rfl
  chronological hik hx hy := by
    obtain ⟨hx, hy | ⟨-, rfl⟩⟩ := at_serve_pair hik hx hy
    · exact hs.chronological hik hx hy
    · exact hs.past hx
  origin {key e} h := by
    rcases live_serve h with hold | ⟨ttlS, htook, hexp⟩
    · obtain ⟨i, x, ttlS, hx, htook, hexp, hun⟩ := hs.origin hold
      exact ⟨i, x, ttlS, at_serve_of_at hx, htook, hexp, hun.serve_length hold⟩
    · refine ⟨_, _, ttlS, at_serve_newest, htook, hexp, fun m z him _ hz ↦ ?_⟩
      rcases at_serve hz with hz | ⟨rfl, -⟩
      · exact absurd hz.lt_length (Nat.lt_asymm him)
      · exact absurd him (Nat.lt_irrefl _)
  kept := hs.kept_serve who c
  apart {i k x y key value ttlS value' ttlS'} hik hx hy htook htook' := by
    obtain ⟨hx, hy | ⟨rfl, rfl⟩⟩ := at_serve_pair hik hx hy
    · rcases hs.apart hik hx hy htook htook' with hexp | ⟨m, z, him, hmk, hz, hdrop, hun⟩
      · exact .inl hexp
      · exact .inr ⟨m, z, him, hmk, at_serve_of_at hz, hdrop, hun.serve hz.lt_length.le⟩
    · -- the key is free when the second set succeeds
      rcases hs.kept hx htook with hexp | ⟨m, z, him, hz, hdrop, hun⟩ | ⟨hlive, -⟩
      · exact .inl hexp
      · exact .inr ⟨m, z, him, hz.lt_length, at_serve_of_at hz, hdrop, hun.serve hz.lt_length.le⟩
      · rw [(took?_newest.1 htook').2] at hlive
        exact absurd hlive (by simp)
  removed {k y key value} hy hdrop := by
    rcases at_serve hy with hy | ⟨rfl, rfl⟩
    · obtain ⟨i, x, ttlS, hik, hx, htook, hun⟩ := hs.removed hy hdrop
      exact ⟨i, x, ttlS, hik, at_serve_of_at hx, htook, hun.serve hy.lt_length.le⟩
    · obtain ⟨-, e, hlive, rfl⟩ := dropped?_newest.1 hdrop
      obtain ⟨i, x, ttlS, hx, htook, -, hun⟩ := hs.origin hlive
      exact ⟨i, x, ttlS, hx.lt_length, at_serve_of_at hx, htook, hun.serve le_rfl⟩
  drew_le {i x key n} hx hdrew := by
    rcases at_serve hx with hx | ⟨-, rfl⟩
    · exact (hs.drew_le hx hdrew).trans (counters_serve key)
    · obtain ⟨rfl, rfl⟩ := drew?_newest.1 hdrew
      show _ ≤ (s.kv.incr key).2.counters key
      rw [InMemoryKV.counters_incr, if_pos rfl]
  increasing {i k x y key n n'} hik hx hy hn hn' := by
    obtain ⟨hx, hy | ⟨-, rfl⟩⟩ := at_serve_pair hik hx hy
    · exact hs.increasing hik hx hy hn hn'
    · obtain ⟨-, rfl⟩ := drew?_newest.1 hn'
      exact Nat.lt_succ_of_le (hs.drew_le hx hn)

theorem Recorded.later (hs : s.Recorded) {d : τ} (hd : s.now ≤ s.now + d) :
    (s.later d).Recorded where
  past h := (hs.past h).trans hd
  chronological := hs.chronological
  origin h := hs.origin (InMemoryKV.live_of_le hd h)
  kept hx htook := by
    rcases hs.kept hx htook with hexp | hdrop | ⟨hlive, hun⟩
    · exact .inl (hexp.trans hd)
    · exact .inr (.inl hdrop)
    · rcases InMemoryKV.live_or_expired hlive (s.now + d) with hexp | hlive
      · exact .inl hexp
      · exact .inr (.inr ⟨hlive, hun⟩)
  apart := hs.apart
  removed := hs.removed
  drew_le := hs.drew_le
  increasing := hs.increasing

/-! ### Who wrote the live entry -/

omit [LinearOrder τ] [Add τ] in
/-- Call number `i` is the last set of the key that succeeded. -/
def LastTook (s : TracedKV ω τ) (key : String) (i : ℕ) (x : Served ω τ) : Prop :=
  s.At i x ∧ (∃ v t, x.took? = some (key, v, t)) ∧ s.Untaken key i s.trace.length

/-- The key is live and `who` wrote the entry. -/
def Owns (s : TracedKV ω τ) (key : String) (who : ω) : Prop :=
  (s.live key).isSome ∧ ∃ i x, s.LastTook key i x ∧ x.who = who

omit [LinearOrder τ] [Add τ] in
/-- There is one last set of a key before a call. -/
theorem Untaken.eq {key v v' : String} {t t' : τ} {i k m : ℕ} {x y : Served ω τ}
    (hx : s.At i x) (hxt : x.took? = some (key, v, t)) (hxu : s.Untaken key i m)
    (hy : s.At k y) (hyt : y.took? = some (key, v', t')) (hyu : s.Untaken key k m)
    (him : i < m) (hkm : k < m) : i = k ∧ x = y := by
  rcases Nat.lt_trichotomy i k with hlt | rfl | hlt
  · exact absurd hyt (hxu k y hlt hkm hy v' t')
  · exact ⟨rfl, Option.some.inj (hx.symm.trans hy)⟩
  · exact absurd hxt (hyu i x hlt him hx v t)

omit [LinearOrder τ] [Add τ] in
theorem LastTook.eq {key : String} {i k : ℕ} {x y : Served ω τ} (hx : s.LastTook key i x)
    (hy : s.LastTook key k y) : i = k ∧ x = y := by
  obtain ⟨hxat, ⟨v, t, hv⟩, hxu⟩ := hx
  obtain ⟨hyat, ⟨v', t', hv'⟩, hyu⟩ := hy
  exact Untaken.eq hxat hv hxu hyat hv' hyu hxat.lt_length hyat.lt_length

theorem Recorded.lastTook (hs : s.Recorded) {key : String} {e : Entry τ}
    (h : s.live key = some e) :
    ∃ i x ttlS, s.LastTook key i x ∧ x.took? = some (key, e.value, ttlS) := by
  obtain ⟨i, x, ttlS, hx, htook, -, hun⟩ := hs.origin h
  exact ⟨i, x, ttlS, ⟨hx, ⟨_, _, htook⟩, hun⟩, htook⟩

end TracedKV

end Orbiter
