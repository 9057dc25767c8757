import Mathlib.Data.Rat.Defs
import Mathlib.Algebra.Order.Ring.Rat
import Orbiter.Foundation.TransitionSystem
import Orbiter.Kv.Trace
import Orbiter.Leases.Fencing

/-!
# Leases under interleaving

Any number of `acquire` and `release` calls on any resources, one call to the store at a time, with
the clock moving in between. A lease may be released as often as its holder likes, also long after
it expired, and its holder may present its token to the fenced resource at any time. A caller that
pauses or dies is one that is not resumed.

Time is rational seconds. Calls are numbered from the first one made, and the history of the store
names the number of the call, so "the entry this very lease wrote" is a matter of record and not of
comparing texts.

* `follows_acquire` — the control points of a call are the program of `Leases.Fencing`;
* `Leasing`, `LeaseStep` — the state: the traced store, the calls, and the fenced resource with what
  it has accepted;
* `Move`, `move_of_step` — what a step can do, one constructor for each. Later modules go through it
  and do not unfold `step`;
* `Move.lease?_of_some`, `Move.lease?_cases` — the leases before and after a step: what was granted
  stays granted, and what is new was granted by this very call.
-/

namespace Orbiter

open LeaseManager

/-- Where an `acquire` call is suspended. -/
inductive AcquirePc
  | drawToken
  | setLease (token : ℕ)
  | finished (lease : Option Lease)

/-- An `acquire` call. -/
structure AcquireCall where
  resource : String
  holder : String
  pc : AcquirePc

namespace AcquireCall

/-- The call awaited and where the answer leads. -/
def view (ttlS : ℚ) (resource holder : String) :
    Prog.View (KvCall ℚ) KvCall.Resp Empty (Option Lease) AcquirePc
  | .drawToken => .inr ⟨.incr (tokenKey resource), fun
      | .ok (token : ℕ) => .setLease token⟩
  | .setLease token =>
      .inr ⟨.setIfAbsent (leaseKey resource) (leaseValue holder token) ttlS, fun
        | .ok (acquired : Bool) =>
          .finished (if acquired then some ⟨resource, holder, token⟩ else none)⟩
  | .finished lease => .inl (.ok lease)

/-- The control points are the program. -/
theorem follows_acquire (ttlS : ℚ) (resource holder : String) :
    Prog.Follows (view ttlS resource holder) .drawToken (acquire ttlS resource holder) := by
  refine Prog.Follows.of_call rfl rfl (fun token ↦ ?_) fun e ↦ e.elim
  refine Prog.Follows.of_call rfl rfl (fun acquired ↦ ?_) fun e ↦ e.elim
  match acquired with
  | true => rfl
  | false => rfl

end AcquireCall

/-- The store, the `acquire` calls and the fenced resource. -/
structure Leasing where
  store : TracedKV ℕ ℚ
  calls : List AcquireCall
  writer : FencedWriter

inductive LeaseStep
  | acquire (resource holder : String)
  /-- Call number `i` makes its next call to the store. -/
  | resume (i : ℕ)
  /-- `release` of the lease that call number `i` returned. -/
  | release (i : ℕ)
  /-- A write under the token of that lease. -/
  | write (i : ℕ)
  | advance (seconds : ℚ)

namespace Leasing

/-- The lease call number `i` returned. -/
def lease? (s : Leasing) (i : ℕ) : Option Lease :=
  match s.calls[i]? with
  | some ⟨_, _, .finished lease⟩ => lease
  | _ => none

/-- The call `release` makes. -/
def releaseCall (lease : Lease) : KvCall ℚ :=
  .compareAndDelete (leaseKey lease.resource) (leaseValue lease.holder lease.token)

theorem release_eq (lease : Lease) :
    (LeaseManager.release lease : KvProg ℚ Empty Bool) = Prog.await (releaseCall lease) := rfl

/-- The step function. -/
def step (ttlS : ℚ) (s : Leasing) : LeaseStep → Option Leasing
  | .acquire resource holder => some { s with calls := s.calls ++ [⟨resource, holder, .drawToken⟩] }
  | .resume i =>
    match s.calls[i]? with
    | none => none
    | some a =>
      match AcquireCall.view ttlS a.resource a.holder a.pc with
      | .inl _ => none
      | .inr ⟨c, k⟩ => some { s with
          store := s.store.serve i c
          calls := s.calls.set i { a with pc := k (.ok (s.store.answer c)) } }
  | .release i => (s.lease? i).map fun l ↦ { s with store := s.store.serve i (releaseCall l) }
  | .write i => (s.lease? i).map fun l ↦
      match s.writer.check l.resource l.token with
      | .error _ => s
      | .ok writer => { s with writer := writer }
  | .advance seconds => if 0 ≤ seconds then some { s with store := s.store.later seconds } else none

/-- All runs from the empty store. -/
def system (ttlS : ℚ) : TransitionSystem Leasing LeaseStep where
  init s := ∃ t, s = ⟨⟨.empty, t, []⟩, [], .empty⟩
  step := step ttlS

theorem lease?_eq_some {s : Leasing} {i : ℕ} {l : Lease} :
    s.lease? i = some l ↔ ∃ a, s.calls[i]? = some a ∧ a.pc = .finished (some l) := by
  rw [lease?]
  constructor
  · intro h
    split at h
    · next r hd lease hget =>
      subst h
      exact ⟨_, hget, rfl⟩
    · exact absurd h (by simp)
  · rintro ⟨⟨r, hd, pc⟩, hget, rfl⟩
    rw [hget]

/-! ### What a step can do -/

/-- The steps, each with what it finds and what it leaves. -/
inductive Move (ttlS : ℚ) (s : Leasing) : LeaseStep → Leasing → Prop
  | began (resource holder : String) : Move ttlS s (.acquire resource holder)
      { s with calls := s.calls ++ [⟨resource, holder, .drawToken⟩] }
  | drew {i : ℕ} {r hd : String} (hget : s.calls[i]? = some ⟨r, hd, .drawToken⟩) :
      Move ttlS s (.resume i)
        { s with
          store := s.store.serve i (.incr (tokenKey r))
          calls := s.calls.set i ⟨r, hd, .setLease (s.store.kv.counters (tokenKey r) + 1)⟩ }
  | won {i : ℕ} {r hd : String} {t : ℕ} (hget : s.calls[i]? = some ⟨r, hd, .setLease t⟩)
      (hfree : s.store.live (leaseKey r) = none) :
      Move ttlS s (.resume i)
        { s with
          store := s.store.serve i (.setIfAbsent (leaseKey r) (leaseValue hd t) ttlS)
          calls := s.calls.set i ⟨r, hd, .finished (some ⟨r, hd, t⟩)⟩ }
  | lost {i : ℕ} {r hd : String} {t : ℕ} (hget : s.calls[i]? = some ⟨r, hd, .setLease t⟩)
      (hheld : s.store.live (leaseKey r) ≠ none) :
      Move ttlS s (.resume i)
        { s with
          store := s.store.serve i (.setIfAbsent (leaseKey r) (leaseValue hd t) ttlS)
          calls := s.calls.set i ⟨r, hd, .finished none⟩ }
  | released {i : ℕ} {l : Lease} (hl : s.lease? i = some l) :
      Move ttlS s (.release i) { s with store := s.store.serve i (releaseCall l) }
  | accepted {i : ℕ} {l : Lease} {writer : FencedWriter} (hl : s.lease? i = some l)
      (hok : s.writer.check l.resource l.token = .ok writer) :
      Move ttlS s (.write i) { s with writer := writer }
  | refused {i : ℕ} {l : Lease} (hl : s.lease? i = some l) : Move ttlS s (.write i) s
  | advanced {seconds : ℚ} (h : 0 ≤ seconds) :
      Move ttlS s (.advance seconds) { s with store := s.store.later seconds }

theorem move_of_step {ttlS : ℚ} {s s' : Leasing} {a : LeaseStep} (h : s.step ttlS a = some s') :
    Move ttlS s a s' := by
  cases a with
  | acquire resource holder =>
    obtain rfl := Option.some.inj h
    exact .began resource holder
  | resume i =>
    rw [step] at h
    split at h
    · exact absurd h (by simp)
    · next a hget =>
      obtain ⟨r, hd, pc⟩ := a
      match pc with
      | .drawToken =>
        obtain rfl := Option.some.inj h
        exact .drew hget
      | .setLease t =>
        obtain rfl := Option.some.inj h
        have hans : s.store.answer (.setIfAbsent (leaseKey r) (leaseValue hd t) ttlS) =
            (s.store.live (leaseKey r)).isNone := InMemoryKV.setIfAbsent_fst ..
        simp only [hans]
        cases hl : s.store.live (leaseKey r) with
        | none => exact .won hget hl
        | some e => exact .lost hget (by simp [hl])
      | .finished lease => exact absurd h (by simp [AcquireCall.view])
  | release i =>
    obtain ⟨l, hl, rfl⟩ := Option.map_eq_some_iff.1 h
    exact .released hl
  | write i =>
    obtain ⟨l, hl, rfl⟩ := Option.map_eq_some_iff.1 h
    cases hc : s.writer.check l.resource l.token with
    | error e => exact .refused hl
    | ok writer => exact .accepted hl hc
  | advance seconds =>
    rw [step] at h
    split at h
    · next hs =>
      obtain rfl := Option.some.inj h
      exact .advanced hs
    · exact absurd h (by simp)

section Calls

variable {s : Leasing} {i k : ℕ} {l : Lease} {a : AcquireCall}

/-- A call that moves on has returned no lease before. -/
theorem lease?_of_set {b : AcquireCall} (hget : s.calls[i]? = some a)
    (hpc : ∀ l, a.pc ≠ .finished (some l)) {store : TracedKV ℕ ℚ} (hl : s.lease? k = some l) :
    (⟨store, s.calls.set i b, s.writer⟩ : Leasing).lease? k = some l := by
  obtain ⟨c, hc, hfin⟩ := lease?_eq_some.1 hl
  refine lease?_eq_some.2 ⟨c, ?_, hfin⟩
  rw [List.getElem?_set_ne, hc]
  rintro rfl
  obtain rfl := Option.some.inj (hget.symm.trans hc)
  exact hpc l hfin

/-- After one call has moved, the leases are the old ones and the one it was granted. -/
theorem lease?_set {b : AcquireCall} {store : TracedKV ℕ ℚ}
    (hl : (⟨store, s.calls.set i b, s.writer⟩ : Leasing).lease? k = some l) :
    s.lease? k = some l ∨ (k = i ∧ b.pc = .finished (some l)) := by
  obtain ⟨c, hc, hfin⟩ := lease?_eq_some.1 hl
  rcases List.getElem?_set_eq_some hc with ⟨rfl, rfl⟩ | ⟨-, hold⟩
  · exact .inr ⟨rfl, hfin⟩
  · exact .inl (lease?_eq_some.2 ⟨c, hold, hfin⟩)

/-- **A lease, once returned, is its call's for good.** -/
theorem Move.lease?_of_some {ttlS : ℚ} {st : LeaseStep} {s' : Leasing} (h : Move ttlS s st s')
    (hl : s.lease? k = some l) : s'.lease? k = some l := by
  cases h with
  | began r hd =>
    obtain ⟨c, hc, hfin⟩ := lease?_eq_some.1 hl
    exact lease?_eq_some.2 ⟨c, List.getElem?_concat_of_some hc _, hfin⟩
  | drew hget | won hget _ | lost hget _ => exact lease?_of_set hget (by simp) hl
  | released _ | accepted _ _ | refused _ | advanced _ => exact hl

/-- Where a lease comes from. -/
theorem Move.lease?_cases {ttlS : ℚ} {st : LeaseStep} {s' : Leasing} (h : Move ttlS s st s')
    (hl : s'.lease? k = some l) :
    s.lease? k = some l ∨
    ∃ r hd t, st = .resume k ∧ s.calls[k]? = some ⟨r, hd, .setLease t⟩ ∧
      s.store.live (leaseKey r) = none ∧ l = ⟨r, hd, t⟩ ∧
      s'.store = s.store.serve k (.setIfAbsent (leaseKey r) (leaseValue hd t) ttlS) := by
  cases h with
  | began r hd =>
    obtain ⟨c, hc, hfin⟩ := lease?_eq_some.1 hl
    rcases List.getElem?_concat_eq_some hc with hold | ⟨-, -, rfl⟩
    · exact .inl (lease?_eq_some.2 ⟨c, hold, hfin⟩)
    · exact absurd hfin (by simp)
  | won hget hfree =>
    rcases lease?_set hl with hold | ⟨rfl, hfin⟩
    · exact .inl hold
    · obtain rfl := by simpa using hfin
      exact .inr ⟨_, _, _, rfl, hget, hfree, rfl, rfl⟩
  | drew hget | lost hget _ =>
    rcases lease?_set hl with hold | ⟨rfl, hfin⟩
    · exact .inl hold
    · exact absurd hfin (by simp)
  | released _ | accepted _ _ | refused _ | advanced _ => exact .inl hl

end Calls

end Leasing

end Orbiter
