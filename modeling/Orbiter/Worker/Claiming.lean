import Mathlib.Data.Rat.Defs
import Mathlib.Algebra.Order.Ring.Rat
import Orbiter.Foundation.TransitionSystem
import Orbiter.Kv.Trace
import Orbiter.Worker.Idempotency

/-!
# The execution guard under interleaving

Deliveries of jobs to workers, each using the guard: `try_claim`, `mark_done` and `release_claim`,
one call to the store at a time, with the clock moving in between. A delivery may end at any point,
because `handle` returned, raised, or the process died.

The system itself puts no order on the operations. How `handle` uses the guard is the condition
`asHandled` on the steps: a worker takes a delivery when its last one has ended, claims first, and
marks or releases only what it claimed.

Time is rational seconds, and the history of the store names the number of the delivery.

## Contents

* `follows_tryClaim`, `follows_markDone`, `follows_releaseClaim` — the control points are the three
  operations of the guard;
* `Claiming`, `ClaimStep`, `asHandled` — the system and the condition;
* `Move`, `move_of_step` — what a step can do, and `eq_of_view_setIfAbsent` with its companions:
  which call a control point makes, read backwards from the call;
* `GuardedDelivery.Becomes` — what stays of a delivery over a step: worker, job and attempt. A
  delivery is found again after a step (`Move.delivery_of_some`), and the calls in the history keep
  their places (`Move.at_of_at`, `Move.untaken`).
-/

namespace Orbiter

open ExecutionGuard

/-- Where a delivery stands in its use of the guard. -/
inductive GuardPc
  /-- `try_claim`: read the done marker. -/
  | readDone
  /-- `try_claim`: take the claim. -/
  | setClaim
  /-- `mark_done`: set the marker. -/
  | setDone
  /-- `mark_done`: delete the claim. -/
  | clearClaim
  /-- `release_claim`. -/
  | dropClaim
  /-- Between two operations; what a `try_claim` that has just ended returned. -/
  | returned (claim : Option ClaimResult)
  deriving DecidableEq

namespace GuardPc

variable (claimTtlS doneTtlS : ℚ) (jobId delivery : String)

/-- The call awaited and where the answer leads. -/
def view : Prog.View (KvCall ℚ) KvCall.Resp Empty (Option ClaimResult) GuardPc
  | readDone => .inr ⟨.get (doneKey jobId), fun
      | .ok (done : Option String) =>
        if done.isSome then returned (some .alreadyDone) else setClaim⟩
  | setClaim => .inr ⟨.setIfAbsent (claimKey jobId) delivery claimTtlS, fun
      | .ok (claimed : Bool) => returned (some (if claimed then .claimed else .inProgress))⟩
  | setDone => .inr ⟨.setIfAbsent (doneKey jobId) delivery doneTtlS, fun _ ↦ clearClaim⟩
  | clearClaim => .inr ⟨.compareAndDelete (claimKey jobId) delivery, fun _ ↦ returned none⟩
  | dropClaim => .inr ⟨.compareAndDelete (claimKey jobId) delivery, fun _ ↦ returned none⟩
  | returned claim => .inl (.ok claim)

/-! ### The control points are the three operations -/

theorem follows_tryClaim : Prog.Follows (view claimTtlS doneTtlS jobId delivery) readDone
    ((tryClaim claimTtlS jobId delivery).bind fun r ↦ .ret (some r)) := by
  refine Prog.Follows.of_call rfl rfl (fun done ↦ ?_) fun e ↦ e.elim
  match done with
  | some _ => rfl
  | none =>
    refine Prog.Follows.of_call rfl rfl (fun claimed ↦ ?_) fun e ↦ e.elim
    match claimed with
    | true => rfl
    | false => rfl

/-- Marking the job done, as the source writes it. -/
theorem follows_markDone : Prog.Follows (view claimTtlS doneTtlS jobId delivery) setDone
    ((markDone doneTtlS jobId delivery).bind fun _ ↦ .ret none) := by
  refine Prog.Follows.of_call rfl rfl (fun _ ↦ ?_) fun e ↦ e.elim
  exact Prog.Follows.of_call rfl rfl (fun _ ↦ rfl) fun e ↦ e.elim

theorem follows_releaseClaim : Prog.Follows (view claimTtlS doneTtlS jobId delivery) dropClaim
    ((releaseClaim jobId delivery).bind fun _ ↦ .ret none) :=
  Prog.Follows.of_call rfl rfl (fun _ ↦ rfl) fun e ↦ e.elim

end GuardPc

/-- The three operations. -/
inductive GuardOp
  | tryClaim
  | markDone
  | releaseClaim

/-- Where an operation begins. -/
def GuardOp.start : GuardOp → GuardPc
  | tryClaim => .readDone
  | markDone => .setDone
  | releaseClaim => .dropClaim

/-- A delivery that uses the guard. -/
structure GuardedDelivery where
  workerId : String
  jobId : String
  attempt : ℕ
  pc : GuardPc := .returned none
  /-- Its `try_claim` returned `CLAIMED`. -/
  claimed : Bool := false
  /-- `handle` is over. -/
  ended : Bool := false

namespace GuardedDelivery

/-- `f"{worker_id}:{attempt}"`. -/
def delivery (d : GuardedDelivery) : String := d.workerId ++ ":" ++ d.attempt.repr

/-- The delivery moves to `pc`. -/
def resumed (d : GuardedDelivery) (pc : GuardPc) : GuardedDelivery :=
  { d with pc := pc, claimed := d.claimed || pc = .returned (some .claimed) }

/-- What the delivery does next. -/
def view (claimTtlS doneTtlS : ℚ) (d : GuardedDelivery) :
    Except Empty (Option ClaimResult) ⊕ (Σ c : KvCall ℚ, Except Empty c.Resp → GuardPc) :=
  d.pc.view claimTtlS doneTtlS d.jobId d.delivery

/-- Worker and attempt can be read back from the text. -/
theorem delivery_inj {d d' : GuardedDelivery} (h : d.delivery = d'.delivery) :
    d.workerId = d'.workerId ∧ d.attempt = d'.attempt :=
  LeaseManager.leaseValue_inj h

end GuardedDelivery

/-- The store and the deliveries. -/
structure Claiming where
  store : TracedKV ℕ ℚ
  deliveries : List GuardedDelivery

inductive ClaimStep
  | deliver (workerId jobId : String) (attempt : ℕ)
  /-- Delivery number `i` begins an operation. -/
  | begin (i : ℕ) (op : GuardOp)
  /-- Delivery number `i` makes its next call to the store. -/
  | resume (i : ℕ)
  | finish (i : ℕ)
  | advance (seconds : ℚ)

namespace Claiming

/-- The step function. -/
def step (claimTtlS doneTtlS : ℚ) (s : Claiming) : ClaimStep → Option Claiming
  | .deliver workerId jobId attempt => some { s with
      deliveries := s.deliveries ++ [{ workerId := workerId, jobId := jobId, attempt := attempt }] }
  | .begin i op =>
    match s.deliveries[i]? with
    | none => none
    | some d =>
      match d.ended, d.pc with
      | false, .returned _ => some { s with
          deliveries := s.deliveries.set i { d with pc := op.start } }
      | _, _ => none
  | .resume i =>
    match s.deliveries[i]? with
    | none => none
    | some d =>
      match d.ended, d.view claimTtlS doneTtlS with
      | false, .inr ⟨c, k⟩ => some {
          store := s.store.serve i c
          deliveries := s.deliveries.set i (d.resumed (k (.ok (s.store.answer c)))) }
      | _, _ => none
  | .finish i =>
    some { s with deliveries := s.deliveries.modify i fun d ↦ { d with ended := true } }
  | .advance seconds => if 0 ≤ seconds then some { s with store := s.store.later seconds } else none

/-- All runs from the empty store. -/
def system (claimTtlS doneTtlS : ℚ) : TransitionSystem Claiming ClaimStep where
  init s := ∃ t, s = ⟨⟨.empty, t, []⟩, []⟩
  step := step claimTtlS doneTtlS

/-- The way `handle` uses the guard: the deliveries of a worker one after the other, `try_claim`
first and once, the other operations only after `CLAIMED`. -/
def asHandled (s : Claiming) : ClaimStep → Bool
  | .deliver workerId _ _ => s.deliveries.all fun d ↦ d.workerId = workerId → d.ended
  | .begin i op => (s.deliveries[i]?).any fun d ↦
      match op with
      | .tryClaim => !d.claimed && d.pc = .returned none
      | .markDone | .releaseClaim => d.claimed
  | _ => true

/-! ### What a step can do -/

/-- The steps, each with what it finds and what it leaves. -/
inductive Move (claimTtlS doneTtlS : ℚ) (s : Claiming) : ClaimStep → Claiming → Prop
  | delivered (workerId jobId : String) (attempt : ℕ) :
      Move claimTtlS doneTtlS s (.deliver workerId jobId attempt)
        { s with
          deliveries :=
            s.deliveries ++ [{ workerId := workerId, jobId := jobId, attempt := attempt }] }
  | begun {i : ℕ} {d : GuardedDelivery} (op : GuardOp) (hget : s.deliveries[i]? = some d)
      (hrun : d.ended = false) :
      Move claimTtlS doneTtlS s (.begin i op)
        { s with deliveries := s.deliveries.set i { d with pc := op.start } }
  | called {i : ℕ} {d : GuardedDelivery} {c : KvCall ℚ} {k : Except Empty c.Resp → GuardPc}
      (hget : s.deliveries[i]? = some d) (hrun : d.ended = false)
      (hview : d.view claimTtlS doneTtlS = .inr ⟨c, k⟩) :
      Move claimTtlS doneTtlS s (.resume i)
        ⟨s.store.serve i c, s.deliveries.set i (d.resumed (k (.ok (s.store.answer c))))⟩
  | finished (i : ℕ) : Move claimTtlS doneTtlS s (.finish i)
      { s with deliveries := s.deliveries.modify i fun d ↦ { d with ended := true } }
  | advanced {seconds : ℚ} (h : 0 ≤ seconds) :
      Move claimTtlS doneTtlS s (.advance seconds) { s with store := s.store.later seconds }

theorem move_of_step {claimTtlS doneTtlS : ℚ} {s s' : Claiming} {a : ClaimStep}
    (h : s.step claimTtlS doneTtlS a = some s') : Move claimTtlS doneTtlS s a s' := by
  cases a with
  | deliver workerId jobId attempt =>
    obtain rfl := Option.some.inj h
    exact .delivered workerId jobId attempt
  | begin i op =>
    rw [step] at h
    split at h
    · exact absurd h (by simp)
    · next d hget =>
      split at h
      · next hrun _ =>
        obtain rfl := Option.some.inj h
        exact .begun op hget hrun
      · exact absurd h (by simp)
  | resume i =>
    rw [step] at h
    split at h
    · exact absurd h (by simp)
    · next d hget =>
      split at h
      · next c k hrun hview =>
        obtain rfl := Option.some.inj h
        exact .called hget hrun hview
      · exact absurd h (by simp)
  | finish i =>
    obtain rfl := Option.some.inj h
    exact .finished i
  | advance seconds =>
    rw [step] at h
    split at h
    · next hs =>
      obtain rfl := Option.some.inj h
      exact .advanced hs
    · exact absurd h (by simp)

end Claiming

/-- A delivery and what may become of it: the same delivery, later. -/
structure GuardedDelivery.Becomes (d d' : GuardedDelivery) : Prop where
  workerId : d'.workerId = d.workerId
  jobId : d'.jobId = d.jobId
  attempt : d'.attempt = d.attempt
  claimed : d.claimed = true → d'.claimed = true
  ended : d.ended = true → d'.ended = true

namespace GuardedDelivery

variable {claimTtlS doneTtlS : ℚ} {d d' : GuardedDelivery} {key v : String} {t : ℚ}

theorem Becomes.refl (d : GuardedDelivery) : d.Becomes d := ⟨rfl, rfl, rfl, id, id⟩

theorem Becomes.delivery (h : d.Becomes d') : d'.delivery = d.delivery := by
  rw [GuardedDelivery.delivery, h.workerId, h.attempt, GuardedDelivery.delivery]

theorem becomes_resumed (d : GuardedDelivery) (pc : GuardPc) : d.Becomes (d.resumed pc) :=
  ⟨rfl, rfl, rfl, fun h ↦ by simp [resumed, h], id⟩

/-- An operation moves on to its second call or ends. -/
theorem eq_of_view {c : KvCall ℚ} {k : Except Empty c.Resp → GuardPc}
    (h : d.view claimTtlS doneTtlS = .inr ⟨c, k⟩) (r : c.Resp) :
    (d.pc = .readDone ∧ k (.ok r) = .setClaim) ∨ (d.pc = .setDone ∧ k (.ok r) = .clearClaim) ∨
    ∃ claim, k (.ok r) = .returned claim := by
  rw [view] at h
  cases hpc : d.pc <;> rw [hpc] at h <;> cases h
  · cases hr : Option.isSome r
    · exact .inl ⟨rfl, by simp [hr]⟩
    · exact .inr (.inr ⟨_, by simp [hr]; rfl⟩)
  · exact .inr (.inr ⟨_, rfl⟩)
  · exact .inr (.inl ⟨rfl, rfl⟩)
  · exact .inr (.inr ⟨_, rfl⟩)
  · exact .inr (.inr ⟨_, rfl⟩)

/-- `CLAIMED` is the answer of the set of the claim. -/
theorem eq_of_view_claimed {c : KvCall ℚ} {k : Except Empty c.Resp → GuardPc}
    (h : d.view claimTtlS doneTtlS = .inr ⟨c, k⟩) {s : TracedKV ℕ ℚ} (who : ℕ)
    (hr : k (.ok (s.answer c)) = .returned (some .claimed)) :
    (s.newest who c).took? = some (claimKey d.jobId, d.delivery, claimTtlS) := by
  rw [view] at h
  cases hpc : d.pc <;> rw [hpc] at h <;> cases h
  · cases hd : Option.isSome (s.answer (.get (doneKey d.jobId))) <;> simp [hd] at hr
  · refine TracedKV.took?_newest.2 ⟨rfl, ?_⟩
    have hans : s.answer (.setIfAbsent (claimKey d.jobId) d.delivery claimTtlS) =
        (s.live (claimKey d.jobId)).isNone := InMemoryKV.setIfAbsent_fst ..
    simp only [hans] at hr
    cases hl : s.live (claimKey d.jobId) with
    | none => rfl
    | some e => simp [hl] at hr
  · exact absurd hr (by simp)
  · exact absurd hr (by simp)
  · exact absurd hr (by simp)

/-- The sets a delivery makes. -/
theorem eq_of_view_setIfAbsent {k : Except Empty Bool → GuardPc}
    (h : d.view claimTtlS doneTtlS = .inr ⟨.setIfAbsent key v t, k⟩) :
    v = d.delivery ∧ (d.pc = .setClaim ∧ key = claimKey d.jobId ∧ t = claimTtlS ∨
      d.pc = .setDone ∧ key = doneKey d.jobId) := by
  rw [view] at h
  cases hpc : d.pc <;> rw [hpc] at h <;> cases h
  · exact ⟨rfl, .inl ⟨rfl, rfl, rfl⟩⟩
  · exact ⟨rfl, .inr ⟨rfl, rfl⟩⟩

/-- The deletions it makes. -/
theorem eq_of_view_compareAndDelete {k : Except Empty Bool → GuardPc}
    (h : d.view claimTtlS doneTtlS = .inr ⟨.compareAndDelete key v, k⟩) :
    key = claimKey d.jobId ∧ v = d.delivery ∧ (d.pc = .clearClaim ∨ d.pc = .dropClaim) := by
  rw [view] at h
  cases hpc : d.pc <;> rw [hpc] at h <;> cases h
  · exact ⟨rfl, rfl, .inl rfl⟩
  · exact ⟨rfl, rfl, .inr rfl⟩

end GuardedDelivery

namespace Claiming

section Moves

variable {claimTtlS doneTtlS : ℚ} {s s' : Claiming} {a : ClaimStep}
  (hm : Move claimTtlS doneTtlS s a s')

include hm

/-- Deliveries stay. -/
theorem Move.delivery_of_some {i : ℕ} {d : GuardedDelivery} (hget : s.deliveries[i]? = some d) :
    ∃ d', s'.deliveries[i]? = some d' ∧ d.Becomes d' := by
  have hlt := List.lt_length_of_getElem? hget
  cases hm with
  | delivered _ _ _ => exact ⟨d, List.getElem?_concat_of_some hget _, .refl d⟩
  | @begun k e op hk _ =>
    by_cases hik : k = i
    · subst hik
      obtain rfl := Option.some.inj (hk.symm.trans hget)
      exact ⟨_, List.getElem?_set_self hlt, rfl, rfl, rfl, id, id⟩
    · exact ⟨d, by rw [List.getElem?_set_ne hik, hget], .refl d⟩
  | @called k e c cont hk _ _ =>
    by_cases hik : k = i
    · subst hik
      obtain rfl := Option.some.inj (hk.symm.trans hget)
      exact ⟨_, List.getElem?_set_self hlt, e.becomes_resumed _⟩
    · exact ⟨d, by rw [List.getElem?_set_ne hik, hget], .refl d⟩
  | finished k =>
    refine ⟨_, by rw [List.getElem?_modify, hget, Option.map_eq_map, Option.map_some], ?_⟩
    split
    · exact ⟨rfl, rfl, rfl, id, fun _ ↦ rfl⟩
    · exact .refl d
  | advanced _ => exact ⟨d, hget, .refl d⟩

/-- A delivery was there before, or has just arrived. -/
theorem Move.delivery_cases {i : ℕ} {d' : GuardedDelivery} (hget : s'.deliveries[i]? = some d') :
    (∃ d, s.deliveries[i]? = some d ∧ d.Becomes d') ∨
    (i = s.deliveries.length ∧ a = .deliver d'.workerId d'.jobId d'.attempt ∧
      d'.pc = .returned none ∧ d'.claimed = false) := by
  have hlen : i < s.deliveries.length ∨ a = .deliver d'.workerId d'.jobId d'.attempt ∧
      i = s.deliveries.length ∧ d'.pc = .returned none ∧ d'.claimed = false := by
    have hlt := List.lt_length_of_getElem? hget
    cases hm with
    | delivered _ _ _ =>
      rcases List.getElem?_concat_eq_some hget with hold | ⟨-, hi, rfl⟩
      · exact .inl (List.lt_length_of_getElem? hold)
      · exact .inr ⟨rfl, hi, rfl, rfl⟩
    | begun _ _ _ | called _ _ _ => exact .inl (by simpa using hlt)
    | finished _ => exact .inl (by simpa using hlt)
    | advanced _ => exact .inl hlt
  rcases hlen with hlt | ⟨ha, hi, hpc, hc⟩
  · obtain ⟨d, hd⟩ : ∃ d, s.deliveries[i]? = some d := ⟨_, List.getElem?_eq_getElem hlt⟩
    obtain ⟨d'', hd'', hb⟩ := hm.delivery_of_some hd
    obtain rfl := Option.some.inj (hget.symm.trans hd'')
    exact .inl ⟨d, hd, hb⟩
  · exact .inr ⟨hi, ha, hpc, hc⟩

/-- The history only grows. -/
theorem Move.at_of_at {k : ℕ} {x : Served ℕ ℚ} (hx : s.store.At k x) : s'.store.At k x := by
  cases hm with
  | called _ _ _ => exact TracedKV.at_serve_of_at hx
  | delivered _ _ _ | begun _ _ _ | finished _ | advanced _ => exact hx

/-- What no set took before stays untaken. -/
theorem Move.untaken {key : String} {k m : ℕ} (h : s.store.Untaken key k m)
    (hle : m ≤ s.store.trace.length) : s'.store.Untaken key k m := by
  cases hm with
  | called _ _ _ => exact h.serve hle
  | delivered _ _ _ | begun _ _ _ | finished _ | advanced _ => exact h

/-- A call on record was there before, or a delivery that has not ended has just made it. -/
theorem Move.at_cases {k : ℕ} {x : Served ℕ ℚ} (hx : s'.store.At k x) :
    s.store.At k x ∨ (k = s.store.trace.length ∧ a = .resume x.who ∧
      ∃ d c cont, s.deliveries[x.who]? = some d ∧ d.ended = false ∧
        d.view claimTtlS doneTtlS = .inr ⟨c, cont⟩ ∧ x = s.store.newest x.who c ∧
        s' = ⟨s.store.serve x.who c,
          s.deliveries.set x.who (d.resumed (cont (.ok (s.store.answer c))))⟩) := by
  cases hm with
  | called hget hrun hview =>
    rcases TracedKV.at_serve hx with hold | ⟨hk, rfl⟩
    · exact .inl hold
    · exact .inr ⟨hk, rfl, _, _, _, hget, hrun, hview, rfl, rfl⟩
  | delivered _ _ _ | begun _ _ _ | finished _ | advanced _ => exact .inl hx

end Moves

end Claiming

end Orbiter
