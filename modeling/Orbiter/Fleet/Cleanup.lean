import Orbiter.Fleet.Leases
import Orbiter.Fleet.Owners

/-!
# What a finished call leaves in the store

A call that claimed its job must give the claim back, and a call that took the lease must release
it. The lease is released in the `finally` clause. The claim is released exit by exit, and on one of
them it is not: a call that is told `StaleLeaseError` stands down and returns, on the ground that
its claim ran out before a newer holder could write.

That ground is the order of three calls to the store: claim, draw a token, take the lease. A newer
token drawn *under a claim of its own* is indeed drawn after this one's claim is gone
(`losesClaimFirst_of_drawsUnderClaim`). But a call may pause between its claim and its draw, outlive
its claim, and draw the newer token while the next call already holds the claim. It is the next call
that is stale then, and it leaves its claim behind (`claim_left_behind`).

So a finished call leaves nothing in exactly the runs in which whoever is superseded has lost its
claim before.

## Contents

* `claims`, `bodyWrite?`, `beforeDraw` — the control points between the claim and its release, the
  writes of the `try` body, and the points before the draw;
* `losesClaimFirst` — the condition, on the state before the step: a served write of the body that
  is superseded finds the writer's own claim gone;
* `Accounted` — the invariant under it: a live claim or lease of a call is one the call still has to
  release. `Move.claims_cases`, `Move.lease_kept` and `Move.standsDown` are its step lemmas;
* `nothing_left_behind`, `owns_of_not_losesClaimFirst` — what follows for a call that returned, and
  the converse: a step that breaks the condition leaves its call standing down with a live claim;
* `InOrder` — the order of claim and draw, which gives the condition.
-/

namespace Orbiter

open ExecutionGuard LeaseManager Worker

/-- The row accepts the event but has seen a newer token: a newer holder has written. -/
def Database.supersedes {π : Type} (db : Database π) (w : Write) : Bool :=
  (db.job? w.jobId).any fun row ↦ (transitions row.state w.event).isSome &&
    decide (w.fenceToken.getD row.fenceToken < row.fenceToken)

/-- These are the writes that raise `StaleLeaseError`. -/
theorem Database.supersedes_eq_true {π : Type} {db : Database π} {now : ℕ} {w : Write} :
    db.supersedes w = true ↔ ∃ err, db.recordEvent now w = .error (.staleLease err) := by
  rw [supersedes, Option.any_eq_true]
  constructor
  · rintro ⟨row, hrow, h⟩
    rw [Bool.and_eq_true, decide_eq_true_eq, Option.isSome_iff_exists] at h
    obtain ⟨⟨next, hnext⟩, hlt⟩ := h
    cases hx : db.recordEvent now w with
    | ok r =>
      obtain ⟨row', hrow', -, hle, -⟩ := applyEvent_eq_ok.1 hx
      obtain rfl := Option.some.inj (hrow.symm.trans hrow')
      exact absurd hle (not_le.2 hlt)
    | error e =>
      rcases applyEvent_eq_error hx with ⟨-, hnone⟩ | ⟨row', hrow', hno, -⟩ |
        ⟨row', next', -, -, -, rfl⟩
      · rw [hrow] at hnone
        exact absurd hnone (by simp)
      · obtain rfl := Option.some.inj (hrow.symm.trans hrow')
        rw [hnext] at hno
        exact absurd hno (by simp)
      · exact ⟨_, rfl⟩
  · rintro ⟨err, hx⟩
    rcases applyEvent_eq_error hx with ⟨he, -⟩ | ⟨row, -, -, he⟩ | ⟨row, next, hrow, hnext, hlt, -⟩
    · exact absurd he (by simp)
    · exact absurd he (by simp)
    · exact ⟨row, hrow, by simp [hnext, hlt]⟩

namespace HandlePc

/-- The call may have a claim in the store, and has its release or an exception ahead of it. -/
def claims : HandlePc → Bool
  | drawToken | setLease _ | releaseClaimUnleased | recordStarted _ | executing _
  | recordCompleted _ _ | setDone _ | clearClaim _ | recordRequeued _ _ | releaseClaimRequeued _
  | recordFailed _ _ | releaseClaimFailed _ | releaseClaimObsolete _ | releaseLease _ (.error _)
  | finished (.error _) => true
  | _ => false

/-- The call has returned. -/
def returned : HandlePc → Bool
  | finished (.ok ()) => true
  | _ => false

theorem returned_eq_true {pc : HandlePc} : pc.returned = true ↔ pc = .finished (.ok ()) := by
  constructor
  · intro h
    cases pc with
    | finished r =>
      rcases r with e | ⟨⟩
      · exact absurd h (by simp [returned])
      · rfl
    | _ => exact absurd h (by simp [returned])
  · rintro rfl
    rfl

/-- The write of the `try` body that a control point is about to make. -/
def bodyWrite? (d : Delivery) : HandlePc → Option Write
  | recordStarted l => some (startedWrite d l)
  | recordCompleted l result => some (completedWrite d l result)
  | _ => none

/-- Both are made under the lease of the call. -/
theorem bodyWrite?_eq_some {d : Delivery} {pc : HandlePc} {w : Write}
    (h : pc.bodyWrite? d = some w) :
    ∃ l, pc.lease? = some l ∧ w.jobId = d.jobId ∧ w.fenceToken = some (l.token : ℤ) := by
  cases pc with
  | recordStarted l | recordCompleted l result =>
    obtain rfl := Option.some.inj h
    exact ⟨l, rfl, rfl, rfl⟩
  | _ => exact absurd h (by simp [bodyWrite?])

/-- The points before a token is drawn. -/
def beforeDraw : HandlePc → Bool
  | readDone | setClaim | drawToken => true
  | _ => false

/-- The one set of a claim key is at `setClaim`, of the call's own delivery. -/
theorem eq_setClaim {cfg : Settings} {d : Delivery} {pc : HandlePc} {j : String} {value : String}
    {ttl : ℕ} (h : pc.call cfg d = some (.kv (.setIfAbsent (claimKey j) value ttl))) :
    pc = .setClaim ∧ value = d.delivery := by
  cases pc with
  | setClaim =>
    refine ⟨rfl, ?_⟩
    injection h with h; injection h with h; injection h with _ h
    exact h.symm
  | setDone l =>
    have hkey : doneKey d.jobId.str = claimKey j := by
      injection h with h; injection h with h; injection h
    exact absurd hkey (doneKey_ne_claimKey _ _)
  | setLease token =>
    have hkey : leaseKey d.jobId.str = claimKey j := by
      injection h with h; injection h with h; injection h
    exact absurd hkey.symm (claimKey_ne_leaseKey _ _)
  | _ => exact absurd h (by simp [call, view, awaitBare, awaitBody, awaitHandler])

/-- The one set of a lease key is at `setLease`, of the call's own holder and token. -/
theorem eq_setLease {cfg : Settings} {d : Delivery} {pc : HandlePc} {r : String} {value : String}
    {ttl : ℕ} (h : pc.call cfg d = some (.kv (.setIfAbsent (leaseKey r) value ttl))) :
    ∃ token, pc = .setLease token ∧ value = leaseValue d.workerId token := by
  cases pc with
  | setLease token =>
    refine ⟨token, rfl, ?_⟩
    injection h with h; injection h with h; injection h with _ h
    exact h.symm
  | setDone l =>
    have hkey : doneKey d.jobId.str = leaseKey r := by
      injection h with h; injection h with h; injection h
    exact absurd hkey (doneKey_ne_leaseKey _ _)
  | setClaim =>
    have hkey : claimKey d.jobId.str = leaseKey r := by
      injection h with h; injection h with h; injection h
    exact absurd hkey (claimKey_ne_leaseKey _ _)
  | _ => exact absurd h (by simp [call, view, awaitBare, awaitBody, awaitHandler])

end HandlePc

section OneMove

variable {cfg : Settings} {d : Delivery} {s : World} {pc pc' : HandlePc} {c : WorkerCall}
  {ans : Answer}

/-- **A claim is kept**, given back, or dropped by a call that is superseded. -/
theorem Move.claims_cases (hm : Move cfg d s pc c ans pc') (h : pc.claims = true) :
    pc'.claims = true ∨
    (c = .kv (.compareAndDelete (claimKey d.jobId.str) d.delivery) ∧ ans = .served) ∨
    (∃ w, pc.bodyWrite? d = some w ∧ ans = .served ∧ s.db.supersedes w = true) := by
  cases hm with
  | fault hv applied =>
    refine .inl ?_
    cases pc <;> rfl
  | @startRefused l e he | @completionRefused l result e he =>
    cases e with
    | staleLease err =>
      exact .inr (.inr ⟨_, rfl, rfl, Database.supersedes_eq_true.2 ⟨err, he⟩⟩)
    | lookupError | uniqueViolation | illegalTransition => exact .inl rfl
  | releaseLease l exit =>
    rcases exit with e | _
    · exact .inl rfl
    · exact absurd h (by simp [HandlePc.claims])
  | _ => first
    | exact .inl rfl
    | exact .inr (.inl ⟨rfl, rfl⟩)
    | exact absurd h (by simp [HandlePc.claims])

/-- A call that finds the claim free has it then, or has raised. -/
theorem Move.claims_of_setClaim (hm : Move cfg d s .setClaim c ans pc')
    (h : s.kv.live s.now (claimKey d.jobId.str) = none) : pc'.claims = true := by
  cases hm with
  | claimed | fault => rfl
  | inProgress hl =>
    rw [h] at hl
    exact absurd hl (by simp)

/-- **A lease is kept**, released, or the release has raised. -/
theorem Move.lease_kept (hm : Move cfg d s pc c ans pc') {l : Lease} (h : pc.lease? = some l) :
    pc'.lease? = some l ∨
    (c = .kv (.compareAndDelete (leaseKey l.resource) (leaseValue l.holder l.token)) ∧
      ans = .served) ∨
    ∃ e, pc' = .finished (.error e) := by
  cases hm with
  | fault hv applied =>
    cases pc <;> first
      | exact .inl h
      | exact .inr (.inr ⟨_, rfl⟩)
  | @startRefused l' e he | @completionRefused l' result e he =>
    refine .inl ?_
    cases e <;> exact h
  | releaseLease l' exit =>
    obtain rfl := Option.some.inj h
    exact .inr (.inl ⟨rfl, rfl⟩)
  | _ => first
    | exact .inl h
    | exact absurd h (by simp [HandlePc.lease?])

/-- A call that finds the lease free has it then, or has raised. -/
theorem Move.lease_of_setLease {token : ℕ} (hm : Move cfg d s (.setLease token) c ans pc')
    (h : s.kv.live s.now (leaseKey d.jobId.str) = none) :
    pc'.lease? = some ⟨d.jobId.str, d.workerId, token⟩ ∨ ∃ e, pc' = .finished (.error e) := by
  cases hm with
  | leased => exact .inl rfl
  | fault => exact .inr ⟨_, rfl⟩
  | leaseHeld _ hl =>
    rw [h] at hl
    exact absurd hl (by simp)

/-- A call that is superseded stands down. -/
theorem Move.standsDown {w : Write} (hm : Move cfg d s pc c .served pc')
    (hw : pc.bodyWrite? d = some w) (hsup : s.db.supersedes w = true) :
    ∃ l err, pc' = .releaseLease l (.ok ()) ∧ c = .recordEvent w ∧
      s.db.recordEvent s.now w = .error (.staleLease err) := by
  obtain ⟨err, herr⟩ : ∃ err, s.db.recordEvent s.now w = .error (.staleLease err) :=
    Database.supersedes_eq_true.1 hsup
  cases hm with
  | @startRefused l e he | @completionRefused l result e he =>
    obtain rfl := Option.some.inj hw
    obtain rfl := Except.error.inj (he.symm.trans herr)
    exact ⟨l, err, rfl, rfl, herr⟩
  | started l he | completed l result he =>
    obtain rfl := Option.some.inj hw
    exact absurd (he.symm.trans herr) (by simp)
  | _ => exact absurd hw (by simp [HandlePc.bodyWrite?])

/-- A call before its draw was before it, and has no token. -/
theorem Move.beforeDraw_of_beforeDraw (hm : Move cfg d s pc c ans pc')
    (h : pc'.beforeDraw = true) : pc.beforeDraw = true ∧ pc'.token? = none := by
  cases hm with
  | fault hv applied =>
    cases pc <;> exact absurd h (by simp [HandlePc.onFault, HandlePc.lease?, HandlePc.beforeDraw])
  | @startRefused l e he | @completionRefused l result e he =>
    cases e <;> exact absurd h (by simp [HandlePc.catching, HandlePc.beforeDraw])
  | _ => first
    | exact ⟨rfl, rfl⟩
    | exact absurd h (by simp [HandlePc.beforeDraw])

end OneMove

namespace Fleet

variable {cfg : Settings}

/-- Whoever is superseded has lost its claim before. -/
def losesClaimFirst (s : Fleet × Owners) : FleetStep → Bool
  | .handle pid .served => (s.1.calls[pid]?).all fun hc ↦
      (hc.pc.bodyWrite? hc.delivery).all fun w ↦
        !(s.1.world.db.supersedes w && ownsLive s pid (claimKey hc.delivery.jobId.str))
  | _ => true

/-- What breaks the condition: a write that is superseded while the writer's own claim is live. -/
theorem losesClaimFirst_eq_false {s : Fleet × Owners} {a : FleetStep} :
    losesClaimFirst s a = false ↔ ∃ pid hc w e, a = .handle pid .served ∧
      s.1.calls[pid]? = some hc ∧ hc.pc.bodyWrite? hc.delivery = some w ∧
      s.1.world.db.supersedes w = true ∧ Owns s pid (claimKey hc.delivery.jobId.str) e := by
  constructor
  · intro h
    unfold losesClaimFirst at h
    split at h
    · next pid =>
      obtain ⟨hc, hget, h⟩ := (Option.all_eq_false _ _).1 h
      obtain ⟨w, hw, h⟩ := (Option.all_eq_false _ _).1 h
      rw [Bool.not_eq_false', Bool.and_eq_true] at h
      obtain ⟨e, ho⟩ := ownsLive_eq_true.1 h.2
      exact ⟨pid, hc, w, e, rfl, hget, hw, h.1, ho⟩
    · exact absurd h (by simp)
  · rintro ⟨pid, hc, w, e, rfl, hget, hw, hsup, ho⟩
    rw [losesClaimFirst, hget, Option.all_some, hw, Option.all_some, hsup,
      ownsLive_eq_true.2 ⟨e, ho⟩]
    rfl

/-- Every live claim and lease is accounted for: the call that wrote it is at a point from which it
releases it, or it has raised. -/
structure Accounted (s : Fleet × Owners) : Prop where
  claim : ∀ (pid : ℕ) (hc : HandleCall) (e : Entry ℕ), s.1.calls[pid]? = some hc →
    Owns s pid (claimKey hc.delivery.jobId.str) e →
    hc.pc.claims = true ∧ e.value = hc.delivery.delivery
  lease : ∀ (pid : ℕ) (hc : HandleCall) (e : Entry ℕ), s.1.calls[pid]? = some hc →
    Owns s pid (leaseKey hc.delivery.jobId.str) e →
    (∃ l, hc.pc.lease? = some l ∧ e.value = leaseValue l.holder l.token) ∨
      ∃ x, hc.pc = .finished (.error x)
  resource : ∀ (pid : ℕ) (hc : HandleCall) (l : Lease), s.1.calls[pid]? = some hc →
    hc.pc.lease? = some l → l.resource = hc.delivery.jobId.str

/-- An entry of a call after a step: the call has rested, and had it before; or the call has moved,
and had it before or set it. -/
theorem owns_step_cases {s s' : Fleet × Owners} {a : FleetStep}
    (h : (owned cfg).step s a = some s')
    (hmade : ∀ key pid, s.2 key = some pid → ∃ hc, s.1.calls[pid]? = some hc) {pid : ℕ}
    {hc' : HandleCall} (hget : s'.1.calls[pid]? = some hc') {key : String} {e : Entry ℕ}
    (ho : Owns s' pid key e) :
    (∃ hc, s.1.calls[pid]? = some hc ∧ hc'.delivery = hc.delivery ∧ hc'.pc = hc.pc ∧
      Owns s pid key e) ∨
    ∃ hc ans c, a = .handle pid ans ∧ s.1.calls[pid]? = some hc ∧ hc'.delivery = hc.delivery ∧
      hc.pc.call cfg hc.delivery = some c ∧
      Move cfg hc.delivery s.1.world hc.pc c ans hc'.pc ∧
      s'.1.world = s.1.world.serve (.handle pid) c ans ∧
      (Owns s pid key e ∨ ∃ value ttl, c = .kv (.setIfAbsent key value ttl) ∧
        s.1.world.kv.live s.1.world.now key = none ∧ e.value = value) := by
  have hstep := (TransitionSystem.withHistory_eq_some.1 h).1
  have hrest : (∀ ans, a ≠ .handle pid ans) → Owns s pid key e := fun hne ↦
    (owns_cases h ho).resolve_right fun ⟨ans, _, _, _, ha, _⟩ ↦ hne ans ha
  rcases step_call hstep hget with ⟨hget₀, hne⟩ | ⟨hc, hget₀, rfl, rfl⟩ | ⟨hnone, d, rfl, rfl⟩ |
    ⟨hc, ans, c, pc, rfl, hget₀, hcall, hmove, hw, rfl⟩
  · exact .inl ⟨hc', hget₀, rfl, rfl, hrest hne⟩
  · exact .inl ⟨hc, hget₀, rfl, rfl, hrest (by simp)⟩
  · obtain ⟨hc, hget₀⟩ := hmade _ pid (hrest (by simp)).owner
    exact absurd (hnone.symm.trans hget₀) (by simp)
  · refine .inr ⟨hc, ans, c, rfl, hget₀, rfl, (HandleCall.call?_eq_some.1 hcall).2, hmove, hw, ?_⟩
    rcases owns_cases h ho with hold | ⟨ans', hc₁, value, ttl, -, hget₁, hcall₁, hfree, hv⟩
    · exact .inl hold
    · obtain rfl := Option.some.inj (hget₀.symm.trans hget₁)
      exact .inr ⟨value, ttl, Option.some.inj (hcall.symm.trans hcall₁), hfree, hv⟩

/-- A deletion of the very entry leaves the call none. -/
theorem not_owns_of_deleted {s s' : Fleet × Owners} {pid : ℕ} {key value : String} {e e' : Entry ℕ}
    (hw : s'.1.world = s.1.world.serve (.handle pid) (.kv (.compareAndDelete key value)) .served)
    (ho : Owns s pid key e) (hv : e.value = value) : ¬ Owns s' pid key e' := by
  intro ho'
  have hl := ho'.live
  rw [hw, World.kv_serve_served, KvCall.perform, ← hv,
    InMemoryKV.live_compareAndDelete_self ho.live] at hl
  exact absurd hl (by simp)

/-- **Every step that keeps the condition keeps the claims accounted for.** -/
theorem Accounted.step {s s' : Fleet × Owners} {a : FleetStep} (hs : Accounted s)
    (hmade : ∀ key pid, s.2 key = some pid → ∃ hc, s.1.calls[pid]? = some hc)
    (h : (owned cfg).step s a = some s') (hg : losesClaimFirst s a = true) : Accounted s' where
  claim pid hc' e hget ho := by
    rcases owns_step_cases h hmade hget ho with ⟨hc, hget₀, hd, hpc, hold⟩ |
      ⟨hc, ans, c, rfl, hget₀, hd, hcall, hmove, hw, hold | ⟨value, ttl, rfl, hfree, hv⟩⟩
    · rw [hd] at hold ⊢
      rw [hpc]
      exact hs.claim pid hc e hget₀ hold
    · rw [hd] at ho hold ⊢
      obtain ⟨hclaims, hv⟩ := hs.claim pid hc e hget₀ hold
      rcases hmove.claims_cases hclaims with hclaims' | ⟨rfl, rfl⟩ | ⟨w, hbody, rfl, hsup⟩
      · exact ⟨hclaims', hv⟩
      · exact absurd ho (not_owns_of_deleted hw hold hv)
      · have hviolated := losesClaimFirst_eq_false.2
          ⟨pid, hc, w, e, rfl, hget₀, hbody, hsup, hold⟩
        exact absurd (hg.symm.trans hviolated) (by decide)
    · rw [hd] at hcall hfree ⊢
      obtain ⟨hpc, rfl⟩ := HandlePc.eq_setClaim hcall
      rw [hpc] at hmove
      exact ⟨hmove.claims_of_setClaim hfree, hv⟩
  lease pid hc' e hget ho := by
    rcases owns_step_cases h hmade hget ho with ⟨hc, hget₀, hd, hpc, hold⟩ |
      ⟨hc, ans, c, rfl, hget₀, hd, hcall, hmove, hw, hold | ⟨value, ttl, rfl, hfree, hv⟩⟩
    · rw [hd] at hold
      rw [hpc]
      exact hs.lease pid hc e hget₀ hold
    · rw [hd] at ho hold
      rcases hs.lease pid hc e hget₀ hold with ⟨l, hl, hv⟩ | ⟨x, hx⟩
      · rcases hmove.lease_kept hl with hkept | ⟨rfl, rfl⟩ | hraised
        · exact .inl ⟨l, hkept, hv⟩
        · rw [hs.resource pid hc l hget₀ hl] at hw
          exact absurd ho (not_owns_of_deleted hw hold hv)
        · exact .inr hraised
      · rw [hx] at hcall
        exact absurd hcall (by simp [HandlePc.call, HandlePc.view])
    · rw [hd] at hcall hfree
      obtain ⟨token, hpc, rfl⟩ := HandlePc.eq_setLease hcall
      rw [hpc] at hmove
      exact (hmove.lease_of_setLease hfree).imp_left fun hl ↦ ⟨_, hl, hv⟩
  resource pid hc' l hget hl := by
    have hstep := (TransitionSystem.withHistory_eq_some.1 h).1
    rcases step_call hstep hget with ⟨hget₀, -⟩ | ⟨hc, hget₀, -, rfl⟩ | ⟨-, d, -, rfl⟩ |
      ⟨hc, ans, c, pc, -, hget₀, -, hmove, -, rfl⟩
    · exact hs.resource pid hc' l hget₀ hl
    · exact hs.resource pid hc l hget₀ hl
    · rw [HandleCall.begin, HandlePc.start] at hl
      split at hl <;> exact absurd hl (by simp [HandlePc.lease?])
    · rcases hmove.lease_cases hl with ⟨hold, -⟩ | ⟨token, -, rfl, -⟩
      · exact hs.resource pid hc l hget₀ hold
      · rfl

/-- The claims are accounted for in every state reached under the condition. -/
theorem accounted_of_reachable {s : Fleet × Owners}
    (h : (owned cfg).Reachable (fun s a ↦ losesClaimFirst s a = true) s) : Accounted s := by
  refine h.induct (I := Accounted) (fun s hs ↦ ?_) fun s a s' hr ih hg hs ↦ ?_
  · have hf : s.1 = ⟨.empty, []⟩ := hs.1
    constructor <;> intro pid hc _ hget <;> rw [hf] at hget <;> exact absurd hget (by simp)
  · exact ih.step (owner_made hr) hs hg

/-- **A finished call leaves nothing behind.** In every run in which whoever is superseded has lost
its claim before, a call that has returned has neither a claim nor a lease in the store: not when it
returns, and not later. -/
theorem nothing_left_behind {s : Fleet × Owners}
    (h : (owned cfg).Reachable (fun s a ↦ losesClaimFirst s a = true) s) {pid : ℕ}
    {hc : HandleCall} (hget : s.1.calls[pid]? = some hc) (hpc : hc.pc = .finished (.ok ())) :
    (∀ e, ¬ Owns s pid (claimKey hc.delivery.jobId.str) e) ∧
    ∀ e, ¬ Owns s pid (leaseKey hc.delivery.jobId.str) e := by
  have hacc := accounted_of_reachable h
  refine ⟨fun e ho ↦ ?_, fun e ho ↦ ?_⟩
  · have hclaims := (hacc.claim pid hc e hget ho).1
    rw [hpc] at hclaims
    exact absurd hclaims (by decide)
  · rcases hacc.lease pid hc e hget ho with ⟨l, hl, -⟩ | ⟨x, hx⟩
    · rw [hpc] at hl
      exact absurd hl (by simp [HandlePc.lease?])
    · rw [hpc] at hx
      exact absurd hx (by simp)

/-- Any other step of a superseded call leaves its claim behind: one call more, the release of the
lease, and it has returned. -/
theorem owns_of_not_losesClaimFirst {s s' : Fleet × Owners} {pid : ℕ}
    (h : (owned cfg).step s (.handle pid .served) = some s')
    (hk : losesClaimFirst s (.handle pid .served) = false) :
    ∃ s'' hc e, (owned cfg).step s' (.handle pid .served) = some s'' ∧
      s''.1.calls[pid]? = some hc ∧ hc.pc = .finished (.ok ()) ∧
      Owns s'' pid (claimKey hc.delivery.jobId.str) e := by
  obtain ⟨_, hc₀, w, e, ⟨⟩, hget₀, hw, hsup, ho⟩ := losesClaimFirst_eq_false.1 hk
  obtain ⟨hstep, hrec⟩ := TransitionSystem.withHistory_eq_some.1 h
  obtain ⟨hc, c, pc, hget, hcall, hmove, hf⟩ := stepHandle_eq_some hstep
  obtain rfl := Option.some.inj (hget₀.symm.trans hget)
  obtain ⟨halive, -⟩ := HandleCall.call?_eq_some.1 hcall
  -- The call stands down; nothing else has changed.
  obtain ⟨l, err, rfl, rfl, herr⟩ := hmove.standsDown hw hsup
  rw [World.serve_of_error herr] at hf
  rw [recordOwner_of_call hget hcall (by simp)] at hrec
  have hlt := (List.getElem?_eq_some_iff.1 hget).1
  have hget' : s'.1.calls[pid]? = some
      (hc₀.advance s.1.world s.1.world (.recordEvent w) (.releaseLease l (.ok ()))) := by
    rw [hf]
    exact List.getElem?_set_self hlt
  -- The release of the lease.
  have hrelease : s'.1.stepHandle cfg pid .served = some _ :=
    stepHandle_of_view hget' halive rfl rfl
  refine ⟨⟨_, recordOwner cfg s'.1 (.handle pid .served) s'.2⟩, _, e,
    TransitionSystem.withHistory_eq_some.2 ⟨hrelease, rfl⟩,
    List.getElem?_set_self (List.getElem?_eq_some_iff.1 hget').1, rfl, ?_, ?_⟩
  · show (s'.1.world.serve _ _ _).kv.live (s'.1.world.serve _ _ _).now _ = some e
    rw [World.now_serve, World.kv_serve_served, hf]
    exact (InMemoryKV.live_compareAndDelete_ne le_rfl (claimKey_ne_leaseKey _ _) _).trans ho.live
  · show recordOwner cfg s'.1 (.handle pid .served) s'.2 _ = some pid
    rw [recordOwner_of_call hget' (HandleCall.call?_eq_some.2 ⟨halive, rfl⟩) (by simp), hrec]
    exact ho.owner

/-- A holder that outlived its lease is told so, and returns. -/
def standsDown : List FleetStep := takeover ++ [.handle 0 .served]

/-- A call is superseded after its claim has run out, and leaves nothing. -/
theorem nothing_left_behind_of_standsDown :
    ∃ s hc, (owned {}).Reachable (fun s a ↦ losesClaimFirst s a = true) s ∧
      s.1.calls[0]? = some hc ∧ hc.pc = .finished (.ok ()) ∧
      (∀ e, ¬ Owns s 0 (claimKey hc.delivery.jobId.str) e) ∧
      ∀ e, ¬ Owns s 0 (leaseKey hc.delivery.jobId.str) e := by
  have hrun : ((owned {}).execGuarded losesClaimFirst (⟨.empty, []⟩, fun _ ↦ none)
      standsDown).any (fun s ↦ s.1.calls[0]?.any fun hc ↦ hc.pc.returned) = true := by
    rfl
  obtain ⟨s, hl, hs⟩ := TransitionSystem.exists_leads_of_execGuarded (fun _ _ hg ↦ hg) hrun
  have hr : (owned {}).Reachable (fun s a ↦ losesClaimFirst s a = true) s :=
    ⟨(⟨.empty, []⟩, fun _ ↦ none), ⟨rfl, rfl⟩, hl⟩
  obtain ⟨hc, hget, hs⟩ := (Option.any_eq_true _ _).1 hs
  have hpc := HandlePc.returned_eq_true.1 hs
  exact ⟨s, hc, hr, hget, hpc, nothing_left_behind hr hget hpc⟩

/-- The first call claims the job and pauses until its claim has run out. The second claims it and
draws its token; the first wakes, draws the newer one, takes the lease, executes, fails, requeues
the job and returns. Now the second takes the lease, is told that it is stale, and returns. -/
def overtaken : List FleetStep :=
  [.submit ⟨0⟩ "k" (.failing 10 ten_le_limit) [],
    .start ⟨1, "a", ⟨0⟩, .failing 10 ten_le_limit, 1⟩, .handle 0 .served, .handle 0 .served,
    .tick 30000,
    .start ⟨1, "b", ⟨0⟩, .failing 10 ten_le_limit, 2⟩, .handle 1 .served, .handle 1 .served,
    .handle 1 .served,
    .handle 0 .served, .handle 0 .served, .handle 0 .served, .handle 0 (.executed 0 10),
    .handle 0 .served, .handle 0 .served, .handle 0 .served, .handle 0 .served,
    .handle 1 .served, .handle 1 .served, .handle 1 .served]

/-- **A claim can be left behind**, by a call that returned. -/
theorem claim_left_behind : ¬ ∀ (s : Fleet × Owners) (pid : ℕ) (hc : HandleCall),
    (owned {}).Reachable TransitionSystem.anyStep s → s.1.calls[pid]? = some hc →
    hc.pc = .finished (.ok ()) →
    (∀ e, ¬ Owns s pid (claimKey hc.delivery.jobId.str) e) ∧
      ∀ e, ¬ Owns s pid (leaseKey hc.delivery.jobId.str) e := by
  have hrun : ((owned {}).exec (⟨.empty, []⟩, fun _ ↦ none) overtaken).any (fun s ↦
      s.1.calls[1]?.any fun hc ↦ ownsLive s 1 (claimKey hc.delivery.jobId.str) &&
        hc.pc.returned) = true := by
    rfl
  obtain ⟨s, hl, hs⟩ := TransitionSystem.exists_leads_of_exec hrun
  obtain ⟨hc, hget, hs⟩ := (Option.any_eq_true _ _).1 hs
  obtain ⟨hown, hs⟩ := Bool.and_eq_true_iff.1 hs
  obtain ⟨e, ho⟩ := ownsLive_eq_true.1 hown
  have hr : (owned {}).Reachable TransitionSystem.anyStep s :=
    ⟨(⟨.empty, []⟩, fun _ ↦ none), ⟨rfl, rfl⟩, hl⟩
  intro hall
  exact (hall s 1 hc hr hget (HandlePc.returned_eq_true.1 hs)).1 e ho

/-! ### The order of claim and draw -/

/-- Every token is drawn while the call still has its claim. -/
def DrawsUnderClaim (s : Fleet × Owners) (a : FleetStep) : Prop :=
  ∀ (pid : ℕ) (hc : HandleCall), a = .handle pid .served → s.1.calls[pid]? = some hc →
    hc.pc = .drawToken → ∃ e, Owns s pid (claimKey hc.delivery.jobId.str) e

/-- What follows from that order: a call has no token before it draws, and none has a claim left
once a newer token is drawn. -/
structure InOrder (s : Fleet × Owners) : Prop where
  fresh : ∀ (pid : ℕ) (hc : HandleCall), s.1.calls[pid]? = some hc → hc.pc.beforeDraw = true →
    hc.token = none
  claimGone : ∀ (pid pid' : ℕ) (hc hc' : HandleCall) (t t' : ℕ) (e : Entry ℕ),
    s.1.calls[pid]? = some hc → s.1.calls[pid']? = some hc' →
    hc.delivery.jobId = hc'.delivery.jobId → hc.token = some t → hc'.token = some t' → t < t' →
    ¬ Owns s pid (claimKey hc.delivery.jobId.str) e

/-- Every step under the condition keeps claims and draws in order. -/
theorem InOrder.step {s s' : Fleet × Owners} {a : FleetStep} (hs : InOrder s) (ht : s.1.Tokens)
    (hmade : ∀ key pid, s.2 key = some pid → ∃ hc, s.1.calls[pid]? = some hc)
    (h : (owned cfg).step s a = some s') (hg : DrawsUnderClaim s a) : InOrder s' where
  fresh pid hc' hget hpc := by
    rcases step_call (TransitionSystem.withHistory_eq_some.1 h).1 hget with ⟨hget₀, -⟩ |
      ⟨hc, hget₀, -, rfl⟩ | ⟨-, d, -, rfl⟩ | ⟨hc, ans, c, pc, -, hget₀, -, hmove, -, rfl⟩
    · exact hs.fresh pid hc' hget₀ hpc
    · exact hs.fresh pid hc hget₀ hpc
    · rfl
    · obtain ⟨hpc₀, hnone⟩ := hmove.beforeDraw_of_beforeDraw hpc
      rw [HandleCall.advance, hnone, Option.none_or]
      exact hs.fresh pid hc hget₀ hpc₀
  claimGone pid pid' hc hc' t t' e hget hget' hjob htok htok' hlt ho := by
    have hstep := (TransitionSystem.withHistory_eq_some.1 h).1
    rcases token_cases ht hstep hget htok with ⟨hc₀, hget₀, hd, htok₀⟩ | ⟨⟨ha, -⟩, hnew, -⟩
    · -- The claim was the call's before the step: it has drawn, so it sets no claim any more.
      have hold : Owns s pid (claimKey hc.delivery.jobId.str) e := by
        rcases owns_step_cases h hmade hget ho with ⟨-, -, -, -, hold⟩ |
          ⟨hc₁, ans, c, -, hget₁, -, hcall, -, -, hold | ⟨value, ttl, rfl, -⟩⟩
        · exact hold
        · exact hold
        · obtain rfl := Option.some.inj (hget₀.symm.trans hget₁)
          have hnone := hs.fresh pid hc₀ hget₀ (by rw [(HandlePc.eq_setClaim hcall).1]; rfl)
          exact absurd (htok₀.symm.trans hnone) (by simp)
      rcases token_cases ht hstep hget' htok' with ⟨hc₀', hget₀', hd', htok₀'⟩ |
        ⟨⟨ha', hc₀', hget₀', hd', hpc'⟩, hnew', -⟩
      · refine hs.claimGone pid pid' hc₀ hc₀' t t' e hget₀ hget₀' ?_ htok₀ htok₀' hlt ?_
        · rw [hd, hd', hjob]
        · rw [hd]
          exact hold
      · -- The newer token is drawn now, under a claim of its own.
        obtain ⟨e', ho'⟩ := hg pid' hc₀' ha' hget₀' hpc'
        rw [hd', ← hjob] at ho'
        obtain rfl := hold.pid_eq ho'
        obtain rfl := Option.some.inj (hget.symm.trans hget')
        exact absurd (Option.some.inj (htok.symm.trans htok')) hlt.ne
    · -- A token drawn now is the newest.
      rcases token_cases ht hstep hget' htok' with ⟨hc₀', hget₀', hd', htok₀'⟩ | ⟨-, hnew', -⟩
      · have hle := ht.drawn pid' hc₀' t' hget₀' htok₀'
        rw [hd', ← hjob] at hle
        omega
      · rw [← hjob] at hnew'
        omega

/-- Claims and draws are in order in every state reached under the condition. -/
theorem inOrder_of_reachable {s : Fleet × Owners} (h : (owned cfg).Reachable DrawsUnderClaim s) :
    InOrder s := by
  refine h.induct (I := InOrder) (fun s hs ↦ ?_) fun s a s' hr ih hg hs ↦ ?_
  · have hf : s.1 = ⟨.empty, []⟩ := hs.1
    refine ⟨fun pid hc hget ↦ ?_, fun pid pid' hc hc' t t' e hget ↦ ?_⟩ <;>
      rw [hf] at hget <;> exact absurd hget (by simp)
  · exact ih.step (tokens_of_reachable (reachable_of_owned hr)) (owner_made hr) hs hg

/-- **When the stale exit is right.** In runs in which every token is drawn under the call's own
claim, whoever is superseded has lost its claim before. -/
theorem losesClaimFirst_of_drawsUnderClaim {s : Fleet × Owners}
    (h : (owned cfg).Reachable DrawsUnderClaim s) (a : FleetStep) : losesClaimFirst s a = true := by
  have hr := reachable_of_owned h
  by_contra hk
  obtain ⟨pid, hc, w, e, -, hget, hw, hsup, ho⟩ :=
    losesClaimFirst_eq_false.1 (Bool.not_eq_true _ ▸ hk)
  obtain ⟨l, hl, hjob, htok⟩ := HandlePc.bodyWrite?_eq_some hw
  obtain ⟨row, hrow, hnewer⟩ := (Option.any_eq_true _ _).1 hsup
  have hlt : (l.token : ℤ) < row.fenceToken := by
    rw [htok, Option.getD_some, Bool.and_eq_true, decide_eq_true_eq] at hnewer
    exact hnewer.2
  -- The newer token of the row was drawn by a call for the job.
  rcases fenceToken_drawn (consistent_of_reachable hr) (attributed_of_reachable hr) hrow with
    hzero | ⟨pid', hc', t', hget', hjob', ht', hrow'⟩
  · omega
  · have ht := (tokens_of_reachable hr).remembered pid hc l.token hget
      (HandlePc.token?_of_lease? hl)
    refine (inOrder_of_reachable h).claimGone pid pid' hc hc' l.token t' e hget hget' ?_ ht ht' ?_
      ho
    · rw [hjob', hjob]
    · omega

/-- So drawing under a claim of one's own is enough. -/
theorem reachable_of_drawsUnderClaim {s : Fleet × Owners}
    (h : (owned cfg).Reachable DrawsUnderClaim s) :
    (owned cfg).Reachable (fun s a ↦ losesClaimFirst s a = true) s :=
  h.induct (fun _ h₀ ↦ .of_init h₀) fun _ a _ hr ih _ hs ↦
    ih.next (losesClaimFirst_of_drawsUnderClaim hr a) hs

end Fleet

end Orbiter
