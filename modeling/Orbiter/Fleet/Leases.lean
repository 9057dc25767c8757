import Orbiter.Fleet.Fencing

/-!
# A lease excludes

While its time to live has not elapsed, the entry of a lease is the one its holder wrote: nobody
sets a live key, the one deletion names holder and token, and tokens are drawn once. So no two calls
for a job hold leases that have not run out, however the calls interleave and whoever dies. Only a
store that loses the entry breaks this, and the guard `KeepsLeases` excludes that.

* `Holds` — a call has taken its lease at `t`, and until its end the entry is there with the call's
  own text;
* `Leases` — the invariant: this is so of every call that has a lease. `entry_step` is
  the step lemma: an entry survives a step that neither deletes its text nor loses its key;
* `Leases.eq_of_holds` — two calls that hold leases of one job at one moment are one call.

The end is measured from the call that set the entry. What a holder does after it is left to
fencing.
-/

namespace Orbiter

open ExecutionGuard LeaseManager Worker

/-- Where a lease comes from: it was held before, and the call was not its release; or it was taken
just now. -/
theorem Move.lease_cases {cfg : Settings} {d : Delivery} {s : World} {pc pc' : HandlePc}
    {c : WorkerCall} {ans : Answer} (hm : Move cfg d s pc c ans pc') {l : Lease}
    (hl : pc'.lease? = some l) :
    (pc.lease? = some l ∧ ∀ r value, c ≠ .kv (.compareAndDelete (leaseKey r) value)) ∨
    (∃ token, pc = .setLease token ∧ l = ⟨d.jobId.str, d.workerId, token⟩ ∧ ans = .served ∧
      c = .kv (.setIfAbsent (leaseKey d.jobId.str) (leaseValue d.workerId token) cfg.leaseTtlMs) ∧
      s.kv.live s.now (leaseKey d.jobId.str) = none) := by
  cases hm with
  | leased token h => exact .inr ⟨token, rfl, (Option.some.inj hl).symm, rfl, rfl, h⟩
  | fault hv applied =>
    refine .inl ?_
    cases pc <;> first
      | (cases hv; exact ⟨hl, by simp [claimKey_ne_leaseKey]⟩)
      | exact absurd hl (by simp [HandlePc.onFault, HandlePc.lease?])
  | @startRefused l' e h | @completionRefused l' result e h =>
    refine .inl ⟨?_, by simp⟩
    cases e <;> exact hl
  | _ => first
    | exact .inl ⟨hl, by simp [claimKey_ne_leaseKey]⟩
    | exact absurd hl (by simp [HandlePc.lease?])

namespace Fleet

variable {cfg : Settings} {f f' : Fleet} {a : FleetStep}

/-- No entry of a lease is lost by the store. -/
def KeepsLeases (_ : Fleet) (a : FleetStep) : Prop := ∀ j : Uuid, a ≠ .vanish (leaseKey j.str)

/-- An entry stays over a step that does not delete it, by a call or by itself. -/
theorem live_step (h : f.step cfg a = some f') {key : String} {e : Entry ℕ} {t : ℕ}
    (hle : f'.world.now ≤ t) (hl : f.world.kv.live t key = some e) (hvanish : a ≠ .vanish key)
    (hcall : ∀ (pid : ℕ) (ans : Answer) (hc : HandleCall), a = .handle pid ans →
      f.calls[pid]? = some hc → hc.call? cfg ≠ some (.kv (.compareAndDelete key e.value))) :
    f'.world.kv.live t key = some e := by
  cases a with
  | submit | replay | deadLetter =>
    obtain rfl := Option.some.inj h
    rw [World.kv_transact]
    exact hl
  | handle pid ans =>
    obtain ⟨hc, c, pc, hget, hc', -, rfl⟩ := stepHandle_eq_some h
    by_cases hkv : ∃ k, c = .kv k
    · obtain ⟨k, rfl⟩ := hkv
      rw [World.now_serve] at hle
      rw [World.kv_serve_kv]
      split
      · refine k.live_perform_of_live hle hl fun heq ↦ hcall pid ans hc rfl hget ?_
        rw [hc', heq]
      · exact hl
    · rw [World.kv_serve _ _ (not_exists.1 hkv)]
      exact hl
  | vanish key' =>
    obtain rfl := Option.some.inj h
    rw [InMemoryKV.vanish, InMemoryKV.live_put_ne _ _ fun heq ↦ hvanish (by rw [heq])]
    exact hl
  | publish | start | die | tick =>
    obtain rfl := Option.some.inj h
    exact hl

end Fleet

/-- The call holds the lease `l`, taken at `t`: until it runs out, the entry of the store is its
own. -/
structure HandleCall.Holds (cfg : Settings) (s : World) (hc : HandleCall) (l : Lease) (t : ℕ) :
    Prop where
  resource : l.resource = hc.delivery.jobId.str
  leasedAt : hc.leasedAt = some t
  entry : ∀ t', s.now ≤ t' → t' < t + cfg.leaseTtlMs → s.kv.live t' (leaseKey l.resource) =
    some ⟨leaseValue l.holder l.token, some (t + cfg.leaseTtlMs)⟩

/-- The one deletion of a lease entry is the release, of the call's own lease. -/
theorem HandlePc.eq_releaseLease {cfg : Settings} {d : Delivery} {pc : HandlePc} {r value : String}
    (h : pc.call cfg d = some (.kv (.compareAndDelete (leaseKey r) value))) :
    ∃ l exit, pc = .releaseLease l exit ∧ l.resource = r ∧
      leaseValue l.holder l.token = value := by
  cases pc with
  | releaseLease l exit =>
    refine ⟨l, exit, rfl, ?_⟩
    have hkey : leaseKey l.resource = leaseKey r ∧ leaseValue l.holder l.token = value := by
      injection h with h; injection h with h; injection h with h₁ h₂; exact ⟨h₁, h₂⟩
    exact ⟨leaseKey_inj.1 hkey.1, hkey.2⟩
  | releaseClaimUnleased | clearClaim | releaseClaimRequeued | releaseClaimFailed
  | releaseClaimObsolete =>
    have hkey : claimKey d.jobId.str = leaseKey r := by
      injection h with h; injection h with h; injection h
    exact absurd hkey (claimKey_ne_leaseKey _ _)
  | _ => exact absurd h (by simp [call, view, awaitBare, awaitBody, awaitHandler])

namespace Fleet

variable {cfg : Settings} {f f' : Fleet} {a : FleetStep}

/-- Whoever stands under a lease holds it. -/
def Leases (cfg : Settings) (f : Fleet) : Prop :=
  ∀ (pid : ℕ) (hc : HandleCall) (l : Lease), f.calls[pid]? = some hc → hc.pc.lease? = some l →
    ∃ t, hc.Holds cfg f.world l t

/-- A step of another call leaves a lease alone. -/
theorem entry_step (hf : f.Leases cfg) (ht : f.Tokens) (h : f.step cfg a = some f')
    (hg : f.KeepsLeases a) {pid : ℕ} {hc : HandleCall} {l : Lease} {t : ℕ}
    (hget : f.calls[pid]? = some hc) (hl : hc.pc.lease? = some l) (hh : hc.Holds cfg f.world l t)
    (hcall : ∀ (ans : Answer), a = .handle pid ans →
      ∀ r value, hc.call? cfg ≠ some (.kv (.compareAndDelete (leaseKey r) value)))
    (t' : ℕ) (hle : f'.world.now ≤ t') (hlt : t' < t + cfg.leaseTtlMs) :
    f'.world.kv.live t' (leaseKey l.resource) =
      some ⟨leaseValue l.holder l.token, some (t + cfg.leaseTtlMs)⟩ := by
  refine live_step h hle (hh.entry t' ((now_le h).trans hle) hlt) ?_ ?_
  · rw [hh.resource]
    exact hg _
  · intro pid' ans hc' ha hget' hdel
    obtain ⟨l', exit, hpc, hres, hval⟩ :=
      HandlePc.eq_releaseLease (HandleCall.call?_eq_some.1 hdel).2
    -- Equal entries carry equal tokens, so the releasing call is the holder.
    have hl' : hc'.pc.lease? = some l' := by rw [hpc]; rfl
    obtain ⟨t₁, hh'⟩ := hf pid' hc' l' hget' hl'
    have htok := ht.remembered pid hc l.token hget (HandlePc.token?_of_lease? hl)
    have htok' := ht.remembered pid' hc' l'.token hget' (HandlePc.token?_of_lease? hl')
    rw [(leaseValue_inj hval).2] at htok'
    have hjob : hc'.delivery.jobId = hc.delivery.jobId :=
      Uuid.str_inj (by rw [← hh'.resource, ← hh.resource, hres])
    obtain rfl := ht.apart pid' pid hc' hc l.token hget' hget hjob htok' htok
    obtain rfl := Option.some.inj (hget'.symm.trans hget)
    exact hcall ans ha _ _ hdel

/-- Every step that loses no lease keeps the holders' entries. -/
theorem Leases.step (hf : f.Leases cfg) (ht : f.Tokens) (h : f.step cfg a = some f')
    (hg : f.KeepsLeases a) : f'.Leases cfg := by
  intro pid hc' l hget hl
  rcases step_call h hget with ⟨hget₀, hne⟩ | ⟨hc, hget₀, rfl, rfl⟩ | ⟨-, d, -, rfl⟩ |
    ⟨hc, ans, c, pc, rfl, hget₀, hcall, hmove, hw, rfl⟩
  · obtain ⟨t, hh⟩ := hf pid hc' l hget₀ hl
    exact ⟨t, hh.resource, hh.leasedAt,
      entry_step hf ht h hg hget₀ hl hh fun ans ha ↦ absurd ha (hne ans)⟩
  · obtain ⟨t, hh⟩ := hf pid hc l hget₀ hl
    exact ⟨t, hh.resource, hh.leasedAt,
      entry_step hf ht h hg hget₀ hl hh fun ans ha ↦ absurd ha (by simp)⟩
  · rw [HandleCall.begin, HandlePc.start] at hl
    split at hl <;> exact absurd hl (by simp [HandlePc.lease?])
  · rcases hmove.lease_cases hl with ⟨hold, hdel⟩ | ⟨token, hpc, rfl, rfl, rfl, hnone⟩
    · obtain ⟨t, hh⟩ := hf pid hc l hget₀ hold
      refine ⟨t, hh.resource, ?_, entry_step hf ht h hg hget₀ hold hh fun _ _ r value hx ↦ ?_⟩
      · rw [HandleCall.advance, hold]
        exact hh.leasedAt
      · exact hdel r value (Option.some.inj (hcall.symm.trans hx))
    · refine ⟨f.world.now, rfl, ?_, fun t' _ hlt ↦ ?_⟩
      · rw [HandleCall.advance, hpc, show pc.lease? = _ from hl]
        rfl
      · rw [hw, World.kv_serve_served]
        exact (InMemoryKV.live_setIfAbsent_self hnone _ _).trans (if_pos hlt)

/-- The holders' entries are there, in every state reached without losing one. -/
theorem leases_of_reachable (h : (system cfg).Reachable KeepsLeases f) : f.Leases cfg := by
  refine h.induct (I := Leases cfg) (fun f hf ↦ ?_) fun f a f' hr ih hg hs ↦ ?_
  · rw [hf]
    exact fun pid hc l hget ↦ absurd hget (by simp)
  · exact ih.step (tokens_of_reachable (hr.mono fun _ _ _ ↦ trivial)) hs hg

/-- **A lease that has not run out excludes every other**, for the same job. -/
theorem Leases.eq_of_holds (hf : f.Leases cfg) (ht : f.Tokens) {pid pid' : ℕ}
    {hc hc' : HandleCall} {l l' : Lease} {t t' : ℕ} (hget : f.calls[pid]? = some hc)
    (hget' : f.calls[pid']? = some hc') (hjob : hc.delivery.jobId = hc'.delivery.jobId)
    (hl : hc.pc.lease? = some l) (hl' : hc'.pc.lease? = some l')
    (hleased : hc.leasedAt = some t) (hleased' : hc'.leasedAt = some t')
    (hlt : f.world.now < t + cfg.leaseTtlMs) (hlt' : f.world.now < t' + cfg.leaseTtlMs) :
    pid = pid' := by
  obtain ⟨t₀, hh⟩ := hf pid hc l hget hl
  obtain ⟨t₀', hh'⟩ := hf pid' hc' l' hget' hl'
  obtain rfl := Option.some.inj (hh.leasedAt.symm.trans hleased)
  obtain rfl := Option.some.inj (hh'.leasedAt.symm.trans hleased')
  have hentry := hh.entry _ le_rfl hlt
  rw [hh.resource, hjob, ← hh'.resource, hh'.entry _ le_rfl hlt', Option.some.injEq] at hentry
  have hval := (leaseValue_inj (Entry.mk.inj hentry).1).2
  have htok := ht.remembered pid hc l.token hget (HandlePc.token?_of_lease? hl)
  have htok' := ht.remembered pid' hc' l'.token hget' (HandlePc.token?_of_lease? hl')
  rw [hval] at htok'
  exact ht.apart pid pid' hc hc' l.token hget hget' hjob htok htok'

end Fleet

end Orbiter
