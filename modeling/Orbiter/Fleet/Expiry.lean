import Orbiter.Fleet.Alone
import Orbiter.Foundation.Possibility

/-!
# Nothing stays in the store

Every entry a worker ever writes is the done marker, the claim or the lease of a job it was given,
and runs out within the time to live of its kind. So the store needs no cleaning: once no `handle`
call moves, it is empty after the longest of these times, whoever died holding what. The counters
the tokens are drawn from are not entries; they never go, and fencing rests on that.

* `JobKey` — the three kinds of key, each with its time to live;
* `Expiring` — the invariant: a live entry is under such a key and runs out within that time;
* `EmptyBy` — from a moment on there is no entry. Nothing but a `handle` call undoes this
  (`EmptyBy.step`), and every reachable state has such a moment (`Expiring.emptyBy`);
* `store_empties` — **once no `handle` call moves, the store is empty after the longest time to
  live**, whatever else goes on.
-/

namespace Orbiter

open ExecutionGuard LeaseManager Worker

/-- An entry that is live has time left. -/
theorem InMemoryKV.lt_of_live {τ : Type} [LinearOrder τ] {kv : InMemoryKV τ} {now t : τ}
    {key : String} {e : Entry τ} (h : kv.live now key = some e) (ht : e.expiresAt = some t) :
    now < t := by
  have hlive := (Option.filter_eq_some_iff.1 h).2
  simpa [expired, ht] using hlive

/-- The keys of a job, each with the time to live it is set with. -/
inductive JobKey (cfg : Settings) (j : Uuid) : String → ℕ → Prop
  | done : JobKey cfg j (doneKey j.str) cfg.execGuardTtlMs
  | claim : JobKey cfg j (claimKey j.str) cfg.leaseTtlMs
  | lease : JobKey cfg j (leaseKey j.str) cfg.leaseTtlMs

theorem JobKey.ttl_le {cfg : Settings} {j : Uuid} {key : String} {ttl : ℕ}
    (h : JobKey cfg j key ttl) : ttl ≤ max cfg.execGuardTtlMs cfg.leaseTtlMs := by
  cases h with
  | done => exact le_max_left _ _
  | claim | lease => exact le_max_right _ _

/-- Claims and leases have the one time to live. -/
theorem JobKey.ttl_eq {cfg : Settings} {j j' : Uuid} {key : String} {ttl : ℕ}
    (h : JobKey cfg j key ttl) (hkey : key = claimKey j'.str ∨ key = leaseKey j'.str) :
    ttl = cfg.leaseTtlMs := by
  cases h with
  | claim | lease => rfl
  | done =>
    rcases hkey with hkey | hkey
    · exact absurd hkey (doneKey_ne_claimKey _ _)
    · exact absurd hkey (doneKey_ne_leaseKey _ _)

/-- A call sets keys of its own job, each for its time. -/
theorem HandlePc.jobKey_of_call {cfg : Settings} {d : Delivery} {pc : HandlePc}
    {key value : String} {ttl : ℕ} (h : pc.call cfg d = some (.kv (.setIfAbsent key value ttl))) :
    JobKey cfg d.jobId key ttl := by
  cases pc with
  | setClaim =>
    have hset : claimKey d.jobId.str = key ∧ cfg.leaseTtlMs = ttl := by
      injection h with h; injection h with h; injection h with h₁ _ h₂; exact ⟨h₁, h₂⟩
    exact hset.1 ▸ hset.2 ▸ .claim
  | setLease token =>
    have hset : leaseKey d.jobId.str = key ∧ cfg.leaseTtlMs = ttl := by
      injection h with h; injection h with h; injection h with h₁ _ h₂; exact ⟨h₁, h₂⟩
    exact hset.1 ▸ hset.2 ▸ .lease
  | setDone l =>
    have hset : doneKey d.jobId.str = key ∧ cfg.execGuardTtlMs = ttl := by
      injection h with h; injection h with h; injection h with h₁ _ h₂; exact ⟨h₁, h₂⟩
    exact hset.1 ▸ hset.2 ▸ .done
  | _ => exact absurd h (by simp [call, view, awaitBare, awaitBody, awaitHandler])

namespace Fleet

variable {cfg : Settings} {G : Fleet → FleetStep → Prop} {f f' : Fleet} {a : FleetStep}

/-- Every live entry is a key of a job some call was for, and runs out in time. -/
def Expiring (cfg : Settings) (f : Fleet) : Prop :=
  ∀ (key : String) (e : Entry ℕ), f.world.kv.live f.world.now key = some e →
    ∃ j ttl t, JobKey cfg j key ttl ∧ e.expiresAt = some t ∧ t ≤ f.world.now + ttl ∧
      ∃ pid, f.Serves j pid

/-- Every step keeps the entries within their times. -/
theorem Expiring.step (hf : f.Expiring cfg) (h : f.step cfg a = some f') : f'.Expiring cfg := by
  intro key e hl
  have hnow := now_le h
  rcases live_cases h hl with hold | ⟨pid, ans, hc, value, ttl, -, hget, hcall, -, rfl, -⟩
  · obtain ⟨j, ttl, t, hkey, ht, hle, pid, hs⟩ := hf key e (InMemoryKV.live_of_le hnow hold)
    exact ⟨j, ttl, t, hkey, ht, by omega, pid, hs.step h⟩
  · have hs : f.Serves hc.delivery.jobId pid := ⟨hc, hget, rfl⟩
    exact ⟨_, ttl, _, HandlePc.jobKey_of_call (HandleCall.call?_eq_some.1 hcall).2, rfl, by omega,
      pid, hs.step h⟩

theorem expiring_of_reachable (h : (system cfg).Reachable G f) : f.Expiring cfg := by
  refine h.induct (I := Expiring cfg) (fun f hf ↦ ?_) fun f a f' _ ih _ hs ↦ ih.step hs
  rw [hf]
  exact fun key e hl ↦ absurd hl (by simp [World.empty])

/-- A claim or a lease is gone when its time to live has passed. -/
theorem Expiring.live_eq_none (hf : f.Expiring cfg) {j : Uuid} {key : String}
    (hkey : key = claimKey j.str ∨ key = leaseKey j.str) {t : ℕ}
    (ht : f.world.now + cfg.leaseTtlMs ≤ t) : f.world.kv.live t key = none := by
  cases hl : f.world.kv.live t key with
  | none => rfl
  | some e =>
    obtain ⟨j', ttl, x, hj', hx, hle, -⟩ := hf key e (InMemoryKV.live_of_le (by omega) hl)
    have hlt := InMemoryKV.lt_of_live hl hx
    rw [hj'.ttl_eq hkey] at hle
    omega

/-- No `handle` call moves. -/
def NoCalls (_ : Fleet) (a : FleetStep) : Prop := ∀ pid ans, a ≠ .handle pid ans

/-- Every live entry runs out by the time `t`. -/
def EmptyBy (t : ℕ) (f : Fleet) : Prop :=
  ∀ (key : String) (e : Entry ℕ), f.world.kv.live f.world.now key = some e →
    ∃ x, e.expiresAt = some x ∧ x ≤ t

/-- The longest time to live from now, the store is empty. -/
theorem Expiring.emptyBy (hf : f.Expiring cfg) :
    f.EmptyBy (f.world.now + max cfg.execGuardTtlMs cfg.leaseTtlMs) := by
  intro key e hl
  obtain ⟨j, ttl, x, hkey, hx, hle, -⟩ := hf key e hl
  have httl := hkey.ttl_le
  exact ⟨x, hx, by omega⟩

/-- Without a call no entry is new. -/
theorem EmptyBy.step {t : ℕ} (hf : f.EmptyBy t) (hg : NoCalls f a) (h : f.step cfg a = some f') :
    f'.EmptyBy t := by
  intro key e hl
  rcases live_cases h hl with hold | ⟨pid, ans, hc, value, ttl, rfl, -⟩
  · exact hf key e (InMemoryKV.live_of_le (now_le h) hold)
  · exact absurd rfl (hg pid ans)

/-- **The store empties itself.** From the last move of any `handle` call it takes the longest time
to live until nothing is left, whatever else happens meanwhile. -/
theorem store_empties (h : (system cfg).Reachable G f) (hl : (system cfg).Leads NoCalls f f')
    (hnow : f.world.now + max cfg.execGuardTtlMs cfg.leaseTtlMs ≤ f'.world.now) (key : String) :
    f'.world.kv.live f'.world.now key = none := by
  have hempty : f'.EmptyBy (f.world.now + max cfg.execGuardTtlMs cfg.leaseTtlMs) :=
    hl.preserves (fun _ _ _ hs hg hstep ↦ hs.step hg hstep) (expiring_of_reachable h).emptyBy
  cases he : f'.world.kv.live f'.world.now key with
  | none => rfl
  | some e =>
    obtain ⟨x, hx, hle⟩ := hempty key e he
    have hlt := InMemoryKV.lt_of_live he hx
    omega

/-- A worker takes claim and lease, and dies. -/
def deathUnderLease : List FleetStep :=
  [.submit ⟨0⟩ "k" (.healthy 5 five_le_limit) [],
    .start ⟨1, "w", ⟨0⟩, .healthy 5 five_le_limit, 1⟩, .handle 0 .served, .handle 0 .served,
    .handle 0 .served, .handle 0 .served, .die 0]

/-- After an hour both are gone, and so would be anything else. -/
theorem store_empties_of_deathUnderLease : ∃ f f' : Fleet,
    (system {}).Reachable TransitionSystem.anyStep f ∧
    (f.world.kv.live f.world.now (leaseKey (⟨0⟩ : Uuid).str)).isSome = true ∧
    (system {}).Leads NoCalls f f' ∧ f'.world.now = f.world.now + 3600000 ∧
    ∀ key, f'.world.kv.live f'.world.now key = none := by
  have hrun : ((system {}).exec ⟨.empty, []⟩ deathUnderLease).any (fun f ↦
      (f.world.kv.live f.world.now (leaseKey (⟨0⟩ : Uuid).str)).isSome) = true := by
    rfl
  obtain ⟨f, hl, hf⟩ := TransitionSystem.exists_leads_of_exec hrun
  have hr : (system {}).Reachable TransitionSystem.anyStep f := ⟨_, rfl, hl⟩
  have hl' : (system {}).Leads NoCalls f ⟨f.world.later 3600000, f.calls⟩ :=
    .single (a := .tick 3600000) nofun rfl
  exact ⟨f, _, hr, hf, hl', rfl, store_empties hr hl' (Nat.le_of_eq rfl)⟩

end Fleet

end Orbiter
