import Orbiter.Fleet.Fencing
import Orbiter.Foundation.History

/-!
# Who wrote an entry

An entry of the store names its holder, but two calls can name themselves alike: a delivery is
worker and attempt, and both may recur. Which call wrote an entry is therefore kept beside the
fleet, as a record no step reads, in the sense of `Foundation.History`.

* `writes?`, `recordOwner` — the key a step sets, if it finds the key free and takes effect;
* `exists_owned_iff` — the states reached with the record are those reached without it;
* `Owns` — a live entry and the call that wrote it. `Owns.pid_eq`: one key, one owner;
* `owns_cases` — how an entry gets its owner: it had it before, or this step is a set of the call
  itself;
* `owner_made` — an owner is a call that was begun.

The statements of `Fleet.Cleanup` are about entries and their owners. In the terms of the store
alone they could not be made: an entry left behind and an entry of a namesake look the same.
-/

namespace Orbiter

/-- The call that last wrote an entry under each key. -/
abbrev Owners : Type := String → Option ℕ

namespace Fleet

variable (cfg : Settings)

/-- The entry a step writes: its key, and the call that writes it. -/
def writes? (f : Fleet) : FleetStep → Option (String × ℕ)
  | .handle pid ans =>
    match (f.calls[pid]?).bind (HandleCall.call? cfg) with
    | some (.kv (.setIfAbsent key _ _)) =>
      if ans.takesEffect && (f.world.kv.live f.world.now key).isNone then some (key, pid) else none
    | _ => none
  | _ => none

def recordOwner (f : Fleet) (a : FleetStep) (owners : Owners) : Owners :=
  match f.writes? cfg a with
  | some (key, pid) => Function.update owners key (some pid)
  | none => owners

/-- The fleet with the owners of the entries. -/
def owned : TransitionSystem (Fleet × Owners) FleetStep :=
  (system cfg).withHistory (recordOwner cfg) fun _ ↦ none

/-- The record restricts nothing: the fleets reached are the same with it and without. -/
theorem exists_owned_iff {f : Fleet} :
    (∃ owners, (owned cfg).Reachable TransitionSystem.anyStep (f, owners)) ↔
      (system cfg).Reachable TransitionSystem.anyStep f := by
  constructor
  · rintro ⟨owners, h⟩
    exact (TransitionSystem.erase fun _ _ _ ↦ trivial).reachable h
  · exact fun h ↦ h.exists_record

variable {cfg}

/-- A state reached with the record is a state of the fleet. -/
theorem reachable_of_owned {G : Fleet × Owners → FleetStep → Prop} {s : Fleet × Owners}
    (h : (owned cfg).Reachable G s) : (system cfg).Reachable TransitionSystem.anyStep s.1 :=
  (TransitionSystem.erase fun _ _ _ ↦ trivial).reachable h

/-- The key holds a live entry, which this call wrote. -/
structure Owns (s : Fleet × Owners) (pid : ℕ) (key : String) (e : Entry ℕ) : Prop where
  live : s.1.world.kv.live s.1.world.now key = some e
  owner : s.2 key = some pid

/-- Whether there is one. -/
def ownsLive (s : Fleet × Owners) (pid : ℕ) (key : String) : Bool :=
  (s.1.world.kv.live s.1.world.now key).isSome && decide (s.2 key = some pid)

/-- The test decides the property at the present moment. -/
theorem ownsLive_eq_true {s : Fleet × Owners} {pid : ℕ} {key : String} :
    ownsLive s pid key = true ↔ ∃ e, Owns s pid key e := by
  rw [ownsLive, Bool.and_eq_true, decide_eq_true_eq, Option.isSome_iff_exists]
  constructor
  · rintro ⟨⟨e, hl⟩, ho⟩
    exact ⟨e, hl, ho⟩
  · rintro ⟨e, hl, ho⟩
    exact ⟨⟨e, hl⟩, ho⟩

/-- One key, one entry, one owner. -/
theorem Owns.pid_eq {s : Fleet × Owners} {pid pid' : ℕ} {key : String} {e e' : Entry ℕ}
    (h : Owns s pid key e) (h' : Owns s pid' key e') : pid = pid' :=
  Option.some.inj (h.owner.symm.trans h'.owner)

/-- A key is written by a `handle` step that found it free. -/
theorem writes?_eq_some {f : Fleet} {a : FleetStep} {key : String} {pid : ℕ}
    (h : f.writes? cfg a = some (key, pid)) :
    (∃ ans, a = .handle pid ans) ∧ f.world.kv.live f.world.now key = none := by
  cases a with
  | handle pid' ans =>
    rw [writes?] at h
    split at h
    · split at h
      · next hfree =>
        obtain ⟨rfl, rfl⟩ := Prod.mk.inj (Option.some.inj h)
        rw [Bool.and_eq_true, Option.isNone_iff_eq_none] at hfree
        exact ⟨⟨ans, rfl⟩, hfree.2⟩
      · exact absurd h (by simp)
    · exact absurd h (by simp)
  | submit | replay | deadLetter | publish | start | die | tick | vanish =>
    exact absurd h (by simp [writes?])

/-- Only a set makes an owner. -/
theorem recordOwner_of_call {f : Fleet} {pid : ℕ} {hc : HandleCall} {c : WorkerCall}
    (hget : f.calls[pid]? = some hc) (hcall : hc.call? cfg = some c)
    (hc : ∀ key value ttl, c ≠ .kv (.setIfAbsent key value ttl)) (ans : Answer) (owners : Owners) :
    recordOwner cfg f (.handle pid ans) owners = owners := by
  have hw : f.writes? cfg (.handle pid ans) = none := by
    rw [writes?, hget, Option.bind_some, hcall]
    split
    · next key value ttl heq => exact absurd (Option.some.inj heq) (hc key value ttl)
    · rfl
  rw [recordOwner, hw]

/-- An owner was recorded before, or is the call that writes. -/
theorem recordOwner_eq_some {f : Fleet} {a : FleetStep} {owners : Owners} {key : String} {pid : ℕ}
    (h : recordOwner cfg f a owners key = some pid) :
    f.writes? cfg a = some (key, pid) ∨
      (owners key = some pid ∧ ∀ pid', f.writes? cfg a ≠ some (key, pid')) := by
  rw [recordOwner] at h
  cases hw : f.writes? cfg a with
  | none =>
    rw [hw] at h
    exact .inr ⟨h, by simp⟩
  | some x =>
    obtain ⟨key', pid'⟩ := x
    rw [hw] at h
    dsimp only at h
    by_cases hk : key = key'
    · subst hk
      rw [Function.update_self, Option.some.injEq] at h
      exact .inl (by rw [h])
    · rw [Function.update_of_ne hk] at h
      refine .inr ⟨h, fun pid'' heq ↦ hk ?_⟩
      rw [(Prod.mk.inj (Option.some.inj heq)).1]

/-- **How an entry gets its owner**: it had it before, or a set of the call itself wrote it, under a
key that was free. -/
theorem owns_cases {s s' : Fleet × Owners} {a : FleetStep} (h : (owned cfg).step s a = some s')
    {pid : ℕ} {key : String} {e : Entry ℕ} (ho : Owns s' pid key e) :
    Owns s pid key e ∨
    ∃ ans hc value ttl, a = .handle pid ans ∧ s.1.calls[pid]? = some hc ∧
      hc.call? cfg = some (.kv (.setIfAbsent key value ttl)) ∧
      s.1.world.kv.live s.1.world.now key = none ∧ e.value = value := by
  obtain ⟨hs, hrec⟩ := TransitionSystem.withHistory_eq_some.1 h
  have howner := ho.owner
  rw [hrec] at howner
  rcases live_cases hs ho.live with hold |
    ⟨pid', ans, hc, value, ttl, rfl, hget, hcall, hnone, rfl, heff⟩
  · have hl := InMemoryKV.live_of_le (now_le hs) hold
    rcases recordOwner_eq_some howner with hw | ⟨howner, -⟩
    · rw [(writes?_eq_some hw).2] at hl
      exact absurd hl (by simp)
    · exact .inl ⟨hl, howner⟩
  · have hw : s.1.writes? cfg (.handle pid' ans) = some (key, pid') := by
      simp [writes?, hget, hcall, hnone, heff]
    rcases recordOwner_eq_some howner with hw' | ⟨-, hne⟩
    · rw [hw, Option.some.injEq, Prod.mk.injEq] at hw'
      obtain rfl := hw'.2
      exact .inr ⟨ans, hc, value, ttl, rfl, hget, hcall, hnone, rfl⟩
    · exact absurd hw (hne pid')

/-- Owners are calls. -/
theorem owner_made {G : Fleet × Owners → FleetStep → Prop} {s : Fleet × Owners}
    (h : (owned cfg).Reachable G s) :
    ∀ key pid, s.2 key = some pid → ∃ hc, s.1.calls[pid]? = some hc := by
  refine h.induct (I := fun s ↦ ∀ key pid, s.2 key = some pid → ∃ hc, s.1.calls[pid]? = some hc)
    (fun s hs ↦ ?_) fun s a s' _ ih _ h ↦ ?_
  · rw [hs.2]
    exact fun key pid ho ↦ absurd ho (by simp)
  · intro key pid ho
    obtain ⟨hs, hrec⟩ := TransitionSystem.withHistory_eq_some.1 h
    rw [hrec] at ho
    have hmade : ∃ hc, s.1.calls[pid]? = some hc := by
      rcases recordOwner_eq_some ho with hw | ⟨ho, -⟩
      · obtain ⟨ans, rfl⟩ := (writes?_eq_some hw).1
        obtain ⟨hc, c, pc, hget, -, -, -⟩ := stepHandle_eq_some hs
        exact ⟨hc, hget⟩
      · exact ih key pid ho
    obtain ⟨hc, hget⟩ := hmade
    exact (step_call_of_some hs hget).imp fun _ hc' ↦ hc'.1

end Fleet

end Orbiter
