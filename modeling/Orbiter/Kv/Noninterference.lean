import Orbiter.Foundation.Interleaving
import Orbiter.Kv.Valkey

/-!
# Jobs do not interfere

Leases and guard keep four keys for each job: the lease, the counter of its tokens, the `done`
marker and the claim. For jobs named by UUIDs no two jobs have a key in common — the text of a UUID
has no colon, so the lease key of one is never the counter of another — and every call to the store
looks at its own key only. Operations on one job therefore return what they would return without the
operations on all others, in the in-memory store as in the keyspace of the server.

## The three parts

* `HasKey.inj` — **keys**: a key determines its job. `Invocation.hasKey_of_makes` says that an
  operation on a job touches keys of that job only, by what its program can come to call;
* `InMemoryKV.localStore`, `ValkeyKV.localStore` — **stores**: both are local in the sense of
  `Foundation.Interleaving`. The slot of a key is its entry and its counter in the first, and the
  one entry of the keyspace in the second;
* `jobs_do_not_interfere` — **runs**: what becomes of the operations on one job, under any schedule
  and any clock, is what becomes of them when the schedule has those of no other job.

The general theorem compares two runs of any programs on a local store, so what is left here is keys
and slots. The guard operations and the lease operations are on an equal footing, `Invocation` being
any of them.
-/

namespace Orbiter

open ExecutionGuard LeaseManager

/-! ### The operations -/

/-- The operations of `LeaseManager` and `ExecutionGuard` on one job. -/
inductive JobOperation
  | acquire (ttlS : ℚ) (holder : String)
  | release (holder : String) (token : ℕ)
  | tryClaim (claimTtlS : ℚ) (delivery : String)
  | markDone (doneTtlS : ℚ) (delivery : String)
  | releaseClaim (delivery : String)

/-- What they return. -/
inductive OperationResult
  | lease (lease : Option Lease)
  | released (released : Bool)
  | claim (result : ClaimResult)
  | done
  deriving DecidableEq

/-- The calls an operation makes. What the store raises, the operation raises. -/
def JobOperation.prog (job : Uuid) : JobOperation → KvProg ℚ KvResult OperationResult
  | acquire ttlS holder => do
    let lease ← LeaseManager.acquire ttlS job.str holder
    return .lease lease
  | release holder token => do
    let released ← LeaseManager.release ⟨job.str, holder, token⟩
    return .released released
  | tryClaim claimTtlS delivery => do
    let result ← ExecutionGuard.tryClaim claimTtlS job.str delivery
    return .claim result
  | markDone doneTtlS delivery => do
    ExecutionGuard.markDone doneTtlS job.str delivery
    return .done
  | releaseClaim delivery => do
    ExecutionGuard.releaseClaim job.str delivery
    return .done

/-- An operation on a job. -/
structure Invocation where
  job : Uuid
  op : JobOperation

def Invocation.prog (v : Invocation) : KvProg ℚ KvResult OperationResult := v.op.prog v.job

/-! ### The keys of a job -/

/-- The key a call is about. -/
def KvCall.key {τ : Type} : KvCall τ → String
  | .get key | .setIfAbsent key _ _ | .incr key | .compareAndDelete key _ => key

/-- The four keys of a job. -/
def HasKey (job : Uuid) (key : String) : Prop :=
  key = leaseKey job.str ∨ key = tokenKey job.str ∨ key = doneKey job.str ∨ key = claimKey job.str

theorem tokenKey_inj {r r' : String} : tokenKey r = tokenKey r' ↔ r = r' := by
  rw [tokenKey, tokenKey, String.append_left_inj, String.append_right_inj]

/-- **The keys are apart.** A key belongs to one job only. -/
theorem HasKey.inj {job job' : Uuid} {key : String} (h : HasKey job key) (h' : HasKey job' key) :
    job = job' := by
  have hlease (j : Uuid) : IsEntryKey (leaseKey j.str) := ⟨j, .inr (.inr rfl)⟩
  have hdone (j : Uuid) : IsEntryKey (doneKey j.str) := ⟨j, .inl rfl⟩
  have hclaim (j : Uuid) : IsEntryKey (claimKey j.str) := ⟨j, .inr (.inl rfl)⟩
  rcases h with rfl | rfl | rfl | rfl
  · rcases h' with h' | h' | h' | h'
    · exact Uuid.str_inj (leaseKey_inj.1 h')
    · exact absurd h'.symm (tokenKey_ne_of_isEntryKey (hlease job) job')
    · exact absurd h'.symm (doneKey_ne_leaseKey _ _)
    · exact absurd h'.symm (claimKey_ne_leaseKey _ _)
  · rcases h' with h' | h' | h' | h'
    · exact absurd h' (tokenKey_ne_of_isEntryKey (hlease job') job)
    · exact Uuid.str_inj (tokenKey_inj.1 h')
    · exact absurd h' (tokenKey_ne_of_isEntryKey (hdone job') job)
    · exact absurd h' (tokenKey_ne_of_isEntryKey (hclaim job') job)
  · rcases h' with h' | h' | h' | h'
    · exact absurd h' (doneKey_ne_leaseKey _ _)
    · exact absurd h'.symm (tokenKey_ne_of_isEntryKey (hdone job) job')
    · exact Uuid.str_inj (doneKey_inj.1 h')
    · exact absurd h' (doneKey_ne_claimKey _ _)
  · rcases h' with h' | h' | h' | h'
    · exact absurd h' (claimKey_ne_leaseKey _ _)
    · exact absurd h'.symm (tokenKey_ne_of_isEntryKey (hclaim job) job')
    · exact absurd h'.symm (doneKey_ne_claimKey _ _)
    · exact Uuid.str_inj (claimKey_inj.1 h')

/-- An operation keeps to the keys of its job. -/
theorem Invocation.hasKey_of_makes {v : Invocation} {c : KvCall ℚ} (h : v.prog.Makes c) :
    HasKey v.job c.key := by
  obtain ⟨job, op⟩ := v
  cases op with
  | acquire ttlS holder =>
    rcases Prog.makes_bind h with h | ⟨_, h⟩
    · rcases Prog.makes_bind h with h | ⟨token, h⟩
      · rw [Prog.makes_await h]
        exact .inr (.inl rfl)
      · rcases Prog.makes_bind h with h | ⟨acquired, h⟩
        · rw [Prog.makes_await h]
          exact .inl rfl
        · match acquired, h with
          | true, h => exact (Prog.not_makes_ret h).elim
          | false, h => exact (Prog.not_makes_ret h).elim
    · exact (Prog.not_makes_ret h).elim
  | release holder token =>
    rcases Prog.makes_bind h with h | ⟨_, h⟩
    · rw [Prog.makes_await h]
      exact .inl rfl
    · exact (Prog.not_makes_ret h).elim
  | tryClaim claimTtlS delivery =>
    rcases Prog.makes_bind h with h | ⟨_, h⟩
    · rcases Prog.makes_bind h with h | ⟨done, h⟩
      · rw [Prog.makes_await h]
        exact .inr (.inr (.inl rfl))
      · match done, h with
        | some _, h => exact (Prog.not_makes_ret h).elim
        | none, h =>
          rcases Prog.makes_bind h with h | ⟨claimed, h⟩
          · rw [Prog.makes_await h]
            exact .inr (.inr (.inr rfl))
          · match claimed, h with
            | true, h => exact (Prog.not_makes_ret h).elim
            | false, h => exact (Prog.not_makes_ret h).elim
    · exact (Prog.not_makes_ret h).elim
  | markDone doneTtlS delivery =>
    rcases Prog.makes_bind h with h | ⟨_, h⟩
    · rcases Prog.makes_bind h with h | ⟨_, h⟩
      · rw [Prog.makes_await h]
        exact .inr (.inr (.inl rfl))
      · rcases Prog.makes_bind h with h | ⟨_, h⟩
        · rw [Prog.makes_await h]
          exact .inr (.inr (.inr rfl))
        · exact (Prog.not_makes_ret h).elim
    · exact (Prog.not_makes_ret h).elim
  | releaseClaim delivery =>
    rcases Prog.makes_bind h with h | ⟨_, h⟩
    · rcases Prog.makes_bind h with h | ⟨_, h⟩
      · rw [Prog.makes_await h]
        exact .inr (.inr (.inr rfl))
      · exact (Prog.not_makes_ret h).elim
    · exact (Prog.not_makes_ret h).elim

/-! ### The stores are local -/

namespace InMemoryKV

/-- The entry and the counter of a key. -/
def slot {τ : Type} (kv : InMemoryKV τ) (key : String) : Option (Entry τ) × ℕ :=
  (kv.data key, kv.counters key)

/-- Writing one key leaves the slots of the others. -/
theorem slot_put_ne {τ : Type} (kv : InMemoryKV τ) {key key' : String} (h : key' ≠ key)
    (e : Option (Entry τ)) : (kv.put key e).slot key' = kv.slot key' :=
  Prod.ext (Function.update_of_ne h _ _) rfl

theorem slot_put_self {τ : Type} (kv : InMemoryKV τ) (key : String) (e : Option (Entry τ)) :
    (kv.put key e).slot key = (e, kv.counters key) :=
  Prod.ext (Function.update_self _ _ _) rfl

/-- What is live under a key is read from its slot. -/
theorem live_eq_of_slot_eq {kv kv' : InMemoryKV ℚ} {key : String} (h : kv.slot key = kv'.slot key)
    (now : ℚ) : kv.live now key = kv'.live now key := by
  rw [live, live, show kv.data key = kv'.data key from congrArg Prod.fst h]

theorem counters_eq_of_slot_eq {kv kv' : InMemoryKV ℚ} {key : String}
    (h : kv.slot key = kv'.slot key) : kv.counters key = kv'.counters key :=
  congrArg Prod.snd h

/-- An answer depends on the slot of the key only. -/
theorem perform_fst_eq {kv kv' : InMemoryKV ℚ} {c : KvCall ℚ} (h : kv.slot c.key = kv'.slot c.key)
    (now : ℚ) : (c.perform kv now).1 = (c.perform kv' now).1 := by
  have hlive := live_eq_of_slot_eq h now
  have hcount := counters_eq_of_slot_eq h
  cases c with
  | get key => exact congrArg (Option.map Entry.value) hlive
  | setIfAbsent key value ttlS =>
    simp only [KvCall.key] at hlive
    simp only [KvCall.perform, setIfAbsent_fst, hlive]
    rfl
  | incr key => exact congrArg (· + 1) hcount
  | compareAndDelete key expected =>
    simp only [KvCall.key] at hlive
    simp only [KvCall.perform, compareAndDelete_fst, hlive]
    rfl

theorem slot_perform_eq {kv kv' : InMemoryKV ℚ} {c : KvCall ℚ}
    (h : kv.slot c.key = kv'.slot c.key) (now : ℚ) :
    (c.perform kv now).2.slot c.key = (c.perform kv' now).2.slot c.key := by
  have hlive := live_eq_of_slot_eq h now
  have hcount := counters_eq_of_slot_eq h
  cases c with
  | get key =>
    simp only [KvCall.key] at hlive hcount ⊢
    simp only [KvCall.perform, get, evict, slot_put_self, hlive, hcount]
  | setIfAbsent key value ttlS =>
    simp only [KvCall.key] at hlive hcount ⊢
    simp only [KvCall.perform, setIfAbsent, hlive]
    split <;> simp only [evict, slot_put_self, hlive, hcount]
  | incr key =>
    simp only [KvCall.key] at h hcount ⊢
    refine Prod.ext (congrArg Prod.fst h :) ?_
    simp only [KvCall.perform, incr, slot, Function.update_self, hcount]
  | compareAndDelete key expected =>
    simp only [KvCall.key] at hlive hcount ⊢
    simp only [KvCall.perform, compareAndDelete, hlive]
    split <;> simp only [evict, slot_put_self, hlive, hcount]

theorem slot_perform_ne (kv : InMemoryKV ℚ) (now : ℚ) {c : KvCall ℚ} {key : String}
    (h : key ≠ c.key) : (c.perform kv now).2.slot key = kv.slot key := by
  cases c with
  | get key' => exact slot_put_ne kv h _
  | setIfAbsent key' value ttlS =>
    simp only [KvCall.perform, setIfAbsent]
    split <;> exact slot_put_ne kv h _
  | incr key' => exact Prod.ext rfl (Function.update_of_ne h _ _)
  | compareAndDelete key' expected =>
    simp only [KvCall.perform, compareAndDelete]
    split <;> exact slot_put_ne kv h _

/-- The in-memory store. -/
def localStore : LocalStore (InMemoryKV ℚ) ℚ (KvCall ℚ) KvCall.Resp KvResult String
    (Option (Entry ℚ) × ℕ) where
  perform kv now c := (.ok (c.perform kv now).1, (c.perform kv now).2)
  key := KvCall.key
  slot := slot
  answer_eq now _ h := congrArg Except.ok (perform_fst_eq h now)
  slot_eq now _ h := slot_perform_eq h now
  frame kv now _ _ h := slot_perform_ne kv now h

end InMemoryKV

/-- The result of a call as the program receives it; an error reply is raised. A counter is never
negative, since only `INCR` writes it. -/
def KvResult.answer : KvResult → (c : KvCall ℚ) → Except KvResult c.Resp
  | .value v, .get _ => .ok v
  | .flag ok, .setIfAbsent _ _ _ => .ok ok
  | .number n, .incr _ => .ok n.toNat
  | .flag ok, .compareAndDelete _ _ => .ok ok
  | result, _ => .error result

namespace ValkeyKV

theorem keyspace_store_ne (db : Valkey) {key key' : String} (h : key' ≠ key)
    (e : Option (Entry ℕ)) : (db.store key e).keyspace key' = db.keyspace key' :=
  Function.update_of_ne h _ _

theorem keyspace_store_self (db : Valkey) (key : String) (e : Option (Entry ℕ)) :
    (db.store key e).keyspace key = e :=
  Function.update_self _ _ _

/-- A command answers from its key, and leaves what it answers from there. -/
theorem perform_eq {db db' : Valkey} {c : KvCall ℚ} (h : db.keyspace c.key = db'.keyspace c.key)
    (now : ℕ) : (perform db now c).1 = (perform db' now c).1 ∧
      (perform db now c).2.keyspace c.key = (perform db' now c).2.keyspace c.key := by
  have hlookup : db.lookup now c.key = db'.lookup now c.key := by
    rw [Valkey.lookup, Valkey.lookup, h]
  cases c with
  | get key =>
    simp only [KvCall.key] at h hlookup ⊢
    simp only [perform, Valkey.get, hlookup, h, and_self]
  | setIfAbsent key value ttlS =>
    simp only [KvCall.key] at h hlookup ⊢
    simp only [perform, Valkey.setNxPx, hlookup]
    split <;> simp only [h, keyspace_store_self, and_self]
  | incr key =>
    simp only [KvCall.key] at h hlookup ⊢
    simp only [perform, Valkey.incr, hlookup]
    cases db'.lookup now key with
    | none => simp only [keyspace_store_self, and_self]
    | some e =>
      cases hint : Valkey.integer? e.value <;> simp only [hint, h, keyspace_store_self, and_self]
  | compareAndDelete key expected =>
    simp only [KvCall.key] at h hlookup ⊢
    simp only [perform, Valkey.compareAndDelete, Valkey.get, hlookup]
    by_cases hv : (db'.lookup now key).map Entry.value = some expected
    · simp [hv, keyspace_store_self]
    · simp [hv, h]

theorem keyspace_perform_ne (db : Valkey) (now : ℕ) {c : KvCall ℚ} {key : String}
    (h : key ≠ c.key) : (perform db now c).2.keyspace key = db.keyspace key := by
  cases c with
  | get key' => rfl
  | setIfAbsent key' value ttlS =>
    simp only [perform, Valkey.setNxPx]
    split
    · rfl
    · exact keyspace_store_ne db h _
  | incr key' =>
    simp only [perform, Valkey.incr]
    cases db.lookup now key' with
    | none => exact keyspace_store_ne db h _
    | some e =>
      cases hint : Valkey.integer? e.value with
      | none => simp only [hint]
      | some n =>
        simp only [hint]
        exact keyspace_store_ne db h _
  | compareAndDelete key' expected =>
    simp only [perform, Valkey.compareAndDelete]
    split
    · exact keyspace_store_ne db h _
    · rfl

/-- The server. -/
def localStore : LocalStore Valkey ℕ (KvCall ℚ) KvCall.Resp KvResult String
    (Option (Entry ℕ)) where
  perform db now c := ((perform db now c).1.answer c, (perform db now c).2)
  key := KvCall.key
  slot := Valkey.keyspace
  answer_eq now c h := congrArg (KvResult.answer · c) (perform_eq h now).1
  slot_eq now _ h := (perform_eq h now).2
  frame db now _ _ h := keyspace_perform_ne db now h

end ValkeyKV

/-! ### Noninterference -/

/-- What an operation has returned or raised, once it has ended. -/
def outcome? {ε α : Type} : KvProg ℚ ε α → Option (Except ε α)
  | .ret a => some (.ok a)
  | .raise e => some (.error e)
  | .call _ _ => none

section

variable {ι σ τ S : Type} [DecidableEq ι]

/-- The operations, none of them begun. -/
def begun (store : σ) (calls : ι → Invocation) :
    Interleaving σ ι (KvCall ℚ) KvCall.Resp KvResult OperationResult :=
  ⟨store, fun i ↦ (calls i).prog⟩

/-- The results of the operations on one job, in a store that is local to the key of a call. -/
theorem run_begun_eq {M : LocalStore σ τ (KvCall ℚ) KvCall.Resp KvResult String S}
    (hkey : M.key = KvCall.key) (store : σ) (calls : ι → Invocation) (schedule : List (ι × τ))
    {i : ι} {j : Uuid} (hi : (calls i).job = j) : (M.run (begun store calls) schedule).calls i =
      (M.run (begun store calls) (schedule.filter fun p ↦ (calls p.1).job = j)).calls i := by
  have hkeep : M.KeepsTo (fun i ↦ (calls i).job) HasKey (begun store calls) := by
    intro i' c hc
    rw [hkey]
    exact Invocation.hasKey_of_makes hc
  exact M.run_calls_eq (fun _ _ h h' ↦ h.inj h') hkeep schedule hi

end

/-- **Jobs do not interfere.** For any operations on any jobs, interleaved call by call at any clock
readings, in the in-memory store and in the keyspace of the server: the operations on one job have
the results they have when all operations on other jobs are removed. -/
theorem jobs_do_not_interfere {ι : Type} [DecidableEq ι] (calls : ι → Invocation) (j : Uuid) :
    (∀ (kv : InMemoryKV ℚ) (schedule : List (ι × ℚ)) (i : ι), (calls i).job = j →
      outcome? ((InMemoryKV.localStore.run (begun kv calls) schedule).calls i) =
        outcome? ((InMemoryKV.localStore.run (begun kv calls)
          (schedule.filter fun p ↦ (calls p.1).job = j)).calls i)) ∧
    ∀ (db : Valkey) (schedule : List (ι × ℕ)) (i : ι), (calls i).job = j →
      outcome? ((ValkeyKV.localStore.run (begun db calls) schedule).calls i) =
        outcome? ((ValkeyKV.localStore.run (begun db calls)
          (schedule.filter fun p ↦ (calls p.1).job = j)).calls i) :=
  ⟨fun kv schedule _ hi ↦ congrArg outcome? (run_begun_eq rfl kv calls schedule hi),
    fun db schedule _ hi ↦ congrArg outcome? (run_begun_eq rfl db calls schedule hi)⟩

/-- Two jobs are claimed in turn. -/
def twoClaims (first : Bool) : Invocation :=
  if first then ⟨⟨1⟩, .tryClaim 20 "d"⟩ else ⟨⟨2⟩, .tryClaim 20 "e"⟩

/-- Two jobs are claimed at once, and the claim of one is as it is alone. -/
theorem jobs_do_not_interfere_twoClaims :
    outcome? ((ValkeyKV.localStore.run (begun .empty twoClaims)
      [(true, 0), (false, 0), (true, 1), (false, 1)]).calls true) =
        some (.ok (.claim .claimed)) := by
  obtain ⟨-, hserver⟩ := jobs_do_not_interfere twoClaims ⟨1⟩
  rw [hserver .empty [(true, 0), (false, 0), (true, 1), (false, 1)] true rfl]
  rfl

end Orbiter
