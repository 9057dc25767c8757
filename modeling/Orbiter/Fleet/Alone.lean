import Orbiter.Fleet.Progress

/-!
# A call alone with its job

The claim, the lease and the done marker of a job are set by calls for that job, and its row is
written by these calls, a quarantine and an operator. A step that is none of these spares the job.
So the only call a job ever had finds at every control point what it left there.

* `jobKeys`, `serves_of_live` — the keys of a job, and that a live one among them means a call for
  the job that was begun. So a job nobody has served is `Free`;
* `Spares` — a step that is neither of a call for the job, nor a write to it. `Spares.job?` and
  `Spares.live` say what it leaves alone;
* `HandlePc.OnTrack` — what the call has left at each control point, from the free keys and the
  queued row at the start to the acknowledgement;
* `Move.onTrack` — **a call that is answered without faults and never draws a failure stays on the
  track**, and `HandlePc.onTrack_spared` — so it does while others move.
-/

namespace Orbiter

open ExecutionGuard LeaseManager Worker

/-- The keys that mark a job as taken or done. -/
def jobKeys (j : Uuid) : List String := [doneKey j.str, claimKey j.str, leaseKey j.str]

theorem mem_jobKeys {j : Uuid} {key : String} :
    key ∈ jobKeys j ↔ key = doneKey j.str ∨ key = claimKey j.str ∨ key = leaseKey j.str := by
  simp [jobKeys]

/-- No two jobs share a key. -/
theorem eq_of_mem_jobKeys {j j' : Uuid} {key : String} (h : key ∈ jobKeys j)
    (h' : key ∈ jobKeys j') : j = j' := by
  rcases mem_jobKeys.1 h with rfl | rfl | rfl <;> rcases mem_jobKeys.1 h' with h' | h' | h'
  · exact Uuid.str_inj (doneKey_inj.1 h')
  · exact absurd h' (doneKey_ne_claimKey _ _)
  · exact absurd h' (doneKey_ne_leaseKey _ _)
  · exact absurd h'.symm (doneKey_ne_claimKey _ _)
  · exact Uuid.str_inj (claimKey_inj.1 h')
  · exact absurd h' (claimKey_ne_leaseKey _ _)
  · exact absurd h'.symm (doneKey_ne_leaseKey _ _)
  · exact absurd h'.symm (claimKey_ne_leaseKey _ _)
  · exact Uuid.str_inj (leaseKey_inj.1 h')

/-- A call sets keys of its own job. -/
theorem HandlePc.mem_jobKeys_of_call {cfg : Settings} {d : Delivery} {pc : HandlePc}
    {key value : String} {ttl : ℕ} (h : pc.call cfg d = some (.kv (.setIfAbsent key value ttl))) :
    key ∈ jobKeys d.jobId := by
  cases pc with
  | setClaim =>
    have hkey : claimKey d.jobId.str = key := by
      injection h with h; injection h with h; injection h
    exact mem_jobKeys.2 (.inr (.inl hkey.symm))
  | setLease token =>
    have hkey : leaseKey d.jobId.str = key := by
      injection h with h; injection h with h; injection h
    exact mem_jobKeys.2 (.inr (.inr hkey.symm))
  | setDone l =>
    have hkey : doneKey d.jobId.str = key := by
      injection h with h; injection h with h; injection h
    exact mem_jobKeys.2 (.inl hkey.symm)
  | _ => exact absurd h (by simp [call, view, awaitBare, awaitBody, awaitHandler])

namespace Fleet

variable {cfg : Settings} {f f' : Fleet} {b : FleetStep} {j : Uuid}

/-- The call with this number is for the job. -/
def Serves (f : Fleet) (j : Uuid) (pid : ℕ) : Prop :=
  ∃ hc, f.calls[pid]? = some hc ∧ hc.delivery.jobId = j

theorem Serves.step {pid : ℕ} (hs : f.Serves j pid) (h : f.step cfg b = some f') :
    f'.Serves j pid := by
  obtain ⟨hc, hget, hjob⟩ := hs
  obtain ⟨hc', hget', hd⟩ := step_call_of_some h hget
  exact ⟨hc', hget', by rw [hd, hjob]⟩

/-- A call that serves the job after a step served it before, or begins. -/
theorem serves_cases (h : f.step cfg b = some f') {pid : ℕ} (hs : f'.Serves j pid) :
    f.Serves j pid ∨ pid = f.calls.length ∧ ∃ d, b = .start d ∧ d.jobId = j := by
  obtain ⟨hc', hget, hjob⟩ := hs
  rcases step_call h hget with ⟨hget₀, -⟩ | ⟨hc, hget₀, -, rfl⟩ | ⟨hnone, d, rfl, rfl⟩ |
    ⟨hc, ans, c, pc, -, hget₀, -, -, -, rfl⟩
  · exact .inl ⟨hc', hget₀, hjob⟩
  · exact .inl ⟨hc, hget₀, hjob⟩
  · obtain rfl := Option.some.inj h
    have hlt := (List.getElem?_eq_some_iff.1 hget).1
    rw [List.length_append, List.length_singleton] at hlt
    exact .inr ⟨by rw [List.getElem?_eq_none_iff] at hnone; omega, d, rfl, hjob⟩
  · exact .inl ⟨hc, hget₀, hjob⟩

/-- **A job whose key is set has had a call.** -/
theorem serves_of_live (h : (system cfg).Reachable TransitionSystem.anyStep f) {key : String}
    (hkey : key ∈ jobKeys j) {e : Entry ℕ} (hl : f.world.kv.live f.world.now key = some e) :
    ∃ pid, f.Serves j pid := by
  revert j key e
  refine h.induct (I := fun f ↦ ∀ {j : Uuid} {key : String}, key ∈ jobKeys j → ∀ {e : Entry ℕ},
    f.world.kv.live f.world.now key = some e → ∃ pid, f.Serves j pid) (fun f hf ↦ ?_)
    fun f a f' _ ih _ hs ↦ ?_
  · rw [hf]
    exact fun {j key} _ {e} hl ↦ absurd hl (by simp [World.empty])
  · intro j key hkey e hl
    rcases live_cases hs hl with hold | ⟨pid, ans, hc, value, ttl, -, hget, hcall, -, -⟩
    · obtain ⟨pid, hserves⟩ := ih hkey (InMemoryKV.live_of_le (now_le hs) hold)
      exact ⟨pid, hserves.step hs⟩
    · have hown := HandlePc.mem_jobKeys_of_call (HandleCall.call?_eq_some.1 hcall).2
      have hserves : f.Serves j pid := ⟨hc, hget, eq_of_mem_jobKeys hown hkey⟩
      exact ⟨pid, hserves.step hs⟩

theorem free_of_not_serves (h : (system cfg).Reachable TransitionSystem.anyStep f)
    (hno : ∀ pid, ¬ f.Serves j pid) : Free f.world j := by
  have hnone : ∀ key ∈ jobKeys j, f.world.kv.live f.world.now key = none := by
    intro key hkey
    cases hl : f.world.kv.live f.world.now key with
    | none => rfl
    | some e =>
      obtain ⟨pid, hserves⟩ := serves_of_live h hkey hl
      exact absurd hserves (hno pid)
  exact ⟨hnone _ (mem_jobKeys.2 (.inl rfl)), hnone _ (mem_jobKeys.2 (.inr (.inl rfl))),
    hnone _ (mem_jobKeys.2 (.inr (.inr rfl)))⟩

/-! ### Steps that spare a job -/

/-- The step is not of a call for the job, nor an operator's or a listener's about it. -/
structure Spares (f : Fleet) (j : Uuid) (b : FleetStep) : Prop where
  handle : ∀ (pid : ℕ) (ans : Answer), b = .handle pid ans → ¬ f.Serves j pid
  replay : b ≠ .replay j
  deadLetter : ∀ streamSeq deliveries : ℤ, b ≠ .deadLetter j streamSeq deliveries

theorem Spares.job? (hs : f.Spares j b) (h : f.step cfg b = some f') {row : JobRow SubmitRequest}
    (hrow : f.world.db.job? j = some row) : f'.world.db.job? j = some row := by
  rcases jobStep h j with ⟨hjob, -, -⟩ | ⟨who, key, payload, id, id', habs, -, -, -⟩ |
    ⟨who, w, row₀, next, id, hmade, hid, -, -, -, -, -, -⟩
  · exact hjob.trans hrow
  · rw [habs] at hrow
    exact nomatch hrow
  · cases b with
    | handle pid ans =>
      obtain ⟨-, hc, hget, hcall⟩ := hmade
      refine absurd ⟨hc, hget, ?_⟩ (hs.handle pid ans rfl)
      obtain ⟨-, l, ⟨-, rfl⟩ | ⟨result, -, rfl⟩ | ⟨message, -, rfl⟩ | ⟨message, -, rfl⟩⟩ :=
        HandleCall.recordEvent_of_call? hcall <;> exact hid
    | replay jobId =>
      obtain ⟨-, rfl⟩ := hmade
      exact absurd (congrArg FleetStep.replay hid) hs.replay
    | deadLetter jobId streamSeq deliveries =>
      obtain ⟨-, rfl⟩ := hmade
      obtain rfl : jobId = j := hid
      exact absurd rfl (hs.deadLetter streamSeq deliveries)
    | submit | publish | start | die | tick | vanish => exact hmade.elim

/-- A step that spares a job sets none of its keys. -/
theorem Spares.live (hs : f.Spares j b) (h : f.step cfg b = some f') {key : String}
    (hkey : key ∈ jobKeys j) (hnone : f.world.kv.live f.world.now key = none) :
    f'.world.kv.live f'.world.now key = none := by
  cases hl : f'.world.kv.live f'.world.now key with
  | none => rfl
  | some e =>
    rcases live_cases h hl with hold | ⟨pid, ans, hc, value, ttl, hb, hget, hcall, -, -⟩
    · rw [InMemoryKV.live_of_le (now_le h) hold] at hnone
      exact nomatch hnone
    · have hown := HandlePc.mem_jobKeys_of_call (HandleCall.call?_eq_some.1 hcall).2
      exact absurd ⟨hc, hget, eq_of_mem_jobKeys hown hkey⟩ (hs.handle pid ans hb)

end Fleet

/-! ### The track -/

/-- The job is queued and was never leased. -/
def World.Waiting (s : World) (j : Uuid) : Prop :=
  ∃ row, s.db.job? j = some row ∧ row.state = .queued ∧ row.fenceToken = 0

/-- The job runs, under no newer token. -/
def World.Running (s : World) (j : Uuid) (token : ℕ) : Prop :=
  ∃ row, s.db.job? j = some row ∧ row.state = .running ∧ row.fenceToken ≤ token

/-- What a call alone with its job finds at each control point. -/
def HandlePc.OnTrack (s : World) (j : Uuid) : HandlePc → Prop
  | .readDone => Fleet.Free s j ∧ s.Waiting j
  | .setClaim =>
    s.kv.live s.now (claimKey j.str) = none ∧ s.kv.live s.now (leaseKey j.str) = none ∧ s.Waiting j
  | .drawToken | .setLease _ => s.kv.live s.now (leaseKey j.str) = none ∧ s.Waiting j
  | .recordStarted _ => s.Waiting j
  | .executing l | .recordCompleted l _ => s.Running j l.token
  | .setDone _ | .clearClaim _ | .ackCompleted _ => True
  | .releaseLease _ (.ok _) | .finished (.ok _) => True
  | _ => False

/-- The call raised for a reason of its own. -/
def Answer.isFailed : Answer → Bool
  | .failed _ => true
  | _ => false

/-- The call has acknowledged its message. -/
def HandlePc.released : HandlePc → Bool
  | .releaseLease _ _ | .finished _ => true
  | _ => false

/-- Steps that spare the job keep its call on the track. -/
theorem HandlePc.onTrack_spared {cfg : Settings} {f f' : Fleet} {b : FleetStep} {j : Uuid}
    {pc : HandlePc} (ht : pc.OnTrack f.world j) (hs : f.Spares j b)
    (h : f.step cfg b = some f') : pc.OnTrack f'.world j := by
  have hwait : f.world.Waiting j → f'.world.Waiting j := fun ⟨row, hrow, hq⟩ ↦
    ⟨row, hs.job? h hrow, hq⟩
  have hdone := hs.live h (mem_jobKeys.2 (.inl rfl))
  have hclaim := hs.live h (mem_jobKeys.2 (.inr (.inl rfl)))
  have hlease := hs.live h (mem_jobKeys.2 (.inr (.inr rfl)))
  cases pc with
  | readDone =>
    exact ⟨⟨hdone ht.1.done, hclaim ht.1.claim, hlease ht.1.lease⟩, hwait ht.2⟩
  | setClaim => exact ⟨hclaim ht.1, hlease ht.2.1, hwait ht.2.2⟩
  | drawToken | setLease token => exact ⟨hlease ht.1, hwait ht.2⟩
  | recordStarted l => exact hwait ht
  | executing l | recordCompleted l result =>
    obtain ⟨row, hrow, hrun⟩ := ht
    exact ⟨row, hs.job? h hrow, hrun⟩
  | releaseLease l exit | finished exit => rcases exit with e | u <;> exact ht
  | _ => exact ht

/-- A key-value call keeps the row, and the keys it does not set. -/
theorem World.waiting_serve_kv {s : World} {j : Uuid} (hw : s.Waiting j) (who : Writer)
    (c : KvCall ℕ) (ans : Answer) : (s.serve who (.kv c) ans).Waiting j := by
  rw [Waiting, (db_serve_kv s who c ans).1]
  exact hw

/-- A key that is free stays free when nobody sets it. -/
theorem World.live_serve_kv {s : World} {key : String} (hnone : s.kv.live s.now key = none)
    (who : Writer) {c : KvCall ℕ} (hc : ∀ value ttl, c ≠ .setIfAbsent key value ttl) :
    (s.serve who (.kv c) .served).kv.live (s.serve who (.kv c) .served).now key = none :=
  KvCall.live_perform_eq_none le_rfl hc hnone

/-- A legal write with a token that is not older is accepted. -/
theorem recordEvent_ne_error {s : World} {w : Write} {row : JobRow SubmitRequest} (next : JobState)
    (hrow : s.db.job? w.jobId = some row) (hnext : transitions row.state w.event = some next)
    (htoken : row.fenceToken ≤ w.fenceToken.getD row.fenceToken) (e : DbError) :
    s.db.recordEvent s.now w ≠ .error e := by
  intro h
  exact nomatch h.symm.trans (Database.applyEvent_eq_ok.2 ⟨row, hrow, hnext, htoken, rfl⟩)

/-- **A call that is served stays on the track**, if it never draws a failure, and leaves its
message with an acknowledgement. -/
theorem Move.onTrack {cfg : Settings} {d : Delivery} {s : World} {pc pc' : HandlePc}
    {c : WorkerCall} {ans : Answer} (hm : Move cfg d s pc c ans pc')
    (ht : pc.OnTrack s d.jobId) (hrate : d.payload.failureRate = 0)
    (hans : ans.isFailed = false) (who : Writer) :
    pc'.OnTrack (s.serve who c ans) d.jobId ∧
      (pc'.released = true → pc.released = true ∨ c = .ack) := by
  cases hm with
  | fault hv applied => exact nomatch hans
  | alreadyDone h =>
    rw [ht.1.done] at h
    exact nomatch h
  | notDone h =>
    exact ⟨⟨World.live_serve_kv ht.1.claim who (by simp),
      World.live_serve_kv ht.1.lease who (by simp), World.waiting_serve_kv ht.2 ..⟩, nofun⟩
  | claimed h =>
    refine ⟨⟨World.live_serve_kv ht.2.1 who fun value ttl heq ↦ ?_,
      World.waiting_serve_kv ht.2.2 ..⟩, nofun⟩
    exact claimKey_ne_leaseKey _ _ (KvCall.setIfAbsent.inj heq).1
  | inProgress h =>
    rw [ht.1] at h
    exact nomatch h
  | drew => exact ⟨⟨World.live_serve_kv ht.1 who (by simp), World.waiting_serve_kv ht.2 ..⟩, nofun⟩
  | leased token h => exact ⟨World.waiting_serve_kv ht.2 .., nofun⟩
  | leaseHeld token h =>
    rw [ht.1] at h
    exact nomatch h
  | started l h =>
    obtain ⟨row, -, hnext, hjob⟩ := World.job?_serve_of_ok h who
    exact ⟨⟨_, hjob, target_of_transitions hnext, le_rfl⟩, nofun⟩
  | startRefused l h =>
    obtain ⟨row, hrow, hstate, htoken⟩ := ht
    refine absurd h (recordEvent_ne_error .running hrow (by rw [hstate]; rfl) ?_ _)
    rw [htoken]
    exact Int.natCast_nonneg _
  | executed l h₀ h₁ ms h => exact ⟨ht, nofun⟩
  | failedRetryable l h₀ h₁ ms h message ha | failedLast l h₀ h₁ ms h message ha =>
    rw [hrate] at h
    exact absurd h (not_lt.2 h₀)
  | completed l result h => exact ⟨trivial, nofun⟩
  | completionRefused l result h =>
    obtain ⟨row, hrow, hstate, htoken⟩ := ht
    exact absurd h (recordEvent_ne_error .succeeded hrow (by rw [hstate]; rfl) htoken _)
  | setDone l | clearClaim l => exact ⟨trivial, nofun⟩
  | ackCompleted l => exact ⟨trivial, fun _ ↦ .inr rfl⟩
  | releaseLease l exit => rcases exit with e | u <;> exact ⟨ht, fun _ ↦ .inl rfl⟩
  | _ => exact ht.elim

/-- Whoever answers for its message, or is past that, has released it after the move. -/
theorem Move.released {cfg : Settings} {d : Delivery} {s : World} {pc pc' : HandlePc}
    {c : WorkerCall} {ans : Answer} (hm : Move cfg d s pc c ans pc')
    (hans : ans.isFailed = false)
    (hc : pc.released = true ∨ c = .ack ∨ c = .term ∨ ∃ delay, c = .nak delay) :
    pc'.released = true := by
  cases hm with
  | fault hv applied => exact nomatch hans
  | nakPoison | ackDuplicate | nakInProgress | nakUnleased | ackCompleted | nakRequeued
  | termFailed | termObsolete | releaseLease => rfl
  | _ =>
    rcases hc with hc | hc | hc | ⟨delay, hc⟩
    · exact nomatch hc
    · exact nomatch hc
    · exact nomatch hc
    · exact nomatch hc

end Orbiter
