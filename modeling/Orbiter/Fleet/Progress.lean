import Orbiter.Fleet.Fencing

/-!
# No reachable state is wedged

Two facts tie the database and the store together, and no line of the source states either. They
hold at every crash point of every actor, and they are what a fresh `handle` call needs: the token
it draws beats the row's, and the marker it reads does not turn it away from an unfinished job.

* `fenceToken_le_counter` — the row's fencing token never exceeds the job's counter;
* `DoneMarks` — a live done marker means that the job has succeeded. A call sets the marker after
  its `COMPLETED` was accepted, and nothing takes that back.

## The solo run

From any reachable state, once claim and lease of a queued or running job are gone, one call run
alone takes the job to its end (`solo_completes`). The run is produced and not assumed: the call is
followed control point by control point (`At`), and before each of its calls any time may pass.

* `At.kvCall`, `At.recordCall`, `At.executeCall` — one lemma for each kind of call: it is answered,
  and this is the state it leads to;
* `At.acquires`, `At.executes`, `At.marksDone`, `At.leaves` — the four stretches of the run, from
  the claim to the acknowledgement.

The witness begins with a job that a dead worker has left running.
-/

namespace Orbiter

open ExecutionGuard LeaseManager Worker

namespace Fleet

variable {cfg : Settings}

/-! ### The row's token and the counter -/

/-- **The row never gets ahead of the counter.** -/
theorem fenceToken_le_counter {f : Fleet}
    (h : (system cfg).Reachable TransitionSystem.anyStep f) {j : Uuid} {row : JobRow SubmitRequest}
    (hj : f.world.db.job? j = some row) :
    row.fenceToken ≤ f.world.kv.counters (tokenKey j.str) := by
  rcases fenceToken_drawn (consistent_of_reachable h) (attributed_of_reachable h) hj with
    hzero | ⟨pid, hc, t, hget, rfl, ht, htok⟩
  · rw [hzero]
    exact Int.natCast_nonneg _
  · rw [htok]
    exact_mod_cast (tokens_of_reachable h).drawn pid hc t hget ht

/-! ### Done markers -/

/-- The job has succeeded. -/
def Succeeded (f : Fleet) (j : Uuid) : Prop :=
  ∃ row, f.world.db.job? j = some row ∧ row.state = .succeeded

theorem Succeeded.step {f f' : Fleet} {a : FleetStep} {j : Uuid} (hj : f.Succeeded j)
    (h : f.step cfg a = some f') : f'.Succeeded j := by
  obtain ⟨row, hrow, hs⟩ := hj
  exact ⟨row, (unchanged_of_terminal h hrow (by rw [hs]; rfl)).1, hs⟩

/-- A live marker stands for a success, and so does being about to set one. -/
structure DoneMarks (f : Fleet) : Prop where
  live : ∀ j e, f.world.kv.live f.world.now (doneKey j.str) = some e → f.Succeeded j
  marking : ∀ (pid : ℕ) (hc : HandleCall) (l : Lease), f.calls[pid]? = some hc →
    hc.pc = .setDone l → f.Succeeded hc.delivery.jobId

end Fleet

/-- The one set of a done key is at `setDone`, for the call's own job. -/
theorem HandlePc.eq_setDone {cfg : Settings} {d : Delivery} {pc : HandlePc} {j : Uuid}
    {value : String} {ttl : ℕ}
    (h : pc.call cfg d = some (.kv (.setIfAbsent (doneKey j.str) value ttl))) :
    ∃ l, pc = .setDone l ∧ d.jobId = j := by
  cases pc with
  | setDone l =>
    refine ⟨l, rfl, ?_⟩
    have hkey : doneKey d.jobId.str = doneKey j.str := by
      injection h with h; injection h with h; injection h
    exact Uuid.str_inj (doneKey_inj.1 hkey)
  | setClaim =>
    have hkey : claimKey d.jobId.str = doneKey j.str := by
      injection h with h; injection h with h; injection h
    exact absurd hkey.symm (doneKey_ne_claimKey _ _)
  | setLease token =>
    have hkey : leaseKey d.jobId.str = doneKey j.str := by
      injection h with h; injection h with h; injection h
    exact absurd hkey.symm (doneKey_ne_leaseKey _ _)
  | _ => exact absurd h (by simp [call, view, awaitBare, awaitBody, awaitHandler])

/-- A call gets to mark its job done by an accepted completion. -/
theorem Move.setDone_inv {cfg : Settings} {d : Delivery} {s : World} {pc : HandlePc} {l : Lease}
    {c : WorkerCall} {ans : Answer} (hm : Move cfg d s pc c ans (.setDone l)) :
    ∃ result state db, ans = .served ∧ c = .recordEvent (completedWrite d l result) ∧
      s.db.recordEvent s.now (completedWrite d l result) = .ok (state, db) := by
  generalize hpc : HandlePc.setDone l = pc' at hm
  cases hm with
  | completed l' result h =>
    cases hpc
    exact ⟨result, _, _, rfl, rfl, h⟩
  | fault hv applied =>
    cases pc <;> exact absurd hpc (by simp [HandlePc.onFault, HandlePc.lease?])
  | @startRefused l' e h | @completionRefused l' result e h =>
    cases e <;> exact absurd hpc (by simp [HandlePc.catching])
  | _ => cases hpc

namespace Fleet

variable {cfg : Settings}

/-- **Every step keeps the markers true.** -/
theorem DoneMarks.step {f f' : Fleet} {a : FleetStep} (hf : f.DoneMarks)
    (h : f.step cfg a = some f') : f'.DoneMarks where
  live j e hl := by
    rcases live_cases h hl with hold | ⟨pid, ans, hc, value, ttl, -, hget, hcall, -, -⟩
    · exact (hf.live j e (InMemoryKV.live_of_le (now_le h) hold)).step h
    · obtain ⟨l, hpc, rfl⟩ := HandlePc.eq_setDone (HandleCall.call?_eq_some.1 hcall).2
      exact (hf.marking pid hc l hget hpc).step h
  marking pid hc' l hget hpc := by
    rcases step_call h hget with ⟨hget₀, -⟩ | ⟨hc, hget₀, -, rfl⟩ | ⟨-, d, -, rfl⟩ |
      ⟨hc, ans, c, pc, rfl, -, -, hmove, hw, rfl⟩
    · exact (hf.marking pid hc' l hget₀ hpc).step h
    · exact (hf.marking pid hc l hget₀ hpc).step h
    · rw [HandleCall.begin, HandlePc.start] at hpc
      split at hpc <;> cases hpc
    · obtain rfl : pc = .setDone l := hpc
      obtain ⟨result, state, db, rfl, rfl, hok⟩ := hmove.setDone_inv
      obtain ⟨row, -, hnext, hjob⟩ := World.job?_serve_of_ok hok (.handle pid)
      rw [Succeeded, hw]
      exact ⟨_, hjob, target_of_transitions hnext⟩

/-- A marker means success in every reachable state. -/
theorem doneMarks_of_reachable {f : Fleet} (h : (system cfg).Reachable TransitionSystem.anyStep f) :
    f.DoneMarks := by
  refine h.induct (I := DoneMarks) (fun f hf ↦ ?_) fun f a f' _ ih _ hs ↦ ih.step hs
  rw [hf]
  refine ⟨fun j e hl ↦ ?_, fun pid hc l hget ↦ ?_⟩
  · exact absurd hl (by simp [World.empty])
  · exact absurd hget (by simp)

/-! ### One call, run alone -/

/-- A pause before each call, and how the call is answered. -/
def soloCalls (pid : ℕ) : List (ℕ × Answer) → List FleetStep
  | [] => []
  | (ms, ans) :: rest => .tick ms :: .handle pid ans :: soloCalls pid rest

/-- Call number `pid`, for `d`, stands at `pc` in the fleet `f` and is alive. -/
def At (f : Fleet) (pid : ℕ) (d : Delivery) (pc : HandlePc) : Prop :=
  ∃ hc, f.calls[pid]? = some hc ∧ hc.delivery = d ∧ hc.pc = pc ∧ hc.alive = true

theorem at_start (cfg : Settings) (f : Fleet) (d : Delivery) :
    ∃ f', (system cfg).step f (.start d) = some f' ∧ f'.world = f.world ∧
      f'.At f.calls.length d (.start d) :=
  ⟨⟨f.world, f.calls ++ [HandleCall.begin d f.world.now]⟩, rfl, rfl,
    HandleCall.begin d f.world.now, List.getElem?_concat_length, rfl, rfl, rfl⟩

/-- **One call of a run alone**, after a pause. -/
theorem At.call (cfg : Settings) {f : Fleet} {pid : ℕ} {d : Delivery} {pc : HandlePc}
    (hat : f.At pid d pc) {c : WorkerCall} {k : Except WorkerExc c.Resp → HandlePc}
    (hv : pc.view cfg d = .inr ⟨c, k⟩) (ms : ℕ) {ans : Answer} {r : Except WorkerExc c.Resp}
    (hr : (f.world.later ms).reply c ans = some r) :
    ∃ f', (∀ rest, (system cfg).exec f (soloCalls pid ((ms, ans) :: rest)) =
        (system cfg).exec f' (soloCalls pid rest)) ∧
      f'.At pid d (k r) ∧ f'.world = (f.world.later ms).serve (.handle pid) c ans := by
  obtain ⟨hc, hget, rfl, rfl, halive⟩ := hat
  have hlt := (List.getElem?_eq_some_iff.1 hget).1
  let world := (f.world.later ms).serve (.handle pid) c ans
  refine ⟨⟨world, f.calls.set pid (hc.advance (f.world.later ms) world c (k r))⟩, fun rest ↦ ?_,
    ⟨_, List.getElem?_set_self hlt, rfl, rfl, halive⟩, rfl⟩
  have hcall := stepHandle_of_view (f := ⟨f.world.later ms, f.calls⟩) hget halive hv hr
  simp only [soloCalls, TransitionSystem.exec, system, step, Option.bind_some, hcall]
  rfl

/-- The same for a call to the store, which leaves the database alone. -/
theorem At.kvCall (cfg : Settings) {f : Fleet} {pid : ℕ} {d : Delivery} {pc : HandlePc}
    (hat : f.At pid d pc) {c : KvCall ℕ} {k : Except WorkerExc c.Resp → HandlePc}
    (hv : pc.view cfg d = .inr ⟨.kv c, k⟩) (ms : ℕ) :
    ∃ f', (∀ rest, (system cfg).exec f (soloCalls pid ((ms, .served) :: rest)) =
        (system cfg).exec f' (soloCalls pid rest)) ∧
      f'.At pid d (k (.ok (c.perform f.world.kv (f.world.now + ms)).1)) ∧
      f'.world.db = f.world.db ∧ f'.world.history = f.world.history ∧
      f'.world.kv = (c.perform f.world.kv (f.world.now + ms)).2 ∧
      f'.world.now = f.world.now + ms ∧
      ∀ key, (∀ value ttl, c ≠ .setIfAbsent key value ttl) →
        f.world.kv.live f.world.now key = none → f'.world.kv.live f'.world.now key = none := by
  have hr : (f.world.later ms).reply (.kv c) .served =
      some (.ok (c.perform f.world.kv (f.world.now + ms)).1) := rfl
  obtain ⟨f', he, hat', hw⟩ := hat.call cfg hv ms hr
  have hkv : f'.world.kv = (c.perform f.world.kv (f.world.now + ms)).2 := by rw [hw]; rfl
  have hnow : f'.world.now = f.world.now + ms := by rw [hw]; rfl
  refine ⟨f', he, hat', by rw [hw]; rfl, by rw [hw]; rfl, hkv, hnow, fun key hc hkey ↦ ?_⟩
  rw [hkv, hnow]
  exact KvCall.live_perform_eq_none le_rfl hc
    (InMemoryKV.live_eq_none_of_le (Nat.le_add_right ..) hkey)

/-- What the start of a call finds in the store when nobody holds the job. -/
structure Free (s : World) (j : Uuid) : Prop where
  done : s.kv.live s.now (doneKey j.str) = none
  claim : s.kv.live s.now (claimKey j.str) = none
  lease : s.kv.live s.now (leaseKey j.str) = none

/-- The first four calls: not done, claimed, a token drawn, the lease taken. -/
theorem At.acquires (cfg : Settings) {f : Fleet} {pid : ℕ} {d : Delivery}
    (hat : f.At pid d .readDone) (hfree : Free f.world d.jobId) (t₀ t₁ t₂ t₃ : ℕ) :
    ∃ f', (∀ rest, (system cfg).exec f (soloCalls pid ((t₀, .served) :: (t₁, .served) ::
          (t₂, .served) :: (t₃, .served) :: rest)) = (system cfg).exec f' (soloCalls pid rest)) ∧
      f'.At pid d (.recordStarted ⟨d.jobId.str, d.workerId,
        f.world.kv.counters (tokenKey d.jobId.str) + 1⟩) ∧
      f'.world.db = f.world.db ∧ f'.world.history = f.world.history ∧
      f'.world.kv.live f'.world.now (doneKey d.jobId.str) = none := by
  obtain ⟨hdone, hclaim, hlease⟩ := hfree
  -- `get` of the done marker.
  obtain ⟨f₁, he₁, hat₁, hdb₁, hh₁, hkv₁, hn₁, hnone₁⟩ := hat.kvCall cfg rfl t₀
  rw [KvCall.perform, InMemoryKV.get,
    InMemoryKV.live_eq_none_of_le (Nat.le_add_right _ t₀) hdone] at hat₁
  replace hdone := hnone₁ _ (by simp) hdone
  replace hclaim := hnone₁ _ (by simp) hclaim
  replace hlease := hnone₁ _ (by simp) hlease
  -- `set_if_absent` of the claim.
  obtain ⟨f₂, he₂, hat₂, hdb₂, hh₂, hkv₂, hn₂, hnone₂⟩ := At.kvCall cfg hat₁ rfl t₁
  rw [KvCall.perform, InMemoryKV.setIfAbsent_fst,
    InMemoryKV.live_eq_none_of_le (Nat.le_add_right _ t₁) hclaim] at hat₂
  replace hdone := hnone₂ _ (by simp [(doneKey_ne_claimKey _ _).symm]) hdone
  replace hlease := hnone₂ _ (by simp [claimKey_ne_leaseKey]) hlease
  -- `incr` of the counter.
  obtain ⟨f₃, he₃, hat₃, hdb₃, hh₃, hkv₃, hn₃, hnone₃⟩ := At.kvCall cfg hat₂ rfl t₂
  replace hdone := hnone₃ _ (by simp) hdone
  replace hlease := hnone₃ _ (by simp) hlease
  -- `set_if_absent` of the lease.
  obtain ⟨f₄, he₄, hat₄, hdb₄, hh₄, -, -, hnone₄⟩ := At.kvCall cfg hat₃ rfl t₃
  rw [KvCall.perform, InMemoryKV.setIfAbsent_fst,
    InMemoryKV.live_eq_none_of_le (Nat.le_add_right _ t₃) hlease] at hat₄
  replace hdone := hnone₄ _ (by simp [(doneKey_ne_leaseKey _ _).symm]) hdone
  have htoken : f₂.world.kv.counters = f.world.kv.counters := by
    rw [hkv₂, KvCall.perform, InMemoryKV.counters_setIfAbsent, hkv₁, KvCall.perform,
      InMemoryKV.counters_get]
  refine ⟨f₄, fun rest ↦ ?_, ?_, ?_, ?_, hdone⟩
  · rw [he₁, he₂, he₃, he₄]
  · rw [← htoken]
    exact hat₄
  · rw [hdb₄, hdb₃, hdb₂, hdb₁]
  · rw [hh₄, hh₃, hh₂, hh₁]

/-- The same for a transaction that is accepted, which leaves the store alone. -/
theorem At.recordCall (cfg : Settings) {f : Fleet} {pid : ℕ} {d : Delivery} {pc : HandlePc}
    (hat : f.At pid d pc) {w : Write} {k : Except WorkerExc JobState → HandlePc}
    (hv : pc.view cfg d = .inr ⟨.recordEvent w, k⟩) (ms : ℕ) {row : JobRow SubmitRequest}
    {next : JobState} (hrow : f.world.db.job? w.jobId = some row)
    (hnext : transitions row.state w.event = some next)
    (htoken : row.fenceToken ≤ w.fenceToken.getD row.fenceToken) :
    ∃ f', (∀ rest, (system cfg).exec f (soloCalls pid ((ms, .served) :: rest)) =
        (system cfg).exec f' (soloCalls pid rest)) ∧
      f'.At pid d (k (.ok next)) ∧
      f'.world.db.job? w.jobId = some (Database.acceptRow row (f.world.now + ms) w next) ∧
      f'.world.db.log w.jobId = f.world.db.log w.jobId ++ [w.event] ∧
      f'.world.writesBy pid = f.world.writesBy pid ++ [w] ∧
      f'.world.kv = f.world.kv ∧ f'.world.now = f.world.now + ms := by
  have hok : (f.world.later ms).db.recordEvent (f.world.later ms).now w =
      .ok (next, f.world.db.accept (f.world.now + ms) w row next) :=
    Database.applyEvent_eq_ok.2 ⟨row, hrow, hnext, htoken, rfl⟩
  have hr : (f.world.later ms).reply (.recordEvent w) .served = some (.ok next) := by
    rw [World.reply, hok]
  obtain ⟨f', he, hat', hw⟩ := hat.call cfg hv ms hr
  have hdb : f'.world.db = f.world.db.accept (f.world.now + ms) w row next := by
    rw [hw, World.db_serve_of_ok hok]
  refine ⟨f', he, hat', ?_, ?_, ?_, ?_, ?_⟩
  · rw [hdb, Database.job?_accept_self]
  · rw [hdb, Database.log_accept_self]
  · rw [hw, World.writesBy_serve_self, World.made_of_ok hok]
    rfl
  · rw [hw, World.kv_serve _ _ (by simp)]
    rfl
  · rw [hw, World.now_serve]
    rfl

/-- The same for an execution that returns a result, which touches nothing. -/
theorem At.executeCall (cfg : Settings) {f : Fleet} {pid : ℕ} {d : Delivery} {l : Lease}
    (hat : f.At pid d (.executing l)) {draw : ℚ} (h₀ : 0 ≤ draw) (h₁ : draw < 1)
    (hdraw : d.payload.failureRate ≤ draw) (elapsedMs ms : ℕ) :
    ∃ f', (∀ rest, (system cfg).exec f (soloCalls pid ((ms, .executed draw elapsedMs) :: rest)) =
        (system cfg).exec f' (soloCalls pid rest)) ∧
      f'.At pid d (.recordCompleted l (executionResult elapsedMs)) ∧
      f'.world.db = f.world.db ∧ f'.world.history = f.world.history ∧
      f'.world.kv = f.world.kv ∧ f'.world.now = f.world.now + ms := by
  have hr : (f.world.later ms).reply (.execute d.payload.durationMs d.payload.failureRate)
      (.executed draw elapsedMs) = some (.ok (executionResult elapsedMs)) := by
    rw [World.reply, if_pos ⟨h₀, h₁⟩, execute, if_neg (not_lt.2 hdraw)]
    rfl
  obtain ⟨f', he, hat', hw⟩ := At.call cfg hat rfl ms hr
  exact ⟨f', he, hat', by rw [hw]; rfl, by rw [hw]; rfl, by rw [hw]; rfl, by rw [hw]; rfl⟩

/-- The next three calls: started, executed, completed. -/
theorem At.executes (cfg : Settings) {f : Fleet} {pid : ℕ} {d : Delivery} {l : Lease}
    (hat : f.At pid d (.recordStarted l)) {row : JobRow SubmitRequest}
    (hrow : f.world.db.job? d.jobId = some row)
    (hstate : row.state = .queued ∨ row.state = .running)
    (htoken : row.fenceToken ≤ l.token) {draw : ℚ} (h₀ : 0 ≤ draw) (h₁ : draw < 1)
    (hdraw : d.payload.failureRate ≤ draw) (ms t₀ t₁ t₂ : ℕ) :
    ∃ f', (∀ rest, (system cfg).exec f (soloCalls pid ((t₀, .served) :: (t₁, .executed draw ms) ::
          (t₂, .served) :: rest)) = (system cfg).exec f' (soloCalls pid rest)) ∧
      f'.At pid d (.setDone l) ∧ f'.Succeeded d.jobId ∧
      f'.world.db.log d.jobId = f.world.db.log d.jobId ++ [.started, .completed] ∧
      f'.world.writesBy pid = f.world.writesBy pid ++
        [startedWrite d l, completedWrite d l (executionResult ms)] ∧
      f'.world.kv = f.world.kv ∧ f.world.now ≤ f'.world.now := by
  have hnext : transitions row.state .started = some .running := by
    rcases hstate with hs | hs <;> rw [hs] <;> rfl
  obtain ⟨f₁, he₁, hat₁, hrow₁, hlog₁, hby₁, hkv₁, hn₁⟩ :=
    hat.recordCall cfg rfl t₀ hrow hnext htoken
  obtain ⟨f₂, he₂, hat₂, hdb₂, hh₂, hkv₂, hn₂⟩ := At.executeCall cfg hat₁ h₀ h₁ hdraw ms t₁
  -- The row now carries the lease's token, which is what the completion brings.
  rw [← hdb₂] at hrow₁ hlog₁
  obtain ⟨f₃, he₃, hat₃, hrow₃, hlog₃, hby₃, hkv₃, hn₃⟩ :=
    At.recordCall cfg hat₂ rfl t₂ hrow₁ rfl le_rfl
  refine ⟨f₃, fun rest ↦ by rw [he₁, he₂, he₃], hat₃, ⟨_, hrow₃, rfl⟩, ?_, ?_, ?_, by omega⟩
  · refine hlog₃.trans ((congrArg (· ++ [EventType.completed]) hlog₁).trans ?_)
    rw [List.append_assoc]
    rfl
  · have hby₂ : f₂.world.writesBy pid = f₁.world.writesBy pid := by
      rw [World.writesBy, hh₂, World.writesBy]
    rw [hby₃, hby₂, hby₁, List.append_assoc]
    rfl
  · rw [hkv₃, hkv₂, hkv₁]

/-- The next two calls: the marker is set, the claim deleted. The marker lasts for its time. -/
theorem At.marksDone (cfg : Settings) {f : Fleet} {pid : ℕ} {d : Delivery} {l : Lease}
    (hat : f.At pid d (.setDone l))
    (hdone : f.world.kv.live f.world.now (doneKey d.jobId.str) = none) (t₀ t₁ : ℕ) :
    ∃ f', (∀ rest, (system cfg).exec f (soloCalls pid ((t₀, .served) :: (t₁, .served) :: rest)) =
        (system cfg).exec f' (soloCalls pid rest)) ∧
      f'.At pid d (.ackCompleted l) ∧ f'.world.db = f.world.db ∧
      f'.world.history = f.world.history ∧ f'.world.now = f.world.now + t₀ + t₁ ∧
      ∀ t, f'.world.now ≤ t → t < f.world.now + t₀ + cfg.execGuardTtlMs →
        (f'.world.kv.live t (doneKey d.jobId.str)).isSome = true := by
  obtain ⟨f₁, he₁, hat₁, hdb₁, hh₁, hkv₁, hn₁, -⟩ := hat.kvCall cfg rfl t₀
  obtain ⟨f₂, he₂, hat₂, hdb₂, hh₂, hkv₂, hn₂, -⟩ := At.kvCall cfg hat₁ rfl t₁
  refine ⟨f₂, fun rest ↦ by rw [he₁, he₂], hat₂, hdb₂.trans hdb₁, hh₂.trans hh₁, by omega, ?_⟩
  intro t hle hlt
  rw [hkv₂, KvCall.perform,
    InMemoryKV.live_compareAndDelete_ne (by omega) (doneKey_ne_claimKey _ _), hkv₁, KvCall.perform,
    InMemoryKV.live_setIfAbsent_self (InMemoryKV.live_eq_none_of_le (Nat.le_add_right _ t₀) hdone),
    if_pos hlt]
  rfl

/-- The last two calls: the message is acknowledged, the lease released. -/
theorem At.leaves (cfg : Settings) {f : Fleet} {pid : ℕ} {d : Delivery} {l : Lease}
    (hat : f.At pid d (.ackCompleted l)) (t₀ t₁ : ℕ) :
    ∃ f', (∀ rest, (system cfg).exec f (soloCalls pid ((t₀, .served) :: (t₁, .served) :: rest)) =
        (system cfg).exec f' (soloCalls pid rest)) ∧
      f'.At pid d (.finished (.ok ())) ∧ f'.world.db = f.world.db ∧
      f'.world.history = f.world.history ∧ f'.world.now = f.world.now + t₀ + t₁ ∧
      ∀ t, f'.world.now ≤ t → f'.world.kv.live t (doneKey d.jobId.str) =
        f.world.kv.live t (doneKey d.jobId.str) := by
  have hr : (f.world.later t₀).reply .ack .served = some (.ok ()) := rfl
  obtain ⟨f₁, he₁, hat₁, hw₁⟩ := hat.call cfg rfl t₀ hr
  obtain ⟨f₂, he₂, hat₂, hdb₂, hh₂, hkv₂, hn₂, -⟩ := At.kvCall cfg hat₁ rfl t₁
  have hn₁ : f₁.world.now = f.world.now + t₀ := by rw [hw₁]; rfl
  have hkv₁ : f₁.world.kv = f.world.kv := by rw [hw₁]; rfl
  refine ⟨f₂, fun rest ↦ by rw [he₁, he₂], hat₂, ?_, ?_, by omega, ?_⟩
  · rw [hdb₂, hw₁]
    rfl
  · rw [hh₂, hw₁]
    rfl
  · intro t hle
    rw [hkv₂, KvCall.perform,
      InMemoryKV.live_compareAndDelete_ne (by omega) (doneKey_ne_leaseKey _ _), hkv₁]

/-- The schedule of a call run alone up to its acknowledgement, with a pause before each call. -/
def soloToAck (pid : ℕ) (d : Delivery) (draw : ℚ) (elapsedMs : ℕ) (wait : ℕ → ℕ) :
    List FleetStep :=
  .start d :: soloCalls pid
    [(wait 0, .served), (wait 1, .served), (wait 2, .served), (wait 3, .served), (wait 4, .served),
      (wait 5, .executed draw elapsedMs), (wait 6, .served), (wait 7, .served), (wait 8, .served)]

/-- **No reachable state is wedged.** Whatever happened before, at whatever point whoever died: if a
non-poison job is queued or running and nobody holds its claim or its lease, then one call for it,
run alone and with any pauses, whose execution returns a result, claims the job, takes the lease
under a fresh token, has `started` and `completed` accepted, comes to acknowledge its message, and
returns with the job succeeded and the done marker live. -/
theorem solo_completes {f : Fleet} (h : (system cfg).Reachable TransitionSystem.anyStep f)
    {d : Delivery} {row : JobRow SubmitRequest} (hj : f.world.db.job? d.jobId = some row)
    (hpayload : d.payload = row.payload) (hpoison : row.payload.poison = false)
    (hstate : row.state = .queued ∨ row.state = .running)
    (hclaim : f.world.kv.live f.world.now (claimKey d.jobId.str) = none)
    (hlease : f.world.kv.live f.world.now (leaseKey d.jobId.str) = none)
    {draw : ℚ} (h₀ : 0 ≤ draw) (h₁ : draw < 1) (hdraw : row.payload.failureRate ≤ draw)
    (elapsedMs : ℕ) (wait : ℕ → ℕ) (hwait : wait 8 + wait 9 + wait 10 < cfg.execGuardTtlMs) :
    ∃ f₁ f₂ l, l.token = f.world.kv.counters (tokenKey d.jobId.str) + 1 ∧
      (system cfg).exec f (soloToAck f.calls.length d draw elapsedMs wait) = some f₁ ∧
      f₁.At f.calls.length d (.ackCompleted l) ∧
      (HandlePc.ackCompleted l).call cfg d = some .ack ∧
      (system cfg).exec f₁ (soloCalls f.calls.length [(wait 9, .served), (wait 10, .served)]) =
        some f₂ ∧
      f₂.At f.calls.length d (.finished (.ok ())) ∧
      f₂.world.writesBy f.calls.length =
        [startedWrite d l, completedWrite d l (executionResult elapsedMs)] ∧
      f₂.world.db.log d.jobId = f.world.db.log d.jobId ++ [.started, .completed] ∧
      f₂.Succeeded d.jobId ∧
      (f₂.world.kv.live f₂.world.now (doneKey d.jobId.str)).isSome = true := by
  have hdone : f.world.kv.live f.world.now (doneKey d.jobId.str) = none := by
    cases hl : f.world.kv.live f.world.now (doneKey d.jobId.str) with
    | none => rfl
    | some e =>
      obtain ⟨row', hrow', hs⟩ := (doneMarks_of_reachable h).live d.jobId e hl
      obtain rfl := Option.some.inj (hrow'.symm.trans hj)
      rw [hs] at hstate
      exact absurd hstate (by simp)
  have hfresh : f.world.writesBy f.calls.length = [] := by
    refine List.eq_nil_iff_forall_not_mem.2 fun w hw ↦ ?_
    obtain ⟨hc, hget⟩ := (attributed_of_reachable h).made _ w hw
    exact absurd hget (by simp)
  obtain ⟨g₀, hs₀, hw₀, hat₀⟩ := at_start cfg f d
  rw [HandlePc.start, if_neg (by rw [hpayload, hpoison]; simp)] at hat₀
  obtain ⟨g₁, he₁, hat₁, hdb₁, hh₁, hdone₁⟩ := hat₀.acquires cfg
    (by rw [hw₀]; exact ⟨hdone, hclaim, hlease⟩) (wait 0) (wait 1) (wait 2) (wait 3)
  rw [hw₀] at hat₁ hdb₁ hh₁
  have htoken : row.fenceToken ≤ ((f.world.kv.counters (tokenKey d.jobId.str) + 1 : ℕ) : ℤ) := by
    have hle := fenceToken_le_counter h hj
    omega
  obtain ⟨g₂, he₂, hat₂, hsucc₂, hlog₂, hby₂, hkv₂, hn₂⟩ := hat₁.executes cfg
    (by rw [hdb₁]; exact hj) hstate htoken h₀ h₁ (by rw [hpayload]; exact hdraw) elapsedMs (wait 4)
    (wait 5) (wait 6)
  obtain ⟨g₃, he₃, hat₃, hdb₃, hh₃, hn₃, hlive₃⟩ := hat₂.marksDone cfg
    (by rw [hkv₂]; exact InMemoryKV.live_eq_none_of_le hn₂ hdone₁) (wait 7) (wait 8)
  obtain ⟨g₄, he₄, hat₄, hdb₄, hh₄, hn₄, hlive₄⟩ := hat₃.leaves cfg (wait 9) (wait 10)
  refine ⟨g₃, g₄, _, rfl, ?_, hat₃, rfl, ?_, hat₄, ?_, ?_, ?_, ?_⟩
  · rw [soloToAck, TransitionSystem.exec, hs₀, Option.bind_some, he₁, he₂, he₃]
    rfl
  · rw [he₄]
    rfl
  · have hby : g₄.world.writesBy f.calls.length = g₂.world.writesBy f.calls.length := by
      rw [World.writesBy, hh₄, hh₃, World.writesBy]
    have hby₁ : g₁.world.writesBy f.calls.length = f.world.writesBy f.calls.length := by
      rw [World.writesBy, hh₁, World.writesBy]
    rw [hby, hby₂, hby₁, hfresh]
    rfl
  · rw [hdb₄, hdb₃, hlog₂, hdb₁]
  · rw [Succeeded, hdb₄, hdb₃]
    exact hsucc₂
  · rw [hlive₄ _ le_rfl]
    exact hlive₃ _ (by omega) (by omega)

/-- A worker dies while it executes; its claim and its lease run out. -/
def diedExecuting : List FleetStep :=
  [.submit ⟨0⟩ "k" (.healthy 10 ten_le_limit) [],
    .start ⟨1, "a", ⟨0⟩, .healthy 10 ten_le_limit, 1⟩,
    .handle 0 .served, .handle 0 .served, .handle 0 .served, .handle 0 .served, .handle 0 .served,
    .die 0, .tick 20000]

/-- The job it left running is completed by the next call. -/
theorem solo_completes_of_died : ∃ (f f₂ : Fleet) (d : Delivery),
    (system {}).Reachable TransitionSystem.anyStep f ∧
    (∃ row, f.world.db.job? ⟨0⟩ = some row ∧ row.state = .running) ∧
    (∃ as, (system {}).exec f as = some f₂) ∧ f₂.At 1 d (.finished (.ok ())) ∧
    f₂.Succeeded ⟨0⟩ := by
  have hrun : ((system {}).exec ⟨.empty, []⟩ diedExecuting).any (fun f ↦
      f.calls.length = 1 &&
      (f.world.kv.live f.world.now (claimKey (Uuid.str ⟨0⟩))).isNone &&
      (f.world.kv.live f.world.now (leaseKey (Uuid.str ⟨0⟩))).isNone &&
      (f.world.db.job? ⟨0⟩).any fun row ↦ row.state = .running && row.payload.poison = false &&
        row.payload.failureRate ≤ 0) = true := by
    rfl
  obtain ⟨f, hl, hf⟩ := TransitionSystem.exists_leads_of_exec hrun
  have hr : (system {}).Reachable TransitionSystem.anyStep f := ⟨_, rfl, hl⟩
  simp only [Bool.and_eq_true, Option.isNone_iff_eq_none, decide_eq_true_eq,
    Option.any_eq_true] at hf
  obtain ⟨⟨⟨hlen, hclaim⟩, hlease⟩, row, hrow, ⟨hstate, hpoison⟩, hrate⟩ := hf
  obtain ⟨f₁, f₂, l, -, he₁, -, -, he₂, hat, -, -, hsucc, -⟩ :=
    solo_completes hr (d := ⟨1, "b", ⟨0⟩, row.payload, 2⟩) hrow rfl hpoison (.inr hstate) hclaim
      hlease le_rfl (by decide : (0 : ℚ) < 1) hrate 10 (fun _ ↦ 0) (by decide)
  rw [hlen] at hat
  exact ⟨f, f₂, _, hr, ⟨row, hrow, hstate⟩, ⟨_, TransitionSystem.exec_append he₁ he₂⟩, hat, hsucc⟩

end Fleet

end Orbiter
