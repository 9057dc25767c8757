import Orbiter.Fleet.System

/-!
# What one step can do

The inversion of the two step functions, once. Later modules case on its inductive and do not unfold
the machine.

* `Move cfg d s pc c ans pc'` lists, control point by control point, the call `c` that a `handle`
  call for the delivery `d` makes in the world `s`, how it is answered, and the control point `pc'`
  this leads to. Every branch of the source is one constructor; `Move.fault` is the exception that
  no clause names, at any control point.
* `Move.of_view` says that the list is complete. It is put together from a lemma for each kind of
  answer: a failed call, an execution, an answer of the store, of the database, of the broker.

What a step of the fleet does is then read off:

* `Fleet.stepHandle_eq_some`: a `handle` step is a move of one living call, together with the effect
  of its call on the world; `Fleet.stepHandle_of_view` is the converse.
* `Fleet.step_call`: a call stays as it is, dies, begins, or moves by a step of its own.
* `Fleet.now_step`: time passes in ticks only.
* `Fleet.live_cases`: an entry of the store was there before, or a `handle` step set it when the key
  was free.
-/

namespace Orbiter

open ExecutionGuard LeaseManager Worker

/-- Where an exception that no clause names leads. -/
def HandlePc.onFault (pc : HandlePc) : HandlePc :=
  match pc with
  | .releaseLease _ _ => .finished (.error .fault)
  | _ =>
    match pc.lease? with
    | some l => .releaseLease l (.error .fault)
    | none => .finished (.error .fault)

/-- The moves of a `handle` call for `d` in the world `s`: from a control point, by a call and its
answer, to a control point. -/
inductive Move (cfg : Settings) (d : Delivery) (s : World) :
    HandlePc → WorkerCall → Answer → HandlePc → Prop
  | fault {pc : HandlePc} {c : WorkerCall} {k : Except WorkerExc c.Resp → HandlePc}
      (hv : pc.view cfg d = .inr ⟨c, k⟩) (applied : Bool) :
      Move cfg d s pc c (.failed applied) pc.onFault
  | nakPoison : Move cfg d s .nakPoison (.nak .poison) .served (.finished (.ok ()))
  | alreadyDone {e : Entry ℕ} (h : s.kv.live s.now (doneKey d.jobId.str) = some e) :
      Move cfg d s .readDone (.kv (.get (doneKey d.jobId.str))) .served .ackDuplicate
  | notDone (h : s.kv.live s.now (doneKey d.jobId.str) = none) :
      Move cfg d s .readDone (.kv (.get (doneKey d.jobId.str))) .served .setClaim
  | ackDuplicate : Move cfg d s .ackDuplicate .ack .served (.finished (.ok ()))
  | claimed (h : s.kv.live s.now (claimKey d.jobId.str) = none) :
      Move cfg d s .setClaim (.kv (.setIfAbsent (claimKey d.jobId.str) d.delivery cfg.leaseTtlMs))
        .served .drawToken
  | inProgress {e : Entry ℕ} (h : s.kv.live s.now (claimKey d.jobId.str) = some e) :
      Move cfg d s .setClaim (.kv (.setIfAbsent (claimKey d.jobId.str) d.delivery cfg.leaseTtlMs))
        .served .nakInProgress
  | nakInProgress : Move cfg d s .nakInProgress (.nak .jitter) .served (.finished (.ok ()))
  | drew : Move cfg d s .drawToken (.kv (.incr (tokenKey d.jobId.str))) .served
      (.setLease (s.kv.counters (tokenKey d.jobId.str) + 1))
  | leased (token : ℕ) (h : s.kv.live s.now (leaseKey d.jobId.str) = none) :
      Move cfg d s (.setLease token)
        (.kv (.setIfAbsent (leaseKey d.jobId.str) (leaseValue d.workerId token) cfg.leaseTtlMs))
        .served (.recordStarted ⟨d.jobId.str, d.workerId, token⟩)
  | leaseHeld (token : ℕ) {e : Entry ℕ} (h : s.kv.live s.now (leaseKey d.jobId.str) = some e) :
      Move cfg d s (.setLease token)
        (.kv (.setIfAbsent (leaseKey d.jobId.str) (leaseValue d.workerId token) cfg.leaseTtlMs))
        .served .releaseClaimUnleased
  | releaseClaimUnleased : Move cfg d s .releaseClaimUnleased
      (.kv (.compareAndDelete (claimKey d.jobId.str) d.delivery)) .served .nakUnleased
  | nakUnleased : Move cfg d s .nakUnleased (.nak .jitter) .served (.finished (.ok ()))
  | started (l : Lease) {state : JobState} {db : Database SubmitRequest}
      (h : s.db.recordEvent s.now (startedWrite d l) = .ok (state, db)) :
      Move cfg d s (.recordStarted l) (.recordEvent (startedWrite d l)) .served (.executing l)
  | startRefused (l : Lease) {e : DbError}
      (h : s.db.recordEvent s.now (startedWrite d l) = .error e) :
      Move cfg d s (.recordStarted l) (.recordEvent (startedWrite d l)) .served
        (.catching cfg d l (.db e))
  | executed (l : Lease) {draw : ℚ} (h₀ : 0 ≤ draw) (h₁ : draw < 1) (ms : ℕ)
      (h : d.payload.failureRate ≤ draw) :
      Move cfg d s (.executing l) (.execute d.payload.durationMs d.payload.failureRate)
        (.executed draw ms) (.recordCompleted l (executionResult ms))
  | failedRetryable (l : Lease) {draw : ℚ} (h₀ : 0 ≤ draw) (h₁ : draw < 1) (ms : ℕ)
      (h : draw < d.payload.failureRate) (message : String) (ha : d.attempt < cfg.maxDeliver) :
      Move cfg d s (.executing l) (.execute d.payload.durationMs d.payload.failureRate)
        (.executed draw ms) (.recordRequeued l message)
  | failedLast (l : Lease) {draw : ℚ} (h₀ : 0 ≤ draw) (h₁ : draw < 1) (ms : ℕ)
      (h : draw < d.payload.failureRate) (message : String) (ha : ¬ d.attempt < cfg.maxDeliver) :
      Move cfg d s (.executing l) (.execute d.payload.durationMs d.payload.failureRate)
        (.executed draw ms) (.recordFailed l message)
  | completed (l : Lease) (result : Json) {state : JobState} {db : Database SubmitRequest}
      (h : s.db.recordEvent s.now (completedWrite d l result) = .ok (state, db)) :
      Move cfg d s (.recordCompleted l result) (.recordEvent (completedWrite d l result)) .served
        (.setDone l)
  | completionRefused (l : Lease) (result : Json) {e : DbError}
      (h : s.db.recordEvent s.now (completedWrite d l result) = .error e) :
      Move cfg d s (.recordCompleted l result) (.recordEvent (completedWrite d l result)) .served
        (.catching cfg d l (.db e))
  | setDone (l : Lease) : Move cfg d s (.setDone l)
      (.kv (.setIfAbsent (doneKey d.jobId.str) d.delivery cfg.execGuardTtlMs)) .served
      (.clearClaim l)
  | clearClaim (l : Lease) : Move cfg d s (.clearClaim l)
      (.kv (.compareAndDelete (claimKey d.jobId.str) d.delivery)) .served (.ackCompleted l)
  | ackCompleted (l : Lease) :
      Move cfg d s (.ackCompleted l) .ack .served (.releaseLease l (.ok ()))
  | requeued (l : Lease) (message : String) {state : JobState} {db : Database SubmitRequest}
      (h : s.db.recordEvent s.now (requeuedWrite d l message) = .ok (state, db)) :
      Move cfg d s (.recordRequeued l message) (.recordEvent (requeuedWrite d l message)) .served
        (.releaseClaimRequeued l)
  | requeueRefused (l : Lease) (message : String) {e : DbError}
      (h : s.db.recordEvent s.now (requeuedWrite d l message) = .error e) :
      Move cfg d s (.recordRequeued l message) (.recordEvent (requeuedWrite d l message)) .served
        (.releaseLease l (.error (.db e)))
  | releaseClaimRequeued (l : Lease) : Move cfg d s (.releaseClaimRequeued l)
      (.kv (.compareAndDelete (claimKey d.jobId.str) d.delivery)) .served (.nakRequeued l)
  | nakRequeued (l : Lease) : Move cfg d s (.nakRequeued l) (.nak (.backoff d.attempt)) .served
      (.releaseLease l (.ok ()))
  | failed (l : Lease) (message : String) {state : JobState} {db : Database SubmitRequest}
      (h : s.db.recordEvent s.now (failedWrite d l message) = .ok (state, db)) :
      Move cfg d s (.recordFailed l message) (.recordEvent (failedWrite d l message)) .served
        (.releaseClaimFailed l)
  | failureRefused (l : Lease) (message : String) {e : DbError}
      (h : s.db.recordEvent s.now (failedWrite d l message) = .error e) :
      Move cfg d s (.recordFailed l message) (.recordEvent (failedWrite d l message)) .served
        (.releaseLease l (.error (.db e)))
  | releaseClaimFailed (l : Lease) : Move cfg d s (.releaseClaimFailed l)
      (.kv (.compareAndDelete (claimKey d.jobId.str) d.delivery)) .served (.termFailed l)
  | termFailed (l : Lease) :
      Move cfg d s (.termFailed l) .term .served (.releaseLease l (.ok ()))
  | releaseClaimObsolete (l : Lease) : Move cfg d s (.releaseClaimObsolete l)
      (.kv (.compareAndDelete (claimKey d.jobId.str) d.delivery)) .served (.termObsolete l)
  | termObsolete (l : Lease) :
      Move cfg d s (.termObsolete l) .term .served (.releaseLease l (.ok ()))
  | releaseLease (l : Lease) (exit : Except WorkerExc Unit) : Move cfg d s (.releaseLease l exit)
      (.kv (.compareAndDelete (leaseKey l.resource) (leaseValue l.holder l.token))) .served
      (.finished exit)

section Inversion

variable {cfg : Settings} {d : Delivery} {s : World} {pc : HandlePc} {c : WorkerCall}
  {k : Except WorkerExc c.Resp → HandlePc}

/-- Where an unnamed exception leads depends on the control point only. -/
theorem HandlePc.view_fault (hv : pc.view cfg d = .inr ⟨c, k⟩) :
    k (.error .fault) = pc.onFault := by
  cases pc <;> cases hv <;> rfl

/-- A transaction answers with what it raised or what it returned. -/
theorem World.reply_recordEvent {w : Write} {r : Except WorkerExc JobState}
    (h : s.reply (.recordEvent w) .served = some r) :
    (∃ e, s.db.recordEvent s.now w = .error e ∧ r = .error (.db e)) ∨
    (∃ state db, s.db.recordEvent s.now w = .ok (state, db) ∧ r = .ok state) := by
  rw [World.reply] at h
  split at h
  · next e he => exact .inl ⟨e, he, (Option.some.inj h).symm⟩
  · next state db he => exact .inr ⟨state, db, he, (Option.some.inj h).symm⟩

theorem World.reply_execute {durationMs : ℕ} {failureRate draw : ℚ} {ms : ℕ}
    {r : Except WorkerExc Json}
    (h : s.reply (.execute durationMs failureRate) (.executed draw ms) = some r) :
    0 ≤ draw ∧ draw < 1 ∧ r = execute failureRate draw ms := by
  rw [World.reply] at h
  split at h
  · next hd => exact ⟨hd.1, hd.2, (Option.some.inj h).symm⟩
  · exact absurd h (by simp)

/-- A call that fails raises, whatever it is. -/
theorem Move.of_failed {applied : Bool} {r : Except WorkerExc c.Resp}
    (hv : pc.view cfg d = .inr ⟨c, k⟩) (hr : s.reply c (.failed applied) = some r) :
    Move cfg d s pc c (.failed applied) (k r) := by
  have hfault : r = .error .fault := by
    cases c <;> exact (Option.some.inj hr).symm
  rw [hfault, HandlePc.view_fault hv]
  exact .fault hv applied

/-- The job is executed at one control point only, and fails or succeeds by the draw. -/
theorem Move.of_executed {draw : ℚ} {ms : ℕ} {r : Except WorkerExc c.Resp}
    (hv : pc.view cfg d = .inr ⟨c, k⟩) (hr : s.reply c (.executed draw ms) = some r) :
    Move cfg d s pc c (.executed draw ms) (k r) := by
  cases pc with
  | executing l =>
    cases hv
    obtain ⟨h₀, h₁, rfl⟩ := World.reply_execute hr
    rw [execute]
    split
    · next hlt =>
      dsimp only [HandlePc.catching]
      split
      · next ha => exact .failedRetryable l h₀ h₁ ms hlt _ ha
      · next ha => exact .failedLast l h₀ h₁ ms hlt _ ha
    · next hge => exact .executed l h₀ h₁ ms (not_lt.1 hge)
  | _ => cases hv <;> exact absurd hr (by simp [World.reply])

/-- The answers of the store: a read or a set branches on what is live, the others go on. -/
theorem Move.of_served_kv {c : KvCall ℕ}
    {k : Except WorkerExc (WorkerCall.kv c).Resp → HandlePc}
    {r : Except WorkerExc (WorkerCall.kv c).Resp} (hv : pc.view cfg d = .inr ⟨.kv c, k⟩)
    (hr : s.reply (.kv c) .served = some r) : Move cfg d s pc (.kv c) .served (k r) := by
  cases pc with
  | readDone =>
    cases hv
    cases hr
    cases hl : s.kv.live s.now (doneKey d.jobId.str) with
    | none => simpa [KvCall.perform, InMemoryKV.get, hl] using Move.notDone hl
    | some e => simpa [KvCall.perform, InMemoryKV.get, hl] using Move.alreadyDone hl
  | setClaim =>
    cases hv
    cases hr
    cases hl : s.kv.live s.now (claimKey d.jobId.str) with
    | none => simpa [KvCall.perform, hl] using Move.claimed hl
    | some e => simpa [KvCall.perform, hl] using Move.inProgress hl
  | drawToken => cases hv; cases hr; exact .drew
  | setLease token =>
    cases hv
    cases hr
    cases hl : s.kv.live s.now (leaseKey d.jobId.str) with
    | none => simpa [KvCall.perform, hl] using Move.leased token hl
    | some e => simpa [KvCall.perform, hl] using Move.leaseHeld token hl
  | releaseClaimUnleased => cases hv; cases hr; exact .releaseClaimUnleased
  | setDone l => cases hv; cases hr; exact .setDone l
  | clearClaim l => cases hv; cases hr; exact .clearClaim l
  | releaseClaimRequeued l => cases hv; cases hr; exact .releaseClaimRequeued l
  | releaseClaimFailed l => cases hv; cases hr; exact .releaseClaimFailed l
  | releaseClaimObsolete l => cases hv; cases hr; exact .releaseClaimObsolete l
  | releaseLease l exit => cases hv; cases hr; exact .releaseLease l exit
  | _ => cases hv

/-- The answers of the database: each of the four writes is accepted or refused. -/
theorem Move.of_served_recordEvent {w : Write} {k : Except WorkerExc JobState → HandlePc}
    {r : Except WorkerExc JobState} (hv : pc.view cfg d = .inr ⟨.recordEvent w, k⟩)
    (hr : s.reply (.recordEvent w) .served = some r) :
    Move cfg d s pc (.recordEvent w) .served (k r) := by
  have hcases := World.reply_recordEvent hr
  cases pc with
  | recordStarted l =>
    cases hv
    rcases hcases with ⟨e, he, rfl⟩ | ⟨state, db, he, rfl⟩
    · exact .startRefused l he
    · exact .started l he
  | recordCompleted l result =>
    cases hv
    rcases hcases with ⟨e, he, rfl⟩ | ⟨state, db, he, rfl⟩
    · exact .completionRefused l result he
    · exact .completed l result he
  | recordRequeued l message =>
    cases hv
    rcases hcases with ⟨e, he, rfl⟩ | ⟨state, db, he, rfl⟩
    · exact .requeueRefused l message he
    · exact .requeued l message he
  | recordFailed l message =>
    cases hv
    rcases hcases with ⟨e, he, rfl⟩ | ⟨state, db, he, rfl⟩
    · exact .failureRefused l message he
    · exact .failed l message he
  | _ => cases hv

/-- **The inversion.** Whatever a suspended call is answered, it makes one of the listed moves. -/
theorem Move.of_view {ans : Answer} {r : Except WorkerExc c.Resp}
    (hv : pc.view cfg d = .inr ⟨c, k⟩) (hr : s.reply c ans = some r) :
    Move cfg d s pc c ans (k r) := by
  cases ans with
  | failed applied => exact .of_failed hv hr
  | executed draw ms => exact .of_executed hv hr
  | served =>
    cases c with
    | kv c => exact .of_served_kv hv hr
    | recordEvent w => exact .of_served_recordEvent hv hr
    | execute durationMs failureRate => exact absurd hr (by simp [World.reply])
    | ack =>
      cases pc with
      | ackDuplicate => cases hv; cases hr; exact .ackDuplicate
      | ackCompleted l => cases hv; cases hr; exact .ackCompleted l
      | _ => cases hv
    | nak delay =>
      cases pc with
      | nakPoison => cases hv; cases hr; exact .nakPoison
      | nakInProgress => cases hv; cases hr; exact .nakInProgress
      | nakUnleased => cases hv; cases hr; exact .nakUnleased
      | nakRequeued l => cases hv; cases hr; exact .nakRequeued l
      | _ => cases hv
    | term =>
      cases pc with
      | termFailed l => cases hv; cases hr; exact .termFailed l
      | termObsolete l => cases hv; cases hr; exact .termObsolete l
      | _ => cases hv

/-- **A `handle` step** is a move of one living call, with the effect of what it calls. -/
theorem Fleet.stepHandle_eq_some {f f' : Fleet} {pid : ℕ} {ans : Answer}
    (h : f.stepHandle cfg pid ans = some f') :
    ∃ hc c pc, f.calls[pid]? = some hc ∧ hc.call? cfg = some c ∧
      Move cfg hc.delivery f.world hc.pc c ans pc ∧
      f' = ⟨f.world.serve (.handle pid) c ans, f.calls.set pid
        (hc.advance f.world (f.world.serve (.handle pid) c ans) c pc)⟩ := by
  rw [Fleet.stepHandle] at h
  split at h
  · exact absurd h (by simp)
  · next hc hget =>
    split at h
    · next halive =>
      split at h
      · exact absurd h (by simp)
      · next c k hv =>
        obtain ⟨r, hr, rfl⟩ := Option.map_eq_some_iff.1 h
        refine ⟨hc, c, k r, hget, ?_, Move.of_view hv hr, rfl⟩
        rw [HandleCall.call?, if_pos halive, HandlePc.call, hv]
    · exact absurd h (by simp)

/-- And every call that is answered makes one. -/
theorem Fleet.stepHandle_of_view {f : Fleet} {pid : ℕ} {hc : HandleCall}
    (hget : f.calls[pid]? = some hc) (halive : hc.alive = true)
    (hv : hc.pc.view cfg hc.delivery = .inr ⟨c, k⟩) {ans : Answer} {r : Except WorkerExc c.Resp}
    (hr : f.world.reply c ans = some r) :
    f.stepHandle cfg pid ans = some ⟨f.world.serve (.handle pid) c ans, f.calls.set pid
      (hc.advance f.world (f.world.serve (.handle pid) c ans) c (k r))⟩ := by
  simp only [Fleet.stepHandle, hget, halive, if_true, hv, hr, Option.map_some]

/-- **What a step does to the calls**: a call stays as it is, dies, begins, or — in a step of its
own — moves. -/
theorem Fleet.step_call {f f' : Fleet} {a : FleetStep} (h : f.step cfg a = some f') {pid : ℕ}
    {hc' : HandleCall} (hget : f'.calls[pid]? = some hc') :
    (f.calls[pid]? = some hc' ∧ ∀ ans, a ≠ .handle pid ans) ∨
    (∃ hc, f.calls[pid]? = some hc ∧ a = .die pid ∧ hc' = { hc with alive := false }) ∨
    (f.calls[pid]? = none ∧ ∃ d, a = .start d ∧ hc' = HandleCall.begin d f.world.now) ∨
    ∃ hc ans c pc, a = .handle pid ans ∧ f.calls[pid]? = some hc ∧ hc.call? cfg = some c ∧
      Move cfg hc.delivery f.world hc.pc c ans pc ∧
      f'.world = f.world.serve (.handle pid) c ans ∧ hc' = hc.advance f.world f'.world c pc := by
  cases a with
  | start d =>
    obtain rfl := Option.some.inj h
    rw [List.getElem?_append] at hget
    split at hget
    · exact .inl ⟨hget, by simp⟩
    · next hlen =>
      refine .inr (.inr (.inl ⟨List.getElem?_eq_none (not_lt.1 hlen), d, rfl, ?_⟩))
      rw [List.getElem?_singleton] at hget
      split at hget
      · exact (Option.some.inj hget).symm
      · exact absurd hget (by simp)
  | die pid' =>
    obtain rfl := Option.some.inj h
    rw [List.getElem?_modify] at hget
    obtain ⟨hc, hc₀, rfl⟩ := Option.map_eq_some_iff.1 hget
    split
    · next heq =>
      subst heq
      exact .inr (.inl ⟨hc, hc₀, rfl, rfl⟩)
    · exact .inl ⟨hc₀, by simp⟩
  | handle pid' ans =>
    obtain ⟨hc, c, pc, hget', hcall, hmove, rfl⟩ := Fleet.stepHandle_eq_some h
    rw [List.getElem?_set] at hget
    split at hget
    · next heq =>
      subst heq
      split at hget
      · exact .inr (.inr (.inr ⟨hc, ans, c, pc, rfl, hget', hcall, hmove, rfl,
          (Option.some.inj hget).symm⟩))
      · exact absurd hget (by simp)
    · next hne =>
      refine .inl ⟨hget, fun ans' heq ↦ hne ?_⟩
      rw [FleetStep.handle.injEq] at heq
      exact heq.1
  | submit | replay | deadLetter | publish | tick | vanish =>
    obtain rfl := Option.some.inj h
    exact .inl ⟨hget, by simp⟩

/-- A call once made keeps its number and its delivery. -/
theorem Fleet.step_call_of_some {f f' : Fleet} {a : FleetStep} (h : f.step cfg a = some f')
    {pid : ℕ} {hc : HandleCall} (hget : f.calls[pid]? = some hc) :
    ∃ hc', f'.calls[pid]? = some hc' ∧ hc'.delivery = hc.delivery := by
  have hlt := (List.getElem?_eq_some_iff.1 hget).1
  cases a with
  | start d =>
    obtain rfl := Option.some.inj h
    exact ⟨hc, by rw [List.getElem?_append_left hlt, hget], rfl⟩
  | die pid' =>
    obtain rfl := Option.some.inj h
    refine ⟨_, by rw [List.getElem?_modify, hget]; rfl, ?_⟩
    split <;> rfl
  | handle pid' ans =>
    obtain ⟨hc', c, pc, hget', -, -, rfl⟩ := Fleet.stepHandle_eq_some h
    by_cases heq : pid' = pid
    · subst heq
      obtain rfl := Option.some.inj (hget'.symm.trans hget)
      exact ⟨_, List.getElem?_set_self hlt, rfl⟩
    · exact ⟨hc, by rw [List.getElem?_set_ne heq, hget], rfl⟩
  | submit | replay | deadLetter | publish | tick | vanish =>
    obtain rfl := Option.some.inj h
    exact ⟨hc, hget, rfl⟩

/-- Time passes in ticks. -/
theorem Fleet.now_step {f f' : Fleet} {a : FleetStep} (h : f.step cfg a = some f') :
    f'.world.now = f.world.now ∨ ∃ ms, a = .tick ms ∧ f'.world.now = f.world.now + ms := by
  cases a with
  | submit | replay | deadLetter =>
    obtain rfl := Option.some.inj h
    exact .inl (World.now_transact ..)
  | handle pid ans =>
    obtain ⟨hc, c, pc, -, -, -, rfl⟩ := Fleet.stepHandle_eq_some h
    exact .inl (World.now_serve ..)
  | tick ms =>
    obtain rfl := Option.some.inj h
    exact .inr ⟨ms, rfl, rfl⟩
  | publish | start | die | vanish =>
    obtain rfl := Option.some.inj h
    exact .inl rfl

theorem Fleet.now_le {f f' : Fleet} {a : FleetStep} (h : f.step cfg a = some f') :
    f.world.now ≤ f'.world.now := by
  rcases Fleet.now_step h with hsame | ⟨ms, -, hlater⟩
  · exact hsame.ge
  · exact hlater ▸ Nat.le_add_right ..

/-- **Where an entry of the store comes from**: it was there before, or a `handle` step set it. -/
theorem Fleet.live_cases {f f' : Fleet} {a : FleetStep} (h : f.step cfg a = some f') {key : String}
    {e : Entry ℕ} (hl : f'.world.kv.live f'.world.now key = some e) :
    f.world.kv.live f'.world.now key = some e ∨
    ∃ pid ans hc value ttl, a = .handle pid ans ∧ f.calls[pid]? = some hc ∧
      hc.call? cfg = some (.kv (.setIfAbsent key value ttl)) ∧
      f.world.kv.live f.world.now key = none ∧ e = ⟨value, some (f.world.now + ttl)⟩ ∧
      ans.takesEffect = true := by
  cases a with
  | submit | replay | deadLetter =>
    obtain rfl := Option.some.inj h
    rw [World.kv_transact] at hl
    exact .inl hl
  | handle pid ans =>
    obtain ⟨hc, c, pc, hget, hcall, -, rfl⟩ := Fleet.stepHandle_eq_some h
    by_cases hkv : ∃ c', c = .kv c'
    · obtain ⟨c', rfl⟩ := hkv
      rw [World.now_serve] at hl ⊢
      rw [World.kv_serve_kv] at hl
      split at hl
      · next heff =>
        rcases c'.live_of_perform le_rfl hl with hold | ⟨value, ttl, rfl, hnone, he⟩
        · exact .inl hold
        · exact .inr ⟨pid, ans, hc, value, ttl, rfl, hget, hcall, hnone, he, heff⟩
      · exact .inl hl
    · rw [World.kv_serve _ _ (not_exists.1 hkv)] at hl
      exact .inl hl
  | vanish key' =>
    obtain rfl := Option.some.inj h
    exact .inl (InMemoryKV.live_of_vanish hl)
  | publish | start | die | tick =>
    obtain rfl := Option.some.inj h
    exact .inl hl

end Inversion

end Orbiter
