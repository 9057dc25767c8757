import Orbiter.Fleet.Jobs

/-!
# Fencing attributes every outcome to one execution

Three mechanisms meet here. A token is drawn from a counter that only grows, so no two calls for one
job ever hold the same one. A call writes `started` first and at most one outcome after it. And the
database refuses a token older than the newest it accepted.

Put together: when an outcome is accepted, the job is running, so its last accepted write is a
`started` whose token is the row's. The outcome's own token is not older, and not newer either,
because its call has written `started` under it before. Equal tokens are the same call.

The store is asked for nothing but its counter: leases and claims may expire or vanish at any time.

## The invariants

* `Tokens` — what the calls have drawn: not above the counter, and never twice for one job
  (`token_cases` is its step lemma);
* `Stage`, `HandleCall.Wrote` — how far a call has come, and what it has written at each stage:
  nothing, `started`, or `started` and one outcome, all with its own token. `Move.wrote` is the step
  lemma, one move of one call;
* `Attributed` — every call has written what its stage says, and starts and tokens are written by
  calls only;
* `Paired` — in a job's accepted writes, an outcome comes right after a `started` of the same writer
  and the same token;
* `outcome_follows_own_started` — the result, for every job in every reachable state.
-/

namespace Orbiter

open LeaseManager Worker

/-- The events that end an execution. -/
def EventType.isOutcome : EventType → Bool
  | .completed | .failed | .requeued => true
  | _ => false

theorem eq_running_of_isOutcome {s s' : JobState} {e : EventType} (he : e.isOutcome = true)
    (h : transitions s e = some s') : s = .running := by
  refine eq_running_of_transitions ?_ h
  cases e <;> simp_all [EventType.isOutcome]

/-! ### Tokens -/

/-- Where a token comes from: it was there before, or it was drawn just now. -/
theorem Move.token?_eq {cfg : Settings} {d : Delivery} {s : World} {pc pc' : HandlePc}
    {c : WorkerCall} {ans : Answer} (hm : Move cfg d s pc c ans pc') {t : ℕ}
    (ht : pc'.token? = some t) :
    pc.token? = some t ∨ (pc = .drawToken ∧ c = .kv (.incr (tokenKey d.jobId.str)) ∧
      ans = .served ∧ t = s.kv.counters (tokenKey d.jobId.str) + 1) := by
  cases hm with
  | drew => exact .inr ⟨rfl, rfl, rfl, (Option.some.inj ht).symm⟩
  | @fault c k hv applied =>
    cases pc <;> first | exact .inl ht | exact absurd ht (by simp [HandlePc.onFault,
      HandlePc.lease?, HandlePc.token?])
  | @startRefused l e h | @completionRefused l result e h =>
    refine .inl ?_
    cases e <;> exact ht
  | _ => first | exact .inl ht | exact absurd ht (by simp [HandlePc.token?, HandlePc.lease?])

/-- A call that holds a lease has drawn its token. -/
theorem HandlePc.token?_of_lease? {pc : HandlePc} {l : Lease} (h : pc.lease? = some l) :
    pc.token? = some l.token := by
  cases pc <;> first | exact congrArg (Option.map Lease.token) h | exact absurd h (by simp [lease?])

namespace World

/-- Counters only grow, whoever calls. -/
theorem counters_serve_le (s : World) (who : Writer) (c : WorkerCall) (ans : Answer)
    (key : String) : s.kv.counters key ≤ (s.serve who c ans).kv.counters key := by
  cases c with
  | kv c' =>
    rw [kv_serve_kv]
    split
    · cases c' with
      | incr key' =>
        rw [KvCall.perform, InMemoryKV.counters_incr]
        split
        · next h => rw [h]; exact Nat.le_succ _
        · exact le_rfl
      | get key' => exact le_rfl
      | setIfAbsent key' value ttl =>
        exact (congrFun (InMemoryKV.counters_setIfAbsent ..) key).ge
      | compareAndDelete key' expected =>
        exact (congrFun (InMemoryKV.counters_compareAndDelete ..) key).ge
    · exact le_rfl
  | recordEvent | execute | ack | nak | term =>
    rw [kv_serve _ _ (by simp)]

end World

namespace Fleet

variable {cfg : Settings}

theorem counters_le {f f' : Fleet} {a : FleetStep} (h : f.step cfg a = some f') (key : String) :
    f.world.kv.counters key ≤ f'.world.kv.counters key := by
  cases a with
  | submit | replay | deadLetter =>
    obtain rfl := Option.some.inj h
    exact (congrArg (fun kv ↦ InMemoryKV.counters kv key) (World.kv_transact ..)).ge
  | handle pid ans =>
    obtain ⟨hc, c, pc, -, -, -, rfl⟩ := stepHandle_eq_some h
    exact World.counters_serve_le ..
  | publish | start | die | tick | vanish =>
    obtain rfl := Option.some.inj h
    exact le_rfl

/-- The tokens of the calls: remembered, drawn from the job's counter, and pairwise different for
one job. -/
structure Tokens (f : Fleet) : Prop where
  remembered : ∀ (pid : ℕ) (hc : HandleCall) (t : ℕ), f.calls[pid]? = some hc →
    hc.pc.token? = some t → hc.token = some t
  drawn : ∀ (pid : ℕ) (hc : HandleCall) (t : ℕ), f.calls[pid]? = some hc → hc.token = some t →
    t ≤ f.world.kv.counters (tokenKey hc.delivery.jobId.str)
  apart : ∀ (pid pid' : ℕ) (hc hc' : HandleCall) (t : ℕ), f.calls[pid]? = some hc →
    f.calls[pid']? = some hc' → hc.delivery.jobId = hc'.delivery.jobId → hc.token = some t →
    hc'.token = some t → pid = pid'

/-- How a token of the state after a step arose: the call had it before, or it has drawn it in this
step, and it is the new value of the counter. -/
theorem token_cases {f f' : Fleet} {a : FleetStep} (hf : f.Tokens) (h : f.step cfg a = some f')
    {pid : ℕ} {hc' : HandleCall} {t : ℕ} (hget : f'.calls[pid]? = some hc')
    (ht : hc'.token = some t) :
    (∃ hc, f.calls[pid]? = some hc ∧ hc.delivery = hc'.delivery ∧ hc.token = some t) ∨
    ((a = .handle pid .served ∧ ∃ hc, f.calls[pid]? = some hc ∧ hc.delivery = hc'.delivery ∧
        hc.pc = .drawToken) ∧
      t = f.world.kv.counters (tokenKey hc'.delivery.jobId.str) + 1 ∧
      f'.world.kv.counters (tokenKey hc'.delivery.jobId.str) = t) := by
  rcases step_call h hget with ⟨hget₀, -⟩ | ⟨hc, hget₀, -, rfl⟩ | ⟨-, d, -, rfl⟩ |
    ⟨hc, ans, c, pc, rfl, hget₀, -, hmove, hw, rfl⟩
  · exact .inl ⟨hc', hget₀, rfl, ht⟩
  · exact .inl ⟨hc, hget₀, rfl, ht⟩
  · exact absurd ht (by simp [HandleCall.begin])
  · rw [HandleCall.advance, Option.or_eq_some_iff] at ht
    rcases ht with ht | ⟨-, ht⟩
    · rcases hmove.token?_eq ht with hold | ⟨hpc, rfl, rfl, rfl⟩
      · exact .inl ⟨hc, hget₀, rfl, hf.remembered pid hc t hget₀ hold⟩
      · refine .inr ⟨⟨rfl, hc, hget₀, rfl, hpc⟩, rfl, ?_⟩
        rw [hw, HandleCall.delivery_advance, World.kv_serve_served, KvCall.perform,
          InMemoryKV.counters_incr, if_pos rfl]
    · exact .inl ⟨hc, hget₀, rfl, ht⟩

/-- **Every step keeps the tokens apart.** -/
theorem Tokens.step {f f' : Fleet} {a : FleetStep} (hf : f.Tokens) (h : f.step cfg a = some f') :
    f'.Tokens where
  remembered pid hc' t hget ht := by
    rcases step_call h hget with ⟨hget₀, -⟩ | ⟨hc, hget₀, -, rfl⟩ | ⟨-, d, -, rfl⟩ |
      ⟨hc, ans, c, pc, rfl, hget₀, -, hmove, -, rfl⟩
    · exact hf.remembered pid hc' t hget₀ ht
    · exact hf.remembered pid hc t hget₀ ht
    · simp only [HandleCall.begin, HandlePc.start] at ht
      split at ht <;> exact absurd ht (by simp [HandlePc.token?, HandlePc.lease?])
    · simp only [HandleCall.advance] at ht ⊢
      rw [ht, Option.some_or]
  drawn pid hc' t hget ht := by
    rcases token_cases hf h hget ht with ⟨hc, hget₀, hd, ht₀⟩ | ⟨-, -, hcount⟩
    · have hle := hf.drawn pid hc t hget₀ ht₀
      rw [hd] at hle
      exact hle.trans (counters_le h _)
    · exact hcount.ge
  apart pid pid' hc hc' t hget hget' hjob ht ht' := by
    rcases token_cases hf h hget ht with ⟨hc₀, hget₀, hd, ht₀⟩ | ⟨⟨ha, -⟩, hnew, -⟩ <;>
      rcases token_cases hf h hget' ht' with ⟨hc₀', hget₀', hd', ht₀'⟩ | ⟨⟨ha', -⟩, hnew', -⟩
    · exact hf.apart pid pid' hc₀ hc₀' t hget₀ hget₀' (by rw [hd, hd', hjob]) ht₀ ht₀'
    · have hle := hf.drawn pid hc₀ t hget₀ ht₀
      rw [hd, hjob] at hle
      omega
    · have hle := hf.drawn pid' hc₀' t hget₀' ht₀'
      rw [hd', ← hjob] at hle
      omega
    · rw [ha, FleetStep.handle.injEq] at ha'
      exact ha'.1

/-- The tokens are apart in every reachable state. -/
theorem tokens_of_reachable {f : Fleet} (h : (system cfg).Reachable TransitionSystem.anyStep f) :
    f.Tokens := by
  refine h.induct (I := Tokens) (fun f hf ↦ ?_) fun f a f' _ ih _ hs ↦ ih.step hs
  rw [hf]
  constructor <;> intros <;> simp_all

end Fleet

/-! ### What a call has written -/

/-- A call has written nothing yet, is between its `started` and its outcome, or is past both. -/
inductive Stage
  | before
  | running
  | after
  deriving DecidableEq

/-- The stage of a control point. -/
def HandlePc.stage : HandlePc → Stage
  | nakPoison | readDone | ackDuplicate | setClaim | nakInProgress | drawToken | setLease _
  | releaseClaimUnleased | nakUnleased | recordStarted _ => .before
  | executing _ | recordCompleted _ _ | recordRequeued _ _ | recordFailed _ _ => .running
  | _ => .after

/-- An outcome of the execution of `d` under `l`. -/
structure IsOutcome (d : Delivery) (l : Lease) (w : Write) : Prop where
  event : w.event.isOutcome = true
  jobId : w.jobId = d.jobId
  fenceToken : w.fenceToken = some (l.token : ℤ)

/-- `COMPLETED` is an outcome of its delivery, under its lease. -/
theorem isOutcome_completedWrite (d : Delivery) (l : Lease) (result : Json) :
    IsOutcome d l (completedWrite d l result) := ⟨rfl, rfl, rfl⟩

theorem isOutcome_requeuedWrite (d : Delivery) (l : Lease) (message : String) :
    IsOutcome d l (requeuedWrite d l message) := ⟨rfl, rfl, rfl⟩

theorem isOutcome_failedWrite (d : Delivery) (l : Lease) (message : String) :
    IsOutcome d l (failedWrite d l message) := ⟨rfl, rfl, rfl⟩

/-- What a call that is past its writes may have written: nothing, `started`, or `started` and one
outcome, all under the token it drew. -/
inductive HandleCall.Past (hc : HandleCall) : List Write → Prop
  | nothing : Past hc []
  | started (l : Lease) (ht : hc.token = some l.token) : Past hc [startedWrite hc.delivery l]
  | outcome (l : Lease) (w : Write) (ht : hc.token = some l.token)
      (hw : IsOutcome hc.delivery l w) : Past hc [startedWrite hc.delivery l, w]

/-- The writes of a call, by its stage. -/
def HandleCall.Wrote (hc : HandleCall) (ws : List Write) : Prop :=
  match hc.pc.stage with
  | .before => ws = []
  | .running => ∃ l, hc.pc.lease? = some l ∧ hc.token = some l.token ∧
      ws = [startedWrite hc.delivery l]
  | .after => hc.Past ws

/-- Whatever the stage, nothing but a start and an outcome was written. -/
theorem HandleCall.Wrote.past {hc : HandleCall} {ws : List Write} (h : hc.Wrote ws) :
    hc.Past ws := by
  rw [Wrote] at h
  split at h
  · rw [h]
    exact .nothing
  · obtain ⟨l, -, ht, rfl⟩ := h
    exact .started l ht
  · exact h

/-- What a call has written depends on its delivery and its token. -/
theorem HandleCall.Past.of_eq {hc hc' : HandleCall} {ws : List Write} (h : hc.Past ws)
    (hd : hc'.delivery = hc.delivery) (ht : hc'.token = hc.token) : hc'.Past ws := by
  rcases h with _ | ⟨l, hl⟩ | ⟨l, w, hl, hw⟩
  · exact .nothing
  · rw [← hd]
    exact .started l (ht.trans hl)
  · rw [← hd] at hw ⊢
    exact .outcome l w (ht.trans hl) hw

/-- A call's writes are judged by its control point, delivery and token alone. -/
theorem HandleCall.Wrote.of_eq {hc hc' : HandleCall} {ws : List Write} (h : hc.Wrote ws)
    (hpc : hc'.pc = hc.pc) (hd : hc'.delivery = hc.delivery) (ht : hc'.token = hc.token) :
    hc'.Wrote ws := by
  rw [Wrote] at h ⊢
  rw [hpc, hd, ht]
  cases hs : hc.pc.stage with
  | before => simpa only [hs] using h
  | running => simpa only [hs] using h
  | after =>
    rw [hs] at h
    exact h.of_eq hd ht

theorem HandlePc.stage_start (d : Delivery) : (HandlePc.start d).stage = .before := by
  rw [start]
  split <;> rfl

namespace World

variable {s : World} {w : Write}

/-- A transaction that takes effect adds its write or nothing. -/
theorem made_recordEvent (s : World) (w : Write) (ans : Answer) :
    s.made (.recordEvent w) ans = [] ∨ s.made (.recordEvent w) ans = [w] := by
  rw [made]
  split
  · exact .inr rfl
  · exact .inl rfl

theorem made_of_ok {state : JobState} {db : Database SubmitRequest}
    (h : s.db.recordEvent s.now w = .ok (state, db)) : s.made (.recordEvent w) .served = [w] := by
  simp [made, h, Answer.takesEffect]

end World

/-- An exception nobody names ends a call's writing. -/
theorem HandlePc.stage_onFault (pc : HandlePc) : pc.onFault.stage = .after := by
  cases pc <;> rfl

theorem HandlePc.stage_catching_db (cfg : Settings) (d : Delivery) (l : Lease) (e : DbError) :
    (HandlePc.catching cfg d l (.db e)).stage = .after := by
  cases e <;> rfl

/-- A call stays before its `started` only by writing nothing. -/
theorem Move.before_of_before {cfg : Settings} {d : Delivery} {s : World} {pc pc' : HandlePc}
    {c : WorkerCall} {ans : Answer} (hm : Move cfg d s pc c ans pc') (h : pc'.stage = .before) :
    pc.stage = .before ∧ s.made c ans = [] := by
  cases hm with
  | fault hv applied =>
    rw [HandlePc.stage_onFault] at h
    exact absurd h (by decide)
  | startRefused l he | completionRefused l result he =>
    rw [HandlePc.stage_catching_db] at h
    exact absurd h (by decide)
  | _ => first | exact ⟨rfl, rfl⟩ | exact absurd h (by simp [HandlePc.stage])

/-- It gets to run by an accepted `started`, and runs on under the same lease, writing nothing. -/
theorem Move.running_cases {cfg : Settings} {d : Delivery} {s : World} {pc pc' : HandlePc}
    {c : WorkerCall} {ans : Answer} (hm : Move cfg d s pc c ans pc') (h : pc'.stage = .running) :
    (pc.stage = .running ∧ pc'.lease? = pc.lease? ∧ s.made c ans = []) ∨
    (∃ l, pc = .recordStarted l ∧ pc'.lease? = some l ∧ s.made c ans = [startedWrite d l]) := by
  cases hm with
  | fault hv applied =>
    rw [HandlePc.stage_onFault] at h
    exact absurd h (by decide)
  | startRefused l he | completionRefused l result he =>
    rw [HandlePc.stage_catching_db] at h
    exact absurd h (by decide)
  | started l he => exact .inr ⟨l, rfl, rfl, World.made_of_ok he⟩
  | _ => first | exact .inl ⟨rfl, rfl, rfl⟩ | exact absurd h (by simp [HandlePc.stage])

section OneMove

variable {cfg : Settings} {hc : HandleCall} {s s' : World} {c : WorkerCall} {ans : Answer}
  {pc : HandlePc} (hm : Move cfg hc.delivery s hc.pc c ans pc)

include hm in
/-- Once it has written, a call keeps its token. -/
theorem Move.token_advance (htok : ∀ t, hc.pc.token? = some t → hc.token = some t)
    (hne : hc.pc ≠ .drawToken) : (hc.advance s s' c pc).token = hc.token := by
  rw [HandleCall.advance]
  cases ht : pc.token? with
  | none => exact Option.none_or
  | some t =>
    rcases hm.token?_eq ht with hold | ⟨hdraw, -, -, -⟩
    · rw [Option.some_or, htok t hold]
    · exact absurd hdraw hne

/-- A call writes from two stages: `started` before it runs, an outcome while it runs. -/
theorem HandleCall.made_cases (hcall : hc.call? cfg = some c) (hmade : s.made c ans ≠ []) :
    ∃ l w, s.made c ans = [w] ∧ hc.pc.lease? = some l ∧
      ((hc.pc.stage = .before ∧ w = startedWrite hc.delivery l) ∨
        (hc.pc.stage = .running ∧ IsOutcome hc.delivery l w)) := by
  cases c with
  | recordEvent w =>
    have hw : s.made (.recordEvent w) ans = [w] :=
      (World.made_recordEvent s w ans).resolve_left hmade
    obtain ⟨-, l, ⟨hpc, rfl⟩ | ⟨result, hpc, rfl⟩ | ⟨message, hpc, rfl⟩ | ⟨message, hpc, rfl⟩⟩ :=
      recordEvent_of_call? hcall <;> rw [hpc] <;> refine ⟨l, _, hw, rfl, ?_⟩
    · exact .inl ⟨rfl, rfl⟩
    · exact .inr ⟨rfl, isOutcome_completedWrite ..⟩
    · exact .inr ⟨rfl, isOutcome_requeuedWrite ..⟩
    · exact .inr ⟨rfl, isOutcome_failedWrite ..⟩
  | kv | execute | ack | nak | term => exact absurd rfl hmade

include hm in
/-- **One move.** A call's writes fit its stage after every move it makes. -/
theorem Move.wrote (hcall : hc.call? cfg = some c)
    (htok : ∀ t, hc.pc.token? = some t → hc.token = some t) {ws : List Write} (h : hc.Wrote ws) :
    (hc.advance s s' c pc).Wrote (ws ++ s.made c ans) := by
  have hpc : (hc.advance s s' c pc).pc = pc := rfl
  rw [HandleCall.Wrote, hpc]
  cases hstage : pc.stage with
  | before =>
    obtain ⟨h₀, hmade⟩ := hm.before_of_before hstage
    rw [HandleCall.Wrote, h₀] at h
    rw [h, hmade]
    rfl
  | running =>
    rcases hm.running_cases hstage with ⟨h₀, hl, hmade⟩ | ⟨l, h₀, hl, hmade⟩
    · rw [HandleCall.Wrote, h₀] at h
      obtain ⟨l, hl₀, ht, rfl⟩ := h
      have hne : hc.pc ≠ .drawToken := fun heq ↦ by rw [heq] at h₀; exact absurd h₀ (by decide)
      exact ⟨l, hl.trans hl₀, (hm.token_advance htok hne).trans ht, by rw [hmade]; rfl⟩
    · rw [HandleCall.Wrote, h₀] at h
      have hne : hc.pc ≠ .drawToken := by simp [h₀]
      have ht : hc.token = some l.token := htok l.token (by rw [h₀]; rfl)
      exact ⟨l, hl, (hm.token_advance htok hne).trans ht, by rw [h, hmade]; rfl⟩
  | after =>
    by_cases hmade : s.made c ans = []
    · rw [hmade, List.append_nil]
      by_cases hdraw : hc.pc = .drawToken
      · rw [HandleCall.Wrote, hdraw] at h
        rw [h]
        exact .nothing
      · exact h.past.of_eq rfl (hm.token_advance htok hdraw)
    · obtain ⟨l, w, hw, hl, hkind⟩ := HandleCall.made_cases hcall hmade
      have hne : hc.pc ≠ .drawToken := fun heq ↦ by rw [heq] at hl; simp [HandlePc.lease?] at hl
      have ht : (hc.advance s s' c pc).token = some l.token := by
        rw [hm.token_advance htok hne]
        exact htok l.token (HandlePc.token?_of_lease? hl)
      rw [hw]
      rcases hkind with ⟨h₀, rfl⟩ | ⟨h₀, hout⟩
      · rw [HandleCall.Wrote, h₀] at h
        rw [h]
        exact .started l ht
      · rw [HandleCall.Wrote, h₀] at h
        obtain ⟨l', hl', -, rfl⟩ := h
        obtain rfl := Option.some.inj (hl.symm.trans hl')
        exact .outcome l w ht hout

end OneMove

namespace Fleet

variable {cfg : Settings}

/-- Every call's writes fit its stage, and every `started` and every write under a token was made by
a call. -/
structure Attributed (f : Fleet) : Prop where
  wrote : ∀ (pid : ℕ) (hc : HandleCall), f.calls[pid]? = some hc → hc.Wrote (f.world.writesBy pid)
  made : ∀ (pid : ℕ) (w : Write), w ∈ f.world.writesBy pid → ∃ hc, f.calls[pid]? = some hc
  writer : ∀ who w, (who, w) ∈ f.world.history →
    w.event = .started ∨ w.fenceToken.isSome = true → ∃ pid, who = .handle pid

/-- The writes of a call change in its own steps only. -/
theorem writesBy_step {f f' : Fleet} {a : FleetStep} (h : f.step cfg a = some f') {pid : ℕ}
    (hne : ∀ ans, a ≠ .handle pid ans) : f'.world.writesBy pid = f.world.writesBy pid := by
  cases a with
  | submit | replay | deadLetter =>
    obtain rfl := Option.some.inj h
    exact World.writesBy_transact_ne _ (by simp) _
  | handle pid' ans =>
    obtain ⟨hc, c, pc, -, -, -, rfl⟩ := stepHandle_eq_some h
    refine World.writesBy_serve_ne _ (fun heq ↦ hne ans ?_) _ _
    rw [heq]
  | publish | start | die | tick | vanish =>
    obtain rfl := Option.some.inj h
    rfl

/-- The other actors write no `started`, and nothing under a token. -/
theorem handle_of_mem_history {f f' : Fleet} {a : FleetStep} (h : f.step cfg a = some f')
    {who : Writer} {w : Write} (hmem : (who, w) ∈ f'.world.history)
    (hw : w.event = .started ∨ w.fenceToken.isSome = true) :
    (who, w) ∈ f.world.history ∨ ∃ pid, who = .handle pid := by
  cases a with
  | submit jobId key payload carrier =>
    obtain rfl := Option.some.inj h
    rcases World.mem_history_transact hmem with hold | ⟨-, r, hr⟩
    · exact .inl hold
    · rcases r with ⟨_, _ | _⟩ | _ | _ <;> simp [RepoCall.writes, submitWrites] at hr
      rcases hr with rfl | rfl <;> exact absurd hw (by simp)
  | replay jobId =>
    obtain rfl := Option.some.inj h
    rcases World.mem_history_transact hmem with hold | ⟨-, r, hr⟩
    · exact .inl hold
    · rcases r with _ | _ | (_ | _) <;> simp [RepoCall.writes] at hr
      subst hr
      exact absurd hw (by simp [Database.replayWrite])
  | deadLetter jobId streamSeq deliveries =>
    obtain rfl := Option.some.inj h
    rcases World.mem_history_transact hmem with hold | ⟨-, r, hr⟩
    · exact .inl hold
    · rw [RepoCall.writes, List.mem_singleton] at hr
      subst hr
      exact absurd hw (by simp [deadLetterWrite])
  | handle pid ans =>
    obtain ⟨hc, c, pc, -, -, -, rfl⟩ := stepHandle_eq_some h
    rw [World.history_serve, List.mem_append] at hmem
    rcases hmem with hold | hnew
    · exact .inl hold
    · obtain ⟨w', -, heq⟩ := List.mem_map.1 hnew
      exact .inr ⟨pid, (congrArg Prod.fst heq).symm⟩
  | publish | start | die | tick | vanish =>
    obtain rfl := Option.some.inj h
    exact .inl hmem

/-- **Every step keeps the writes attributed.** -/
theorem Attributed.step {f f' : Fleet} {a : FleetStep} (hf : f.Attributed) (ht : f.Tokens)
    (h : f.step cfg a = some f') : f'.Attributed where
  wrote pid hc' hget := by
    rcases step_call h hget with ⟨hget₀, hne⟩ | ⟨hc, hget₀, rfl, rfl⟩ | ⟨hget₀, d, rfl, rfl⟩ |
      ⟨hc, ans, c, pc, rfl, hget₀, hcall, hmove, hw, rfl⟩
    · rw [writesBy_step h hne]
      exact hf.wrote pid hc' hget₀
    · rw [writesBy_step h (by simp)]
      exact (hf.wrote pid hc hget₀).of_eq rfl rfl rfl
    · have hnil : f.world.writesBy pid = [] := by
        refine List.eq_nil_iff_forall_not_mem.2 fun w hw ↦ ?_
        obtain ⟨hc, hget₁⟩ := hf.made pid w hw
        rw [hget₀] at hget₁
        exact absurd hget₁ (by simp)
      rw [writesBy_step h (by simp), hnil, HandleCall.Wrote, HandleCall.begin,
        HandlePc.stage_start]
    · rw [hw, World.writesBy_serve_self]
      exact hmove.wrote hcall (fun t ↦ ht.remembered pid hc t hget₀) (hf.wrote pid hc hget₀)
  made pid w hw := by
    by_cases hmove : ∃ ans, a = .handle pid ans
    · obtain ⟨ans, rfl⟩ := hmove
      obtain ⟨hc, c, pc, hget, -, -, -⟩ := stepHandle_eq_some h
      obtain ⟨hc', hget', -⟩ := step_call_of_some h hget
      exact ⟨hc', hget'⟩
    · rw [writesBy_step h (not_exists.1 hmove)] at hw
      obtain ⟨hc, hget⟩ := hf.made pid w hw
      obtain ⟨hc', hget', -⟩ := step_call_of_some h hget
      exact ⟨hc', hget'⟩
  writer who w hmem hw := by
    rcases handle_of_mem_history h hmem hw with hold | hnew
    · exact hf.writer who w hold hw
    · exact hnew

/-- The writes are attributed in every reachable state. -/
theorem attributed_of_reachable {f : Fleet}
    (h : (system cfg).Reachable TransitionSystem.anyStep f) : f.Attributed := by
  refine h.induct (I := Attributed) (fun f hf ↦ ?_)
    fun f a f' hr ih _ hs ↦ ih.step (tokens_of_reachable hr) hs
  rw [hf]
  refine ⟨?_, ?_, ?_⟩
  · intro pid hc hget
    exact absurd hget (by simp)
  · intro pid w hw
    exact absurd hw (by simp [World.empty, World.writesBy])
  · intro who w hw
    exact absurd hw (by simp [World.empty])

/-! ### The order of a job's writes -/

/-- Each outcome stands right behind the `started` of the same writer under the same token. -/
def Paired (ws : List (Writer × Write)) : Prop :=
  ∀ (i : ℕ) (who : Writer) (w : Write), ws[i]? = some (who, w) → w.event.isOutcome = true →
    ∃ (k : ℕ) (w' : Write), i = k + 1 ∧ ws[k]? = some (who, w') ∧ w'.event = .started ∧
      w'.fenceToken = w.fenceToken

/-- A write that is no outcome, or follows its own start, keeps the pairs. -/
theorem Paired.concat {ws : List (Writer × Write)} (h : Paired ws) {who : Writer} {w : Write}
    (hw : w.event.isOutcome = true → ∃ w', ws.getLast? = some (who, w') ∧ w'.event = .started ∧
      w'.fenceToken = w.fenceToken) : Paired (ws ++ [(who, w)]) := by
  intro i who' w' hi hout
  rw [List.getElem?_append] at hi
  split at hi
  · next hlt =>
    obtain ⟨k, w'', rfl, hk, hev, htok⟩ := h i who' w' hi hout
    exact ⟨k, w'', rfl, by rw [List.getElem?_append_left (by omega), hk], hev, htok⟩
  · next hge =>
    rw [List.getElem?_singleton] at hi
    split at hi
    · next hzero =>
      obtain ⟨rfl, rfl⟩ := Prod.mk.inj (Option.some.inj hi)
      obtain ⟨w'', hlast, hev, htok⟩ := hw hout
      rw [List.getLast?_eq_getElem?] at hlast
      have hlt := (List.getElem?_eq_some_iff.1 hlast).1
      exact ⟨ws.length - 1, w'', by omega, by rw [List.getElem?_append_left hlt, hlast], hev, htok⟩
    · exact absurd hi (by simp)

/-- What is known of a write of a call: it is for the call's job, under the token the call drew. -/
theorem Attributed.of_handle {f : Fleet} (hf : f.Attributed) {pid : ℕ} {w : Write}
    (hmem : (Writer.handle pid, w) ∈ f.world.history) :
    ∃ hc t, f.calls[pid]? = some hc ∧ hc.delivery.jobId = w.jobId ∧ hc.token = some t ∧
      w.fenceToken = some (t : ℤ) := by
  have hby := World.mem_writesBy.2 hmem
  obtain ⟨hc, hget⟩ := hf.made pid w hby
  have hpast := (hf.wrote pid hc hget).past
  generalize f.world.writesBy pid = ws at hby hpast
  rcases hpast with _ | ⟨l, ht⟩ | ⟨l, w', ht, hout⟩
  · exact absurd hby (by simp)
  · obtain rfl := List.mem_singleton.1 hby
    exact ⟨hc, l.token, hget, rfl, ht, rfl⟩
  · rcases List.mem_cons.1 hby with rfl | hby
    · exact ⟨hc, l.token, hget, rfl, ht, rfl⟩
    · obtain rfl := List.mem_singleton.1 hby
      exact ⟨hc, l.token, hget, hout.jobId.symm, ht, hout.fenceToken⟩

/-- The row's token was drawn by a call for the job, or is the one every job begins with. -/
theorem fenceToken_drawn {f : Fleet} (hcons : f.world.ledger.Consistent) (hf : f.Attributed)
    {j : Uuid} {row : JobRow SubmitRequest} (hj : f.world.db.job? j = some row) :
    row.fenceToken = 0 ∨ ∃ (pid : ℕ) (hc : HandleCall) (t : ℕ), f.calls[pid]? = some hc ∧
      hc.delivery.jobId = j ∧ hc.token = some t ∧ row.fenceToken = t := by
  rcases (hcons.projects j row hj).fenceToken.1 with hzero | ⟨w, hw, htok⟩
  · exact .inl hzero
  · rw [World.writesOf_ledger] at hw
    obtain ⟨⟨who, w'⟩, hmem, rfl⟩ := List.mem_map.1 hw
    obtain ⟨hmem, hjob⟩ := World.mem_writesOf.1 hmem
    obtain ⟨pid, rfl⟩ := hf.writer who w' hmem (.inr (by rw [htok]; rfl))
    obtain ⟨hc, t, hget, hd, ht, hfence⟩ := hf.of_handle hmem
    exact .inr ⟨pid, hc, t, hget, hd.trans hjob, ht, Option.some.inj (htok.symm.trans hfence)⟩

/-- **The step that fencing decides.** An outcome is accepted right behind its own `started`. -/
theorem last_is_own_started {f : Fleet} (hcons : f.world.ledger.Consistent) (ht : f.Tokens)
    (hf : f.Attributed) {pid : ℕ} {hc : HandleCall} {w : Write}
    (hget : f.calls[pid]? = some hc) (hcall : hc.call? cfg = some (.recordEvent w))
    {row : JobRow SubmitRequest} {next : JobState} (hrow : f.world.db.job? w.jobId = some row)
    (hnext : transitions row.state w.event = some next)
    (htoken : row.fenceToken ≤ w.fenceToken.getD row.fenceToken)
    (hout : w.event.isOutcome = true) :
    ∃ w', (f.world.writesOf w.jobId).getLast? = some (.handle pid, w') ∧ w'.event = .started ∧
      w'.fenceToken = w.fenceToken := by
  -- The call has written its `started` before, under the same lease.
  obtain ⟨l, hl, hiswrite⟩ : ∃ l, hc.pc.lease? = some l ∧ hc.pc.stage = .running ∧
      IsOutcome hc.delivery l w := by
    obtain ⟨-, l, ⟨hpc, rfl⟩ | ⟨result, hpc, rfl⟩ | ⟨message, hpc, rfl⟩ | ⟨message, hpc, rfl⟩⟩ :=
      HandleCall.recordEvent_of_call? hcall <;> rw [hpc]
    · exact absurd hout (by simp [startedWrite, EventType.isOutcome])
    · exact ⟨l, rfl, rfl, isOutcome_completedWrite ..⟩
    · exact ⟨l, rfl, rfl, isOutcome_requeuedWrite ..⟩
    · exact ⟨l, rfl, rfl, isOutcome_failedWrite ..⟩
  obtain ⟨hstage, hiswrite⟩ := hiswrite
  have hwrote := hf.wrote pid hc hget
  rw [HandleCall.Wrote, hstage] at hwrote
  obtain ⟨l', hl', htok, hby⟩ := hwrote
  obtain rfl := Option.some.inj (hl.symm.trans hl')
  have hown : (Writer.handle pid, startedWrite hc.delivery l) ∈ f.world.history :=
    World.mem_writesBy.1 (by rw [hby]; exact List.mem_singleton_self _)
  -- So the row's token is at least the call's; accepted, it is at most the call's.
  have hproj := hcons.projects w.jobId row hrow
  have hge : (l.token : ℤ) ≤ row.fenceToken := by
    refine hproj.fenceToken.2 (Set.mem_insert_of_mem _ ⟨startedWrite hc.delivery l, ?_, rfl⟩)
    rw [World.writesOf_ledger]
    exact List.mem_map.2 ⟨_, World.mem_writesOf.2 ⟨hown, hiswrite.jobId.symm⟩, rfl⟩
  rw [hiswrite.fenceToken, Option.getD_some] at htoken
  have hfence : row.fenceToken = l.token := le_antisymm htoken hge
  -- The job runs, so its last write is a `started`, and the row's token is that one's.
  have hlast := hproj.state
  rw [eq_running_of_isOutcome hout hnext] at hlast
  have hlog : (f.world.db.log w.jobId).getLast? = some .started :=
    getLast?_of_replay_running hlast
  have heq : f.world.db.log w.jobId =
      (f.world.writesOf w.jobId).map fun x ↦ x.2.event := by
    have hmap := hcons.log_eq w.jobId
    rw [World.writesOf_ledger, List.map_map] at hmap
    exact hmap
  rw [heq, List.getLast?_map, Option.map_eq_some_iff] at hlog
  obtain ⟨⟨who, w'⟩, hlast', hev⟩ := hlog
  have hmem := World.mem_writesOf.1 (List.mem_of_getLast? hlast')
  obtain ⟨pid', rfl⟩ := hf.writer who w' hmem.1 (.inl hev)
  obtain ⟨hc', t, hget', hjob', htok', hfence'⟩ := hf.of_handle hmem.1
  have hrowtok : row.fenceToken = t := by
    refine hcons.last_token w.jobId row w' t hrow ?_ hfence'
    rw [World.writesOf_ledger, List.getLast?_map, hlast']
    rfl
  -- Equal tokens, same call.
  have htt : l.token = t := by
    rw [hfence] at hrowtok
    exact_mod_cast hrowtok
  have hpid : pid = pid' := by
    refine ht.apart pid pid' hc hc' t hget hget' ?_ (htt ▸ htok) htok'
    rw [hjob', hmem.2, hiswrite.jobId]
  subst hpid
  exact ⟨w', hlast', hev, by rw [hfence', hiswrite.fenceToken, htt]⟩

/-- Starts and outcomes are paired in every reachable state. -/
theorem paired_of_reachable {f : Fleet} (h : (system cfg).Reachable TransitionSystem.anyStep f)
    (j : Uuid) : Paired (f.world.writesOf j) := by
  refine h.induct (I := fun f ↦ Paired (f.world.writesOf j)) (fun f hf ↦ ?_)
    fun f a f' hr ih _ hs ↦ ?_
  · rw [hf]
    intro i who w hi
    exact absurd hi (by simp [World.empty, World.writesOf])
  · rcases jobStep hs j with ⟨-, -, hwrites⟩ | ⟨who, key, payload, id, id', -, -, -, hwrites⟩ |
      ⟨who, w, row, next, id, hmade, rfl, hrow, hnext, htoken, -, -, hwrites⟩
    · rw [hwrites]
      exact ih
    · have hsub : f'.world.writesOf j = f.world.writesOf j ++
          [(who, { jobId := j, event := .submitted })] ++
            [(who, { jobId := j, event := .enqueued })] := by
        rw [hwrites, List.append_assoc]
        rfl
      rw [hsub]
      exact (ih.concat (by simp [EventType.isOutcome])).concat (by simp [EventType.isOutcome])
    · rw [hwrites]
      refine ih.concat fun hout ↦ ?_
      cases a with
      | handle pid ans =>
        obtain ⟨rfl, hc, hget, hcall⟩ := hmade
        exact last_is_own_started (consistent_of_reachable hr) (tokens_of_reachable hr)
          (attributed_of_reachable hr) hget hcall hrow hnext htoken hout
      | replay jobId =>
        obtain ⟨rfl, rfl⟩ := hmade
        exact absurd hout (by simp [Database.replayWrite, EventType.isOutcome])
      | deadLetter jobId streamSeq deliveries =>
        obtain ⟨rfl, rfl⟩ := hmade
        exact absurd hout (by simp [deadLetterWrite, EventType.isOutcome])
      | submit | publish | start | die | tick | vanish => exact hmade.elim

/-- A call records `started` once. -/
theorem Attributed.started_once {f : Fleet} (hf : f.Attributed) {j : Uuid} {pid i k : ℕ}
    {w w' : Write} (hi : (f.world.writesOf j)[i]? = some (.handle pid, w)) (hw : w.event = .started)
    (hk : (f.world.writesOf j)[k]? = some (.handle pid, w')) (hw' : w'.event = .started) :
    i = k := by
  have hmem := (World.mem_writesOf.1 (List.mem_of_getElem? hi)).1
  obtain ⟨hc, hget⟩ := hf.made pid w (World.mem_writesBy.2 hmem)
  have hpast := (hf.wrote pid hc hget).past
  have hpw : (f.world.writesBy pid).Pairwise fun x y ↦
      ¬ (x.event = .started ∧ y.event = .started) := by
    generalize f.world.writesBy pid = ws at hpast
    rcases hpast with _ | ⟨l, -⟩ | ⟨l, x, -, hout⟩
    · exact .nil
    · exact List.pairwise_singleton _ _
    · refine List.pairwise_pair.2 fun hboth ↦ ?_
      have hno := hout.event
      rw [hboth.2] at hno
      exact absurd hno (by decide)
  rw [World.writesBy, List.pairwise_map, List.pairwise_filter] at hpw
  have hpj : (f.world.writesOf j).Pairwise fun x y ↦ x.1 = .handle pid → y.1 = .handle pid →
      ¬ (x.2.event = .started ∧ y.2.event = .started) := by
    refine (hpw.sublist List.filter_sublist).imp fun hxy hx hy ↦ hxy ?_ ?_ <;> simpa
  rw [List.pairwise_iff_getElem] at hpj
  obtain ⟨hilt, hieq⟩ := List.getElem?_eq_some_iff.1 hi
  obtain ⟨hklt, hkeq⟩ := List.getElem?_eq_some_iff.1 hk
  rcases Nat.lt_trichotomy i k with hlt | rfl | hgt
  · exact absurd ⟨by rw [hieq, hw], by rw [hkeq, hw']⟩
      (hpj i k hilt hklt hlt (by rw [hieq]) (by rw [hkeq]))
  · rfl
  · exact absurd ⟨by rw [hkeq, hw'], by rw [hieq, hw]⟩
      (hpj k i hklt hilt hgt (by rw [hkeq]) (by rw [hieq]))

/-- **Fencing attributes every outcome to one execution.** In every run, whatever pauses, expires,
is quarantined or replayed in between: the log of a job is its accepted writes; each outcome among
them was written by one `handle` call for the job, under the token that call drew, and stands right
behind the `started` the same call recorded under the same token; and nothing at all is accepted
between the `started` and the outcome of one call. -/
theorem outcome_follows_own_started {f : Fleet}
    (h : (system cfg).Reachable TransitionSystem.anyStep f) (j : Uuid) :
    f.world.db.log j = (f.world.writesOf j).map (fun x ↦ x.2.event) ∧
    (∀ (i : ℕ) (who : Writer) (w : Write), (f.world.writesOf j)[i]? = some (who, w) →
      w.event = .completed ∨ w.event = .failed ∨ w.event = .requeued →
      ∃ (k pid : ℕ) (hc : HandleCall) (t : ℕ) (w' : Write), i = k + 1 ∧ who = .handle pid ∧
        f.calls[pid]? = some hc ∧ hc.delivery.jobId = j ∧ hc.token = some t ∧
        w.fenceToken = some (t : ℤ) ∧ (f.world.writesOf j)[k]? = some (.handle pid, w') ∧
        w'.event = .started ∧ w'.fenceToken = some (t : ℤ)) ∧
    ∀ (i k pid : ℕ) (w w' : Write), (f.world.writesOf j)[i]? = some (.handle pid, w) →
      w.event = .started → (f.world.writesOf j)[k]? = some (.handle pid, w') →
      w'.event = .completed ∨ w'.event = .failed ∨ w'.event = .requeued → k = i + 1 := by
  have hatt := attributed_of_reachable h
  have hpaired := paired_of_reachable h j
  have hisout : ∀ e : EventType, e = .completed ∨ e = .failed ∨ e = .requeued →
      e.isOutcome = true := by
    rintro e (rfl | rfl | rfl) <;> rfl
  refine ⟨?_, ?_, ?_⟩
  · have hmap := (consistent_of_reachable h).log_eq j
    rw [World.writesOf_ledger, List.map_map] at hmap
    exact hmap
  · intro i who w hi hout
    obtain ⟨k, w', rfl, hk, hev, htok⟩ := hpaired i who w hi (hisout _ hout)
    obtain ⟨hmem, hjob⟩ := World.mem_writesOf.1 (List.mem_of_getElem? hk)
    obtain ⟨pid, rfl⟩ := hatt.writer who w' hmem (.inl hev)
    obtain ⟨hc, t, hget, hd, ht, hfence⟩ := hatt.of_handle hmem
    exact ⟨k, pid, hc, t, w', rfl, rfl, hget, hd.trans hjob, ht, htok ▸ hfence, hk, hev, hfence⟩
  · intro i k pid w w' hi hw hk hout
    obtain ⟨m, w'', rfl, hm, hev, -⟩ := hpaired k (.handle pid) w' hk (hisout _ hout)
    rw [hatt.started_once hi hw hm hev]

/-- A holder pauses past its lease, a successor starts, the holder wakes and its completion is
refused. -/
def takeover : List FleetStep :=
  [.submit ⟨0⟩ "k" (.healthy 10 ten_le_limit) [],
    .start ⟨1, "a", ⟨0⟩, .healthy 10 ten_le_limit, 1⟩,
    .handle 0 .served, .handle 0 .served, .handle 0 .served, .handle 0 .served, .handle 0 .served,
    .tick 20000, .start ⟨1, "b", ⟨0⟩, .healthy 10 ten_le_limit, 2⟩,
    .handle 1 .served, .handle 1 .served, .handle 1 .served, .handle 1 .served, .handle 1 .served,
    .handle 0 (.executed 0 10), .handle 0 .served, .handle 1 (.executed 0 10), .handle 1 .served]

/-- After it, the one completion in the log stands behind the successor's `started`. -/
theorem outcome_follows_own_started_of_takeover : ∃ f : Fleet,
    (system {}).Reachable TransitionSystem.anyStep f ∧
    f.world.db.log ⟨0⟩ = [.submitted, .enqueued, .started, .started, .completed] ∧
    (∃ w : Write, (f.world.writesOf ⟨0⟩)[4]? = some (.handle 1, w) ∧ w.event = .completed) ∧
    ∃ w' : Write, (f.world.writesOf ⟨0⟩)[3]? = some (.handle 1, w') ∧ w'.event = .started ∧
      w'.fenceToken = some 2 := by
  have hrun : ((system {}).exec ⟨.empty, []⟩ takeover).any (fun f ↦
      f.world.db.log ⟨0⟩ = [.submitted, .enqueued, .started, .started, .completed] &&
      (f.world.writesOf ⟨0⟩)[4]?.any fun x ↦
        x.1 = .handle 1 && x.2.event = .completed && x.2.fenceToken = some 2) = true := by
    rfl
  obtain ⟨f, hl, hf⟩ := TransitionSystem.exists_leads_of_exec hrun
  have hr : (system {}).Reachable TransitionSystem.anyStep f := ⟨_, rfl, hl⟩
  obtain ⟨hlog, hf⟩ := Bool.and_eq_true_iff.1 hf
  obtain ⟨⟨who, w⟩, hw, hf⟩ := (Option.any_eq_true _ _).1 hf
  simp only [Bool.and_eq_true, decide_eq_true_eq] at hlog hf
  obtain ⟨⟨rfl, hev⟩, htok⟩ := hf
  obtain ⟨-, hout, -⟩ := outcome_follows_own_started hr ⟨0⟩
  obtain ⟨k, pid, hc, t, w', hk, hpid, -, -, -, htok', hget, hev', hfence⟩ :=
    hout 4 (.handle 1) w hw (.inl hev)
  obtain rfl : k = 3 := Nat.succ.inj hk.symm
  rw [Writer.handle.injEq] at hpid
  subst hpid
  refine ⟨f, hr, hlog, ⟨w, hw, hev⟩, w', hget, hev', ?_⟩
  rw [hfence, ← htok', htok]

end Fleet

end Orbiter
