import Orbiter.Fleet.Alone
import Orbiter.Kv.Noninterference
import Orbiter.Pipeline.Invariants

/-!
# A poison job never runs

`handle` looks at the payload before it asks the store for anything, so the deliveries of a poison
job only give the message back, until the broker gives up on it and the listener quarantines it. An
operator can replay it, and the same happens again. Nothing else ever happens to the job: its log is
a submission and then rounds of quarantine and replay, no token is drawn for it, no entry of the
store is about it, and its row keeps the token and the result it was created with
(`poison_never_runs`).

The argument follows the other possibility: a trace of any other kind takes a call that is for the
job and is not poison.

* `HandlePc.GivesBack` — the control points of a call for a poison payload. Every move keeps to
  them;
* `Worked` — there has been a call for the job that is not poison, which no later step undoes;
* `Untouched` — the log is in rounds, the row as it was created, the keys of the job unset.
  `Untouched.step`: a step that changes any of it is one of a call for the job, so the job is
  `Worked` afterwards;
* `worked_or_untouched` — so in every run it is one of the two. A poison job's calls all have its
  payload, and it is not the first.
-/

namespace Orbiter

open LeaseManager Worker

/-- The log after this many rounds of quarantine and replay. -/
def rounds (n : ℕ) : List EventType :=
  [.submitted, .enqueued] ++ (List.replicate n [.deadLettered, .replayed]).flatten

theorem rounds_succ (n : ℕ) : rounds (n + 1) = rounds n ++ [.deadLettered] ++ [.replayed] := by
  rw [rounds, List.replicate_succ', List.flatten_append, List.flatten_singleton,
    ← List.append_assoc, ← rounds, List.append_assoc (rounds n)]
  rfl

/-! ### The calls -/

/-- A call that gives its message back, or has done so. -/
def HandlePc.GivesBack (pc : HandlePc) : Prop := pc = .nakPoison ∨ ∃ exit, pc = .finished exit

/-- A call for a poison payload only gives its message back. -/
theorem HandlePc.GivesBack.eq_nak {cfg : Settings} {d : Delivery} {pc : HandlePc} {c : WorkerCall}
    (hpc : pc.GivesBack) (h : pc.call cfg d = some c) : c = .nak .poison := by
  rcases hpc with rfl | ⟨exit, rfl⟩
  · exact (Option.some.inj h).symm
  · exact absurd h (by simp [call, view])

theorem Move.givesBack {cfg : Settings} {d : Delivery} {s : World} {pc pc' : HandlePc}
    {c : WorkerCall} {ans : Answer} (hm : Move cfg d s pc c ans pc') (hpc : pc.GivesBack) :
    pc'.GivesBack := by
  rcases hpc with rfl | ⟨exit, rfl⟩
  · cases hm with
    | fault hv applied => exact .inr ⟨_, rfl⟩
    | nakPoison => exact .inr ⟨_, rfl⟩
  · cases hm with
    | fault hv applied => exact absurd hv (by simp [HandlePc.view])

/-- The one counter a call increments is that of its own job. -/
theorem HandlePc.eq_tokenKey_of_call {cfg : Settings} {d : Delivery} {pc : HandlePc} {key : String}
    (h : pc.call cfg d = some (.kv (.incr key))) : key = tokenKey d.jobId.str := by
  cases pc with
  | drawToken =>
    injection h with h; injection h with h; injection h with h
    exact h.symm
  | _ => exact absurd h (by simp [call, view, awaitBare, awaitBody, awaitHandler])

namespace Fleet

variable {cfg : Settings} {f f' : Fleet} {a : FleetStep} {j : Uuid}

/-- **The calls of poison deliveries.** Whatever they are answered, they only give back. -/
theorem givesBack_of_reachable (h : (system cfg).Reachable TransitionSystem.anyStep f) :
    ∀ (pid : ℕ) (hc : HandleCall), f.calls[pid]? = some hc → hc.delivery.payload.poison = true →
      hc.pc.GivesBack := by
  refine h.induct (I := fun f ↦ ∀ (pid : ℕ) (hc : HandleCall), f.calls[pid]? = some hc →
    hc.delivery.payload.poison = true → hc.pc.GivesBack) (fun f hf ↦ ?_) fun f a f' _ ih _ hs ↦ ?_
  · rw [hf]
    exact fun pid hc hget ↦ absurd hget (by simp)
  · intro pid hc' hget hp
    rcases step_call hs hget with ⟨hget₀, -⟩ | ⟨hc, hget₀, -, rfl⟩ | ⟨-, d, -, rfl⟩ |
      ⟨hc, ans, c, pc, -, hget₀, -, hmove, -, rfl⟩
    · exact ih pid hc' hget₀ hp
    · exact ih pid hc hget₀ hp
    · have hstart : HandlePc.start d = .nakPoison := if_pos hp
      exact .inl hstart
    · exact hmove.givesBack (ih pid hc hget₀ hp)

/-- **Where a counter grows**: at the draw of a call of that job. -/
theorem counters_cases (h : f.step cfg a = some f') (key : String) :
    f'.world.kv.counters key = f.world.kv.counters key ∨
    ∃ (pid : ℕ) (hc : HandleCall), f.calls[pid]? = some hc ∧
      hc.call? cfg = some (.kv (.incr key)) := by
  cases a with
  | submit | replay | deadLetter =>
    obtain rfl := Option.some.inj h
    exact .inl (congrArg (fun kv ↦ InMemoryKV.counters kv key) (World.kv_transact ..))
  | handle pid ans =>
    obtain ⟨hc, c, pc, hget, hcall, -, rfl⟩ := stepHandle_eq_some h
    cases c with
    | kv c' =>
      rw [World.kv_serve_kv]
      split
      · cases c' with
        | incr key' =>
          by_cases hkey : key' = key
          · subst hkey
            exact .inr ⟨pid, hc, hget, hcall⟩
          · refine .inl ?_
            rw [KvCall.perform, InMemoryKV.counters_incr, if_neg (Ne.symm hkey)]
        | get key' => exact .inl rfl
        | setIfAbsent key' value ttl =>
          exact .inl (congrFun (InMemoryKV.counters_setIfAbsent ..) key)
        | compareAndDelete key' expected =>
          exact .inl (congrFun (InMemoryKV.counters_compareAndDelete ..) key)
      · exact .inl rfl
    | recordEvent | execute | ack | nak | term =>
      exact .inl (by rw [World.kv_serve _ _ (by simp)])
  | publish | start | die | tick | vanish =>
    obtain rfl := Option.some.inj h
    exact .inl rfl

/-! ### The job -/

/-- Some call that is not poison has been for the job. -/
def Worked (f : Fleet) (j : Uuid) : Prop :=
  ∃ (pid : ℕ) (hc : HandleCall), f.calls[pid]? = some hc ∧ hc.delivery.jobId = j ∧
    hc.delivery.payload.poison = false

theorem Worked.step (hw : f.Worked j) (h : f.step cfg a = some f') : f'.Worked j := by
  obtain ⟨pid, hc, hget, hjob, hp⟩ := hw
  obtain ⟨hc', hget', hd⟩ := step_call_of_some h hget
  exact ⟨pid, hc', hget', by rw [hd, hjob], by rw [hd, hp]⟩

/-- No call has left a trace of the job. -/
structure Untouched (f : Fleet) (j : Uuid) : Prop where
  free : ∀ key ∈ jobKeys j, f.world.kv.live f.world.now key = none
  undrawn : f.world.kv.counters (tokenKey j.str) = 0
  absent : f.world.db.job? j = none → f.world.db.log j = []
  row : ∀ row, f.world.db.job? j = some row → row.fenceToken = 0 ∧ row.result = none
  log : ∀ row, f.world.db.job? j = some row → ∃ n,
    row.state = .queued ∧ f.world.db.log j = rounds n ∨
    row.state = .deadLetter ∧ f.world.db.log j = rounds n ++ [.deadLettered]

/-- Any call of the store or the database about a job is of a call that is for the job and is not
poison. -/
theorem worked_of_call (hr : (system cfg).Reachable TransitionSystem.anyStep f) {pid : ℕ}
    {hc : HandleCall} {c : WorkerCall} (hget : f.calls[pid]? = some hc)
    (hcall : hc.call? cfg = some c) (hc' : c ≠ .nak .poison) (hjob : hc.delivery.jobId = j) :
    f.Worked j := by
  refine ⟨pid, hc, hget, hjob, ?_⟩
  rw [← Bool.not_eq_true]
  intro hp
  have hback := givesBack_of_reachable hr pid hc hget hp
  exact hc' (hback.eq_nak (HandleCall.call?_eq_some.1 hcall).2)

/-- The keys of an untouched job are set by calls for it. -/
theorem Untouched.free_step (hr : (system cfg).Reachable TransitionSystem.anyStep f)
    (hu : f.Untouched j) (h : f.step cfg a = some f') (hw : ¬ f.Worked j) {key : String}
    (hkey : key ∈ jobKeys j) : f'.world.kv.live f'.world.now key = none := by
  cases hl : f'.world.kv.live f'.world.now key with
  | none => rfl
  | some e =>
    rcases live_cases h hl with hold | ⟨pid, ans, hc, value, ttl, -, hget, hcall, -, -, -⟩
    · have hnone := hu.free key hkey
      rw [InMemoryKV.live_of_le (now_le h) hold] at hnone
      contradiction
    · have hown := HandlePc.mem_jobKeys_of_call (HandleCall.call?_eq_some.1 hcall).2
      exact absurd (worked_of_call hr hget hcall (by simp) (eq_of_mem_jobKeys hown hkey)) hw

/-- Its tokens are drawn by calls for it. -/
theorem Untouched.undrawn_step (hr : (system cfg).Reachable TransitionSystem.anyStep f)
    (hu : f.Untouched j) (h : f.step cfg a = some f') (hw : ¬ f.Worked j) :
    f'.world.kv.counters (tokenKey j.str) = 0 := by
  rcases counters_cases h (tokenKey j.str) with hsame | ⟨pid, hc, hget, hcall⟩
  · exact hsame.trans hu.undrawn
  · have hkey := HandlePc.eq_tokenKey_of_call (HandleCall.call?_eq_some.1 hcall).2
    have hjob : hc.delivery.jobId = j := (Uuid.str_inj (tokenKey_inj.1 hkey)).symm
    exact absurd (worked_of_call hr hget hcall (by simp) hjob) hw

/-- **Who writes to a job without a call that is not poison**: the operator and the listener. -/
theorem write_of_makes (hr : (system cfg).Reachable TransitionSystem.anyStep f)
    (hw : ¬ f.Worked j) {who : Writer} {w : Write} (hmade : f.Makes cfg a who w)
    (hid : w.jobId = j) : w = Database.replayWrite j ∨ ∃ seq n, w = deadLetterWrite j seq n := by
  cases a with
  | handle pid ans =>
    obtain ⟨-, hc, hget, hcall⟩ := hmade
    refine absurd (worked_of_call hr hget hcall (by simp) ?_) hw
    obtain ⟨-, l, ⟨-, rfl⟩ | ⟨result, -, rfl⟩ | ⟨message, -, rfl⟩ | ⟨message, -, rfl⟩⟩ :=
      HandleCall.recordEvent_of_call? hcall <;> exact hid
  | replay jobId =>
    obtain ⟨-, rfl⟩ := hmade
    obtain rfl : jobId = j := hid
    exact .inl rfl
  | deadLetter jobId streamSeq deliveries =>
    obtain ⟨-, rfl⟩ := hmade
    obtain rfl : jobId = j := hid
    exact .inr ⟨streamSeq, deliveries, rfl⟩
  | submit | publish | start | die | tick | vanish => exact hmade.elim

/-- **A round goes on**: a queued job is quarantined, and a quarantined one replayed. -/
theorem rounds_of_write {w : Write} {state next : JobState} {n : ℕ} {log : List EventType}
    (hwrite : w = Database.replayWrite j ∨ ∃ seq m, w = deadLetterWrite j seq m)
    (hnext : transitions state w.event = some next)
    (hstate : state = .queued ∧ log = rounds n ∨
      state = .deadLetter ∧ log = rounds n ++ [.deadLettered]) :
    ∃ n, next = .queued ∧ log ++ [w.event] = rounds n ∨
      next = .deadLetter ∧ log ++ [w.event] = rounds n ++ [.deadLettered] := by
  rcases hwrite with rfl | ⟨seq, m, rfl⟩ <;> rcases hstate with ⟨rfl, rfl⟩ | ⟨rfl, rfl⟩
  · exact absurd hnext.symm (Option.some_ne_none next)
  · refine ⟨n + 1, .inl ⟨(Option.some.inj hnext).symm, ?_⟩⟩
    rw [rounds_succ]
    rfl
  · exact ⟨n, .inr ⟨(Option.some.inj hnext).symm, rfl⟩⟩
  · exact absurd hnext.symm (Option.some_ne_none next)

/-- **One step**: the job stays untouched, or a call that is not poison has been for it. -/
theorem Untouched.step (hr : (system cfg).Reachable TransitionSystem.anyStep f)
    (hu : f.Untouched j) (h : f.step cfg a = some f') : f.Worked j ∨ f'.Untouched j := by
  by_cases hw : f.Worked j
  · exact .inl hw
  have hfree : ∀ key ∈ jobKeys j, f'.world.kv.live f'.world.now key = none :=
    fun key hkey ↦ hu.free_step hr h hw hkey
  have hundrawn := hu.undrawn_step hr h hw
  refine .inr ?_
  rcases jobStep h j with ⟨hjob, hrows, -⟩ | ⟨who, key, payload, id, id', habs, hjob, hrows, -⟩ |
    ⟨who, w, row₀, next, id, hmade, hid, hrow, hnext, -, hjob, hrows, -⟩
  · have hlog : f'.world.db.log j = f.world.db.log j := by rw [Database.log, hrows, Database.log]
    refine ⟨hfree, hundrawn, fun habs ↦ ?_, fun row hj ↦ ?_, fun row hj ↦ ?_⟩
    · exact hlog.trans (hu.absent (hjob.symm.trans habs))
    · exact hu.row row (hjob.symm.trans hj)
    · rw [hlog]
      exact hu.log row (hjob.symm.trans hj)
  · have hlog : f'.world.db.log j = rounds 0 := by
      rw [Database.log, hrows, List.map_append, ← Database.log, hu.absent habs]
      rfl
    refine ⟨hfree, hundrawn, fun habs' ↦ absurd (hjob.symm.trans habs') (by simp), fun row hj ↦ ?_,
      fun row hj ↦ ⟨0, ?_⟩⟩
    · obtain rfl := Option.some.inj (hjob.symm.trans hj)
      exact ⟨rfl, rfl⟩
    · obtain rfl := Option.some.inj (hjob.symm.trans hj)
      exact .inl ⟨rfl, hlog⟩
  · have hlog : f'.world.db.log j = f.world.db.log j ++ [w.event] := by
      rw [Database.log, hrows, List.map_append]
      rfl
    have hwrite := write_of_makes hr hw hmade hid
    obtain ⟨n, hstate⟩ := hu.log row₀ hrow
    refine ⟨hfree, hundrawn, fun habs' ↦ absurd (hjob.symm.trans habs') (by simp), fun row hj ↦ ?_,
      fun row hj ↦ ?_⟩
    · obtain rfl := Option.some.inj (hjob.symm.trans hj)
      rcases hwrite with rfl | ⟨seq, n, rfl⟩ <;> exact hu.row row₀ hrow
    · obtain rfl := Option.some.inj (hjob.symm.trans hj)
      rw [hlog]
      exact rounds_of_write hwrite hnext hstate

/-- **Every run**: some call that is not poison has been for the job, or it is untouched. -/
theorem worked_or_untouched (h : (system cfg).Reachable TransitionSystem.anyStep f) (j : Uuid) :
    f.Worked j ∨ f.Untouched j := by
  refine h.induct (I := fun f ↦ f.Worked j ∨ f.Untouched j) (fun f hf ↦ ?_)
    fun f a f' hr ih _ hs ↦ ?_
  · rw [hf]
    exact .inr ⟨fun key _ ↦ rfl, rfl, fun _ ↦ rfl, fun row hj ↦ absurd hj (by simp [World.empty]),
      fun row hj ↦ absurd hj (by simp [World.empty])⟩
  · rcases ih with hw | hu
    · exact .inl (hw.step hs)
    · exact (hu.step hr hs).imp_left fun hw ↦ hw.step hs

end Fleet

namespace Pipeline

variable {cfg : Settings} {G : Pipeline → PipelineStep → Prop} {p : Pipeline} {j : Uuid}

/-- **A poison job never runs.** In every run its log is a submission and rounds of quarantine and
replay; its calls give their messages back and do nothing else; no token was drawn for it, nothing
in the store is about it, and its row has no token and no result. -/
theorem poison_never_runs (h : (system cfg).Reachable G p) {row : JobRow SubmitRequest}
    (hj : p.fleet.world.db.job? j = some row) (hp : row.payload.poison = true) :
    (∃ n, row.state = .queued ∧ p.fleet.world.db.log j = rounds n ∨
      row.state = .deadLetter ∧ p.fleet.world.db.log j = rounds n ++ [.deadLettered]) ∧
    row.fenceToken = 0 ∧ row.result = none ∧
    (∀ key ∈ jobKeys j, p.fleet.world.kv.live p.fleet.world.now key = none) ∧
    p.fleet.world.kv.counters (tokenKey j.str) = 0 ∧
    ∀ (pid : ℕ) (hc : HandleCall), p.fleet.calls[pid]? = some hc → hc.delivery.jobId = j →
      hc.pc.GivesBack := by
  -- Every delivery of the job carries the payload of the row.
  have hpoison : ∀ (pid : ℕ) (hc : HandleCall), p.fleet.calls[pid]? = some hc →
      hc.delivery.jobId = j → hc.delivery.payload.poison = true := by
    intro pid hc hget hjob
    obtain ⟨m, hm, hmj, hpay, -⟩ := delivered_of_reachable h pid hc hget
    obtain ⟨row', hrow', hpay'⟩ := job_of_msg h hm
    rw [← hmj, hjob, hj, Option.some.injEq] at hrow'
    rw [hpay, ← hpay', ← hrow', hp]
  have hf := fleet_reachable h
  have hu : p.fleet.Untouched j := by
    refine (Fleet.worked_or_untouched hf j).resolve_left ?_
    rintro ⟨pid, hc, hget, hjob, hno⟩
    exact absurd ((hpoison pid hc hget hjob).symm.trans hno) (by simp)
  exact ⟨hu.log row hj, (hu.row row hj).1, (hu.row row hj).2, hu.free, hu.undrawn,
    fun pid hc hget hjob ↦ Fleet.givesBack_of_reachable hf pid hc hget (hpoison pid hc hget hjob)⟩

/-- Delivered to its limit, quarantined and replayed. -/
def replaysPoison : List PipelineStep :=
  exhaustsPoison ++ [.fetch 0, .quarantine 0 .served true, .quarantine 0 .served true,
    .quarantine 0 .served true, .quarantine 0 .served true, .quarantine 0 .served true, .replay ⟨0⟩]

/-- A poison job is given back to its limit, quarantined, replayed, and given back again. -/
theorem poison_never_runs_of_replayed : ∃ p : Pipeline,
    (system {}).Reachable TransitionSystem.anyStep p ∧ p.fleet.calls.length = 5 ∧
    (∃ n, p.fleet.world.db.log ⟨0⟩ = rounds n) ∧
    p.fleet.world.kv.counters (tokenKey (⟨0⟩ : Uuid).str) = 0 := by
  have hrun : ((system {}).exec empty replaysPoison).any (fun p ↦ p.fleet.calls.length = 5 &&
      (p.fleet.world.db.job? ⟨0⟩).any fun row ↦
        row.payload.poison && decide (row.state = .queued)) = true := by
    rfl
  obtain ⟨p, hl, hp⟩ := TransitionSystem.exists_leads_of_exec hrun
  obtain ⟨hlen, hp⟩ := Bool.and_eq_true_iff.1 hp
  obtain ⟨row, hrow, hp⟩ := (Option.any_eq_true _ _).1 hp
  obtain ⟨hpoison, hqueued⟩ := Bool.and_eq_true_iff.1 hp
  have hr : (system {}).Reachable TransitionSystem.anyStep p := ⟨_, rfl, hl⟩
  obtain ⟨⟨n, hlog⟩, -, -, -, hundrawn, -⟩ := poison_never_runs hr hrow hpoison
  refine ⟨p, hr, of_decide_eq_true hlen, ⟨n, ?_⟩, hundrawn⟩
  rcases hlog with ⟨-, hlog⟩ | ⟨hs, -⟩
  · exact hlog
  · rw [of_decide_eq_true hqueued] at hs
    contradiction

end Pipeline

end Orbiter
