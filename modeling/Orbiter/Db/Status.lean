import Orbiter.Db.Serializable

/-!
# The status of a job

`get_job` runs two `SELECT` statements outside any transaction: one reads the row of `jobs`, the
other the job's events. Each sees what is committed when it runs, so an answer is made from two
states of the database, the second one reached from the first by whatever commits in between.

## Main results

* `projects_of_committed` — in each state by itself, whatever transactions are open, the row is the
  projection of the committed events. The proof goes through the serial run: a consistent ledger has
  the same contents;
* `grows_of_leads` — events once committed stay at the head of the log, so the answer's events are
  those of the first state followed by what was committed since (`eventRows_eq_append`);
* `coherent_iff_leadsBack` — **when an answer agrees with itself.** It is `Coherent` when its state
  is the replay of its events and its attempts are their largest attempt, and it is so exactly when
  what commits between the two statements leads back to the row that was read.

The two witnesses are a job that is given back and started again between the statements, which
nobody can tell, and one that is started between them: the answer says `queued` and shows the
`started` event.
-/

namespace Orbiter

variable {π : Type}

/-- An entry of `events`. -/
structure EventView where
  event : EventType
  attempt : ℤ
  detail : Json
  at' : ℕ

/-- What `get_job` returns for a job. -/
structure JobView (π : Type) where
  id : String
  state : JobState
  payload : π
  attempts : ℤ
  /-- Null as long as there is none. -/
  result : Json
  createdAt : ℕ
  updatedAt : ℕ
  events : List EventView

/-- An event as it is shown. -/
def EventRow.view (e : EventRow) : EventView := ⟨e.event, e.attempt, e.detail, e.at'⟩

/-- `get_job`, whose first statement sees `first` and whose second sees `second`. -/
def getJob (first second : Database π) (jobId : Uuid) : Option (JobView π) :=
  match first.job? jobId with
  | none => none
  | some row => some
    { id := jobId.str
      state := row.state
      payload := row.payload
      attempts := row.attempts
      result := row.result.getD .null
      createdAt := row.createdAt
      updatedAt := row.updatedAt
      events := (second.eventRows jobId).map fun e ↦ e.2.view }

/-- **The answer agrees with itself**: its state and attempts are what its events amount to. -/
structure JobView.Coherent (v : JobView π) : Prop where
  state : replay (v.events.map EventView.event) = .ok v.state
  attempts : IsGreatest {a | ∃ e ∈ v.events, e.attempt = a} v.attempts

/-- The events of a job that are committed in `second` and were not in `first`. -/
def committedSince (first second : Database π) (j : Uuid) : List EventRow :=
  ((second.eventRows j).map Prod.snd).drop (first.eventRows j).length

/-- What commits in between leads back to the row that was read: the last of the new events, if
there are any, leads to its state, and none of them has an attempt larger than its attempts. -/
def LeadsBack (first second : Database π) (j : Uuid) : Prop :=
  ∀ row, first.job? j = some row →
    (∀ e, (committedSince first second j).getLast? = some e → e.event.target = row.state) ∧
      ∀ e ∈ committedSince first second j, e.attempt ≤ row.attempts

/-! ### The projection -/

theorem exists_mem_map_iff {α β : Type*} {f : α → β} {l : List α} {p : β → Prop} :
    (∃ b ∈ l.map f, p b) ↔ ∃ a ∈ l, p (f a) := by
  constructor
  · rintro ⟨b, hb, hp⟩
    obtain ⟨a, ha, rfl⟩ := List.mem_map.1 hb
    exact ⟨a, ha, hp⟩
  · rintro ⟨a, ha, hp⟩
    exact ⟨f a, List.mem_map_of_mem ha, hp⟩

/-- A serial run is a run of the ledger. -/
theorem Ledger.exists_consistent {l : List (SerialEntry π)} {db : Database π}
    (h : SerialRun serialExec .empty l db) : ∃ history, (⟨db, history⟩ : Ledger π).Consistent := by
  refine h.invariant (P := fun _ db ↦ ∃ history, (⟨db, history⟩ : Ledger π).Consistent)
    (fun _ db₀ i r db₁ ih hexec ↦ ?_) (fun _ _ _ _ ih _ ↦ ih) [] ⟨[], .empty⟩
  obtain ⟨history, hc⟩ := ih
  rw [serialExec] at hexec
  cases hx : i.2.exec db₀ i.1 with
  | error e =>
    rw [hx] at hexec
    contradiction
  | ok p =>
    rw [hx] at hexec
    obtain ⟨-, rfl⟩ := Prod.mk.inj (Except.ok.inj hexec)
    have hstep : Ledger.step ⟨db₀, history⟩ i = some ⟨p.2, history ++ i.2.writes p.1⟩ := by
      rw [Ledger.step, hx]
    exact ⟨_, hc.step hstep⟩

namespace Server

variable {G : Server π → ServerStep π → Prop} {s s' s₁ s₂ : Server π} {j : Uuid} {row : JobRow π}

/-- The committed row of a job is the projection of its committed events. -/
structure Projects (s : Server π) (j : Uuid) (row : JobRow π) : Prop where
  state : replay (s.db.log j) = .ok row.state
  attempts : IsGreatest {a | ∃ e ∈ (s.db.eventRows j).map Prod.snd, e.attempt = a} row.attempts

/-- **In one state there is no contradiction**, whatever transactions are open. -/
theorem projects_of_committed (h : system.Reachable G s) (hj : s.db.job? j = some row) :
    s.Projects j row := by
  obtain ⟨order, hl⟩ := linearized_of_reachable h
  obtain ⟨db₀, hrun, hag⟩ := hl.run
  obtain ⟨history, hc⟩ := Ledger.exists_consistent hrun
  have hp := hc.projects j row ((hag.job? j).trans hj)
  have hlog : db₀.log j = s.db.log j := by
    have h := congrArg (List.map EventRow.event) (hag.eventRows j)
    rwa [List.map_map, List.map_map] at h
  refine ⟨hlog ▸ hp.state, ?_⟩
  have hset : {a | ∃ e ∈ (s.db.eventRows j).map Prod.snd, e.attempt = a} =
      {a | ∃ e ∈ db₀.eventRows j, e.2.attempt = a} := by
    rw [← hag.eventRows j]
    exact Set.ext fun a ↦ exists_mem_map_iff
  rw [hset]
  exact hp.attempts

/-- **One step**: a job that is there stays, with the events that are committed at the head of its
log. -/
theorem grows_step {a : ServerStep π} (hs : s.Isolated) (h : s.step a = some s') (j : Uuid) :
    (s.db.job? j ≠ none → s'.db.job? j ≠ none) ∧
      (s.db.eventRows j).map Prod.snd <+: (s'.db.eventRows j).map Prod.snd := by
  have hsame (hag : s.db.Agree s'.db) : (s.db.job? j ≠ none → s'.db.job? j ≠ none) ∧
      (s.db.eventRows j).map Prod.snd <+: (s'.db.eventRows j).map Prod.snd := by
    rw [hag.job?, hag.eventRows]
    exact ⟨id, List.prefix_rfl⟩
  rcases step_cases h with ⟨now, c, rfl⟩ | ⟨tid, tx, tx', ev, out, hx, hran, hto⟩ |
    ⟨tid, tx, r, hx, -, rfl⟩ | ⟨tid, tx, status, hx, rfl, hend⟩
  · exact hsame (agree_begin now c)
  · exact hsame (hto.agree hx (hran.status.trans (active?_eq_some.1 hx).2))
  · refine ⟨fun hj ↦ ?_, ?_⟩
    · obtain ⟨row, hrow⟩ := Option.ne_none_iff_exists'.1 hj
      obtain ⟨row', hrow', -⟩ := hs.kept_commit hx hrow
      rw [hrow']
      exact Option.some_ne_none row'
    · rw [(hs.adds_commit hx).eventRows j]
      exact List.prefix_append _ _
  · refine hsame (agree_ended hx ?_)
    rcases hend with ⟨rfl, -⟩ | rfl <;> decide

/-- **Every run.** -/
theorem grows_of_leads (h : system.Reachable G s₁) (hl : system.Leads G s₁ s₂) (j : Uuid) :
    (s₁.db.job? j ≠ none → s₂.db.job? j ≠ none) ∧
      (s₁.db.eventRows j).map Prod.snd <+: (s₂.db.eventRows j).map Prod.snd := by
  refine hl.stable (P := fun s ↦ (s₁.db.job? j ≠ none → s.db.job? j ≠ none) ∧
    (s₁.db.eventRows j).map Prod.snd <+: (s.db.eventRows j).map Prod.snd)
    (fun s a s' hr ⟨hjob, hpre⟩ _ hstep ↦ ?_) h ⟨id, List.prefix_rfl⟩
  obtain ⟨hjob', hpre'⟩ := grows_step (isolated_of_reachable hr) hstep j
  exact ⟨fun hj ↦ hjob' (hjob hj), hpre.trans hpre'⟩

theorem log_eq_map (db : Database π) (j : Uuid) :
    db.log j = ((db.eventRows j).map Prod.snd).map EventRow.event := by
  rw [List.map_map]
  rfl

/-- The events at the second statement are those at the first, then what was committed since. -/
theorem eventRows_eq_append (h : system.Reachable G s₁) (hl : system.Leads G s₁ s₂) (j : Uuid) :
    (s₂.db.eventRows j).map Prod.snd =
      (s₁.db.eventRows j).map Prod.snd ++ committedSince s₁.db s₂.db j := by
  obtain ⟨new, hnew⟩ := (grows_of_leads h hl j).2
  have hsince : committedSince s₁.db s₂.db j = new := by
    rw [committedSince, ← hnew]
    exact List.drop_left' (List.length_map ..)
  rw [hsince, hnew]

/-! ### The answer -/

variable {v : JobView π} {l new : List EventRow}

theorem getJob_eq_some {first second : Database π} (hv : getJob first second j = some v) :
    ∃ row, first.job? j = some row ∧ v.state = row.state ∧ v.attempts = row.attempts ∧
      v.events = ((second.eventRows j).map Prod.snd).map EventRow.view := by
  rw [getJob] at hv
  split at hv
  · exact nomatch hv
  · next row hrow =>
    obtain rfl := Option.some.inj hv
    exact ⟨row, hrow, rfl, rfl, (List.map_map (g := EventRow.view) (f := Prod.snd)).symm⟩

/-- **An answer is coherent exactly when the second statement could have read the same state and
attempts.** -/
theorem coherent_iff_same_row (h : system.Reachable G s₂) (hv : getJob s₁.db s₂.db j = some v)
    (hrow : s₂.db.job? j = some row) :
    v.Coherent ↔ v.state = row.state ∧ v.attempts = row.attempts := by
  obtain ⟨row₁, -, -, -, hevents⟩ := getJob_eq_some hv
  obtain ⟨hstate, hattempts⟩ := projects_of_committed h hrow
  have hlog : v.events.map EventView.event = s₂.db.log j := by
    rw [hevents, List.map_map, log_eq_map]
    rfl
  have hset : {a | ∃ e ∈ v.events, e.attempt = a} =
      {a | ∃ e ∈ (s₂.db.eventRows j).map Prod.snd, e.attempt = a} := by
    rw [hevents]
    exact Set.ext fun a ↦ exists_mem_map_iff
  constructor
  · rintro ⟨hs, ha⟩
    rw [hlog, hstate] at hs
    rw [hset] at ha
    exact ⟨(Except.ok.inj hs).symm, ha.unique hattempts⟩
  · rintro ⟨hs, ha⟩
    refine ⟨?_, ?_⟩
    · rw [hlog, hs, hstate]
    · rw [hset, ha]
      exact hattempts

/-- The state after more events is that of the last one. -/
theorem state_eq_iff {state state' : JobState}
    (h : replay (l.map EventRow.event) = .ok state)
    (h' : replay ((l ++ new).map EventRow.event) = .ok state') :
    state = state' ↔ ∀ e, new.getLast? = some e → e.event.target = state := by
  rcases List.eq_nil_or_concat new with rfl | ⟨pre, e, rfl⟩
  · rw [List.append_nil, h] at h'
    simp [Except.ok.inj h']
  · rw [List.concat_eq_append] at h' ⊢
    obtain ⟨e', he', rfl⟩ := getLast?_of_replay h'
    rw [List.getLast?_map, ← List.append_assoc, List.getLast?_concat] at he'
    obtain rfl := Option.some.inj he'
    simp [eq_comm]

/-- The largest attempt stays the same when nothing new exceeds it. -/
theorem attempts_eq_iff {n n' : ℤ}
    (h : IsGreatest {a | ∃ e ∈ l, e.attempt = a} n)
    (h' : IsGreatest {a | ∃ e ∈ l ++ new, e.attempt = a} n') :
    n = n' ↔ ∀ e ∈ new, e.attempt ≤ n := by
  constructor
  · rintro rfl e he
    exact h'.2 ⟨e, List.mem_append_right l he, rfl⟩
  · intro hle
    refine le_antisymm ?_ ?_
    · obtain ⟨e, he, rfl⟩ := h.1
      exact h'.2 ⟨e, List.mem_append_left new he, rfl⟩
    · obtain ⟨e, he, rfl⟩ := h'.1
      rcases List.mem_append.1 he with he | he
      · exact h.2 ⟨e, he, rfl⟩
      · exact hle e he

/-- **When the answer agrees with itself.** In every state and whatever commits between the two
statements: exactly when that leads back to the row that was read. -/
theorem coherent_iff_leadsBack (h : system.Reachable TransitionSystem.anyStep s₁)
    (hl : system.Leads TransitionSystem.anyStep s₁ s₂) (hv : getJob s₁.db s₂.db j = some v) :
    v.Coherent ↔ LeadsBack s₁.db s₂.db j := by
  obtain ⟨row₁, hrow₁, hstate, hattempts, -⟩ := getJob_eq_some hv
  have hne : s₁.db.job? j ≠ none := by
    rw [hrow₁]
    exact Option.some_ne_none row₁
  obtain ⟨row₂, hrow₂⟩ := Option.ne_none_iff_exists'.1 ((grows_of_leads h hl j).1 hne)
  obtain ⟨hreplay₁, hmax₁⟩ := projects_of_committed h hrow₁
  obtain ⟨hreplay₂, hmax₂⟩ := projects_of_committed (h.leads hl) hrow₂
  rw [log_eq_map] at hreplay₁ hreplay₂
  rw [eventRows_eq_append h hl j] at hreplay₂ hmax₂
  rw [coherent_iff_same_row (h.leads hl) hv hrow₂, hstate, hattempts,
    state_eq_iff hreplay₁ hreplay₂, attempts_eq_iff hmax₁ hmax₂]
  constructor
  · intro hback row hrow
    obtain rfl := Option.some.inj (hrow₁.symm.trans hrow)
    exact hback
  · intro hback
    exact hback row₁ hrow₁

/-- Transaction `tid` records an event and commits. -/
def records (tid : ℕ) (event : EventType) : List (ServerStep Unit) :=
  [.begin tid (.recordEvent { jobId := ⟨0⟩, event, attempt := 1 }), .run tid, .run tid, .run tid,
    .finish tid]

/-- A job is submitted. -/
def submits : List (ServerStep Unit) :=
  [.begin 0 (.submitJob ⟨0⟩ "k" () "orbiter.jobs" []), .run 0, .run 0, .run 0, .run 0, .finish 0]

/-- The job is given back and started again between the two statements. -/
theorem coherent_of_restarted : ∃ (s₁ s₂ : Server Unit) (v : JobView Unit),
    system.Reachable TransitionSystem.anyStep s₁ ∧ system.Leads TransitionSystem.anyStep s₁ s₂ ∧
      getJob s₁.db s₂.db ⟨0⟩ = some v ∧ v.events.length = 5 ∧ v.Coherent := by
  have hrun : (system.exec empty (submits ++ records 1 .started)).any (fun s₁ : Server Unit ↦
      (system.exec s₁ (records 2 .requeued ++ records 3 .started)).any fun s₂ ↦
        (s₁.db.job? ⟨0⟩).all (fun row ↦
          (committedSince s₁.db s₂.db ⟨0⟩).getLast?.all (fun e ↦ e.event.target = row.state) &&
          (committedSince s₁.db s₂.db ⟨0⟩).all fun e ↦ e.attempt ≤ row.attempts) &&
        (getJob s₁.db s₂.db ⟨0⟩).any fun v ↦ v.events.length = 5) = true := by
    rfl
  obtain ⟨s₁, hl₁, hrun⟩ := TransitionSystem.exists_leads_of_exec hrun
  obtain ⟨s₂, hl₂, htest⟩ := TransitionSystem.exists_leads_of_exec hrun
  obtain ⟨hrow, hview⟩ := Bool.and_eq_true_iff.1 htest
  obtain ⟨v, hv, hlen⟩ := (Option.any_eq_true _ _).1 hview
  have hback : LeadsBack s₁.db s₂.db ⟨0⟩ := by
    intro row hj
    obtain ⟨hlast, hall⟩ := Bool.and_eq_true_iff.1 ((Option.all_eq_true _ _).1 hrow row hj)
    exact ⟨fun e he ↦ of_decide_eq_true ((Option.all_eq_true _ _).1 hlast e he),
      fun e he ↦ of_decide_eq_true (List.all_eq_true.1 hall e he)⟩
  exact ⟨s₁, s₂, v, ⟨_, rfl, hl₁⟩, hl₂, hv, of_decide_eq_true hlen,
    (coherent_iff_leadsBack ⟨_, rfl, hl₁⟩ hl₂ hv).2 hback⟩

/-- **Two statements, two states.** The job is started between them: the answer says that it is
queued, and its events say that it is running. -/
theorem incoherent_of_started_between : ¬ ∀ (s₁ s₂ : Server Unit) (j : Uuid) (v : JobView Unit),
    system.Reachable TransitionSystem.anyStep s₁ → system.Leads TransitionSystem.anyStep s₁ s₂ →
      getJob s₁.db s₂.db j = some v → v.Coherent := by
  intro hall
  have hrun : (system.exec empty submits).any (fun s₁ : Server Unit ↦
      (system.exec s₁ (records 1 .started)).any fun s₂ ↦ (getJob s₁.db s₂.db ⟨0⟩).any fun v ↦
        decide (v.state = .queued) &&
        decide (replay (v.events.map EventView.event) = .ok .running)) = true := by
    rfl
  obtain ⟨s₁, hl₁, hrun⟩ := TransitionSystem.exists_leads_of_exec hrun
  obtain ⟨s₂, hl₂, hview⟩ := TransitionSystem.exists_leads_of_exec hrun
  obtain ⟨v, hv, htest⟩ := (Option.any_eq_true _ _).1 hview
  obtain ⟨hqueued, hrunning⟩ := Bool.and_eq_true_iff.1 htest
  have hstate := (hall s₁ s₂ ⟨0⟩ v ⟨_, rfl, hl₁⟩ hl₂ hv).state
  rw [of_decide_eq_true hrunning, of_decide_eq_true hqueued] at hstate
  exact nomatch hstate

end Server

end Orbiter
