import Orbiter.Db.Submissions
import Orbiter.Db.Status

/-!
# Polling the status

An answer of `get_job` need not agree with itself, since its two statements see two states of the
database. But it is never wrong about what it shows. Two results say what a client may rely on,
whatever is interleaved with its calls.

* `answer_of_prefix` — state, attempts and dates of an answer are those of some first part of its
  events: the part that was committed when its first statement ran.
* `polls_grow` — a later answer goes on from an earlier one: same job, same payload, same creation
  date, no fewer attempts, and the earlier events at the head of its own. Once an answer shows a
  terminal state, all later ones are equal to it.

## What they rest on

* `commits_call` — one step of the server is one call of the repository, or nothing, as far as the
  committed contents go. So what is wanted of every step is shown of every call;
* `JobRow.Grows` — what one call makes of one row: the payload and the creation date stay, the
  attempts do not decrease, and a terminal row is not changed. It is a preorder, so it carries over
  to runs (`row_of_leads`);
* `Database.Dated` — the dates of a row are those of its first and its last event, which is an
  invariant of the calls and of the server by the same step.

The sequence of polls is one run with two states of it for each answer, four in all.
-/

namespace Orbiter

variable {π : Type}

/-- What no later call takes back of a row. -/
structure JobRow.Grows (row row' : JobRow π) : Prop where
  payload : row'.payload = row.payload
  createdAt : row'.createdAt = row.createdAt
  attempts : row.attempts ≤ row'.attempts
  final : row.state.isTerminal = true → row' = row

theorem JobRow.Grows.refl (row : JobRow π) : row.Grows row := ⟨rfl, rfl, le_rfl, fun _ ↦ rfl⟩

theorem JobRow.Grows.trans {row row' row'' : JobRow π} (h : row.Grows row')
    (h' : row'.Grows row'') : row.Grows row'' where
  payload := h'.payload.trans h.payload
  createdAt := h'.createdAt.trans h.createdAt
  attempts := h.attempts.trans h'.attempts
  final ht := by
    have hrow := h.final ht
    rw [← hrow] at ht
    exact (h'.final ht).trans hrow

/-- A write that is accepted meets no terminal state. -/
theorem JobRow.grows_acceptRow {row : JobRow π} {w : Write} {now : ℕ} {next : JobState}
    (h : transitions row.state w.event = some next) :
    row.Grows (Database.acceptRow row now w next) where
  payload := rfl
  createdAt := rfl
  attempts := le_max_left ..
  final ht := absurd h (by simp [ht])

namespace Database

/-- The events of a job, in the order of their ids. -/
def events (db : Database π) (j : Uuid) : List EventRow := (db.eventRows j).map Prod.snd

/-- Every job was created with its first event and last updated with its last one. -/
structure Dated (db : Database π) : Prop where
  created : ∀ j row, db.job? j = some row →
    (db.events j).head?.map EventRow.at' = some row.createdAt
  updated : ∀ j row, db.job? j = some row →
    (db.events j).getLast?.map EventRow.at' = some row.updatedAt

section OneWrite

variable {db db' : Database π} {w : Write} {row : JobRow π} {now : ℕ} {next : JobState}
  {out : List (OutboxRow π)}

/-- A write adds its event at the end of its job's. -/
theorem Adds.events_of_eq
    (h : db.Adds db' (some (w.jobId, acceptRow row now w next)) [w.eventRow now] out) :
    db'.events w.jobId = db.events w.jobId ++ [w.eventRow now] := by
  have hown : (w.eventRow now).jobId = w.jobId := rfl
  rw [events, h.eventRows, List.filter_cons_of_pos (by simpa using hown), List.filter_nil]
  rfl

theorem Adds.events_of_ne
    (h : db.Adds db' (some (w.jobId, acceptRow row now w next)) [w.eventRow now] out) {j : Uuid}
    (hj : j ≠ w.jobId) : db'.events j = db.events j := by
  have hother : (w.eventRow now).jobId ≠ j := hj.symm
  rw [events, h.eventRows, List.filter_cons_of_neg (by simpa using hother), List.filter_nil,
    List.append_nil]
  rfl

end OneWrite

/-! ### One call -/

/-- **What one call makes of a row.** It stays and grows, and so do its events; in a terminal state
there are no new ones. -/
theorem grows_of_exec {db db' : Database π} {i : ℕ × RepoCall π} {r : SqlResult}
    (h : serialExec db i = .ok (r, db')) {j : Uuid} {row : JobRow π} (hj : db.job? j = some row) :
    ∃ row', db'.job? j = some row' ∧ row.Grows row' ∧
      (row.state.isTerminal = true → db'.events j = db.events j) := by
  obtain ⟨now, c⟩ := i
  have hsame : ∃ row', db.job? j = some row' ∧ row.Grows row' ∧
      (row.state.isTerminal = true → db.events j = db.events j) :=
    ⟨row, hj, .refl row, fun _ ↦ rfl⟩
  rcases serialExec_cases h with ⟨a, j', rfl, rfl, hk, rfl⟩ | ⟨a, rfl, rfl, hk, hid, rfl⟩ |
    ⟨hc, rfl⟩ | ⟨hc, w, row₀, next, out, hrow, hnext, hadds, hout⟩
  · exact hsame
  · -- The new job is another one.
    have hne : j ≠ a.jobId := by
      rintro rfl
      exact absurd (hid.symm.trans hj) (by simp)
    have hadds := adds_create db now a.jobId a.idempotencyKey a.payload a.subject a.carrier
    refine ⟨row, (hadds.job?_ne hne).trans hj, .refl row, fun _ ↦ ?_⟩
    exact (hadds.rows_of_ne (by simp) (by simp) hne).1
  · exact hsame
  · by_cases hjob : j = w.jobId
    · subst hjob
      obtain rfl := Option.some.inj (hrow.symm.trans hj)
      exact ⟨_, hadds.job?_self, JobRow.grows_acceptRow hnext,
        fun ht ↦ absurd hnext (by simp [ht])⟩
    · exact ⟨row, (hadds.job?_ne hjob).trans hj, .refl row, fun _ ↦ hadds.events_of_ne hjob⟩

/-- **And of its dates.** A new job has the date of its transaction in all places; a write sets the
date of the row and of the event alike. -/
theorem Dated.exec {db db' : Database π} (hd : db.Dated)
    (habs : ∀ j, db.job? j = none → db.eventRows j = [] ∧ db.outboxRows j = [])
    {i : ℕ × RepoCall π} {r : SqlResult} (h : serialExec db i = .ok (r, db')) : db'.Dated := by
  obtain ⟨now, c⟩ := i
  rcases serialExec_cases h with ⟨a, j', rfl, rfl, hk, rfl⟩ | ⟨a, rfl, rfl, hk, hid, rfl⟩ |
    ⟨hc, rfl⟩ | ⟨hc, w, row₀, next, out, hrow, hnext, hadds, hout⟩
  · exact hd
  · have hadds := adds_create db now a.jobId a.idempotencyKey a.payload a.subject a.carrier
    have hevents :
        (db.create now a.jobId a.idempotencyKey a.payload a.subject a.carrier).events a.jobId =
          [⟨a.jobId, .submitted, 0, .obj [], now⟩, ⟨a.jobId, .enqueued, 0, .obj [], now⟩] := by
      rw [events, hadds.eventRows, (habs a.jobId hid).1]
      simp
    have hother : ∀ j, j ≠ a.jobId →
        (db.create now a.jobId a.idempotencyKey a.payload a.subject a.carrier).events j =
          db.events j := fun j hj ↦
      (hadds.rows_of_ne (by simp) (by simp) hj).1
    constructor
    all_goals
      intro j row hj
      rcases hadds.job?_cases hj with ⟨hne, hold⟩ | ⟨rfl, rfl⟩
    · rw [hother j hne]
      exact hd.created j row hold
    · rw [hevents]
      rfl
    · rw [hother j hne]
      exact hd.updated j row hold
    · rw [hevents]
      rfl
  · exact hd
  · constructor
    all_goals
      intro j row hj
      rcases hadds.job?_cases hj with ⟨hne, hold⟩ | ⟨rfl, rfl⟩
    · rw [hadds.events_of_ne hne]
      exact hd.created j row hold
    · -- The first event is the one it was.
      rw [hadds.events_of_eq, List.head?_append_of_ne_nil]
      · exact hd.created _ row₀ hrow
      · intro hnil
        have hfirst := hd.created _ row₀ hrow
        rw [hnil] at hfirst
        exact absurd hfirst (by simp)
    · rw [hadds.events_of_ne hne]
      exact hd.updated j row hold
    · rw [hadds.events_of_eq, List.getLast?_concat]
      rfl

end Database

namespace Server

variable {G : Server π → ServerStep π → Prop} {s s' s₁ s₂ s₃ s₄ : Server π} {j : Uuid}
  {row : JobRow π} {v : JobView π}

/-! ### One step -/

/-- **A step of the server is one call, or nothing**, to whoever reads what is committed. -/
theorem commits_call {a : ServerStep π} (hs : s.Isolated) (h : s.step a = some s') :
    s.db.Agree s'.db ∨
    ∃ i r db₁, serialExec s.db i = .ok (r, db₁) ∧ db₁.Agree s'.db := by
  rcases step_cases h with ⟨now, c, rfl⟩ | ⟨tid, tx, tx', ev, out, hx, hran, hto⟩ |
    ⟨tid, tx, r, hx, hpc, rfl⟩ | ⟨tid, tx, status, hx, rfl, hend⟩
  · exact .inl (agree_begin now c)
  · exact .inl (hto.agree hx (hran.status.trans (active?_eq_some.1 hx).2))
  · cases hidle : isIdle (.ok r) with
    | true => exact .inl (hs.agree_commit hx hpc hidle)
    | false =>
      obtain ⟨db₁, hexec, hag⟩ := hs.exec_commit hx hpc hidle (.refl s.db)
      exact .inr ⟨_, r, db₁, hexec, hag⟩
  · refine .inl (agree_ended hx ?_)
    rcases hend with ⟨rfl, -⟩ | rfl <;> decide

/-- A row that is committed stays and grows, and a terminal one gets no more events. -/
theorem row_of_leads (h : system.Reachable G s₁) (hl : system.Leads G s₁ s₂)
    (hj : s₁.db.job? j = some row) :
    ∃ row', s₂.db.job? j = some row' ∧ row.Grows row' ∧
      (row.state.isTerminal = true → s₂.db.events j = s₁.db.events j) := by
  refine hl.stable (P := fun s ↦ ∃ row', s.db.job? j = some row' ∧ row.Grows row' ∧
    (row.state.isTerminal = true → s.db.events j = s₁.db.events j)) ?_ h
    ⟨row, hj, .refl row, fun _ ↦ rfl⟩
  rintro s a s' hr ⟨row₁, hrow₁, hgrows₁, hevents₁⟩ - hstep
  rcases commits_call (isolated_of_reachable hr) hstep with hag | ⟨i, r, db₁, hexec, hag⟩
  · exact ⟨row₁, (hag.job? j).symm.trans hrow₁, hgrows₁,
      fun ht ↦ (hag.eventRows j).symm.trans (hevents₁ ht)⟩
  · obtain ⟨row₂, hrow₂, hgrows₂, hevents₂⟩ := Database.grows_of_exec hexec hrow₁
    refine ⟨row₂, (hag.job? j).symm.trans hrow₂, hgrows₁.trans hgrows₂, fun ht ↦ ?_⟩
    have ht₁ : row₁.state.isTerminal = true := by rwa [hgrows₁.final ht]
    exact ((hag.eventRows j).symm.trans (hevents₂ ht₁)).trans (hevents₁ ht)

/-- The dates of every committed row are those of its committed events. -/
theorem dated_of_reachable (h : system.Reachable G s) : s.db.Dated := by
  obtain ⟨order, hl⟩ := linearized_of_reachable h
  obtain ⟨db₀, hrun, hag⟩ := hl.run
  have hdated : SerialRun serialExec .empty ([] ++ order.map Prod.snd) db₀ ∧ db₀.Dated := by
    refine hrun.invariant (P := fun l db ↦ SerialRun serialExec .empty l db ∧ db.Dated) ?_ ?_ []
      ⟨.nil _, fun j row hj ↦ absurd hj (by simp), fun j row hj ↦ absurd hj (by simp)⟩
    · rintro pre db i r db₁ ⟨hpre, hd⟩ hexec
      exact ⟨hpre.concat_ok hexec, hd.exec (Submitted.of_run hpre).absent hexec⟩
    · rintro pre db i e ⟨hpre, hd⟩ herr
      exact ⟨hpre.concat_error herr, hd⟩
  have hevents : ∀ j, db₀.events j = s.db.events j := hag.eventRows
  constructor
  · intro j row hj
    rw [← hevents]
    exact hdated.2.created j row ((hag.job? j).trans hj)
  · intro j row hj
    rw [← hevents]
    exact hdated.2.updated j row ((hag.job? j).trans hj)

/-! ### The answers -/

theorem getJob_of_row {first second : Database π} (hj : first.job? j = some row) :
    getJob first second j = some
      ⟨j.str, row.state, row.payload, row.attempts, row.result.getD .null, row.createdAt,
        row.updatedAt, (second.events j).map EventRow.view⟩ := by
  rw [getJob, hj, Database.events, List.map_map]
  rfl

/-- An answer comes from a row, and shows its columns. -/
theorem exists_of_getJob {first second : Database π} (hv : getJob first second j = some v) :
    ∃ row, first.job? j = some row ∧
      v = ⟨j.str, row.state, row.payload, row.attempts, row.result.getD .null, row.createdAt,
        row.updatedAt, (second.events j).map EventRow.view⟩ := by
  obtain ⟨row, hrow, -⟩ := getJob_eq_some hv
  exact ⟨row, hrow, Option.some.inj (hv.symm.trans (getJob_of_row hrow))⟩

/-- **An answer is right about a first part of its events**: the part that was committed when its
row was read. -/
theorem answer_of_prefix (h : system.Reachable G s₁) (hl : system.Leads G s₁ s₂)
    (hv : getJob s₁.db s₂.db j = some v) :
    ∃ seen later, v.events = seen ++ later ∧
      replay (seen.map EventView.event) = .ok v.state ∧
      IsGreatest {a | ∃ e ∈ seen, e.attempt = a} v.attempts ∧
      seen.head?.map EventView.at' = some v.createdAt ∧
      seen.getLast?.map EventView.at' = some v.updatedAt := by
  obtain ⟨row, hrow, rfl⟩ := exists_of_getJob hv
  obtain ⟨hstate, hattempts⟩ := projects_of_committed h hrow
  have hdated := dated_of_reachable h
  refine ⟨(s₁.db.events j).map EventRow.view,
    (committedSince s₁.db s₂.db j).map EventRow.view, ?_, ?_, ?_, ?_, ?_⟩
  · rw [← List.map_append]
    exact congrArg _ (eventRows_eq_append h hl j)
  · rw [List.map_map]
    rwa [log_eq_map] at hstate
  · have hset : {a | ∃ e ∈ (s₁.db.events j).map EventRow.view, e.attempt = a} =
        {a | ∃ e ∈ s₁.db.events j, e.attempt = a} := Set.ext fun a ↦ exists_mem_map_iff
    rw [hset]
    exact hattempts
  · rw [List.head?_map, Option.map_map]
    exact hdated.created j row hrow
  · rw [List.getLast?_map, Option.map_map]
    exact hdated.updated j row hrow

/-- A job that is started twice, the second time between the two statements: the answer is right
about its first three events. -/
theorem answer_of_prefix_of_restarted : ∃ (s₁ s₂ : Server Unit) (v : JobView Unit),
    system.Leads TransitionSystem.anyStep s₁ s₂ ∧ getJob s₁.db s₂.db ⟨0⟩ = some v ∧
    v.events.length = 5 ∧ ∃ seen later, v.events = seen ++ later ∧
      replay (seen.map EventView.event) = .ok v.state := by
  have hrun : (system.exec empty (submits ++ records 1 .started)).any (fun s₁ : Server Unit ↦
      (system.exec s₁ (records 2 .requeued ++ records 3 .started)).any fun s₂ ↦
        (getJob s₁.db s₂.db ⟨0⟩).any fun v ↦ v.events.length = 5) = true := by
    rfl
  obtain ⟨s₁, hl₁, hrun⟩ := TransitionSystem.exists_leads_of_exec hrun
  obtain ⟨s₂, hl₂, hview⟩ := TransitionSystem.exists_leads_of_exec hrun
  obtain ⟨v, hv, hlen⟩ := (Option.any_eq_true _ _).1 hview
  obtain ⟨seen, later, hevents, hstate, -⟩ := answer_of_prefix ⟨_, rfl, hl₁⟩ hl₂ hv
  exact ⟨s₁, s₂, v, hl₂, hv, of_decide_eq_true hlen, seen, later, hevents, hstate⟩

/-- **A later answer goes on from an earlier one.** It is there, it is about the same job, it has
lost no event and no attempt; and once an answer shows a terminal state, it is the answer for
good. -/
theorem polls_grow (h : system.Reachable G s₁) (h₁₂ : system.Leads G s₁ s₂)
    (h₂₃ : system.Leads G s₂ s₃) (h₃₄ : system.Leads G s₃ s₄)
    (hv : getJob s₁.db s₂.db j = some v) :
    ∃ v', getJob s₃.db s₄.db j = some v' ∧ v'.id = v.id ∧ v'.payload = v.payload ∧
      v'.createdAt = v.createdAt ∧ v.attempts ≤ v'.attempts ∧ v.events <+: v'.events ∧
      (v.state.isTerminal = true → v' = v) := by
  obtain ⟨row, hrow, rfl⟩ := exists_of_getJob hv
  obtain ⟨row', hrow', hgrows, -⟩ := row_of_leads h (h₁₂.trans h₂₃) hrow
  have hfinal : row.state.isTerminal = true → s₄.db.events j = s₂.db.events j := by
    intro ht
    -- Neither statement of either call can see an event the first row did not.
    obtain ⟨-, -, -, hsame₂⟩ := row_of_leads h h₁₂ hrow
    obtain ⟨-, -, -, hsame₄⟩ := row_of_leads h ((h₁₂.trans h₂₃).trans h₃₄) hrow
    exact (hsame₄ ht).trans (hsame₂ ht).symm
  refine ⟨_, getJob_of_row hrow', rfl, hgrows.payload, hgrows.createdAt, hgrows.attempts, ?_,
    fun ht ↦ ?_⟩
  · exact (grows_of_leads (h.leads h₁₂) (h₂₃.trans h₃₄) j).2.map EventRow.view
  · rw [hfinal ht, hgrows.final ht]

/-- A client asks while the job runs, and when it has succeeded. -/
theorem polls_grow_of_completed : ∃ (s₁ s₂ : Server Unit) (v v' : JobView Unit),
    system.Leads TransitionSystem.anyStep s₁ s₂ ∧ getJob s₁.db s₁.db ⟨0⟩ = some v ∧
    v.state = .running ∧ getJob s₂.db s₂.db ⟨0⟩ = some v' ∧ v.events <+: v'.events ∧
    v'.events.length = 4 := by
  have hrun : (system.exec empty (submits ++ records 1 .started)).any (fun s₁ : Server Unit ↦
      (getJob s₁.db s₁.db ⟨0⟩).any (fun v ↦ v.state = .running) &&
      (system.exec s₁ (records 2 .completed)).any fun s₂ ↦
        (getJob s₂.db s₂.db ⟨0⟩).any fun v ↦ v.events.length = 4) = true := by
    rfl
  obtain ⟨s₁, hl₁, hrun⟩ := TransitionSystem.exists_leads_of_exec hrun
  obtain ⟨hview, hrun⟩ := Bool.and_eq_true_iff.1 hrun
  obtain ⟨v, hv, hstate⟩ := (Option.any_eq_true _ _).1 hview
  obtain ⟨s₂, hl₂, hview'⟩ := TransitionSystem.exists_leads_of_exec hrun
  obtain ⟨v₂, hv₂, hlen⟩ := (Option.any_eq_true _ _).1 hview'
  obtain ⟨v', hv', -, -, -, -, hpre, -⟩ := polls_grow ⟨_, rfl, hl₁⟩ .refl hl₂ .refl hv
  obtain rfl := Option.some.inj (hv₂.symm.trans hv')
  exact ⟨s₁, s₂, v, v₂, hl₂, hv, of_decide_eq_true hstate, hv₂, hpre, of_decide_eq_true hlen⟩

end Server

end Orbiter
