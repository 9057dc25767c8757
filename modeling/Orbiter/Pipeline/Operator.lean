import Mathlib.Data.Finset.Card
import Orbiter.Api.Jobs
import Orbiter.Db.Listing
import Orbiter.Fleet.Executions
import Orbiter.Foundation.Possibility
import Orbiter.Pipeline.Quarantines

/-!
# The operator and the DLQ

An operator asks for the list of quarantined jobs, posts a replay for each id on it, one after the
other, and asks again. The list shows the 200 that were updated last, in any order among those of
one date, so the rest has to come into view by itself. Between any two requests of the operator
everybody else may go on.

* As long as nobody else replays, no replay is refused, whatever relays, workers and listeners do
  meanwhile, and each job gets one `replayed` event and one outbox row for every time it was listed
  (`replays_accepted`): a quarantined job stays quarantined until it is replayed.
* If moreover nobody adds a `deadLettered` event, no job is listed twice, and after `n` rounds `200
  * n` jobs fewer are quarantined, or none is left (`operator_drains`).

## The argument

Both rest on what a part of the run does to the database as a whole, and this composes: a step of
anybody else replays no job, a replay of a quarantined job replays that job.

* `Database.Replayed js` — the jobs of `js` were replayed, each as often as it occurs, and no other,
  and those not replayed are still quarantined. Jobs may arrive meanwhile (`Database.arrivals`);
* `Database.Leaves js` — whatever is quarantined was so before, and is not in `js`. It takes a quiet
  run. With `Replayed`, the quarantined jobs are the former ones without `js`, and `Leaves.card`
  counts them;
* `SoleOperator`, `Quiet` — the guards on the steps of the others. A refused or failed record of a
  listener adds no event, so it is quiet (`quiet_of_ne_record` is one way to be so);
* `Replays`, `Rounds` — the sessions of the operator, request by request and list by list, with the
  steps of the others in between. Every list is some right answer, not a computed one;
* `exists_rounds` — the operator can always go on, from any state, for any number of rounds.
-/

namespace Orbiter

namespace Database

variable {π : Type} {db db' db'' : Database π} {j : Uuid} {js js' : List Uuid}

/-! ### The quarantined jobs -/

/-- The jobs in state `deadLetter`. -/
def quarantined (db : Database π) : Finset Uuid :=
  ((db.rowsWith fun row ↦ row.state = .deadLetter).map Sigma.fst).toFinset

theorem mem_quarantined :
    j ∈ db.quarantined ↔ ∃ row, db.job? j = some row ∧ row.state = .deadLetter := by
  rw [quarantined, List.mem_toFinset, List.mem_map]
  constructor
  · rintro ⟨⟨j', row⟩, he, rfl⟩
    obtain ⟨hrow, hstate⟩ := mem_rowsWith.1 he
    exact ⟨row, hrow, of_decide_eq_true hstate⟩
  · rintro ⟨row, hrow, hstate⟩
    exact ⟨⟨j, row⟩, mem_rowsWith.2 ⟨hrow, decide_eq_true hstate⟩, rfl⟩

theorem quarantined_congr (h : db'.job? j = db.job? j) :
    j ∈ db'.quarantined ↔ j ∈ db.quarantined := by
  rw [mem_quarantined, mem_quarantined, h]

/-- The listing of the DLQ: different jobs, all of them quarantined, as many as there are up to the
limit. -/
theorem ListsByState.quarantined {views : List (StateView π)}
    (h : db.ListsByState .deadLetter views) :
    ∃ js : List Uuid, views.map StateView.id = js.map Uuid.str ∧ js.Nodup ∧
      (∀ j ∈ js, j ∈ db.quarantined) ∧ js.length = min 200 db.quarantined.card := by
  obtain ⟨js, hids, hnodup, hmem, hlen⟩ := h.ids
  refine ⟨js, hids, hnodup, fun j hj ↦ mem_quarantined.2 (hmem j hj), ?_⟩
  rw [hlen, Database.quarantined, List.toFinset_card_of_nodup (db.nodup_rowsWith _),
    List.length_map]

/-! ### What replays amount to -/

/-- How often the job was submitted from `db` to `db'`. -/
def arrivals (db db' : Database π) (j : Uuid) : ℕ :=
  if (db.job? j).isNone ∧ (db'.job? j).isSome then 1 else 0

theorem arrivals_of_isSome (db' : Database π) (h : (db.job? j).isSome) : db.arrivals db' j = 0 :=
  if_neg fun hnew ↦ by simp [Option.isNone_iff_eq_none.1 hnew.1] at h

theorem arrivals_congr (h : db'.job? j = db.job? j) : db.arrivals db' j = 0 := by
  cases hj : db.job? j with
  | none => exact if_neg fun hnew ↦ by simp [h, hj] at hnew
  | some row => exact arrivals_of_isSome db' (by rw [hj]; rfl)

theorem arrivals_add (h : (db.job? j).isSome → (db'.job? j).isSome)
    (h' : (db'.job? j).isSome → (db''.job? j).isSome) :
    db.arrivals db'' j = db.arrivals db' j + db'.arrivals db'' j := by
  cases hj : db.job? j with
  | some row =>
    have hsome : (db.job? j).isSome := by rw [hj]; rfl
    rw [arrivals_of_isSome db'' hsome, arrivals_of_isSome db' hsome,
      arrivals_of_isSome db'' (h hsome)]
  | none =>
    cases hj' : db'.job? j with
    | some row =>
      have hsome' : (db'.job? j).isSome := by rw [hj']; rfl
      rw [arrivals_of_isSome db'' hsome', arrivals, arrivals, hj, hj']
      simp [h' hsome']
    | none => simp [arrivals, hj, hj']

/-- From `db` to `db'` these jobs were replayed, each as often as it is listed. No other job left
the DLQ, no job was lost, and a job was put up for execution in no other way than by its
submission. -/
structure Replayed (js : List Uuid) (db db' : Database π) : Prop where
  stays : ∀ j ∈ db.quarantined, j ∉ js → j ∈ db'.quarantined
  replayed : ∀ j, (db'.log j).count .replayed = (db.log j).count .replayed + js.count j
  kept : ∀ j, (db.job? j).isSome → (db'.job? j).isSome
  enqueued : ∀ j, (db'.log j).count .enqueued = (db.log j).count .enqueued + db.arrivals db' j

theorem Replayed.refl (db : Database π) : Replayed [] db db :=
  ⟨fun j hj _ ↦ hj, fun j ↦ by simp, fun j hj ↦ hj,
    fun j ↦ by rw [arrivals_congr rfl, Nat.add_zero]⟩

/-- **Parts of a run compose**: what is replayed adds up. -/
theorem Replayed.trans (h : Replayed js db db') (h' : Replayed js' db' db'') :
    Replayed (js ++ js') db db'' where
  stays j hj hnot := by
    rw [List.mem_append, not_or] at hnot
    exact h'.stays j (h.stays j hj hnot.1) hnot.2
  replayed j := by rw [h'.replayed, h.replayed, List.count_append, Nat.add_assoc]
  kept j hj := h'.kept j (h.kept j hj)
  enqueued j := by
    rw [h'.enqueued, h.enqueued, arrivals_add (h.kept j) (h'.kept j), Nat.add_assoc]

/-- A submission and each replay put their job up for execution once. -/
theorem Replayed.outboxRows (h : Replayed js db db') (hp : db.Posted) (hp' : db'.Posted)
    (j : Uuid) :
    (db'.outboxRows j).length = (db.outboxRows j).length + js.count j + db.arrivals db' j := by
  rw [hp j, hp' j, postings, postings, h.enqueued j, h.replayed j]
  omega

/-- These jobs left the DLQ, and none entered it. -/
def Leaves (js : List Uuid) (db db' : Database π) : Prop :=
  ∀ j ∈ db'.quarantined, j ∈ db.quarantined ∧ j ∉ js

theorem Leaves.refl (db : Database π) : Leaves [] db db := fun _ hj ↦ ⟨hj, List.not_mem_nil⟩

theorem Leaves.trans (h : Leaves js db db') (h' : Leaves js' db' db'') :
    Leaves (js ++ js') db db'' := by
  intro j hj
  obtain ⟨hj', hnot'⟩ := h' j hj
  obtain ⟨hj, hnot⟩ := h j hj'
  exact ⟨hj, by rw [List.mem_append, not_or]; exact ⟨hnot, hnot'⟩⟩

/-- The DLQ, without these jobs. -/
theorem Leaves.quarantined_eq (h : Leaves js db db') (hr : Replayed js db db') :
    db'.quarantined = db.quarantined \ js.toFinset := by
  ext j
  rw [Finset.mem_sdiff, List.mem_toFinset]
  exact ⟨h j, fun hj ↦ hr.stays j hj.1 hj.2⟩

theorem Leaves.card (h : Leaves js db db') (hr : Replayed js db db') (hnodup : js.Nodup)
    (hjs : ∀ j ∈ js, j ∈ db.quarantined) :
    db'.quarantined.card = db.quarantined.card - js.length := by
  have hsub : js.toFinset ⊆ db.quarantined := fun j hj ↦ hjs j (List.mem_toFinset.1 hj)
  rw [h.quarantined_eq hr, Finset.card_sdiff_of_subset hsub, List.toFinset_card_of_nodup hnodup]

/-- **A replay of a quarantined job** is accepted, and the answer names the job as the request
did. -/
theorem replay_of_quarantined (cfg : Settings) (now : ℕ) (hj : j ∈ db.quarantined) :
    (Api.replay cfg db now j.str).1 = .ok ⟨j.str, "queued"⟩ ∧
      Replayed [j] db (Api.replay cfg db now j.str).2 ∧
      Leaves [j] db (Api.replay cfg db now j.str).2 := by
  obtain ⟨row, hrow, hstate⟩ := mem_quarantined.1 hj
  have heq := Api.replay_of_deadLetter cfg now (Uuid.parse_str j) hrow hstate
  refine ⟨by rw [heq], ?_⟩
  rw [heq]
  dsimp only
  generalize hdb : (db.accept now (replayWrite j) row .queued).enqueueReplay now j
    cfg.subjectJobs row.payload = db'
  have hself : db'.job? j = some (acceptRow row now (replayWrite j) .queued) := by
    rw [← hdb]
    exact job?_accept_self db now (replayWrite j) row .queued
  have hlog : db'.log j = db.log j ++ [.replayed] := by
    rw [← hdb]
    exact log_accept_self db now (replayWrite j) row .queued
  have hothers : ∀ j' ≠ j, db'.job? j' = db.job? j' ∧ db'.log j' = db.log j' := by
    intro j' hne
    rw [← hdb]
    exact ⟨job?_accept_ne (w := replayWrite j) db now row .queued hne,
      log_accept_ne (w := replayWrite j) db now row .queued hne⟩
  refine ⟨⟨fun j' hj' hne ↦ ?_, fun j' ↦ ?_, fun j' hj' ↦ ?_, fun j' ↦ ?_⟩, fun j' hj' ↦ ?_⟩
  · exact (quarantined_congr (hothers j' (List.ne_of_not_mem_cons hne)).1).2 hj'
  · rcases eq_or_ne j' j with rfl | hne
    · rw [hlog, List.count_append, List.count_singleton_self, List.count_singleton_self]
    · have hnot : j' ∉ [j] := by simpa using hne
      rw [(hothers j' hne).2, List.count_eq_zero_of_not_mem hnot, Nat.add_zero]
  · rcases eq_or_ne j' j with rfl | hne
    · rw [hself]
      rfl
    · rwa [(hothers j' hne).1]
  · rcases eq_or_ne j' j with rfl | hne
    · rw [hlog, List.count_append, arrivals_of_isSome db' (by rw [hrow]; rfl)]
      rfl
    · rw [(hothers j' hne).2, arrivals_congr (hothers j' hne).1, Nat.add_zero]
  · rcases eq_or_ne j' j with rfl | hne
    · rw [mem_quarantined, hself] at hj'
      simp [acceptRow] at hj'
    · exact ⟨(quarantined_congr (hothers j' hne).1).1 hj', by simpa using hne⟩

end Database

/-! ### Everybody else -/

namespace Fleet

variable {cfg : Settings} {f f' : Fleet} {a : FleetStep}

/-- **A step of anybody else** replays nothing. -/
theorem replayed_nil_of_step (h : f.step cfg a = some f') (hr : ∀ j, a ≠ .replay j) :
    f.world.db.Replayed [] f'.world.db := by
  have key : ∀ j, (j ∈ f.world.db.quarantined → j ∈ f'.world.db.quarantined) ∧
      (f'.world.db.log j).count .replayed = (f.world.db.log j).count .replayed ∧
      ((f.world.db.job? j).isSome → (f'.world.db.job? j).isSome) ∧
      (f'.world.db.log j).count .enqueued =
        (f.world.db.log j).count .enqueued + f.world.db.arrivals f'.world.db j := by
    intro j
    rcases jobStep h j with ⟨hjob, hrows, -⟩ | ⟨who, key, payload, id, id', habs, hjob, hrows, -⟩ |
      ⟨who, w, row, next, id, hmade, hid, hrow, hnext, -, hjob, hrows, -⟩
    · have hlog : f'.world.db.log j = f.world.db.log j := by
        rw [Database.log, hrows, Database.log]
      refine ⟨(Database.quarantined_congr hjob).2, by rw [hlog], fun hj ↦ by rwa [hjob], ?_⟩
      rw [hlog, Database.arrivals_congr hjob, Nat.add_zero]
    · have hlog : f'.world.db.log j = f.world.db.log j ++ [.submitted, .enqueued] := by
        rw [Database.log, hrows, List.map_append, Database.log]
        rfl
      refine ⟨fun hj ↦ ?_, by rw [hlog, List.count_append]; rfl,
        fun hj ↦ absurd hj (by simp [habs]), ?_⟩
      · obtain ⟨row, hrow, -⟩ := Database.mem_quarantined.1 hj
        exact absurd (habs.symm.trans hrow) (by simp)
      · rw [hlog, List.count_append, Database.arrivals, habs, hjob]
        rfl
    · have hlog : f'.world.db.log j = f.world.db.log j ++ [w.event] := by
        rw [Database.log, hrows, List.map_append, Database.log]
        rfl
      have hnot : w.event ≠ .replayed := fun hev ↦ hr _ (replay_of_makes hmade hev)
      have hrec : w.event.isRecorded = true := (event_of_makes hmade).resolve_right hnot
      have hnoenq : w.event ≠ .enqueued := by
        intro hev
        rw [hev] at hrec
        contradiction
      refine ⟨fun hj ↦ ?_, ?_, fun _ ↦ by rw [hjob]; rfl, ?_⟩
      · obtain ⟨row', hrow', hstate⟩ := Database.mem_quarantined.1 hj
        obtain rfl := Option.some.inj (hrow'.symm.trans hrow)
        rw [hstate] at hnext
        exact absurd (eq_replayed_of_transitions hnext) hnot
      · rw [hlog, List.count_append, List.count_singleton, if_neg (by simpa using hnot),
          Nat.add_zero]
      · rw [hlog, List.count_append, List.count_singleton, if_neg (by simpa using hnoenq),
          Database.arrivals_of_isSome _ (by rw [hrow]; rfl)]
  exact ⟨fun j hj _ ↦ (key j).1 hj, fun j ↦ (key j).2.1, fun j ↦ (key j).2.2.1,
    fun j ↦ (key j).2.2.2⟩

/-- Unless it adds a `deadLettered` event, the step sends no job to the DLQ. -/
theorem leaves_nil_of_step (h : f.step cfg a = some f')
    (hd : ∀ j, (f'.world.db.log j).count .deadLettered = (f.world.db.log j).count .deadLettered) :
    f.world.db.Leaves [] f'.world.db := by
  refine fun j hj ↦ ⟨?_, List.not_mem_nil⟩
  rcases jobStep h j with ⟨hjob, -, -⟩ | ⟨who, key, payload, id, id', habs, hjob, -, -⟩ |
    ⟨who, w, row, next, id, hmade, hid, hrow, hnext, -, hjob, hrows, -⟩
  · exact (Database.quarantined_congr hjob).1 hj
  · rw [Database.mem_quarantined, hjob] at hj
    simp [Database.newRow] at hj
  · rw [Database.mem_quarantined, hjob] at hj
    obtain ⟨row', hrow', hstate⟩ := hj
    obtain rfl := Option.some.inj hrow'
    obtain rfl : next = .deadLetter := hstate
    have hev : w.event = .deadLettered := eq_deadLettered_of_transitions hnext
    have hlog : f'.world.db.log j = f.world.db.log j ++ [w.event] := by
      rw [Database.log, hrows, List.map_append, Database.log]
      rfl
    have hsame := hd j
    rw [hlog, hev, List.count_append, List.count_singleton_self] at hsame
    omega

/-- A step that is no quarantine adds no `deadLettered` event. -/
theorem count_deadLettered_of_step (h : f.step cfg a = some f')
    (hd : ∀ j streamSeq deliveries, a ≠ .deadLetter j streamSeq deliveries) (j : Uuid) :
    (f'.world.db.log j).count .deadLettered = (f.world.db.log j).count .deadLettered := by
  rcases jobStep h j with ⟨-, hrows, -⟩ | ⟨who, key, payload, id, id', -, -, hrows, -⟩ |
    ⟨who, w, row, next, id, hmade, -, -, -, -, -, hrows, -⟩
  · rw [Database.log, hrows, Database.log]
  · rw [Database.log, hrows, List.map_append, List.count_append, Database.log]
    rfl
  · have hne : w.event ≠ .deadLettered := by
      intro hev
      obtain ⟨streamSeq, deliveries, ha, -⟩ := deadLetter_of_makes hmade hev
      exact hd _ _ _ ha
    rw [Database.log, hrows, List.map_append, List.count_append, Database.log, List.map_singleton,
      List.count_singleton, if_neg (by simpa using hne), Nat.add_zero]

end Fleet

namespace Pipeline

variable {cfg : Settings} {G : Pipeline → PipelineStep → Prop} {p p' : Pipeline}

/-- Nobody else replays. -/
def SoleOperator (_ : Pipeline) (a : PipelineStep) : Prop := ∀ j, a ≠ .replay j

/-- Nobody else replays, and the step adds no `deadLettered` event. -/
def Quiet (cfg : Settings) (p : Pipeline) (a : PipelineStep) : Prop :=
  SoleOperator p a ∧ ∀ p', p.step cfg a = some p' → ∀ j,
    (p'.fleet.world.db.log j).count .deadLettered = (p.fleet.world.db.log j).count .deadLettered

/-- All steps but those of operators and of listeners at their record are quiet. -/
theorem quiet_of_ne_record {a : PipelineStep} (hsole : SoleOperator p a)
    (ha : ∀ qid ans remembered q adv raw, a = .quarantine qid ans remembered →
      p.quarantines[qid]? = some q → q.pc ≠ .record adv raw) : Quiet cfg p a := by
  refine ⟨hsole, fun p' hs j ↦ ?_⟩
  rcases step_fleet hs with heq | ⟨b, hdrives, hb⟩
  · rw [heq]
  · refine Fleet.count_deadLettered_of_step hb (fun j streamSeq deliveries hj ↦ ?_) j
    subst hj
    cases hdrives with
    | record ans remembered hq halive hpc => exact ha _ _ _ _ _ _ rfl hq hpc

theorem replayed_nil_of_leads (h : (system cfg).Leads SoleOperator p p') :
    p.fleet.world.db.Replayed [] p'.fleet.world.db := by
  induction h with
  | refl => exact .refl _
  | tail _ hnext ih =>
    obtain ⟨a, hsole, hs⟩ := hnext
    refine ih.trans ?_
    rcases step_fleet hs with heq | ⟨b, hdrives, hb⟩
    · rw [heq]
      exact .refl _
    · refine Fleet.replayed_nil_of_step hb fun j hj ↦ ?_
      subst hj
      cases hdrives
      exact hsole j rfl

/-- Others quarantine nothing, in any quiet part of a run. -/
theorem leaves_nil_of_leads (h : (system cfg).Leads (Quiet cfg) p p') :
    p.fleet.world.db.Leaves [] p'.fleet.world.db := by
  induction h with
  | refl => exact .refl _
  | tail _ hnext ih =>
    obtain ⟨a, ⟨-, hquiet⟩, hs⟩ := hnext
    refine ih.trans ?_
    rcases step_fleet hs with heq | ⟨b, -, hb⟩
    · rw [heq]
      exact .refl _
    · exact Fleet.leaves_nil_of_step hb (hquiet _ hs)

/-! ### The operator -/

/-- What the operator is answered. -/
abbrev ReplayAnswer : Type := Except HandlerExc ReplayResponse

/-- `POST /jobs/{id}/replay`: the answer. -/
def replayAnswer (cfg : Settings) (p : Pipeline) (id : String) : ReplayAnswer :=
  (Api.replay cfg p.fleet.world.db p.fleet.world.now id).1

/-- `POST /jobs/{id}/replay`: the pipeline after it. A text that is no UUID does not get to the
database. -/
def postReplay (cfg : Settings) (p : Pipeline) (id : String) : Pipeline :=
  match Uuid.parse id with
  | none => p
  | some j => (p.step cfg (.replay j)).getD p

/-- The step of the pipeline does to the database what the handler does. -/
theorem db_postReplay (cfg : Settings) (p : Pipeline) (id : String) :
    (p.postReplay cfg id).fleet.world.db =
      (Api.replay cfg p.fleet.world.db p.fleet.world.now id).2 := by
  rw [postReplay]
  rcases Api.replay_cases cfg p.fleet.world.db p.fleet.world.now id with
    ⟨hparse, heq⟩ | ⟨j, hparse, hresult, heq⟩ | ⟨j, e, hparse, hresult, heq⟩ |
    ⟨j, db', hparse, hresult, heq⟩ <;> rw [hparse, heq]
  all_goals
    show (p.fleet.world.transact .operator (.replayJob j cfg.subjectJobs)).db = _
    rw [World.transact, RepoCall.exec, hresult]
    rfl

/-- The answer to a replay that puts its job up for execution. -/
def replayAccepted (j : Uuid) : ReplayAnswer := .ok ⟨j.str, "queued"⟩

section Operator

variable (cfg : Settings) (others : Pipeline → PipelineStep → Prop)

/-- The operator replays the jobs with these ids, one after the other, and collects the answers.
Before each of them others go on. -/
inductive Replays : List String → Pipeline → List ReplayAnswer → Pipeline → Prop
  | done (p : Pipeline) : Replays [] p [] p
  | replay {id : String} {ids : List String} {p p₁ p' : Pipeline} {answers : List ReplayAnswer}
      (hl : (system cfg).Leads others p p₁) (hr : Replays ids (p₁.postReplay cfg id) answers p') :
      Replays (id :: ids) p (p₁.replayAnswer cfg id :: answers) p'

/-- The operator looks at the DLQ and replays what is there, this many times. The ids are those of
all lists, one after the other. -/
inductive Rounds : ℕ → List String → Pipeline → List ReplayAnswer → Pipeline → Prop
  | done {p p' : Pipeline} (hl : (system cfg).Leads others p p') : Rounds 0 [] p [] p'
  | round {n : ℕ} {ids : List String} {p p₁ p₂ p' : Pipeline}
      {views : List (StateView SubmitRequest)} {answers answers' : List ReplayAnswer}
      (hl : (system cfg).Leads others p p₁)
      (hviews : p₁.fleet.world.db.ListsByState .deadLetter views)
      (hr : Replays cfg others (views.map StateView.id) p₁ answers p₂)
      (hn : Rounds n ids p₂ answers' p') :
      Rounds (n + 1) (views.map StateView.id ++ ids) p (answers ++ answers') p'

end Operator

variable {others : Pipeline → PipelineStep → Prop} {n : ℕ} {ids : List String} {js : List Uuid}
  {answers : List ReplayAnswer}

/-- **One replay.** -/
theorem accepted_of_postReplay (cfg : Settings) {j : Uuid}
    (hj : j ∈ p.fleet.world.db.quarantined) :
    p.replayAnswer cfg j.str = replayAccepted j ∧
      p.fleet.world.db.Replayed [j] (p.postReplay cfg j.str).fleet.world.db ∧
      p.fleet.world.db.Leaves [j] (p.postReplay cfg j.str).fleet.world.db := by
  rw [db_postReplay]
  exact Database.replay_of_quarantined cfg p.fleet.world.now hj

/-- **One list**: what is on it stays quarantined until its turn comes. If nobody is quarantined
meanwhile, the list leaves the DLQ. -/
theorem Replays.accepted (h : Replays cfg others ids p answers p')
    (ho : ∀ p a, others p a → SoleOperator p a) (hids : ids = js.map Uuid.str) (hnodup : js.Nodup)
    (hjs : ∀ j ∈ js, j ∈ p.fleet.world.db.quarantined) :
    answers = js.map replayAccepted ∧ p.fleet.world.db.Replayed js p'.fleet.world.db ∧
      ((∀ p a, others p a → Quiet cfg p a) → p.fleet.world.db.Leaves js p'.fleet.world.db) := by
  induction h generalizing js with
  | done p =>
    obtain rfl := List.map_eq_nil_iff.1 hids.symm
    exact ⟨rfl, .refl _, fun _ ↦ .refl _⟩
  | @replay id ids p p₁ p' answers hl hr ih =>
    obtain ⟨j, js, rfl, rfl, hrest⟩ := List.map_eq_cons_iff.1 hids.symm
    obtain ⟨hj, hnodup⟩ := List.nodup_cons.1 hnodup
    have hbefore := replayed_nil_of_leads (hl.mono ho)
    have hmem : ∀ j' ∈ j :: js, j' ∈ p₁.fleet.world.db.quarantined := fun j' hj' ↦
      hbefore.stays j' (hjs j' hj') List.not_mem_nil
    obtain ⟨hok, hone, hleaves⟩ := accepted_of_postReplay cfg (hmem j List.mem_cons_self)
    obtain ⟨hanswers, hafter, hrest⟩ := ih hrest.symm hnodup fun j' hj' ↦ by
      refine hone.stays j' (hmem j' (List.mem_cons_of_mem _ hj')) ?_
      rw [List.mem_singleton]
      rintro rfl
      exact hj hj'
    refine ⟨by rw [hok, hanswers]; rfl, (hbefore.trans hone).trans hafter, fun hq ↦ ?_⟩
    exact ((leaves_nil_of_leads (hl.mono hq)).trans hleaves).trans (hrest hq)

/-- **All lists.** -/
theorem Rounds.accepted (h : Rounds cfg others n ids p answers p')
    (ho : ∀ p a, others p a → SoleOperator p a) :
    ∃ js : List Uuid, ids = js.map Uuid.str ∧ answers = js.map replayAccepted ∧
      p.fleet.world.db.Replayed js p'.fleet.world.db := by
  induction h with
  | done hl => exact ⟨[], rfl, rfl, replayed_nil_of_leads (hl.mono ho)⟩
  | round hl hviews hr hn ih =>
    obtain ⟨js, hids, hnodup, hmem, -⟩ := hviews.quarantined
    obtain ⟨hanswers, hrep, -⟩ := hr.accepted ho hids hnodup hmem
    obtain ⟨js', hids', hanswers', hrep'⟩ := ih
    exact ⟨js ++ js', by rw [hids, hids', List.map_append],
      by rw [hanswers, hanswers', List.map_append],
      ((replayed_nil_of_leads (hl.mono ho)).trans hrep).trans hrep'⟩

/-- **All lists, while nobody is quarantined**: they have no job in common. -/
theorem Rounds.leaves (h : Rounds cfg (Quiet cfg) n ids p answers p') :
    ∃ js : List Uuid, ids = js.map Uuid.str ∧ answers = js.map replayAccepted ∧ js.Nodup ∧
      (∀ j ∈ js, j ∈ p.fleet.world.db.quarantined) ∧
      js.length = min (200 * n) p.fleet.world.db.quarantined.card ∧
      p.fleet.world.db.Replayed js p'.fleet.world.db ∧
      p.fleet.world.db.Leaves js p'.fleet.world.db := by
  induction h with
  | done hl =>
    exact ⟨[], rfl, rfl, List.nodup_nil, by simp, by simp,
      replayed_nil_of_leads (hl.mono fun _ _ hq ↦ hq.1), leaves_nil_of_leads hl⟩
  | @round n ids p p₁ p₂ p' views answers answers' hl hviews hr hn ih =>
    have hstart := replayed_nil_of_leads (hl.mono fun _ _ hq ↦ hq.1)
    have hquiet := leaves_nil_of_leads hl
    have hcard₁ := hquiet.card hstart List.nodup_nil (by simp)
    obtain ⟨js, hids, hnodup, hmem, hlen⟩ := hviews.quarantined
    obtain ⟨hanswers, hrep, hleft⟩ := hr.accepted (fun _ _ hq ↦ hq.1) hids hnodup hmem
    have hleaves := hleft fun _ _ hq ↦ hq
    have hcard₂ := hleaves.card hrep hnodup hmem
    obtain ⟨js', hids', hanswers', hnodup', hmem', hlen', hrep', hleaves'⟩ := ih
    refine ⟨js ++ js', by rw [hids, hids', List.map_append],
      by rw [hanswers, hanswers', List.map_append], hnodup.append hnodup' fun j hj hj' ↦ ?_,
      fun j hj ↦ (hquiet j ?_).1, ?_, (hstart.trans hrep).trans hrep',
      (hquiet.trans hleaves).trans hleaves'⟩
    · -- A job of a later list was quarantined after this one.
      exact (hleaves j (hmem' j hj')).2 hj
    · rcases List.mem_append.1 hj with hj | hj
      · exact hmem j hj
      · exact (hleaves j (hmem' j hj)).1
    · rw [List.length_nil] at hcard₁
      rw [List.length_append]
      omega

/-! ### The whole session -/

/-- A request of the operator is a run of the pipeline. -/
theorem leads_postReplay (cfg : Settings) (p : Pipeline) (id : String) :
    (system cfg).Leads TransitionSystem.anyStep p (p.postReplay cfg id) := by
  rw [postReplay]
  cases Uuid.parse id with
  | none => exact .refl
  | some j => exact TransitionSystem.Leads.single (a := .replay j) trivial rfl

theorem Replays.leads (h : Replays cfg others ids p answers p') :
    (system cfg).Leads TransitionSystem.anyStep p p' := by
  induction h with
  | done p => exact .refl
  | replay hl hr ih =>
    exact ((hl.mono fun _ _ _ ↦ trivial).trans (leads_postReplay cfg _ _)).trans ih

theorem Rounds.leads (h : Rounds cfg others n ids p answers p') :
    (system cfg).Leads TransitionSystem.anyStep p p' := by
  induction h with
  | done hl => exact hl.mono fun _ _ _ ↦ trivial
  | round hl hviews hr hn ih => exact ((hl.mono fun _ _ _ ↦ trivial).trans hr.leads).trans ih

/-- The operator can always go on. -/
theorem exists_replays (cfg : Settings) (others : Pipeline → PipelineStep → Prop)
    (ids : List String) (p : Pipeline) : ∃ answers p', Replays cfg others ids p answers p' := by
  induction ids generalizing p with
  | nil => exact ⟨[], p, .done p⟩
  | cons id ids ih =>
    obtain ⟨answers, p', hr⟩ := ih (p.postReplay cfg id)
    exact ⟨_, p', .replay .refl hr⟩

/-- **The operator can always go on.** -/
theorem exists_rounds (cfg : Settings) (others : Pipeline → PipelineStep → Prop) (n : ℕ)
    (p : Pipeline) : ∃ ids answers p', Rounds cfg others n ids p answers p' := by
  induction n generalizing p with
  | zero => exact ⟨[], [], p, .done .refl⟩
  | succ n ih =>
    obtain ⟨answers, p₂, hr⟩ := exists_replays cfg others
      ((p.fleet.world.db.listJobsByState .deadLetter).map StateView.id) p
    obtain ⟨ids, answers', p', hn⟩ := ih p₂
    exact ⟨_, _, p', .round .refl (Database.listsByState_listJobsByState ..) hr hn⟩

/-- Two jobs, quarantined on advisories of somebody else. -/
def quarantinesTwo : List PipelineStep :=
  [.submit ⟨0⟩ "a" (.healthy 10 ten_le_limit) [], .submit ⟨1⟩ "b" (.healthy 10 ten_le_limit) [],
    .beginRelay, .relay 0 .served true, .relay 0 .served true, .relay 0 .served true,
    .relay 0 .served true, .advise (brokerAdvisory {} 1 5), .fetch 0, .quarantine 0 .served true,
    .quarantine 0 .served true, .quarantine 0 .served true, .quarantine 0 .served true,
    .advise (brokerAdvisory {} 2 5), .fetch 1, .quarantine 1 .served true,
    .quarantine 1 .served true, .quarantine 1 .served true, .quarantine 1 .served true]

/-- The submission of a third job. -/
def submitsThird : PipelineStep := .submit ⟨2⟩ "c" (.healthy 10 ten_le_limit) []

theorem exists_quarantined : ∃ p : Pipeline, (system {}).Reachable TransitionSystem.anyStep p ∧
    p.fleet.world.db.quarantined.card = 2 := by
  have hrun : ((system {}).exec empty quarantinesTwo).any (fun p ↦
      p.fleet.world.db.quarantined.card = 2) = true := by
    rfl
  obtain ⟨p, hl, hp⟩ := TransitionSystem.exists_leads_of_exec hrun
  exact ⟨p, ⟨_, rfl, hl⟩, of_decide_eq_true hp⟩

/-- Two rounds from such a state. After the first look at the list a third job is submitted, and
between the two replays a relay begins. -/
theorem exists_twoRounds (others : Pipeline → PipelineStep → Prop)
    (hcard : p.fleet.world.db.quarantined.card = 2) (hsubmit : ∀ p, others p submitsThird)
    (hbegin : ∀ p, others p .beginRelay) :
    ∃ (j j' : Uuid) (ids : List String) (answers : List ReplayAnswer) (p' : Pipeline), j ≠ j' ∧
      Rounds {} others 2 (j.str :: j'.str :: ids) p answers p' := by
  have hviews := Database.listsByState_listJobsByState p.fleet.world.db .deadLetter
  obtain ⟨js, hids, hnodup, -, hlen⟩ := hviews.quarantined
  obtain ⟨j, j', rfl⟩ := List.length_eq_two.1 (hlen.trans (by rw [hcard]; rfl))
  obtain ⟨p₁, hfirst⟩ : ∃ p₁, (system {}).Leads others p p₁ :=
    ⟨_, .single (a := submitsThird) (hsubmit p) rfl⟩
  let p₂ : Pipeline := p₁.postReplay {} j.str
  have hsecond : (system {}).Leads others p₂ { p₂ with relays := p₂.relays ++ [{}] } :=
    .single (a := .beginRelay) (hbegin p₂) rfl
  have hreplays : Replays {} others [j.str, j'.str] p _ _ :=
    .replay hfirst (.replay hsecond (.done _))
  obtain ⟨ids, answers, p', hn⟩ := exists_rounds {} others 1
    (({ p₂ with relays := p₂.relays ++ [{}] } : Pipeline).postReplay {} j'.str)
  have hround := Rounds.round .refl hviews (by rw [hids]; exact hreplays) hn
  rw [hids] at hround
  exact ⟨j, j', ids, _, p', fun heq ↦ by simp [heq] at hnodup, hround⟩

/-- **No replay of a listed job is refused**, as long as nobody else replays: whatever happens
between the look at the list and the replay, each of the jobs is put up for execution. Each job gets
a `replayed` event for every time it was listed, and as many outbox rows, and one more if it was
submitted meanwhile. -/
theorem replays_accepted (h : (system cfg).Reachable G p)
    (hn : Rounds cfg SoleOperator n ids p answers p') :
    ∃ js : List Uuid, ids = js.map Uuid.str ∧ answers = js.map replayAccepted ∧
    (∀ j, (p'.fleet.world.db.log j).count .replayed =
      (p.fleet.world.db.log j).count .replayed + js.count j) ∧
    ∀ j, (p'.fleet.world.db.outboxRows j).length = (p.fleet.world.db.outboxRows j).length +
      js.count j + p.fleet.world.db.arrivals p'.fleet.world.db j := by
  obtain ⟨js, hids, hanswers, hrep⟩ := hn.accepted fun _ _ hsole ↦ hsole
  have hreach : (system cfg).Reachable TransitionSystem.anyStep p := h.mono fun _ _ _ ↦ trivial
  have hposted := Fleet.posted_of_reachable (fleet_reachable h)
  have hposted' := Fleet.posted_of_reachable (fleet_reachable (hreach.leads hn.leads))
  exact ⟨js, hids, hanswers, hrep.replayed, hrep.outboxRows hposted hposted'⟩

/-- Both jobs are replayed. -/
theorem replays_accepted_of_two : ∃ (p p' : Pipeline) (j j' : Uuid) (ids : List String)
    (answers : List ReplayAnswer), (system {}).Reachable TransitionSystem.anyStep p ∧ j ≠ j' ∧
    Rounds {} SoleOperator 2 (j.str :: j'.str :: ids) p answers p' ∧
    answers.take 2 = [replayAccepted j, replayAccepted j'] ∧
    (p.fleet.world.db.outboxRows j).length < (p'.fleet.world.db.outboxRows j).length ∧
    (p.fleet.world.db.outboxRows j').length < (p'.fleet.world.db.outboxRows j').length := by
  obtain ⟨p, hr, hcard⟩ := exists_quarantined
  obtain ⟨j, j', ids, answers, p', hne, hn⟩ := exists_twoRounds SoleOperator hcard
    (fun _ _ ↦ nofun) fun _ _ ↦ nofun
  obtain ⟨js, hids, hanswers, -, hrows⟩ := replays_accepted hr hn
  obtain ⟨j₀, rest, rfl, hj₀, hrest⟩ := List.map_eq_cons_iff.1 hids.symm
  obtain ⟨j₁, rest, rfl, hj₁, -⟩ := List.map_eq_cons_iff.1 hrest
  obtain rfl := Uuid.str_inj hj₀
  obtain rfl := Uuid.str_inj hj₁
  refine ⟨p, p', j₀, j₁, ids, answers, hr, hne, hn, by rw [hanswers]; rfl, ?_, ?_⟩
  · rw [hrows, List.count_cons_self]
    omega
  · rw [hrows, List.count_cons_of_ne hne, List.count_cons_self]
    omega

/-- **The operator empties the DLQ.** As long as nobody adds a `deadLettered` event and nobody else
replays, `n` rounds replay `200 * n` different jobs of those that were quarantined at the beginning,
or all of them, each of them once. The others of these jobs are what is left of the DLQ. -/
theorem operator_drains (hn : Rounds cfg (Quiet cfg) n ids p answers p') :
    (∃ js : List Uuid, ids = js.map Uuid.str ∧ answers = js.map replayAccepted ∧ js.Nodup ∧
      (∀ j ∈ js, j ∈ p.fleet.world.db.quarantined) ∧
      js.length = min (200 * n) p.fleet.world.db.quarantined.card ∧
      p'.fleet.world.db.quarantined = p.fleet.world.db.quarantined \ js.toFinset) ∧
    (p.fleet.world.db.quarantined.card ≤ 200 * n → p'.fleet.world.db.quarantined = ∅) := by
  obtain ⟨js, hids, hanswers, hnodup, hmem, hlen, hrep, hleaves⟩ := hn.leaves
  refine ⟨⟨js, hids, hanswers, hnodup, hmem, hlen, hleaves.quarantined_eq hrep⟩, fun hcard ↦ ?_⟩
  rw [← Finset.card_eq_zero, hleaves.card hrep hnodup hmem, hlen]
  omega

/-- In the second round there is nothing left. -/
theorem operator_drains_of_two : ∃ (p p' : Pipeline) (j j' : Uuid) (ids : List String)
    (answers : List ReplayAnswer), (system {}).Reachable TransitionSystem.anyStep p ∧
    p.fleet.world.db.quarantined.card = 2 ∧ j ≠ j' ∧
    Rounds {} (Quiet {}) 2 (j.str :: j'.str :: ids) p answers p' ∧ ids = [] ∧
    p'.fleet.world.db.quarantined = ∅ := by
  obtain ⟨p, hr, hcard⟩ := exists_quarantined
  have hsubmit : ∀ p, Quiet {} p submitsThird := fun _ ↦
    quiet_of_ne_record (fun _ h ↦ by cases h) fun _ _ _ _ _ _ h ↦ by cases h
  have hbegin : ∀ p, Quiet {} p .beginRelay := fun _ ↦
    quiet_of_ne_record (fun _ h ↦ by cases h) fun _ _ _ _ _ _ h ↦ by cases h
  obtain ⟨j, j', ids, answers, p', hne, hn⟩ := exists_twoRounds (Quiet {}) hcard hsubmit hbegin
  obtain ⟨⟨js, hids, -, -, -, hlen, -⟩, hempty⟩ := operator_drains hn
  have hlength := congrArg List.length hids
  rw [List.length_map, hlen, hcard, List.length_cons, List.length_cons] at hlength
  have hnone : ids.length = 0 := by omega
  exact ⟨p, p', j, j', ids, answers, hr, hcard, hne, hn, List.length_eq_zero_iff.1 hnone,
    hempty (by omega)⟩

end Pipeline

end Orbiter
