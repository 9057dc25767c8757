import Orbiter.Db.Repo
import Orbiter.Foundation.TransitionSystem

/-!
# One fencing rule in two places

The fencing rule is written twice: as `FencedWriter.check`, and as the predicate of the `UPDATE` in
`_apply_event`, with a token that defaults to the row's own. The docstring of the first calls the
two one rule. Here both are driven side by side by one sequence of writes, `FencedWriter` seeing
those that carry a token.

* `FencedDatabase` — the database, the writer beside it, and the tokens accepted so far. A step is
  one write at any time, by a worker, the listener or an operator;
* `Legal` — a write meets a job in a state it is legal in. The transition is judged before the
  token, so an illegal write is refused by one of the two only, and says nothing about fencing;
* `Agrees.stale_iff_check` — on a legal write the two agree on whether it is stale and on the error;
* `agrees_of_reachable` — over any sequence of legal writes they agree on the newest token accepted;
* `one_fencing_rule` — both together, with what the rule is for: a write without a token moves
  neither of the two, and the tokens accepted for a job never decrease.
-/

namespace Orbiter

/-- A write through `_apply_event`. -/
inductive FencedOp
  /-- `record_event`, by a worker or by the dead-letter listener. -/
  | record (w : Write)
  /-- `replay_job`, which writes without a token. -/
  | replay (jobId : Uuid) (subject : String)

namespace FencedOp

variable {π : Type}

/-- What `_apply_event` is called with. -/
def write : FencedOp → Write
  | record w => w
  | replay jobId _ => Database.replayWrite jobId

/-- The transaction. -/
def exec (op : FencedOp) (db : Database π) (now : ℕ) : Except DbError (Database π) :=
  match op with
  | record w => (db.recordEvent now w).map Prod.snd
  | replay jobId subject => (db.replayJob now jobId subject).map Prod.snd

/-- The same write put to a `FencedWriter`, which writes without a token never reach. -/
def check (op : FencedOp) (writer : FencedWriter) : Except StaleLeaseError FencedWriter :=
  match op.write.fenceToken with
  | none => .ok writer
  | some token => writer.check op.write.jobId.str token

/-- The write is a legal transition of the state it meets. -/
def Legal (op : FencedOp) (db : Database π) : Prop :=
  ∃ row s, db.job? op.write.jobId = some row ∧ transitions row.state op.write.event = some s

theorem legal_of_isLegal {op : FencedOp} {db : Database π} (h : ((db.job? op.write.jobId).any
    fun row ↦ (transitions row.state op.write.event).isSome) = true) : op.Legal db := by
  obtain ⟨row, hj, ht⟩ := (Option.any_eq_true _ _).1 h
  obtain ⟨s, hs⟩ := Option.isSome_iff_exists.1 ht
  exact ⟨row, s, hj, hs⟩

/-- A replay is what its write does to the jobs, and an outbox row. -/
theorem exec_eq_applyEvent {op : FencedOp} {db : Database π} (now : ℕ) (h : op.Legal db) :
    (∀ e, op.exec db now = .error e ↔ db.applyEvent now op.write = .error e) ∧
    ∀ s db', db.applyEvent now op.write = .ok (s, db') →
      ∃ db'', op.exec db now = .ok db'' ∧ ∀ j, db''.job? j = db'.job? j := by
  obtain ⟨row, s, hj, -⟩ := h
  cases op with
  | record w =>
    rw [exec, write, Database.recordEvent]
    cases db.applyEvent now w with
    | error x => simp [Except.map]
    | ok p => exact ⟨by simp [Except.map], fun s db' hp ↦ ⟨p.2, rfl, by simp_all⟩⟩
  | replay jobId subject =>
    rw [write, Database.replayWrite] at hj
    rw [exec, write, Database.replayJob, hj]
    cases db.applyEvent now (Database.replayWrite jobId) with
    | error x => simp [Except.map]
    | ok p =>
      refine ⟨by simp [Except.map], fun s db' hp ↦ ⟨_, rfl, fun j ↦ ?_⟩⟩
      obtain rfl := Except.ok.inj hp
      rfl

/-- **A legal write.** It is accepted and its token is the newest, or it is stale. -/
theorem exec_cases {op : FencedOp} {db : Database π} (now : ℕ) {row : JobRow π} {s : JobState}
    (hj : db.job? op.write.jobId = some row)
    (ht : transitions row.state op.write.event = some s) :
    (row.fenceToken ≤ op.write.fenceToken.getD row.fenceToken ∧ ∃ db' row',
      op.exec db now = .ok db' ∧ db'.job? op.write.jobId = some row' ∧
      row'.fenceToken = op.write.fenceToken.getD row.fenceToken ∧
      ∀ j, j ≠ op.write.jobId → db'.job? j = db.job? j) ∨
    (op.write.fenceToken.getD row.fenceToken < row.fenceToken ∧
      op.exec db now = .error (.staleLease ⟨op.write.jobId.str,
        op.write.fenceToken.getD row.fenceToken, row.fenceToken⟩)) := by
  obtain ⟨herror, hok⟩ := exec_eq_applyEvent now ⟨row, s, hj, ht⟩
  rcases le_or_gt row.fenceToken (op.write.fenceToken.getD row.fenceToken) with hle | hlt
  · have happly : db.applyEvent now op.write = .ok (s, db.accept now op.write row s) :=
      Database.applyEvent_eq_ok.2 ⟨row, hj, ht, hle, rfl⟩
    obtain ⟨db', hexec, hjobs⟩ := hok _ _ happly
    refine .inl ⟨hle, db', _, hexec, by rw [hjobs, Database.job?_accept_self], rfl,
      fun j hne ↦ by rw [hjobs, Database.job?_accept_ne _ _ _ _ hne]⟩
  · refine .inr ⟨hlt, (herror _).2 ?_⟩
    simp only [Database.applyEvent, hj, apply_some_eq_ok.2 ht, if_neg (not_le.2 hlt)]

end FencedOp

/-- The database and a `FencedWriter`, with a record of the tokens accepted, newest last. -/
structure FencedDatabase (π : Type) where
  db : Database π
  writer : FencedWriter
  accepted : List (Uuid × ℤ)

namespace FencedDatabase

variable {π : Type}

/-- Every job as its submission has left it. -/
def Fresh (db : Database π) : Prop :=
  ∀ j row, db.job? j = some row → ∃ now key payload, row = Database.newRow now key payload

/-- Submissions to an empty database leave every job fresh. -/
theorem fresh_empty : Fresh (Database.empty : Database π) :=
  fun _ _ hj ↦ absurd hj (by simp)

/-- A submission creates its job with no token accepted yet. -/
theorem Fresh.submitJob {db db' : Database π} (h : Fresh db) {now : ℕ} {jobId j : Uuid}
    {key : String} {payload : π} {subject : String} {carrier : Carrier} {created : Bool}
    (hs : db.submitJob now jobId key payload subject carrier = .ok ((j, created), db')) :
    Fresh db' := by
  rcases Database.submitJob_eq_ok hs with ⟨-, -, rfl⟩ | ⟨-, -, -, -, rfl⟩
  · exact h
  · intro k row hk
    by_cases hkj : k = jobId
    · rw [hkj, Database.job?_create_self] at hk
      exact ⟨now, key, payload, (Option.some.inj hk).symm⟩
    · rw [Database.job?_create_ne _ _ _ _ _ _ hkj] at hk
      exact h k row hk

/-- One write, to both. A refusal changes neither side. -/
def step (s : FencedDatabase π) (a : ℕ × FencedOp) : Option (FencedDatabase π) :=
  some {
    db := match a.2.exec s.db a.1 with
      | .ok db => db
      | .error _ => s.db
    writer := match a.2.check s.writer with
      | .ok writer => writer
      | .error _ => s.writer
    accepted := match a.2.exec s.db a.1, a.2.write.fenceToken with
      | .ok _, some token => s.accepted ++ [(a.2.write.jobId, token)]
      | _, _ => s.accepted }

variable (π) in
/-- All sequences of writes from freshly submitted jobs. -/
def system : TransitionSystem (FencedDatabase π) (ℕ × FencedOp) where
  init s := Fresh s.db ∧ s.writer = .empty ∧ s.accepted = []
  step := step

/-- Every write is legal. -/
def legalWrites (s : FencedDatabase π) (a : ℕ × FencedOp) : Prop := a.2.Legal s.db

/-- The tokens accepted for a job. -/
def acceptedOf (s : FencedDatabase π) (j : Uuid) : List ℤ :=
  (s.accepted.filter fun p ↦ p.1 = j).map Prod.snd

/-- The two sides show the same newest token of every job, and no accepted token is above it. -/
structure Agrees (s : FencedDatabase π) : Prop where
  fenceToken_eq : ∀ j row, s.db.job? j = some row →
    row.fenceToken = s.writer.newestAccepted j.str
  accepted_le : ∀ j t, t ∈ s.acceptedOf j → t ≤ s.writer.newestAccepted j.str
  sorted : ∀ j, (s.acceptedOf j).Pairwise (· ≤ ·)

/-- **The same refusals.** A legal write is stale for the database exactly if it is for the writer,
with the same token and the same newest one seen, and it is refused for no other reason. -/
theorem Agrees.stale_iff_check {s : FencedDatabase π} (h : s.Agrees) {op : FencedOp}
    (hl : op.Legal s.db) (now : ℕ) :
    (∀ e, op.exec s.db now = .error (.staleLease e) ↔ op.check s.writer = .error e) ∧
    ∀ x, op.exec s.db now = .error x → ∃ e, x = .staleLease e := by
  obtain ⟨row, st, hj, ht⟩ := hl
  have hnewest := h.fenceToken_eq _ row hj
  rcases FencedOp.exec_cases now hj ht with ⟨hle, db', row', hexec, -⟩ | ⟨hlt, hexec⟩
  · have hcheck : ∀ e, op.check s.writer ≠ .error e := by
      intro e
      rw [FencedOp.check]
      cases htok : op.write.fenceToken with
      | none => simp
      | some t =>
        rw [htok, Option.getD_some] at hle
        simp [FencedWriter.check, ← hnewest, not_lt.2 hle]
    exact ⟨fun e ↦ by simp [hexec, hcheck e], fun x hx ↦ absurd (hexec.symm.trans hx) (by simp)⟩
  · cases htok : op.write.fenceToken with
    | none =>
      rw [htok, Option.getD_none] at hlt
      exact absurd hlt (lt_irrefl _)
    | some t =>
      rw [htok, Option.getD_some] at hlt hexec
      have hcheck : op.check s.writer = .error ⟨op.write.jobId.str, t, row.fenceToken⟩ := by
        simp [FencedOp.check, htok, FencedWriter.check, ← hnewest, hlt]
      refine ⟨fun e ↦ by simp [hexec, hcheck], fun x hx ↦ ?_⟩
      rw [hexec] at hx
      exact ⟨_, (Except.error.inj hx).symm⟩

/-- What a legal write does to both sides: nothing to the writer and to the tokens of the jobs if it
carries no token or is refused, and otherwise its token becomes the newest. -/
theorem Agrees.step_cases {s s' : FencedDatabase π} (h : s.Agrees) {a : ℕ × FencedOp}
    (hl : a.2.Legal s.db) (hs : s.step a = some s') :
    (s'.writer = s.writer ∧ s'.accepted = s.accepted ∧
      ∀ j, (s'.db.job? j).map JobRow.fenceToken = (s.db.job? j).map JobRow.fenceToken) ∨
    ∃ t, a.2.write.fenceToken = some t ∧ s.writer.newestAccepted a.2.write.jobId.str ≤ t ∧
      s'.writer.newestAccepted = Function.update s.writer.newestAccepted a.2.write.jobId.str t ∧
      s'.accepted = s.accepted ++ [(a.2.write.jobId, t)] ∧
      ∀ j, (s'.db.job? j).map JobRow.fenceToken =
        if j = a.2.write.jobId then some t else (s.db.job? j).map JobRow.fenceToken := by
  obtain ⟨row, st, hj, ht⟩ := hl
  have hnewest := h.fenceToken_eq _ row hj
  obtain rfl := Option.some.inj hs
  rcases FencedOp.exec_cases a.1 hj ht with ⟨hle, db', row', hexec, hj', htok', hne⟩ | ⟨hlt, hexec⟩
  · cases htok : a.2.write.fenceToken with
    | none =>
      have hcheck : a.2.check s.writer = .ok s.writer := by
        rw [FencedOp.check, htok]
      refine .inl ⟨by simp only [hcheck], by simp only [hexec], fun j ↦ ?_⟩
      simp only [hexec]
      by_cases hjj : j = a.2.write.jobId
      · rw [hjj, hj', hj, Option.map_some, Option.map_some, htok', htok, Option.getD_none]
      · rw [hne j hjj]
    | some t =>
      rw [htok, Option.getD_some] at hle htok'
      have hcheck : a.2.check s.writer = .ok ⟨fun r ↦
          if r = a.2.write.jobId.str then t else s.writer.newestAccepted r⟩ := by
        simp [FencedOp.check, htok, FencedWriter.check, ← hnewest, not_lt.2 hle]
      refine .inr ⟨t, rfl, by rw [← hnewest]; exact hle, ?_, by simp only [hexec], fun j ↦ ?_⟩
      · simp only [hcheck]
        funext r
        rw [Function.update_apply]
      · simp only [hexec]
        by_cases hjj : j = a.2.write.jobId
        · rw [if_pos hjj, hjj, hj', Option.map_some, htok']
        · rw [if_neg hjj, hne j hjj]
  · obtain ⟨hiff, -⟩ := h.stale_iff_check ⟨row, st, hj, ht⟩ a.1
    have hcheck := (hiff _).1 hexec
    exact .inl ⟨by simp only [hcheck], by simp only [hexec], fun j ↦ by simp only [hexec]⟩

/-- **A legal write keeps the two in agreement**, accepted or refused. -/
theorem Agrees.step {s s' : FencedDatabase π} (h : s.Agrees) {a : ℕ × FencedOp}
    (hl : a.2.Legal s.db) (hs : s.step a = some s') : s'.Agrees := by
  rcases h.step_cases hl hs with ⟨hw, hacc, hjobs⟩ | ⟨t, htok, hle, hw, hacc, hjobs⟩
  · have hof (j : Uuid) : s'.acceptedOf j = s.acceptedOf j := by rw [acceptedOf, hacc, acceptedOf]
    refine ⟨fun j row hj ↦ ?_, fun j t ht ↦ ?_, fun j ↦ ?_⟩
    · have hmap := hjobs j
      rw [hj, Option.map_some] at hmap
      obtain ⟨row₀, hj₀, htok₀⟩ := Option.map_eq_some_iff.1 hmap.symm
      rw [hw, ← htok₀]
      exact h.fenceToken_eq j row₀ hj₀
    · rw [hw]
      exact h.accepted_le j t (hof j ▸ ht)
    · rw [hof]
      exact h.sorted j
  · have hof (j : Uuid) : s'.acceptedOf j =
        s.acceptedOf j ++ if j = a.2.write.jobId then [t] else [] := by
      rw [acceptedOf, hacc, acceptedOf, List.filter_append, List.map_append]
      by_cases hjj : j = a.2.write.jobId
      · simp [hjj]
      · simp [hjj, Ne.symm hjj]
    have hnewest (j : Uuid) : s'.writer.newestAccepted j.str =
        if j = a.2.write.jobId then t else s.writer.newestAccepted j.str := by
      rw [hw, Function.update_apply]
      by_cases hjj : j = a.2.write.jobId
      · rw [if_pos (congrArg Uuid.str hjj), if_pos hjj]
      · rw [if_neg fun hstr ↦ hjj (Uuid.str_inj hstr), if_neg hjj]
    refine ⟨fun j row hj ↦ ?_, fun j u hu ↦ ?_, fun j ↦ ?_⟩
    · have hmap := hjobs j
      rw [hj, Option.map_some] at hmap
      rw [hnewest]
      split at hmap
      · next hjj => rw [if_pos hjj, Option.some.inj hmap]
      · next hjj =>
        obtain ⟨row₀, hj₀, htok₀⟩ := Option.map_eq_some_iff.1 hmap.symm
        rw [if_neg hjj, ← htok₀]
        exact h.fenceToken_eq j row₀ hj₀
    · rw [hof, List.mem_append] at hu
      rw [hnewest]
      by_cases hjj : j = a.2.write.jobId
      · rw [if_pos hjj]
        rcases hu with hu | hu
        · have hold := h.accepted_le j u hu
          rw [hjj] at hold
          omega
        · rw [if_pos hjj, List.mem_singleton] at hu
          exact hu.le
      · rw [if_neg hjj] at hu ⊢
        exact h.accepted_le j u (hu.resolve_right List.not_mem_nil)
    · rw [hof, List.pairwise_append]
      refine ⟨h.sorted j, ?_, fun u hu v hv ↦ ?_⟩
      · split <;> simp
      · split at hv
        · next hjj =>
          have hold := h.accepted_le j u hu
          rw [hjj] at hold
          rw [List.mem_singleton] at hv
          omega
        · exact absurd hv List.not_mem_nil

/-- The two agree after any sequence of legal writes. -/
theorem agrees_of_reachable {s : FencedDatabase π}
    (h : (system π).Reachable legalWrites s) : s.Agrees := by
  refine h.induct ?_ fun s a s' _ ih hl hs ↦ ih.step hl hs
  rintro s ⟨hfresh, hw, hacc⟩
  refine ⟨fun j row hj ↦ ?_, fun j t ht ↦ ?_, fun j ↦ ?_⟩
  · obtain ⟨now, key, payload, rfl⟩ := hfresh j row hj
    rw [hw]
    rfl
  · rw [acceptedOf, hacc] at ht
    exact absurd ht List.not_mem_nil
  · rw [acceptedOf, hacc]
    exact List.Pairwise.nil

/-- **One fencing rule.** Along every sequence of legal writes from freshly submitted jobs, the
database and the writer show the same newest token of every job; the next write is stale for the one
exactly if it is for the other, with the same newest token seen; a write without a token moves
neither; and the tokens accepted for a job never decrease. -/
theorem one_fencing_rule {s : FencedDatabase π} (h : (system π).Reachable legalWrites s) :
    (∀ j row, s.db.job? j = some row → row.fenceToken = s.writer.newestAccepted j.str) ∧
    (∀ now (op : FencedOp), op.Legal s.db →
      (∀ e, op.exec s.db now = .error (.staleLease e) ↔ op.check s.writer = .error e) ∧
      ∀ x, op.exec s.db now = .error x → ∃ e, x = .staleLease e) ∧
    (∀ now (op : FencedOp) s', op.Legal s.db → op.write.fenceToken = none →
      s.step (now, op) = some s' → s'.writer = s.writer ∧
        ∀ j, (s'.db.job? j).map JobRow.fenceToken = (s.db.job? j).map JobRow.fenceToken) ∧
    ∀ j, (s.acceptedOf j).Pairwise (· ≤ ·) := by
  have ha := agrees_of_reachable h
  refine ⟨ha.fenceToken_eq, fun now op hl ↦ ha.stale_iff_check hl now,
    fun now op s' hl hnone hs ↦ ?_, ha.sorted⟩
  rcases ha.step_cases hl hs with ⟨hw, -, hjobs⟩ | ⟨t, htok, -⟩
  · exact ⟨hw, hjobs⟩
  · exact absurd (hnone.symm.trans htok) (by simp)

/-- One job, just submitted. -/
def oneJob : Database Unit := Database.empty.create 0 ⟨0⟩ "k" () "orbiter.jobs" []

/-- A holder is overtaken and writes again; then the job is dead-lettered, replayed and started. -/
def takeover : List (ℕ × FencedOp) :=
  [(1, .record { jobId := ⟨0⟩, event := .started, fenceToken := some 1 }),
    (2, .record { jobId := ⟨0⟩, event := .started, fenceToken := some 2 }),
    (3, .record { jobId := ⟨0⟩, event := .completed, fenceToken := some 1 }),
    (4, .record { jobId := ⟨0⟩, event := .deadLettered }),
    (5, .replay ⟨0⟩ "orbiter.jobs"),
    (6, .record { jobId := ⟨0⟩, event := .started, fenceToken := some 2 })]

/-- A takeover, then quarantine and replay: tokens 1, 2 and 2 are accepted, the late 1 is not. -/
theorem one_fencing_rule_takeover : ∃ s : FencedDatabase Unit,
    (system Unit).Reachable legalWrites s ∧ s.acceptedOf ⟨0⟩ = [1, 2, 2] ∧
    (∀ j row, s.db.job? j = some row → row.fenceToken = s.writer.newestAccepted j.str) ∧
    ∀ j, (s.acceptedOf j).Pairwise (· ≤ ·) := by
  have hrun : ((system Unit).execGuarded
      (fun s a ↦ (s.db.job? a.2.write.jobId).any fun row ↦
        (transitions row.state a.2.write.event).isSome)
      ⟨oneJob, .empty, []⟩ takeover).any
        (fun s ↦ decide (s.acceptedOf ⟨0⟩ = [1, 2, 2])) = true := by
    rfl
  obtain ⟨s, hl, hs⟩ := TransitionSystem.exists_leads_of_execGuarded
    (G := legalWrites) (fun _ _ hg ↦ FencedOp.legal_of_isLegal hg) hrun
  have hsubmit : Database.empty.submitJob 0 ⟨0⟩ "k" () "orbiter.jobs" [] =
      .ok ((⟨0⟩, true), oneJob) := rfl
  have hfresh : Fresh oneJob := fresh_empty.submitJob hsubmit
  have hreach : (system Unit).Reachable legalWrites s := ⟨_, ⟨hfresh, rfl, rfl⟩, hl⟩
  obtain ⟨hagree, -, -, hsorted⟩ := one_fencing_rule hreach
  exact ⟨s, hreach, of_decide_eq_true hs, hagree, hsorted⟩

end FencedDatabase

end Orbiter
