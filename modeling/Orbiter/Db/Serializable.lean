import Orbiter.Db.Isolation
import Orbiter.Foundation.SerialRun

/-!
# Statement by statement is one call at a time

However the statements of the transactions interleave, the committed contents, up to serial ids, and
what the calls returned or raised are those of a serial run of the same calls. This connects the two
models of the repository: whatever is proved of the transactions as functions, over all sequences of
them, holds of the statement-level server, job by job.

## How a call gets its place

* a call that commits a write, or returns a job it found, takes its place when it commits
  (`Isolated.exec_commit`);
* one that raises takes its place when it reads what it raises for, and changes nothing
  (`Ran.exec_idle`);
* one whose connection dies has none.

`Linearized` is the invariant: an order of the calls placed so far that is a serial run and ends in
contents that agree with the committed ones. Steps that place no call keep the order
(`Linearized.stay`), the others put one call at its end (`Linearized.place`), and
`linearized_of_reachable` is the induction. `serializable` is what a caller sees of it.

One kind of call has its place elsewhere than its commit: a replay that finds no job has seen the
database before its commit, and the job may have been submitted and committed in between. It is left
out of the order, and `replay_out_of_order` shows that it has to be. Ids are the other thing the
serial run does not have: those of two jobs may be drawn in one order and committed in the other.
-/

namespace Orbiter

variable {π : Type}

/-- One call at a time, at its own `now()`. -/
def serialExec (db : Database π) (i : ℕ × RepoCall π) : Except DbError (SqlResult × Database π) :=
  (i.2.exec db i.1).map fun p ↦ (p.1.toSql, p.2)

/-- A call and what it came to. -/
abbrev SerialEntry (π : Type) : Type := (ℕ × RepoCall π) × Except DbError SqlResult

/-- Exits that leave nothing behind: an exception, and a replay that found no job. -/
def isIdle : Except DbError SqlResult → Bool
  | .error _ | .ok (.replayed none) => true
  | .ok _ => false

/-- The replay found no job. -/
def Tx.foundNothing (tx : Tx π) : Bool :=
  match tx.pc with
  | .finished (.ok (.replayed none)) => true
  | _ => false

namespace Server

/-- A committed transaction that counts. -/
def counted (s : Server π) (counts : Tx π → Bool) (tid : ℕ) : Bool :=
  s.txs[tid]?.any fun tx ↦ tx.status = .committed && counts tx

/-- **A serial order** of the calls that returned or raised, with what they returned or raised: run
one at a time they come to the same, and leave the same contents. The committed calls that count
stand in the order of their commits. -/
structure Serializes (s : Server π) (counts : Tx π → Bool) (order : List (ℕ × SerialEntry π)) :
    Prop where
  nodup : (order.map Prod.fst).Nodup
  outcome : ∀ x ∈ order, ∃ tx exit, s.txs[x.1]? = some tx ∧
    (tx.status = .committed ∨ tx.status = .rolledBack) ∧ tx.pc = .finished exit ∧
    x.2 = ((tx.now, tx.call), exit)
  all : ∀ (t : ℕ) (tx : Tx π), s.txs[t]? = some tx →
    (tx.status = .committed ∨ tx.status = .rolledBack) → t ∈ order.map Prod.fst
  run : ∃ db, SerialRun serialExec .empty (order.map Prod.snd) db ∧ db.Agree s.db
  consistent : (order.map Prod.fst).filter (s.counted counts) =
    s.commits.filter (s.counted counts)

/-! ### One call -/

section OneCall

variable {s s' : Server π} {tid : ℕ} {tx tx' : Tx π} {ev : Option EventRow}
  {out : Option (OutboxRow π)} {db₀ : Database π}

theorem serialExec_submit (db : Database π) (now : ℕ) (a : Submission π) :
    serialExec db (now, a.call) =
      (db.submitJob now a.jobId a.idempotencyKey a.payload a.subject a.carrier).map
        fun p ↦ (.submitted (some p.1.1) p.1.2, p.2) := by
  rw [serialExec, Submission.call, RepoCall.exec]
  cases db.submitJob now a.jobId a.idempotencyKey a.payload a.subject a.carrier <;> rfl

/-- **A commit is the whole call**: run at once on contents that agree, the call returns the same
and makes contents that agree. -/
theorem Isolated.exec_commit (hs : s.Isolated) (hx : s.active? tid = some tx) {r : SqlResult}
    (hpc : tx.pc = .finished (.ok r)) (hr : isIdle (.ok r) = false) (hag : db₀.Agree s.db) :
    ∃ db₁, serialExec db₀ (tx.now, tx.call) = .ok (r, db₁) ∧
      db₁.Agree (s.commit tid tx).db := by
  have hadds := hs.adds_commit hx
  have hready : Ready s tid tx r := by
    have hloc := hs.at_pc tid tx hx
    rwa [hpc] at hloc
  rcases hready with @⟨a, h⟩ | @⟨a, j, hcall, hclean, hj⟩ | @⟨w, row, next, hcall, h⟩ |
    @⟨jobId, subject, row, next, hcall, h⟩ | _
  · rw [h.version, h.jobEvents, h.outbox] at hadds
    refine ⟨db₀.create tx.now a.jobId a.idempotencyKey a.payload a.subject a.carrier, ?_,
      hag.adds (Database.adds_create ..) hadds⟩
    have hkey := hag.jobByKey?_eq_none.2 h.keyFree
    have hjob := (hag.job? a.jobId).trans h.absent
    rw [h.call, serialExec_submit, Database.submitJob, hkey, hjob]
    rfl
  · rw [hclean.version, hclean.jobEvents, hclean.outbox] at hadds
    refine ⟨db₀, ?_, hag.adds (.nothing db₀) hadds⟩
    obtain ⟨row, hrow, hkey⟩ := hs.keys.jobByKey?_eq_some.1 hj
    have hj₀ : db₀.jobByKey? a.idempotencyKey = some j :=
      (hag.keysUnique hs.keys).jobByKey?_eq_some.2 ⟨row, (hag.job? j).trans hrow, hkey⟩
    rw [hcall, serialExec_submit, Database.submitJob, hj₀]
    rfl
  · rw [h.version, h.jobEvents, h.outbox] at hadds
    refine ⟨db₀.accept tx.now w row next, ?_, hag.adds (Database.adds_accept ..) hadds⟩
    have hx : db₀.recordEvent tx.now w = .ok (next, db₀.accept tx.now w row next) :=
      Database.applyEvent_eq_ok.2 ⟨row, (hag.job? _).trans h.held, h.legal, h.token, rfl⟩
    rw [hcall, serialExec, RepoCall.exec, hx]
    rfl
  · rw [h.version, h.jobEvents, h.outbox] at hadds
    have hrow : db₀.job? jobId = some row := (hag.job? _).trans h.held
    have hx : db₀.applyEvent tx.now (Database.replayWrite jobId) =
        .ok (next, db₀.accept tx.now (Database.replayWrite jobId) row next) :=
      Database.applyEvent_eq_ok.2 ⟨row, hrow, h.legal, h.token, rfl⟩
    refine ⟨_, ?_, hag.adds ((Database.adds_accept db₀ tx.now _ row next).enqueueReplay tx.now jobId
      subject row.payload) hadds⟩
    rw [hcall, serialExec, RepoCall.exec, Database.replayJob, hrow]
    dsimp only
    rw [hx]
    rfl
  · contradiction

/-- A refusal of `_apply_event` is what the call raises. -/
theorem serialExec_of_refused {c : RepoCall π} {w : Write} {again : Option (String × π)} {now : ℕ}
    {e : DbError} (hc : c.Writes w again)
    (hread : ∀ subject payload, again = some (subject, payload) → db₀.job? w.jobId ≠ none)
    (h : db₀.applyEvent now w = .error e) : serialExec db₀ (now, c) = .error e := by
  rcases hc with _ | ⟨jobId, subject, payload⟩
  · rw [serialExec, RepoCall.exec, Database.recordEvent, h]
    rfl
  · obtain ⟨row, hrow⟩ := Option.ne_none_iff_exists'.1 (hread subject payload rfl)
    rw [serialExec, RepoCall.exec, Database.replayJob, show db₀.job? jobId = some row from hrow]
    dsimp only
    rw [h]
    rfl

/-- A payload that was read belongs to a job that is there. -/
theorem ReadPayload.ne_none {w : Write} {again : Option (String × π)} (h : s.ReadPayload w again)
    (hag : db₀.Agree s.db) (subject : String) (payload : π)
    (hagain : again = some (subject, payload)) : db₀.job? w.jobId ≠ none := by
  obtain ⟨row, hrow, -⟩ := h subject payload hagain
  rw [hag.job?, hrow]
  exact Option.some_ne_none _

/-- **What a call raises, or a replay that finds nothing, is decided by one read**: run at once on
contents that agree, the call comes to the same, and changes nothing. -/
theorem Ran.exec_idle {exit : Except DbError SqlResult} (hran : Ran s tid tx tx.pc tx' ev out)
    (hloc : Local s tid tx tx.pc) (hpc : tx'.pc = .finished exit) (hidle : isIdle exit = true)
    (hag : db₀.Agree s.db) :
    serialExec db₀ (tx.now, tx.call) = exit.map fun r ↦ (r, db₀) := by
  generalize tx.pc = pc at hran hloc
  cases hran with
  | idTaken a hk hid =>
    obtain rfl := TxPc.finished.inj hpc
    obtain ⟨hcall, hclean⟩ := hloc
    rw [seen_of_none hclean.version] at hk hid
    have hkey := hag.jobByKey?_eq_none.2 hk
    have hsome : (db₀.job? a.jobId).isSome = true := by
      rw [hag.job?]
      exact Option.isSome_iff_ne_none.2 hid
    rw [hcall, serialExec_submit, Database.submitJob, hkey]
    dsimp only
    rw [if_pos hsome]
    rfl
  | existing a =>
    obtain rfl := TxPc.finished.inj hpc
    contradiction
  | posted a =>
    obtain rfl := TxPc.finished.inj hpc
    contradiction
  | reposted jobId subject payload next =>
    obtain rfl := TxPc.finished.inj hpc
    contradiction
  | noJob jobId subject hj =>
    obtain rfl := TxPc.finished.inj hpc
    obtain ⟨hcall, hclean⟩ := hloc
    rw [seen_of_none hclean.version] at hj
    rw [hcall, serialExec, RepoCall.exec, Database.replayJob, (hag.job? jobId).trans hj]
    rfl
  | missing w again hj =>
    obtain rfl := TxPc.finished.inj hpc
    obtain ⟨hcall, hread, hclean⟩ := hloc
    rw [seen_of_none hclean.version] at hj
    refine serialExec_of_refused hcall (hread.ne_none hag) ?_
    rw [Database.applyEvent, (hag.job? _).trans hj]
  | refused w again hj hfree ht =>
    obtain rfl := TxPc.finished.inj hpc
    obtain ⟨hcall, hread, hclean⟩ := hloc
    rw [seen_of_none hclean.version] at hj
    refine serialExec_of_refused hcall (hread.ne_none hag) ?_
    rw [Database.applyEvent, (hag.job? _).trans hj]
    dsimp only
    rw [apply_some_eq_error.2 ⟨ht, rfl⟩]
  | stale w again lrow next hstale =>
    obtain rfl := TxPc.finished.inj hpc
    obtain ⟨hcall, hread, hclean, -, row, hrow, rfl, hnext⟩ := hloc
    rw [seen_of_none hclean.version] at hstale
    refine serialExec_of_refused hcall (hread.ne_none hag) ?_
    rw [Database.applyEvent, (hag.job? _).trans hrow]
    dsimp only
    rw [apply_some_eq_ok.2 hnext]
    dsimp only
    rw [if_neg (not_le.2 (hstale row hrow))]
  | appended w again next =>
    rcases again with _ | ⟨subject, payload⟩
    · obtain rfl := TxPc.finished.inj hpc
      contradiction
    · contradiction
  | _ => contradiction

end OneCall

/-! ### All calls -/

/-- A transaction has its place in the order: it is committed, or has come to an idle exit. -/
def Placed (tx : Tx π) (exit : Except DbError SqlResult) : Prop :=
  tx.pc = .finished exit ∧ (tx.status = .committed ∨ isIdle exit = true)

/-- The order so far, with the idle exits of transactions that are not over yet, or are dead. -/
structure Linearized (s : Server π) (order : List (ℕ × SerialEntry π)) : Prop where
  nodup : (order.map Prod.fst).Nodup
  outcome : ∀ x ∈ order, ∃ tx exit, s.txs[x.1]? = some tx ∧ Placed tx exit ∧
    x.2 = ((tx.now, tx.call), exit)
  all : ∀ (t : ℕ) (tx : Tx π) (exit : Except DbError SqlResult), s.txs[t]? = some tx →
    Placed tx exit → t ∈ order.map Prod.fst
  run : ∃ db, SerialRun serialExec .empty (order.map Prod.snd) db ∧ db.Agree s.db
  consistent : (order.map Prod.fst).filter (s.counted fun tx ↦ !tx.foundNothing) =
    s.commits.filter (s.counted fun tx ↦ !tx.foundNothing)
  commits : ∀ t ∈ s.commits, s.committed t = true
  /-- What returned or raised has a place. -/
  results : ∀ (t : ℕ) (tx : Tx π), s.txs[t]? = some tx →
    tx.status = .committed ∨ tx.status = .rolledBack → ∃ exit, Placed tx exit

section Linear

variable {s s' : Server π} {tid : ℕ} {tx tx' : Tx π} {ev : Option EventRow}
  {out : Option (OutboxRow π)} {order : List (ℕ × SerialEntry π)}

variable (ev out) in
/-- Visible contents do not change while nothing is committed. -/
theorem agree_of_committed (hjobs : s'.jobs = s.jobs) (hcom : s'.committed = s.committed)
    (hx : s.committed tid = false) (hev : s'.jobEvents = s.jobEvents.insertOwned tid ev)
    (hout : s'.outbox = s.outbox.insertOwned tid out) : s.db.Agree s'.db where
  job? j := (job?_of_jobs hjobs j).symm
  eventRows j := by
    rw [Database.eventRows, Database.eventRows, db, db, hcom, hev]
    exact (SerialTable.map_select_visible_insertOwned _ hx _ _).symm
  outboxRows j := by
    rw [Database.outboxRows, Database.outboxRows, db, db, hcom, hout]
    exact (SerialTable.map_select_visible_insertOwned _ hx _ _).symm

/-- Beginning a transaction changes nothing that is committed. -/
theorem agree_begin (now : ℕ) (c : RepoCall π) :
    s.db.Agree ({ s with txs := s.txs ++ [{ call := c, now := now, pc := .start c }] } :
      Server π).db := by
  have hnone : s.committed s.txs.length = false := by
    rw [committed, List.getElem?_eq_none (le_refl _)]
    rfl
  exact agree_of_committed none none rfl (funext (committed_begin s rfl)) hnone rfl rfl

theorem RanTo.committed (hto : RanTo s tid tx' ev out s') (hx : s.active? tid = some tx)
    (hact : tx'.status = .active) : s'.committed = s.committed := by
  funext t
  rw [Server.committed, hto.txs]
  exact committed_set hx (by rw [hact]; decide) _ rfl t

/-- A statement changes nothing that is committed. -/
theorem RanTo.agree (hto : RanTo s tid tx' ev out s') (hx : s.active? tid = some tx)
    (hact : tx'.status = .active) : s.db.Agree s'.db :=
  agree_of_committed ev out hto.jobs (hto.committed hx hact) (committed_eq_false hx) hto.jobEvents
    hto.outbox

theorem agree_ended (hx : s.active? tid = some tx) {status : TxStatus} (h : status ≠ .committed) :
    s.db.Agree (s.setTx tid (tx.ended status)).db := by
  have hcom : (s.setTx tid (tx.ended status)).committed = s.committed :=
    funext fun t ↦ committed_set hx (show (tx.ended status).status ≠ _ from h) _ rfl t
  exact agree_of_committed none none rfl hcom (committed_eq_false hx) rfl rfl

/-- A transaction that is not placed is not in the order. -/
theorem Linearized.not_mem (hl : Linearized s order) (hget : s.txs[tid]? = some tx)
    (h : ∀ exit, ¬ Placed tx exit) : tid ∉ order.map Prod.fst := by
  intro hmem
  obtain ⟨x, hxmem, rfl⟩ := List.mem_map.1 hmem
  obtain ⟨tx₀, exit, hget₀, hplaced, -⟩ := hl.outcome x hxmem
  obtain rfl := Option.some.inj (hget₀.symm.trans hget)
  exact h exit hplaced

/-- A transaction that does not count changes no other's count. -/
theorem counted_set {counts : Tx π → Bool} (hx : s.active? tid = some tx) {l : List (Tx π)}
    (hl : l = s.txs.set tid tx') (h : (tx'.status = .committed && counts tx') = false) (t : ℕ) :
    (l[t]?.any fun x ↦ decide (x.status = .committed) && counts x) = s.counted counts t := by
  obtain ⟨hget, hact⟩ := active?_eq_some.1 hx
  subst hl
  by_cases ht : tid = t
  · subst ht
    rw [counted, hget, List.getElem?_set_self (List.lt_length_of_getElem? hget), Option.any_some,
      Option.any_some, hact]
    exact h
  · rw [List.getElem?_set_ne ht, counted]

/-- The transactions go on: a place once taken is kept. -/
def Keeps (s s' : Server π) : Prop :=
  ∀ (t : ℕ) (tx : Tx π), s.txs[t]? = some tx → ∃ tx', s'.txs[t]? = some tx' ∧ tx'.now = tx.now ∧
    tx'.call = tx.call ∧ ∀ exit, Placed tx exit → Placed tx' exit

/-- What has been placed stays placed when its transaction moves on. -/
theorem keeps_set (hget : s.txs[tid]? = some tx) (hl : s'.txs = s.txs.set tid tx')
    (hnow : tx'.now = tx.now) (hcall : tx'.call = tx.call)
    (hp : ∀ exit, Placed tx exit → Placed tx' exit) : Keeps s s' := by
  intro t x hx
  rw [hl]
  by_cases ht : tid = t
  · subst ht
    obtain rfl := Option.some.inj (hget.symm.trans hx)
    exact ⟨tx', List.getElem?_set_self (List.lt_length_of_getElem? hget), hnow, hcall, hp⟩
  · exact ⟨x, by rw [List.getElem?_set_ne ht, hx], rfl, rfl, fun _ h ↦ h⟩

/-- An entry of the order keeps its transaction and its outcome. -/
theorem outcome_of_keeps (hk : Keeps s s') {x : ℕ × SerialEntry π}
    (h : ∃ tx exit, s.txs[x.1]? = some tx ∧ Placed tx exit ∧ x.2 = ((tx.now, tx.call), exit)) :
    ∃ tx exit, s'.txs[x.1]? = some tx ∧ Placed tx exit ∧ x.2 = ((tx.now, tx.call), exit) := by
  obtain ⟨tx, exit, hget, hp, heq⟩ := h
  obtain ⟨tx', hget', hnow, hcall, hp'⟩ := hk x.1 tx hget
  exact ⟨tx', exit, hget', hp' exit hp, by rw [hnow, hcall, heq]⟩

/-- The order stays. -/
theorem Linearized.stay (hl : Linearized s order) (hk : Keeps s s')
    (hback : ∀ (t : ℕ) (tx' : Tx π) (exit : Except DbError SqlResult), s'.txs[t]? = some tx' →
      Placed tx' exit → ∃ tx, s.txs[t]? = some tx ∧ Placed tx exit)
    (hag : s.db.Agree s'.db)
    (hcount : ∀ t, s'.counted (fun tx ↦ !tx.foundNothing) t =
      s.counted (fun tx ↦ !tx.foundNothing) t)
    (hcommits : s'.commits.filter (s'.counted fun tx ↦ !tx.foundNothing) =
      s.commits.filter (s.counted fun tx ↦ !tx.foundNothing))
    (hcom : ∀ t ∈ s'.commits, s'.committed t = true)
    (hres : ∀ (t : ℕ) (tx : Tx π), s'.txs[t]? = some tx →
      tx.status = .committed ∨ tx.status = .rolledBack → ∃ exit, Placed tx exit) :
    Linearized s' order where
  nodup := hl.nodup
  outcome x hx := outcome_of_keeps hk (hl.outcome x hx)
  all t tx' exit hget hp := by
    obtain ⟨tx, hget₀, hp₀⟩ := hback t tx' exit hget hp
    exact hl.all t tx exit hget₀ hp₀
  run := by
    obtain ⟨db₀, hrun, hag₀⟩ := hl.run
    exact ⟨db₀, hrun, hag₀.trans hag⟩
  consistent := by
    rw [hcommits, ← hl.consistent]
    exact List.filter_congr fun t _ ↦ hcount t
  commits := hcom
  results := hres

/-- One more call takes its place, at the end. -/
theorem Linearized.place (hl : Linearized s order) (hk : Keeps s s')
    (hnew : tid ∉ order.map Prod.fst) {exit : Except DbError SqlResult}
    (hget : s'.txs[tid]? = some tx') (hp : Placed tx' exit)
    (hback : ∀ (t : ℕ) (tx₁ : Tx π) (exit : Except DbError SqlResult), s'.txs[t]? = some tx₁ →
      Placed tx₁ exit → t = tid ∨ ∃ tx, s.txs[t]? = some tx ∧ Placed tx exit)
    (hexec : ∀ db₀ : Database π, db₀.Agree s.db → ∃ db₁ : Database π, db₁.Agree s'.db ∧
      ∀ l, SerialRun serialExec .empty l db₀ →
        SerialRun serialExec .empty (l ++ [((tx'.now, tx'.call), exit)]) db₁)
    (hcons : ((order.map Prod.fst) ++ [tid]).filter (s'.counted fun tx ↦ !tx.foundNothing) =
      s'.commits.filter (s'.counted fun tx ↦ !tx.foundNothing))
    (hcom : ∀ t ∈ s'.commits, s'.committed t = true)
    (hres : ∀ (t : ℕ) (tx : Tx π), s'.txs[t]? = some tx →
      tx.status = .committed ∨ tx.status = .rolledBack → ∃ exit, Placed tx exit) :
    Linearized s' (order ++ [(tid, ((tx'.now, tx'.call), exit))]) where
  nodup := by
    rw [List.map_append]
    refine List.nodup_append.2 ⟨hl.nodup, List.nodup_singleton _, fun t ht t' ht' heq ↦ ?_⟩
    obtain rfl := List.mem_singleton.1 ht'
    exact hnew (heq ▸ ht)
  outcome x hx := by
    rcases List.mem_append.1 hx with hx | hx
    · exact outcome_of_keeps hk (hl.outcome x hx)
    · obtain rfl := List.mem_singleton.1 hx
      exact ⟨tx', exit, hget, hp, rfl⟩
  all t tx₁ exit₁ hget₁ hp₁ := by
    rw [List.map_append]
    rcases hback t tx₁ exit₁ hget₁ hp₁ with rfl | ⟨tx, hget₀, hp₀⟩
    · exact List.mem_append_right _ (List.mem_singleton_self _)
    · exact List.mem_append_left _ (hl.all t tx exit₁ hget₀ hp₀)
  run := by
    obtain ⟨db₀, hrun, hag₀⟩ := hl.run
    obtain ⟨db₁, hag₁, hrun'⟩ := hexec db₀ hag₀
    rw [List.map_append]
    exact ⟨db₁, hrun' _ hrun, hag₁⟩
  consistent := by
    rw [List.map_append]
    exact hcons
  commits := hcom
  results := hres

theorem not_placed_start {c : RepoCall π} {now : ℕ} (exit : Except DbError SqlResult) :
    ¬ Placed { call := c, now := now, pc := .start c } exit := by
  rintro ⟨hpc, -⟩
  cases c <;> exact nomatch hpc

/-- An open transaction is placed by its exit alone. -/
theorem placed_iff_of_active (hact : tx.status = .active) {exit : Except DbError SqlResult} :
    Placed tx exit ↔ tx.pc = .finished exit ∧ isIdle exit = true := by
  rw [Placed, hact]
  simp

theorem Linearized.begin (hl : Linearized s order) (now : ℕ) (c : RepoCall π) :
    Linearized ({ s with txs := s.txs ++ [{ call := c, now := now, pc := .start c }] } : Server π)
      order := by
  have hcom : ∀ t, ({ s with txs := s.txs ++ [{ call := c, now := now, pc := .start c }] } :
      Server π).committed t = s.committed t := committed_begin s rfl
  have hcount : ∀ t, ({ s with txs := s.txs ++ [{ call := c, now := now, pc := .start c }] } :
      Server π).counted (fun tx ↦ !tx.foundNothing) t =
        s.counted (fun tx ↦ !tx.foundNothing) t := by
    intro t
    rw [counted, counted, List.getElem?_append]
    split
    · rfl
    · next hlt =>
      rw [List.getElem?_eq_none (not_lt.1 hlt), List.getElem?_singleton]
      split <;> rfl
  refine hl.stay (fun t tx hget ↦ ?_) (fun t tx' exit hget hp ↦ ?_) ?_ hcount ?_ ?_
    fun t tx hget hst ↦ ?_
  · exact ⟨tx, List.getElem?_concat_of_some hget _, rfl, rfl, fun _ h ↦ h⟩
  · rcases List.getElem?_concat_eq_some hget with hold | ⟨-, -, rfl⟩
    · exact ⟨tx', hold, hp⟩
    · exact absurd hp (not_placed_start exit)
  · exact agree_begin now c
  · exact List.filter_congr fun t _ ↦ hcount t
  · intro t ht
    rw [hcom]
    exact hl.commits t ht
  · rcases List.getElem?_concat_eq_some hget with hold | ⟨-, -, rfl⟩
    · exact hl.results t tx hold hst
    · exact absurd hst (by simp)

/-- A transaction that ends without a commit keeps the order: it was placed when it raised, or
never. -/
theorem Linearized.drop (hl : Linearized s order) (hx : s.active? tid = some tx) {status : TxStatus}
    (hnc : status ≠ .committed)
    (hrb : status = .rolledBack → ∃ e, tx.pc = .finished (.error e)) :
    Linearized (s.setTx tid (tx.ended status)) order := by
  obtain ⟨hget, hact⟩ := active?_eq_some.1 hx
  have hplaced : ∀ exit, Placed (tx.ended status) exit ↔ Placed tx exit := by
    intro exit
    rw [placed_iff_of_active hact]
    simp [Placed, Tx.ended, hnc]
  have hcom : ∀ t, (s.setTx tid (tx.ended status)).committed t = s.committed t :=
    fun t ↦ committed_set hx (show (tx.ended status).status ≠ _ from hnc) _ rfl t
  have hcount : ∀ t, (s.setTx tid (tx.ended status)).counted (fun tx ↦ !tx.foundNothing) t =
      s.counted (fun tx ↦ !tx.foundNothing) t :=
    counted_set hx rfl (by simp [Tx.ended, hnc])
  refine hl.stay (keeps_set hget rfl rfl rfl fun exit ↦ (hplaced exit).2)
    (fun t tx' exit hget' hp ↦ ?_) ?_ hcount ?_ ?_ fun t tx' hget' hst ↦ ?_
  · rcases List.getElem?_set_eq_some hget' with ⟨rfl, rfl⟩ | ⟨-, hold⟩
    · exact ⟨tx, hget, (hplaced exit).1 hp⟩
    · exact ⟨tx', hold, hp⟩
  · exact agree_ended hx hnc
  · exact List.filter_congr fun t _ ↦ hcount t
  · intro t ht
    rw [hcom]
    exact hl.commits t ht
  · rcases List.getElem?_set_eq_some hget' with ⟨rfl, rfl⟩ | ⟨-, hold⟩
    · obtain ⟨e, hpc⟩ := hrb (hst.resolve_left hnc)
      exact ⟨.error e, hpc, .inr rfl⟩
    · exact hl.results t tx' hold hst

/-- A statement does not change what was called, or when. -/
theorem Ran.call {pc : TxPc π} (hran : Ran s tid tx pc tx' ev out) :
    tx'.call = tx.call ∧ tx'.now = tx.now := by
  cases hran <;> exact ⟨rfl, rfl⟩

theorem Ran.not_finished {exit : Except DbError SqlResult}
    (hran : Ran s tid tx (.finished exit) tx' ev out) : False := nomatch hran

/-- **A statement** places its call if that call is now bound to raise or to find nothing. -/
theorem Linearized.run_step (hl : Linearized s order) (hs : s.Isolated)
    (hx : s.active? tid = some tx) (hran : Ran s tid tx tx.pc tx' ev out)
    (hto : RanTo s tid tx' ev out s') : ∃ order', Linearized s' order' := by
  obtain ⟨hget, hact⟩ := active?_eq_some.1 hx
  obtain ⟨hcall, hnow⟩ := hran.call
  have hact' : tx'.status = .active := hran.status.trans hact
  have hnot : ∀ exit, ¬ Placed tx exit := by
    rintro exit ⟨hpc, -⟩
    rw [hpc] at hran
    exact hran.not_finished
  have hget' : s'.txs[tid]? = some tx' := by
    rw [hto.txs]
    exact List.getElem?_set_self (List.lt_length_of_getElem? hget)
  have hcom : ∀ t, s'.committed t = s.committed t := congrFun (hto.committed hx hact')
  have hcount : ∀ t, s'.counted (fun tx ↦ !tx.foundNothing) t =
      s.counted (fun tx ↦ !tx.foundNothing) t := by
    intro t
    rw [counted, hto.txs]
    exact counted_set hx rfl (by rw [hact']; rfl) t
  have hag : s.db.Agree s'.db := hto.agree hx hact'
  have hkeep : Keeps s s' := keeps_set hget hto.txs hnow hcall fun exit h ↦ absurd h (hnot exit)
  have hcommits : ∀ t ∈ s'.commits, s'.committed t = true := by
    intro t ht
    rw [hcom]
    exact hl.commits t (hto.commits ▸ ht)
  have hres : ∀ (t : ℕ) (x : Tx π), s'.txs[t]? = some x →
      x.status = .committed ∨ x.status = .rolledBack → ∃ exit, Placed x exit := by
    intro t x hgt hst
    rw [hto.txs] at hgt
    rcases List.getElem?_set_eq_some hgt with ⟨rfl, rfl⟩ | ⟨-, hold⟩
    · exact absurd hst (by simp [hact'])
    · exact hl.results t x hold hst
  have hback : ∀ (t : ℕ) (x : Tx π) (exit : Except DbError SqlResult), s'.txs[t]? = some x →
      Placed x exit → (t = tid ∧ x = tx') ∨ ∃ tx, s.txs[t]? = some tx ∧ Placed tx exit := by
    intro t x exit hgt hp
    rw [hto.txs] at hgt
    rcases List.getElem?_set_eq_some hgt with ⟨rfl, rfl⟩ | ⟨-, hold⟩
    · exact .inl ⟨rfl, rfl⟩
    · exact .inr ⟨x, hold, hp⟩
  by_cases hplaced : ∃ exit, Placed tx' exit
  · -- The statement decides: an exception, or a replay that found nothing.
    obtain ⟨exit, hp⟩ := hplaced
    have hp' := (placed_iff_of_active hact').1 hp
    refine ⟨_, hl.place hkeep (hl.not_mem hget hnot) hget' hp
      (fun t x e hgt hpx ↦ (hback t x e hgt hpx).imp_left And.left) (fun db₀ hag₀ ↦ ?_) ?_ hcommits
      hres⟩
    · refine ⟨db₀, hag₀.trans hag, fun l hrun ↦ ?_⟩
      have hexec := hran.exec_idle (hs.at_pc tid tx hx) hp'.1 hp'.2 hag₀
      rw [hnow, hcall]
      rcases exit with e | r
      · exact hrun.concat_error hexec
      · exact hrun.concat_ok hexec
    · have hself : s'.counted (fun tx ↦ !tx.foundNothing) tid = false := by
        rw [counted, hget', Option.any_some, hact']
        rfl
      rw [List.filter_append, List.filter_cons_of_neg (by rw [hself]; simp), List.filter_nil,
        List.append_nil, hto.commits, List.filter_congr fun t _ ↦ hcount t, hl.consistent]
      exact List.filter_congr fun t _ ↦ (hcount t).symm
  · refine ⟨order, hl.stay hkeep (fun t x exit hgt hp ↦ ?_) hag hcount ?_ hcommits hres⟩
    · rcases hback t x exit hgt hp with ⟨-, rfl⟩ | h
      · exact absurd ⟨exit, hp⟩ hplaced
      · exact h
    · rw [hto.commits]
      exact List.filter_congr fun t _ ↦ hcount t

/-- The transactions left out are the replays that found no job. -/
theorem foundNothing_eq {r : SqlResult} (hpc : tx.pc = .finished (.ok r)) :
    tx.foundNothing = isIdle (.ok r) := by
  rw [Tx.foundNothing, hpc]
  rcases r with _ | _ | (_ | _) <;> rfl

/-- The commit of a replay that found nothing shows nothing. -/
theorem Isolated.agree_commit (hs : s.Isolated) (hx : s.active? tid = some tx) {r : SqlResult}
    (hpc : tx.pc = .finished (.ok r)) (hidle : isIdle (.ok r) = true) :
    s.db.Agree (s.commit tid tx).db := by
  have hadds := hs.adds_commit hx
  have hready : Ready s tid tx r := by
    have hloc := hs.at_pc tid tx hx
    rwa [hpc] at hloc
  rcases hready with _ | _ | _ | _ | ⟨-, hclean⟩
  case nothing =>
    rw [hclean.version, hclean.jobEvents, hclean.outbox] at hadds
    exact (Database.Agree.refl _).adds (.nothing _) hadds
  all_goals exact nomatch hidle

/-- **A commit** places its call at the end of the order. -/
theorem Linearized.commit_step (hl : Linearized s order) (hs : s.Isolated)
    (hx : s.active? tid = some tx) {r : SqlResult} (hpc : tx.pc = .finished (.ok r)) :
    ∃ order', Linearized (s.commit tid tx) order' := by
  obtain ⟨hget, hact⟩ := active?_eq_some.1 hx
  have hlt := List.lt_length_of_getElem? hget
  have hget' : (s.commit tid tx).txs[tid]? = some (tx.ended .committed) :=
    List.getElem?_set_self hlt
  have hplaced : Placed (tx.ended .committed) (.ok r) := ⟨hpc, .inl rfl⟩
  have hkeep : Keeps s (s.commit tid tx) := keeps_set hget rfl rfl rfl fun exit h ↦ ⟨h.1, .inl rfl⟩
  have hcommits : ∀ t ∈ (s.commit tid tx).commits, (s.commit tid tx).committed t = true := by
    intro t ht
    rw [committed_commit hx, Bool.or_eq_true_iff, decide_eq_true_eq]
    rcases List.mem_append.1 ht with ht | ht
    · exact .inl (hl.commits t ht)
    · exact .inr (List.mem_singleton.1 ht)
  have hres : ∀ (t : ℕ) (x : Tx π), (s.commit tid tx).txs[t]? = some x →
      x.status = .committed ∨ x.status = .rolledBack → ∃ exit, Placed x exit := by
    intro t x hgt hst
    rcases List.getElem?_set_eq_some hgt with ⟨rfl, rfl⟩ | ⟨-, hold⟩
    · exact ⟨.ok r, hplaced⟩
    · exact hl.results t x hold hst
  have hcount : ∀ t, t ≠ tid → (s.commit tid tx).counted (fun tx ↦ !tx.foundNothing) t =
      s.counted (fun tx ↦ !tx.foundNothing) t := by
    intro t ht
    rw [counted, Server.commit, List.getElem?_set_ne (Ne.symm ht), counted]
  have hself : (s.commit tid tx).counted (fun tx ↦ !tx.foundNothing) tid = !isIdle (.ok r) := by
    rw [counted, hget', Option.any_some, ← foundNothing_eq hpc]
    rfl
  have hfresh : tid ∉ s.commits := by
    intro hmem
    exact absurd ((committed_eq_false hx).symm.trans (hl.commits tid hmem)) (by simp)
  have hold : s.commits.filter ((s.commit tid tx).counted fun tx ↦ !tx.foundNothing) =
      s.commits.filter (s.counted fun tx ↦ !tx.foundNothing) :=
    List.filter_congr fun t ht ↦ hcount t fun heq ↦ hfresh (heq ▸ ht)
  cases hidle : isIdle (.ok r) with
  | true =>
    -- The replay has its place already, and leaves no trace among the commits that count.
    refine ⟨order, hl.stay hkeep (fun t x exit hgt hp ↦ ?_) (hs.agree_commit hx hpc hidle)
      (fun t ↦ ?_) ?_ hcommits hres⟩
    · rcases List.getElem?_set_eq_some hgt with ⟨rfl, rfl⟩ | ⟨-, hgt⟩
      · obtain rfl : exit = .ok r := TxPc.finished.inj (hp.1.symm.trans hpc)
        exact ⟨tx, hget, hpc, .inr hidle⟩
      · exact ⟨x, hgt, hp⟩
    · by_cases ht : t = tid
      · subst ht
        rw [hself, hidle, counted, hget, Option.any_some, hact]
        rfl
      · exact hcount t ht
    · show (s.commits ++ [tid]).filter _ = _
      rw [List.filter_append, hold, List.filter_cons_of_neg (by rw [hself, hidle]; simp),
        List.filter_nil, List.append_nil]
  | false =>
    have hnot : ∀ exit, ¬ Placed tx exit := by
      intro exit hp
      obtain ⟨hpc', hidle'⟩ := (placed_iff_of_active hact).1 hp
      obtain rfl := TxPc.finished.inj (hpc.symm.trans hpc')
      exact absurd (hidle.symm.trans hidle') (by simp)
    have hnew := hl.not_mem hget hnot
    refine ⟨_, hl.place hkeep hnew hget' hplaced (fun t x exit hgt hp ↦ ?_) (fun db₀ hag₀ ↦ ?_) ?_
      hcommits hres⟩
    · rcases List.getElem?_set_eq_some hgt with ⟨rfl, -⟩ | ⟨-, hgt⟩
      · exact .inl rfl
      · exact .inr ⟨x, hgt, hp⟩
    · obtain ⟨db₁, hexec, hag₁⟩ := hs.exec_commit hx hpc hidle hag₀
      exact ⟨db₁, hag₁, fun l hrun ↦ hrun.concat_ok hexec⟩
    · show _ = (s.commits ++ [tid]).filter _
      rw [List.filter_append, List.filter_append, hold, ← hl.consistent]
      refine congrArg (· ++ _) (List.filter_congr fun t ht ↦ hcount t fun heq ↦ hnew (heq ▸ ht))

/-- **Some order**, in every run. -/
theorem linearized_of_reachable {G : Server π → ServerStep π → Prop} (h : system.Reachable G s) :
    ∃ order, Linearized s order := by
  refine h.induct (I := fun s ↦ ∃ order, Linearized s order) (fun s hs ↦ ?_)
    fun s a s' hr ih _ h ↦ ?_
  · obtain rfl : s = empty := hs
    refine ⟨[], List.nodup_nil, ?_, ?_, ⟨.empty, .nil _, ?_⟩, rfl, ?_, ?_⟩
    · exact fun x hx ↦ absurd hx List.not_mem_nil
    · exact fun t tx exit hget ↦ nomatch hget
    · exact .refl _
    · exact fun t ht ↦ absurd ht List.not_mem_nil
    · exact fun t tx hget ↦ nomatch hget
  · obtain ⟨order, hl⟩ := ih
    have hs := isolated_of_reachable hr
    rcases step_cases h with ⟨now, c, rfl⟩ | ⟨tid, tx, tx', ev, out, hx, hran, hto⟩ |
      ⟨tid, tx, r, hx, hpc, rfl⟩ | ⟨tid, tx, status, hx, rfl, ⟨rfl, hraised⟩ | rfl⟩
    · exact ⟨order, hl.begin now c⟩
    · exact hl.run_step hs hx hran hto
    · exact hl.commit_step hs hx hpc
    · exact ⟨order, hl.drop hx (by decide) fun _ ↦ hraised⟩
    · exact ⟨order, hl.drop hx (by decide) fun h ↦ nomatch h⟩

/-- A replay that found nothing changed nothing. -/
theorem eq_of_serialExec_replayed_none {db db' : Database π} {now : ℕ} {c : RepoCall π}
    (h : serialExec db (now, c) = .ok (.replayed none, db')) : db' = db := by
  rw [serialExec] at h
  match c with
  | .submitJob jobId key payload subject carrier =>
    rw [RepoCall.exec] at h
    cases hx : db.submitJob now jobId key payload subject carrier with
    | error e => exact absurd h (by simp [hx, Except.map])
    | ok p => exact absurd h (by simp [hx, Except.map, RepoResult.toSql])
  | .recordEvent w =>
    rw [RepoCall.exec] at h
    cases hx : db.recordEvent now w with
    | error e => exact absurd h (by simp [hx, Except.map])
    | ok p => exact absurd h (by simp [hx, Except.map, RepoResult.toSql])
  | .replayJob jobId subject =>
    rw [RepoCall.exec] at h
    cases hx : db.replayJob now jobId subject with
    | error e => exact absurd h (by simp [hx, Except.map])
    | ok p =>
      obtain ⟨r, db₁⟩ := p
      simp only [hx, Except.map, RepoResult.toSql, Except.ok.injEq, Prod.mk.injEq,
        SqlResult.replayed.injEq] at h
      obtain ⟨rfl, rfl⟩ := h
      rcases Database.replayJob_eq_ok hx with ⟨-, -, heq⟩ | ⟨row, next, db₂, hr, -⟩
      · exact heq
      · contradiction

/-- The call has returned or raised. -/
def answered (s : Server π) (tid : ℕ) : Bool :=
  s.txs[tid]?.any fun tx ↦ tx.status = .committed || tx.status = .rolledBack

/-- The order without the calls that are not over yet, or never will be. -/
theorem Linearized.serializes (hl : Linearized s order) :
    s.Serializes (fun tx ↦ !tx.foundNothing) (order.filter fun x ↦ s.answered x.1) where
  nodup := hl.nodup.sublist (List.filter_sublist.map _)
  outcome x hx := by
    obtain ⟨hmem, hans⟩ := List.mem_filter.1 hx
    obtain ⟨tx, exit, hget, hp, heq⟩ := hl.outcome x hmem
    rw [answered, hget, Option.any_some, Bool.or_eq_true_iff, decide_eq_true_eq,
      decide_eq_true_eq] at hans
    exact ⟨tx, exit, hget, hans, hp.1, heq⟩
  all t tx hget hst := by
    obtain ⟨exit, hp⟩ := hl.results t tx hget hst
    obtain ⟨x, hx, rfl⟩ := List.mem_map.1 (hl.all t tx exit hget hp)
    refine List.mem_map.2 ⟨x, List.mem_filter.2 ⟨hx, ?_⟩, rfl⟩
    rw [answered, hget, Option.any_some, Bool.or_eq_true_iff, decide_eq_true_eq, decide_eq_true_eq]
    exact hst
  run := by
    obtain ⟨db₀, hrun, hag⟩ := hl.run
    refine ⟨db₀, hrun.filter fun x hx hskip db db' r hr hexec ↦ ?_, hag⟩
    obtain ⟨tx, exit, hget, hp, heq⟩ := hl.outcome x hx
    rw [heq] at hr hexec
    obtain rfl : exit = .ok r := hr
    rcases hp.2 with hcom | hidle
    · exact absurd hskip (by simp [answered, hget, hcom])
    · rcases r with _ | _ | (_ | _)
      case replayed.none => exact eq_of_serialExec_replayed_none hexec
      all_goals exact nomatch hidle
  consistent := by
    rw [← hl.consistent, List.filter_map, List.filter_map, List.filter_filter]
    refine congrArg _ (List.filter_congr fun x _ ↦ ?_)
    simp only [Function.comp_apply]
    cases hc : s.counted (fun tx ↦ !tx.foundNothing) x.1 with
    | false => rfl
    | true =>
      obtain ⟨tx, hget, htx⟩ := (Option.any_eq_true _ _).1 hc
      have hcom := of_decide_eq_true (Bool.and_eq_true_iff.1 htx).1
      simp [answered, hget, hcom]

/-- **Statement-level interleavings refine atomic operations.** However the statements of any number
of transactions interleave, and whatever dies: the calls that returned or raised have an order in
which, run one at a time from the empty schema, they return and raise the same and leave the same
jobs and, for each job, the same events and outbox rows in the same order. Calls that raised change
nothing in it, and calls whose connection died are not in it. It is the order of the commits, but
for replays that found no job. -/
theorem serializable (h : system.Reachable TransitionSystem.anyStep s) :
    ∃ order, s.Serializes (fun tx ↦ !tx.foundNothing) order := by
  obtain ⟨order, hl⟩ := linearized_of_reachable h
  exact ⟨_, hl.serializes⟩

/-- Two submissions under one key overlap, and a worker looks for the job before it is committed. -/
def racingSubmissions : List (ServerStep Unit) :=
  [.begin 0 (.submitJob ⟨0⟩ "k" () "orbiter.jobs" []),
    .begin 1 (.submitJob ⟨1⟩ "k" () "orbiter.jobs" []),
    .begin 2 (.recordEvent { jobId := ⟨0⟩, event := .started }),
    .run 0, .run 2, .run 0, .finish 2, .run 0, .run 0, .finish 0, .run 1, .run 1, .finish 1]

/-- Two submissions of one key race, the second waits for the first and finds its job. -/
theorem serializable_racingSubmissions : ∃ s : Server Unit,
    system.Reachable TransitionSystem.anyStep s ∧ s.commits = [0, 1] ∧
    ∃ order, s.Serializes (fun tx ↦ !tx.foundNothing) order := by
  have hrun : (system.exec empty racingSubmissions).any (fun s : Server Unit ↦
      decide (s.commits = [0, 1])) = true := by
    rfl
  obtain ⟨s, hl, hc⟩ := TransitionSystem.exists_leads_of_exec hrun
  have hr : system.Reachable TransitionSystem.anyStep s := ⟨_, rfl, hl⟩
  exact ⟨s, hr, of_decide_eq_true hc, serializable hr⟩

/-- A replay looks for a job that is submitted and committed before the replay commits. -/
def replaysTooEarly : List (ServerStep Unit) :=
  [.begin 0 (.replayJob ⟨0⟩ "orbiter.jobs"), .run 0,
    .begin 0 (.submitJob ⟨0⟩ "k" () "orbiter.jobs" []), .run 1, .run 1, .run 1, .run 1, .finish 1,
    .finish 0]

/-- **The order of all commits will not do.** -/
theorem replay_out_of_order : ∃ s : Server Unit, system.Reachable TransitionSystem.anyStep s ∧
    ¬ ∃ order, s.Serializes (fun _ ↦ true) order := by
  have hrun : ∃ s : Server Unit, system.exec empty replaysTooEarly = some s ∧ s.commits = [1, 0] ∧
      s.txs.map (fun tx ↦ (tx.now, tx.call, tx.pc, tx.status)) =
        [(0, .replayJob ⟨0⟩ "orbiter.jobs", .finished (.ok (.replayed none)), .committed),
          (0, .submitJob ⟨0⟩ "k" () "orbiter.jobs" [],
            .finished (.ok (.submitted (some ⟨0⟩) true)), .committed)] :=
    ⟨_, rfl, rfl, rfl⟩
  obtain ⟨s, hexec, hcommits, htxs⟩ := hrun
  refine ⟨s, ⟨_, rfl, TransitionSystem.leads_of_exec hexec⟩, ?_⟩
  rintro ⟨order, ho⟩
  have hat : ∀ (t : ℕ) (tx : Tx Unit), s.txs[t]? = some tx →
      (s.txs.map fun tx ↦ (tx.now, tx.call, tx.pc, tx.status))[t]? =
        some (tx.now, tx.call, tx.pc, tx.status) := by
    intro t tx hget
    rw [List.getElem?_map, hget]
    rfl
  rw [htxs] at hat
  have hcounted : ∀ (t : ℕ) (tx : Tx Unit), s.txs[t]? = some tx →
      s.counted (fun _ ↦ true) t = true := by
    intro t tx hget
    have hst : tx.status = .committed := by
      have h := hat t tx hget
      match t with
      | 0 | 1 => exact (congrArg (fun x ↦ x.2.2.2) (Option.some.inj h)).symm
    simp [counted, hget, hst]
  have hlen : s.txs.length = 2 := by
    have h := congrArg List.length htxs
    rwa [List.length_map] at h
  -- Both calls committed, so the order is that of the commits.
  have horder : order.map Prod.fst = [1, 0] := by
    have h := ho.consistent
    rw [List.filter_eq_self.2, List.filter_eq_self.2, hcommits] at h
    · exact h
    · intro t ht
      rw [hcommits] at ht
      have hlt : t < s.txs.length := by
        rw [hlen]
        simp only [List.mem_cons, List.not_mem_nil, or_false] at ht
        omega
      exact hcounted t s.txs[t] (List.getElem?_eq_getElem hlt)
    · intro t ht
      obtain ⟨x, hx, rfl⟩ := List.mem_map.1 ht
      obtain ⟨tx, exit, hget, -⟩ := ho.outcome x hx
      exact hcounted x.1 tx hget
  obtain ⟨⟨t₁, e₁⟩, l, rfl, ht₁, hl⟩ := List.map_eq_cons_iff.1 horder
  obtain ⟨⟨t₀, e₀⟩, l', rfl, ht₀, hl'⟩ := List.map_eq_cons_iff.1 hl
  obtain rfl := List.map_eq_nil_iff.1 hl'
  obtain rfl : t₁ = 1 := ht₁
  obtain rfl : t₀ = 0 := ht₀
  obtain ⟨tx₁, exit₁, hget₁, -, hpc₁, he₁⟩ := ho.outcome (1, e₁) (by simp)
  obtain ⟨tx₀, exit₀, hget₀, -, hpc₀, he₀⟩ := ho.outcome (0, e₀) (by simp)
  have h₁ := Option.some.inj (hat 1 tx₁ hget₁)
  have h₀ := Option.some.inj (hat 0 tx₀ hget₀)
  simp only [Prod.mk.injEq] at h₁ h₀
  obtain ⟨hnow₁, hcall₁, hpc₁', -⟩ := h₁
  obtain ⟨hnow₀, hcall₀, hpc₀', -⟩ := h₀
  obtain rfl := TxPc.finished.inj (hpc₁'.trans hpc₁)
  obtain rfl := TxPc.finished.inj (hpc₀'.trans hpc₀)
  obtain rfl : e₁ = _ := he₁
  obtain rfl : e₀ = _ := he₀
  obtain ⟨db, hrun, -⟩ := ho.run
  rw [← hnow₁, ← hcall₁, ← hnow₀, ← hcall₀] at hrun
  rcases hrun with _ | ⟨hx₁, hrun⟩ | _
  rcases hrun with _ | ⟨hx₀, -⟩ | _
  -- After the submission a replay is refused.
  obtain ⟨-, rfl⟩ := Prod.mk.inj (Except.ok.inj hx₁)
  exact nomatch hx₀

end Linear

end Server

end Orbiter
