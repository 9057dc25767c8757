import Mathlib.Algebra.BigOperators.Group.List.Basic
import Mathlib.Algebra.Order.BigOperators.Group.List
import Orbiter.Foundation.Possibility
import Orbiter.Pipeline.Invariants

/-!
# The relays' backlog

Whatever relays died or failed before, with rows published and unmarked, with locks gone or still
held by a relay that lives: relays that are answered publish everything. What falls with every round
is the **backlog**, three for each unpublished row that nobody holds and one for each answer a relay
that holds rows has still to get.

## The rank

* `backlog_select_lt` — a round that finds a row takes at least one, since the batch size is
  positive, and taking a row pays for the publish and the mark it costs;
* `backlog_publish_lt` — a publish is one answer fewer;
* `backlog_mark_lt` — a mark covers exactly the rows the relay held, so letting go of them frees
  none that is unpublished;
* `exists_backlog_lt` — so while there is a backlog, some step of a relay makes it smaller, and
  `allPublished_of_backlog` says what its end means.

`outbox_relayed` is the result: from every reachable state steps of relays alone lead to a state in
which every row is published and stored. The guard `ByRelays` admits no failure, no death and nobody
else; rows that others add meanwhile are rows of a later state, from which the same holds.
-/

namespace Orbiter

/-- How many answers a relay that holds rows is from letting them go. -/
def RelayPc.work : RelayPc → ℕ
  | publish _ _ rest => rest.length + 2
  | mark _ => 1
  | select | finished _ => 0

theorem RelayPc.locked_of_work {pc : RelayPc} (h : pc.work = 0) : pc.locked = [] := by
  cases pc with
  | select | finished exit => rfl
  | publish batch entry rest => exact absurd h (by simp [work])
  | mark batch => exact absurd h (by simp [work])

/-- Entering the loop costs one answer for each row and one for the mark. -/
theorem RelayPc.work_loop_le (batch rest : List OutboxEntry) :
    (loop batch rest).work ≤ rest.length + 1 := by
  match rest with
  | entry :: rest => exact le_of_eq (by simp [loop, work])
  | [] =>
    rw [loop]
    split
    · exact Nat.zero_le _
    · exact le_rfl

namespace Pipeline

variable {cfg : Settings} {p p' : Pipeline}

/-- The step is of a relay, new or old, and is answered. -/
def ByRelays (_ : Pipeline) : PipelineStep → Prop
  | .beginRelay => True
  | .relay _ ans _ => ans = .served
  | _ => False

/-- Nobody has published the row, and nobody holds it. -/
def isFree (p : Pipeline) (r : OutboxEntry) : Bool :=
  r.2.publishedAt.isNone && !p.lockedIds.contains r.1

/-- Three for each free row, one for each answer a relay with rows is waiting for. -/
def backlog (p : Pipeline) : ℕ :=
  3 * p.fleet.world.db.outbox.rows.countP p.isFree +
    (p.relays.map fun r ↦ if r.alive then r.pc.work else 0).sum

/-- Every row is published. -/
def AllPublished (p : Pipeline) : Prop :=
  ∀ (id : ℕ) (r : OutboxRow SubmitRequest), (id, r) ∈ p.fleet.world.db.outbox.rows →
    r.publishedAt ≠ none

/-! ### One answer -/

variable (cfg) in
/-- A relay that awaits a call is answered. -/
theorem relay_served {rid : ℕ} {r : RelayRun} {c : RelayCall}
    {k : Except RelayExc c.Resp → RelayPc} (hget : p.relays[rid]? = some r)
    (halive : r.alive = true) (hv : r.pc.view cfg = .inr ⟨c, k⟩) (remembered : Bool)
    {reply : Except RelayExc c.Resp} (hr : p.relayReply c .served = some reply) :
    ∃ p', p.step cfg (.relay rid .served remembered) = some p' ∧
      p'.relays = p.relays.set rid { r with pc := k reply } ∧
      p'.fleet = (p.relayEffect remembered c).fleet := by
  refine ⟨{ p.relayEffect remembered c with relays := p.relays.set rid { r with pc := k reply } },
    ?_, rfl, rfl⟩
  simp only [step, stepRelay, hget, halive, if_true, hv, hr, Option.map_some]
  rfl

/-- A row is locked when it is in the batch of a relay that lives. -/
theorem mem_lockedIds_iff {id : ℕ} : id ∈ p.lockedIds ↔ ∃ (rid : ℕ) (r : RelayRun),
    p.relays[rid]? = some r ∧ r.alive = true ∧ id ∈ r.pc.locked.map Prod.fst := by
  rw [lockedIds, List.mem_flatMap]
  constructor
  · rintro ⟨r, hr, hid⟩
    obtain ⟨rid, hget⟩ := List.mem_iff_getElem?.1 hr
    split at hid
    · next halive => exact ⟨rid, r, hget, halive, hid⟩
    · exact absurd hid (by simp)
  · rintro ⟨rid, r, hget, halive, hid⟩
    exact ⟨r, List.mem_of_getElem? hget, by rwa [if_pos halive]⟩

/-- What no living relay held before and after, no living relay held. -/
theorem not_mem_lockedIds_of_set {rid id : ℕ} {r : RelayRun} {pc : RelayPc}
    (hget : p.relays[rid]? = some r) {q : Pipeline}
    (hq : q.relays = p.relays.set rid { r with pc := pc }) (hid : id ∉ q.lockedIds)
    (hr : id ∉ r.pc.locked.map Prod.fst) : id ∉ p.lockedIds := by
  intro hmem
  obtain ⟨rid', r', hget', halive, hid'⟩ := mem_lockedIds_iff.1 hmem
  by_cases heq : rid = rid'
  · subst heq
    obtain rfl := Option.some.inj (hget.symm.trans hget')
    exact hr hid'
  · refine hid (mem_lockedIds_iff.2 ⟨rid', r', ?_, halive, hid'⟩)
    rw [hq, List.getElem?_set_ne heq, hget']

/-- A relay moves on, and no row gets free. -/
theorem backlog_lt_of_set {rid : ℕ} {r : RelayRun} (pc : RelayPc)
    (hget : p.relays[rid]? = some r) (halive : r.alive = true) (hlt : pc.work < r.pc.work)
    (hrelays : p'.relays = p.relays.set rid { r with pc := pc })
    (hfree : p'.fleet.world.db.outbox.rows.countP p'.isFree ≤
      p.fleet.world.db.outbox.rows.countP p.isFree) : p'.backlog < p.backlog := by
  have hsum := List.sum_map_set_lt (g := fun r : RelayRun ↦ if r.alive then r.pc.work else 0)
    (y := { r with pc := pc }) hget (by simpa [halive] using hlt)
  rw [backlog, backlog, hrelays]
  omega

/-- A row is free when it is unpublished and nobody holds it. -/
theorem isFree_eq_true {r : OutboxEntry} :
    p.isFree r = true ↔ r.2.publishedAt = none ∧ r.1 ∉ p.lockedIds := by
  rw [isFree, Bool.and_eq_true, Option.isNone_iff_eq_none, Bool.not_eq_true',
    List.contains_eq_mem, decide_eq_false_iff_not]

/-- A publish holds on to its rows, and there is one less to publish. -/
theorem backlog_publish_lt {rid : ℕ} {r : RelayRun} {batch rest : List OutboxEntry}
    {entry : OutboxEntry} (hget : p.relays[rid]? = some r) (halive : r.alive = true)
    (hpc : r.pc = .publish batch entry rest) :
    ∃ p', p.step cfg (.relay rid .served true) = some p' ∧ p'.backlog < p.backlog := by
  obtain ⟨p', hstep, hrelays, hfleet⟩ :=
    relay_served cfg hget halive (by rw [hpc]; rfl) true rfl
  refine ⟨p', hstep, backlog_lt_of_set (.loop batch rest) hget halive ?_ hrelays ?_⟩
  · have hle := RelayPc.work_loop_le batch rest
    rw [hpc, RelayPc.work]
    omega
  · rw [hfleet]
    refine List.countP_mono_left fun row _ hfree ↦ ?_
    obtain ⟨hnone, hid⟩ := isFree_eq_true.1 hfree
    refine isFree_eq_true.2 ⟨hnone, not_mem_lockedIds_of_set hget hrelays hid fun hmem ↦ hid ?_⟩
    -- The relay still holds what it held.
    refine mem_lockedIds_iff.2 ⟨rid, { r with pc := .loop batch rest }, ?_, halive, ?_⟩
    · rw [hrelays]
      exact List.getElem?_set_self (List.getElem?_eq_some_iff.1 hget).1
    · rw [RelayPc.locked_loop]
      rw [hpc] at hmem
      exact hmem

/-- A mark lets go of rows that are published now. -/
theorem backlog_mark_lt {rid : ℕ} {r : RelayRun} {batch : List OutboxEntry}
    (hget : p.relays[rid]? = some r) (halive : r.alive = true) (hpc : r.pc = .mark batch) :
    ∃ p', p.step cfg (.relay rid .served true) = some p' ∧ p'.backlog < p.backlog := by
  obtain ⟨p', hstep, hrelays, hfleet⟩ :=
    relay_served cfg hget halive (by rw [hpc]; rfl) true rfl
  refine ⟨p', hstep,
    backlog_lt_of_set (.finished (.ok batch.length)) hget halive ?_ hrelays ?_⟩
  · rw [hpc]
    exact Nat.one_pos
  · have hrows : p'.fleet.world.db.outbox.rows = p.fleet.world.db.outbox.rows.map fun row ↦
        (row.1, if row.1 ∈ batch.map Prod.fst then
          { row.2 with publishedAt := some p.fleet.world.now } else row.2) := by
      rw [hfleet]
      rfl
    rw [hrows, List.countP_map]
    refine List.countP_mono_left fun row _ hfree ↦ ?_
    obtain ⟨hnone, hid⟩ := isFree_eq_true.1 hfree
    dsimp only at hnone hid
    split at hnone
    · exact absurd hnone (by simp)
    · next hbatch =>
      refine isFree_eq_true.2 ⟨hnone, not_mem_lockedIds_of_set hget hrelays hid ?_⟩
      rw [hpc]
      exact hbatch

/-- Once some free rows are held, the others are left. -/
theorem countP_isFree_add_le (batch : List OutboxEntry) {rest : List OutboxEntry}
    (hsplit : p.fleet.world.db.outbox.rows.filter p.isFree = batch ++ rest) {q : Pipeline}
    (hq : ∀ r, q.isFree r = true → p.isFree r = true ∧ r.1 ∉ batch.map Prod.fst) :
    p.fleet.world.db.outbox.rows.countP q.isFree + batch.length ≤
      p.fleet.world.db.outbox.rows.countP p.isFree := by
  have hsub : p.fleet.world.db.outbox.rows.countP q.isFree =
      (batch ++ rest).countP q.isFree := by
    rw [← hsplit, List.countP_filter]
    refine List.countP_congr fun r _ ↦ ?_
    simpa using fun hfree ↦ (hq r hfree).1
  have hbatch : batch.countP q.isFree = 0 :=
    List.countP_eq_zero.2 fun r hr hfree ↦ (hq r hfree).2 (List.mem_map_of_mem hr)
  have hrest : rest.countP q.isFree ≤ rest.length := List.countP_le_length
  have hall := List.countP_eq_length_filter (p := p.isFree) (l := p.fleet.world.db.outbox.rows)
  rw [hsplit, List.length_append] at hall
  rw [hsub, List.countP_append, hbatch, hall]
  omega

/-- A new relay takes rows: their price is three each, and it costs one to publish each and one to
mark them. -/
theorem backlog_select_lt (hsize : 0 < cfg.relayBatchSize)
    (hfree : 0 < p.fleet.world.db.outbox.rows.countP p.isFree) :
    ∃ p₁ p', p.step cfg .beginRelay = some p₁ ∧
      p₁.step cfg (.relay p.relays.length .served true) = some p' ∧ p'.backlog < p.backlog := by
  let p₁ : Pipeline := { p with relays := p.relays ++ [⟨.select, true⟩] }
  have hget : p₁.relays[p.relays.length]? = some ⟨.select, true⟩ := List.getElem?_concat_length
  obtain ⟨p', hstep, hrelays, hfleet⟩ := relay_served cfg hget rfl rfl true rfl
  refine ⟨p₁, p', rfl, hstep, ?_⟩
  -- What it takes are free rows of `p`, and at least one.
  have hlocked₁ : p₁.lockedIds = p.lockedIds := by
    show (p.relays ++ _).flatMap _ = _
    rw [List.flatMap_append]
    simp [lockedIds, RelayPc.locked]
  have hbatch : p₁.selectUnpublished cfg.relayBatchSize =
      (p.fleet.world.db.outbox.rows.filter p.isFree).take cfg.relayBatchSize := by
    rw [selectUnpublished, hlocked₁]
    rfl
  generalize p₁.selectUnpublished cfg.relayBatchSize = batch at hbatch hrelays
  have hpos : 0 < batch.length := by
    rw [hbatch, List.length_take, ← List.countP_eq_length_filter]
    omega
  have hnew : p'.relays = p.relays ++ [⟨.loop batch batch, true⟩] := by
    rw [hrelays]
    exact List.set_append_right _ _ le_rfl |>.trans (by simp)
  have hleft := countP_isFree_add_le (p := p) (q := p') batch
    (by rw [hbatch]; exact (List.take_append_drop ..).symm) fun r hr ↦ by
      obtain ⟨hnone, hid⟩ := isFree_eq_true.1 hr
      have hids : p'.lockedIds = p.lockedIds ++ batch.map Prod.fst := by
        rw [lockedIds, hnew, List.flatMap_append]
        simp [lockedIds]
      rw [hids, List.mem_append, not_or] at hid
      exact ⟨isFree_eq_true.2 ⟨hnone, hid.1⟩, hid.2⟩
  have hwork := RelayPc.work_loop_le batch batch
  have hfleet' : p'.fleet = p.fleet := hfleet
  rw [backlog, backlog, hnew, hfleet', List.map_append, List.sum_append]
  simp only [List.map_singleton, List.sum_singleton, if_true]
  omega

/-! ### All answers -/

/-- While there is a backlog, a relay can be answered so that it falls. -/
theorem exists_backlog_lt (hsize : 0 < cfg.relayBatchSize) (hpos : p.backlog ≠ 0) :
    ∃ p', (system cfg).Leads ByRelays p p' ∧ p'.backlog < p.backlog := by
  by_cases hwork : ∀ (rid : ℕ) (r : RelayRun), p.relays[rid]? = some r → r.alive = true →
      r.pc.work = 0
  · have hsum : (p.relays.map fun r ↦ if r.alive then r.pc.work else 0).sum = 0 := by
      rw [List.sum_eq_zero_iff]
      intro x hx
      obtain ⟨r, hr, rfl⟩ := List.mem_map.1 hx
      obtain ⟨rid, hget⟩ := List.mem_iff_getElem?.1 hr
      split
      · next halive => exact hwork rid r hget halive
      · rfl
    have hfree : 0 < p.fleet.world.db.outbox.rows.countP p.isFree := by
      rw [backlog, hsum] at hpos
      omega
    obtain ⟨p₁, p', h₁, h', hlt⟩ := backlog_select_lt hsize hfree
    have hbegin : (system cfg).Leads ByRelays p p₁ := .single (a := .beginRelay) trivial h₁
    have hselect : (system cfg).Leads ByRelays p₁ p' := .single (a := .relay _ _ _) rfl h'
    exact ⟨p', hbegin.trans hselect, hlt⟩
  · push Not at hwork
    obtain ⟨rid, r, hget, halive, hne⟩ := hwork
    have hserved : ∃ p', p.step cfg (.relay rid .served true) = some p' ∧
        p'.backlog < p.backlog := by
      generalize hpc : r.pc = pc at hne
      match pc with
      | .publish batch entry rest => exact backlog_publish_lt hget halive hpc
      | .mark batch => exact backlog_mark_lt hget halive hpc
      | .select | .finished _ => exact absurd rfl hne
    obtain ⟨p', hstep, hlt⟩ := hserved
    exact ⟨p', .single (a := .relay _ _ _) rfl hstep, hlt⟩

/-- Without a backlog every row is published, and no lock is left. -/
theorem allPublished_of_backlog (h : p.backlog = 0) : p.AllPublished ∧ p.lockedIds = [] := by
  have hsum : (p.relays.map fun r ↦ if r.alive then r.pc.work else 0).sum = 0 := by
    rw [backlog] at h
    omega
  have hlocked : p.lockedIds = [] := by
    refine List.eq_nil_iff_forall_not_mem.2 fun id hid ↦ ?_
    obtain ⟨rid, r, hget, halive, hmem⟩ := mem_lockedIds_iff.1 hid
    have hwork := List.sum_eq_zero_iff.1 hsum _ (List.mem_map_of_mem (List.mem_of_getElem? hget))
    rw [if_pos halive] at hwork
    rw [RelayPc.locked_of_work hwork] at hmem
    exact absurd hmem (by simp)
  refine ⟨fun id r hr hnone ↦ ?_, hlocked⟩
  have hfree : p.isFree (id, r) = true := isFree_eq_true.2 ⟨hnone, by rw [hlocked]; simp⟩
  have hpos := List.countP_pos_iff.2 ⟨_, hr, hfree⟩
  rw [backlog] at h
  omega

/-- **The outbox can always be drained**, from any state whatever, by relays that are answered and
by nothing else. -/
theorem outbox_drains (hsize : 0 < cfg.relayBatchSize) (p : Pipeline) :
    (system cfg).CanReach ByRelays (fun p' ↦ p'.AllPublished ∧ p'.lockedIds = []) p :=
  (TransitionSystem.CanReach.of_rank (I := fun _ ↦ True) (P := fun p ↦ p.backlog = 0) backlog
    (fun _ _ hpos ↦ (exists_backlog_lt hsize hpos).imp fun _ h ↦ ⟨h.1, trivial, h.2⟩)
    trivial).mono (fun _ _ h ↦ h) fun _ _ h ↦ allPublished_of_backlog h.2

/-- **Every row gets to the stream.** From every state a run can be in, relays that are answered,
and nothing else, lead to a state in which nobody holds a row any more, each row is marked, and a
message with its id, its subject and its payload has been stored. -/
theorem outbox_relayed {G : Pipeline → PipelineStep → Prop} (hsize : 0 < cfg.relayBatchSize)
    (hr : (system cfg).Reachable G p) :
    (system cfg).CanReach ByRelays (fun p' ↦ p'.lockedIds = [] ∧
      ∀ (id : ℕ) (r : OutboxRow SubmitRequest), (id, r) ∈ p.fleet.world.db.outbox.rows →
        (∃ r', (id, r') ∈ p'.fleet.world.db.outbox.rows ∧ r'.publishedAt ≠ none) ∧
        ∃ seq m, p'.stream.msg? seq = some m ∧ m.msgId = id ∧ m.subject = r.subject ∧
          m.data = r.payload) p := by
  refine (outbox_drains hsize p).mono (fun _ _ h ↦ h) fun p' hl h ↦ ⟨h.2, fun id r hmem ↦ ?_⟩
  have hr' : (system cfg).Reachable TransitionSystem.anyStep p' :=
    (hr.mono fun _ _ _ ↦ trivial).leads (hl.mono fun _ _ _ ↦ trivial)
  have hp' := published_of_reachable hr'
  -- The row is still there, so it is marked, so it was stored.
  obtain ⟨r', hmem', hsub, hpay⟩ :=
    hl.preserves (P := fun q : Pipeline ↦ HasRow q.fleet id r.subject r.payload)
      (fun _ _ _ hq _ hs ↦ hq.step hs) ⟨r, hmem, rfl, rfl⟩
  have hmark := h.1 id r' hmem'
  obtain ⟨seq, m, hm, hid⟩ := hp'.mark id r' hmem' hmark
  obtain ⟨r'', hmem'', hsub'', hpay''⟩ := hp'.msg seq m hm
  -- And no other row has its id.
  rw [hid] at hmem''
  obtain rfl : r'' = r' :=
    (Prod.mk.inj (SerialTable.eq_of_mem_rows _ hmem'' hmem' rfl)).2
  exact ⟨⟨r'', hmem', hmark⟩, seq, m, hm, hid, hsub''.symm.trans hsub, hpay''.symm.trans hpay⟩

/-- Two rows: one relay has published the first and dies, another holds both. -/
def halfPublished : List PipelineStep :=
  [.submit ⟨0⟩ "a" (.healthy 10 ten_le_limit) [], .submit ⟨1⟩ "b" (.healthy 20 (by decide)) [],
    .beginRelay, .relay 0 .served true, .relay 0 .served true, .killRelay 0, .beginRelay,
    .relay 1 .served true]

/-- Both get to the stream. -/
theorem outbox_relayed_of_halfPublished : ∃ p p' : Pipeline,
    (system {}).Reachable TransitionSystem.anyStep p ∧ p.stream.length = 1 ∧
    p.lockedIds.length = 2 ∧ (system {}).Leads ByRelays p p' ∧ p'.lockedIds = [] ∧
    ∀ r ∈ p.fleet.world.db.outbox.rows, ∃ seq m, p'.stream.msg? seq = some m ∧ m.msgId = r.1 := by
  have hrun : ((system {}).exec empty halfPublished).any (fun p ↦
      p.stream.length = 1 && p.lockedIds.length = 2) = true := by
    rfl
  obtain ⟨p, hl, hp⟩ := TransitionSystem.exists_leads_of_exec hrun
  rw [Bool.and_eq_true, decide_eq_true_eq, decide_eq_true_eq] at hp
  have hr : (system {}).Reachable TransitionSystem.anyStep p := ⟨_, rfl, hl⟩
  obtain ⟨p', hl', hlocked, hall⟩ := outbox_relayed (by decide) hr
  refine ⟨p, p', hr, hp.1, hp.2, hl', hlocked, fun r hmem ↦ ?_⟩
  obtain ⟨-, seq, m, hm, hid, -⟩ := hall r.1 r.2 hmem
  exact ⟨seq, m, hm, hid⟩

end Pipeline

end Orbiter
