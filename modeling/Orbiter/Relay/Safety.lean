import Orbiter.Relay.Transactions

/-!
# What the relays publish

A relay holds the rows of its batch locked from its `SELECT` to the end of its transaction, and a
row that is locked is committed and unpublished. It has published a first part of its batch, and the
whole of it when it marks. So a row that is published again was published before by transactions
that were undone only: one that is open holds the row, and one that committed has marked it.

## The argument

* `Local` — what a relay has sent at each of its control points: nothing before its loop, then a
  prefix of its batch;
* `Safe` — the invariant. Locks are exclusive and on committed, unpublished rows; what a relay that
  committed has sent is marked; what is marked was sent; and of two publications under one id the
  first is by a transaction that was undone;
* `Safe.update` — the general step inside one transaction: it may lock more and publish what it
  holds. `Safe.visit` and `Safe.sends` are the two ways it is used, and `Safe.ran` puts the control
  points together;
* `Safe.repo` — a step of the repository commits rows, unpublished ones, and touches no lock;
* `Safe.commit` — the mark becomes visible with the end of the locks, in one step;
* `relay_safe` — what follows for the broker: a published row was sent, only committed rows are
  sent, relays that committed have not published the same row, and a broker that remembers message
  ids keeps exactly one message for each row that was sent.

Of the broker nothing is assumed but its memory of ids, and that only where it is named.
-/

namespace Orbiter

namespace RelayedServer

variable {cfg : Settings} {s s' : RelayedServer} {rid : ℕ} {tx tx' : RelayTx}
  {out : List Publication}

/-- What a relay has sent. -/
def sentBy (s : RelayedServer) (rid : ℕ) : List Publication :=
  s.sent.filter fun m ↦ m.relay = rid

/-- The transaction was rolled back. -/
def Undone (s : RelayedServer) (rid : ℕ) : Prop :=
  ∃ tx, s.relays[rid]? = some tx ∧ (tx.status = .rolledBack ∨ tx.status = .dead)

/-! ### The invariant -/

/-- **What holds at a control point** of what relay `rid` has sent. -/
def Local (rid : ℕ) (tx : RelayTx) (sent : List Publication) : RelayPc → Prop
  | .select => sent = [] ∧ tx.marks = [] ∧ (tx.scan = none → tx.held = [])
  | .publish batch entry rest => batch = tx.held ∧ tx.marks = [] ∧
    ∃ done, tx.held = done ++ entry :: rest ∧ sent = done.map (OutboxEntry.publication · rid)
  | .mark batch => batch = tx.held ∧ tx.marks = [] ∧
    sent = tx.held.map (OutboxEntry.publication · rid)
  | .finished (.ok _) => tx.marks = tx.held.map Prod.fst ∧
    sent = tx.held.map (OutboxEntry.publication · rid)
  | .finished (.error _) => sent <+: tx.held.map (OutboxEntry.publication · rid)

/-- **Safety.** -/
structure Safe (s : RelayedServer) : Prop where
  /-- A locked row is committed and unpublished. -/
  locked : ∀ rid tx, s.active? rid = some tx → ∀ e ∈ tx.held, e ∈ s.rows ∧ e.2.publishedAt = none
  /-- A row is locked, or still to come, once. -/
  distinct : ∀ rid tx, s.active? rid = some tx → (tx.held.map Prod.fst ++ tx.scan.getD []).Nodup
  /-- No two relays lock a row. -/
  apart : ∀ rid rid' tx tx' e e', s.active? rid = some tx → s.active? rid' = some tx' →
    e ∈ tx.held → e' ∈ tx'.held → e.1 = e'.1 → rid = rid'
  at_pc : ∀ rid tx, s.active? rid = some tx → Local rid tx (s.sentBy rid) tx.pc
  /-- What a committed relay has sent is marked. -/
  done : ∀ rid tx, s.relays[rid]? = some tx → tx.status = .committed →
    ∀ m ∈ s.sentBy rid, ∃ e ∈ s.rows, e.2.publishedAt ≠ none ∧ m = e.publication rid
  known : ∀ m ∈ s.sent, m.relay < s.relays.length
  /-- What was sent is a committed row. -/
  sent : ∀ m ∈ s.sent, ∃ e ∈ s.rows, m = e.publication m.relay
  /-- What is marked was sent. -/
  marked : ∀ e ∈ s.rows, e.2.publishedAt ≠ none → ∃ rid, e.publication rid ∈ s.sent
  /-- What is not committed is not marked. -/
  hidden : ∀ r ∈ s.server.outbox.rows, s.server.committed r.2.1 = false → r.2.2.publishedAt = none
  repeats : s.sent.Pairwise fun m m' ↦ m.natsMsgId = m'.natsMsgId →
    m.relay ≠ m'.relay ∧ s.Undone m.relay

/-! ### What a transaction has sent -/

/-- Whatever the control point: a first part of what it has locked. -/
theorem Local.isPrefix {pc : RelayPc} {l : List Publication} (h : Local rid tx l pc) :
    l <+: tx.held.map (OutboxEntry.publication · rid) := by
  match pc with
  | .select => exact h.1 ▸ List.nil_prefix
  | .publish batch entry rest =>
    obtain ⟨-, -, done, hheld, rfl⟩ := h
    rw [hheld, List.map_append]
    exact List.prefix_append _ _
  | .mark batch => exact h.2.2 ▸ List.prefix_refl _
  | .finished (.ok n) => exact h.2 ▸ List.prefix_refl _
  | .finished (.error e) => exact h

/-- Where the loop stands. -/
theorem Local.loop (tx : RelayTx) {l : List Publication} (done : List OutboxEntry)
    {todo : List OutboxEntry} (hheld : tx.held = done ++ todo) (hmarks : tx.marks = [])
    (hl : l = done.map (OutboxEntry.publication · rid)) :
    Local rid tx l (.loop tx.held todo) := by
  match todo with
  | entry :: rest => exact ⟨rfl, hmarks, done, hheld, hl⟩
  | [] =>
    rw [List.append_nil] at hheld
    rw [RelayPc.loop]
    split
    · next hempty =>
      have hnil := List.isEmpty_iff.1 hempty
      refine ⟨by rw [hmarks, hnil, List.map_nil], ?_⟩
      rw [hl, hheld]
    · exact ⟨rfl, hmarks, by rw [hl, hheld]⟩

theorem Safe.sentBy_subset (hs : s.Safe) (hx : s.active? rid = some tx) {m : Publication}
    (hm : m ∈ s.sentBy rid) : ∃ e ∈ tx.held, m = e.publication rid := by
  obtain ⟨e, he, rfl⟩ := List.mem_map.1 ((hs.at_pc rid tx hx).isPrefix.subset hm)
  exact ⟨e, he, rfl⟩

/-- **Who else has published a row that is locked**: transactions that were undone. One that is open
would hold the row as well, and one that committed has marked it. -/
theorem Safe.undone (hs : s.Safe) (hx : s.active? rid = some tx) {e : OutboxEntry}
    (he : e ∈ tx.held) {m : Publication} (hm : m ∈ s.sent) (hid : m.natsMsgId = natsMsgId e.1)
    (hne : m.relay ≠ rid) : s.Undone m.relay := by
  obtain ⟨x, hget⟩ : ∃ x, s.relays[m.relay]? = some x :=
    ⟨_, List.getElem?_eq_getElem (hs.known m hm)⟩
  have hmine : m ∈ s.sentBy m.relay := List.mem_filter.2 ⟨hm, decide_eq_true rfl⟩
  cases hst : x.status with
  | active =>
    obtain ⟨e', he', heq⟩ := hs.sentBy_subset (active?_eq_some.2 ⟨hget, hst⟩) hmine
    rw [heq] at hid
    exact absurd (hs.apart _ rid x tx e' e (active?_eq_some.2 ⟨hget, hst⟩) hx he' he
      (natsMsgId_inj.1 hid)) hne
  | committed =>
    obtain ⟨e', he', hmarked, heq⟩ := hs.done _ x hget hst m hmine
    obtain ⟨hrow, hnone⟩ := hs.locked rid tx hx e he
    rw [heq] at hid
    obtain rfl := SerialTable.eq_of_mem_rows _ he' hrow (natsMsgId_inj.1 hid)
    exact absurd hnone hmarked
  | rolledBack => exact ⟨x, hget, .inl hst⟩
  | dead => exact ⟨x, hget, .inr hst⟩

/-! ### A step inside a transaction -/

/-- After a step of one transaction, the open ones are the others and perhaps it. -/
theorem active?_set (hl : s'.relays = s.relays.set rid tx') {r : ℕ} {x : RelayTx}
    (h : s'.active? r = some x) :
    (r ≠ rid ∧ s.active? r = some x) ∨ (r = rid ∧ x = tx' ∧ tx'.status = .active) := by
  obtain ⟨hget, hact⟩ := active?_eq_some.1 h
  rw [hl] at hget
  rcases List.getElem?_set_eq_some hget with ⟨rfl, rfl⟩ | ⟨hne, hget⟩
  · exact .inr ⟨rfl, rfl, hact⟩
  · exact .inl ⟨Ne.symm hne, active?_eq_some.2 ⟨hget, hact⟩⟩

/-- A transaction that was undone stays so. -/
theorem Undone.set (hx : s.active? rid = some tx) (hl : s'.relays = s.relays.set rid tx') {r : ℕ}
    (h : s.Undone r) : s'.Undone r := by
  obtain ⟨x, hget, hst⟩ := h
  refine ⟨x, ?_, hst⟩
  have hne : rid ≠ r := by
    rintro rfl
    obtain ⟨hget', hact⟩ := active?_eq_some.1 hx
    obtain rfl := Option.some.inj (hget.symm.trans hget')
    rw [hact] at hst
    rcases hst with hst | hst
    · exact nomatch hst
    · exact nomatch hst
  rw [hl, List.getElem?_set_ne hne, hget]

theorem not_undone (hget : s.relays[rid]? = some tx) (h : tx.status = .committed) :
    ¬ s.Undone rid := by
  rintro ⟨x, hget', hst⟩
  obtain rfl := Option.some.inj (hget.symm.trans hget')
  rw [h] at hst
  rcases hst with hst | hst
  · exact nomatch hst
  · exact nomatch hst

/-- What a step of an open transaction may send: nothing, or one of its rows, for the first time. -/
def Sends (s : RelayedServer) (rid : ℕ) (tx : RelayTx) (out : List Publication) : Prop :=
  out = [] ∨ ∃ e ∈ tx.held, out = [e.publication rid] ∧
    ∀ m ∈ s.sentBy rid, m.natsMsgId ≠ natsMsgId e.1

/-- What is sent is held, and was not sent by this transaction before. -/
theorem Sends.mem (h : Sends s rid tx out) {m : Publication} (hm : m ∈ out) :
    ∃ e ∈ tx.held, m = e.publication rid ∧ ∀ m' ∈ s.sentBy rid, m'.natsMsgId ≠ natsMsgId e.1 := by
  rcases h with rfl | ⟨e, he, rfl, hnew⟩
  · exact absurd hm List.not_mem_nil
  · exact ⟨e, he, List.mem_singleton.1 hm, hnew⟩

/-- What is sent is added to what the relay has sent. -/
theorem Sends.sentBy (h : Sends s rid tx out) (r : ℕ) :
    (s.sent ++ out).filter (fun m ↦ m.relay = r) =
      s.sentBy r ++ if r = rid then out else [] := by
  rw [List.filter_append, RelayedServer.sentBy]
  refine congrArg _ ?_
  split
  · next hr =>
    refine List.filter_eq_self.2 fun m hm ↦ ?_
    obtain ⟨e, -, rfl, -⟩ := h.mem hm
    exact decide_eq_true hr.symm
  · next hr =>
    refine List.filter_eq_nil_iff.2 fun m hm ↦ ?_
    obtain ⟨e, -, rfl, -⟩ := h.mem hm
    exact fun h ↦ hr (of_decide_eq_true h).symm

/-- A row sent now was sent before by undone transactions only. -/
theorem Sends.pairwise (h : Sends s rid tx out) (hs : s.Safe) (hx : s.active? rid = some tx) :
    (s.sent ++ out).Pairwise fun m m' ↦ m.natsMsgId = m'.natsMsgId →
      m.relay ≠ m'.relay ∧ s.Undone m.relay := by
  refine List.pairwise_append.2 ⟨hs.repeats, ?_, fun m hm m' hm' hid ↦ ?_⟩
  · rcases h with rfl | ⟨e, -, rfl, -⟩
    · exact .nil
    · exact List.pairwise_singleton _ _
  · obtain ⟨e, he, rfl, hnew⟩ := h.mem hm'
    have hne : m.relay ≠ rid := by
      intro hr
      exact hnew m (List.mem_filter.2 ⟨hm, decide_eq_true hr⟩) hid
    exact ⟨hne, hs.undone hx he hm hid hne⟩

/-- **The rule for a step inside a transaction**, or the end of one that is undone: what it holds it
held, or has just locked, and what it sends it holds. -/
theorem Safe.update (hs : s.Safe) (hx : s.active? rid = some tx) (tx' : RelayTx)
    (hnc : tx'.status ≠ .committed)
    (hheld : ∀ e ∈ tx'.held, e ∈ tx.held ∨ (e ∈ s.rows ∧ e.2.publishedAt = none ∧
      ∀ r x, r ≠ rid → s.active? r = some x → ∀ e' ∈ x.held, e'.1 ≠ e.1))
    (hdist : (tx'.held.map Prod.fst ++ tx'.scan.getD []).Nodup)
    (hout : Sends s rid tx out)
    (hlocal : tx'.status = .active → Local rid tx' (s.sentBy rid ++ out) tx'.pc) :
    Safe { s with relays := s.relays.set rid tx', sent := s.sent ++ out } := by
  obtain ⟨hget, hact⟩ := active?_eq_some.1 hx
  have hapart : ∀ r x e e', r ≠ rid → s.active? r = some x → e ∈ x.held → e' ∈ tx'.held →
      e.1 ≠ e'.1 := by
    intro r x e e' hr hx' he he' heq
    rcases hheld e' he' with hold | ⟨-, -, hfree⟩
    · exact hr (hs.apart r rid x tx e e' hx' hx he hold heq)
    · exact hfree r x hr hx' e he heq
  constructor
  case locked =>
    intro r x h e he
    rcases active?_set rfl h with ⟨-, h⟩ | ⟨-, rfl, -⟩
    · exact hs.locked r x h e he
    · rcases hheld e he with hold | ⟨hrow, hnone, -⟩
      · exact hs.locked rid tx hx e hold
      · exact ⟨hrow, hnone⟩
  case distinct =>
    intro r x h
    rcases active?_set rfl h with ⟨-, h⟩ | ⟨-, rfl, -⟩
    · exact hs.distinct r x h
    · exact hdist
  case apart =>
    intro r r' x x' e e' h h' he he' heq
    rcases active?_set rfl h with ⟨hr, hold⟩ | ⟨rfl, rfl, -⟩ <;>
    rcases active?_set rfl h' with ⟨hr', hold'⟩ | ⟨rfl, rfl, -⟩
    · exact hs.apart r r' x x' e e' hold hold' he he' heq
    · exact absurd heq (hapart r x e e' hr hold he he')
    · exact absurd heq.symm (hapart r' x' e' e hr' hold' he' he)
    · exact Eq.refl _
  case at_pc =>
    intro r x h
    rw [RelayedServer.sentBy, hout.sentBy]
    rcases active?_set rfl h with ⟨hr, h⟩ | ⟨rfl, rfl, hact'⟩
    · rw [if_neg hr, List.append_nil]
      exact hs.at_pc r x h
    · rw [if_pos rfl]
      exact hlocal hact'
  case done =>
    intro r x h hst
    rw [RelayedServer.sentBy, hout.sentBy]
    rcases List.getElem?_set_eq_some h with ⟨-, rfl⟩ | ⟨hne, h⟩
    · exact absurd hst hnc
    · rw [if_neg (Ne.symm hne), List.append_nil]
      exact hs.done r x h hst
  case known =>
    intro m hm
    rw [List.length_set]
    rcases List.mem_append.1 hm with hm | hm
    · exact hs.known m hm
    · obtain ⟨e, -, rfl, -⟩ := hout.mem hm
      exact List.lt_length_of_getElem? hget
  case sent =>
    intro m hm
    rcases List.mem_append.1 hm with hm | hm
    · exact hs.sent m hm
    · obtain ⟨e, he, rfl, -⟩ := hout.mem hm
      exact ⟨e, (hs.locked rid tx hx e he).1, rfl⟩
  case marked =>
    intro e he hmarked
    obtain ⟨r, hr⟩ := hs.marked e he hmarked
    exact ⟨r, List.mem_append_left _ hr⟩
  case hidden => exact hs.hidden
  case repeats =>
    refine (hout.pairwise hs hx).imp fun {m m'} h hid ↦ ?_
    obtain ⟨hne, hundone⟩ := h hid
    exact ⟨hne, hundone.set hx rfl⟩

theorem nodup_snapshot (s : RelayedServer) : s.snapshot.Nodup :=
  (SerialTable.nodup_ids _).sublist (List.filter_sublist.map _)

/-- A row the `SELECT` comes to is locked, or passed over. -/
theorem Safe.visit (hs : s.Safe) (hx : s.active? rid = some tx) {id : ℕ} {rest : List ℕ}
    (hscan : tx.scan = some (id :: rest)) :
    (∀ e ∈ tx.held ++ (s.lockRow rid id).toList, e ∈ tx.held ∨ (e ∈ s.rows ∧
      e.2.publishedAt = none ∧ ∀ r x, r ≠ rid → s.active? r = some x → ∀ e' ∈ x.held, e'.1 ≠ e.1)) ∧
    ((tx.held ++ (s.lockRow rid id).toList).map Prod.fst ++ rest).Nodup := by
  have hdist := hs.distinct rid tx hx
  rw [hscan, Option.getD_some] at hdist
  cases hlock : s.lockRow rid id with
  | none =>
    rw [Option.toList_none, List.append_nil]
    refine ⟨fun e he ↦ .inl he, hdist.sublist ?_⟩
    exact (List.sublist_cons_self id rest).append_left _
  | some e =>
    obtain ⟨rfl, hrow, hnone, hfree⟩ := lockRow_eq_some hlock
    constructor
    · intro e' he'
      rcases List.mem_append.1 he' with he' | he'
      · exact .inl he'
      · rw [List.mem_singleton.1 he']
        exact .inr ⟨hrow, hnone, hfree⟩
    · rwa [Option.toList_some, List.map_append, List.map_singleton, List.append_assoc,
        List.singleton_append]

/-- The row that is next was not sent before. -/
theorem Safe.sends (hs : s.Safe) (hx : s.active? rid = some tx) {batch rest : List OutboxEntry}
    {entry : OutboxEntry} (hpc : tx.pc = .publish batch entry rest) :
    Sends s rid tx [entry.publication rid] := by
  have hloc := hs.at_pc rid tx hx
  rw [hpc] at hloc
  obtain ⟨-, -, done, hheld, hsent⟩ := hloc
  refine .inr ⟨entry, by simp [hheld], rfl, fun m hm hid ↦ ?_⟩
  rw [hsent] at hm
  obtain ⟨e, he, rfl⟩ := List.mem_map.1 hm
  have hdist := (List.nodup_append.1 (hs.distinct rid tx hx)).1
  rw [hheld, List.map_append, List.nodup_append] at hdist
  exact hdist.2.2 e.1 (List.mem_map_of_mem he) entry.1 (by simp) (natsMsgId_inj.1 hid)

/-- **A step inside a transaction.** -/
theorem Safe.ran (hs : s.Safe) (hx : s.active? rid = some tx) (hran : Ran s rid tx tx.pc tx' out) :
    Safe { s with relays := s.relays.set rid tx', sent := s.sent ++ out } := by
  have hact := (active?_eq_some.1 hx).2
  have hloc := hs.at_pc rid tx hx
  have hdist := hs.distinct rid tx hx
  have hnc : tx.status ≠ .committed := by
    rw [hact]
    exact nofun
  generalize hpc : tx.pc = pc at hran hloc
  cases hran with
  | looked hscan =>
    refine hs.update hx _ hnc (fun e he ↦ .inl he) ?_ (.inl rfl) fun _ ↦ ?_
    · rw [hloc.2.2 hscan]
      exact s.nodup_snapshot
    · rw [List.append_nil, hpc]
      exact ⟨hloc.1, hloc.2.1, nofun⟩
  | visited hscan =>
    obtain ⟨hheld, hnodup⟩ := hs.visit hx hscan
    refine hs.update hx _ hnc hheld hnodup (.inl rfl) fun _ ↦ ?_
    rw [List.append_nil, hpc]
    exact ⟨hloc.1, hloc.2.1, nofun⟩
  | selected =>
    refine hs.update hx _ hnc (fun e he ↦ .inl he) hdist (.inl rfl) fun _ ↦ ?_
    rw [List.append_nil]
    exact Local.loop { tx with pc := .loop tx.held tx.held } [] (List.nil_append _).symm hloc.2.1
      hloc.1
  | sent batch entry rest =>
    obtain ⟨rfl, hmarks, done, hheld, hsent⟩ := hloc
    refine hs.update hx _ hnc (fun e he ↦ .inl he) hdist (hs.sends hx hpc) fun _ ↦ ?_
    refine Local.loop { tx with pc := .loop tx.held rest } (done ++ [entry]) ?_ hmarks ?_
    · rw [hheld, List.append_assoc, List.singleton_append]
    · rw [hsent, List.map_append, List.map_singleton]
  | marked batch =>
    obtain ⟨rfl, hmarks, hsent⟩ := hloc
    refine hs.update hx _ hnc (fun e he ↦ .inl he) hdist (.inl rfl) fun _ ↦ ?_
    rw [List.append_nil]
    exact ⟨by rw [hmarks, List.nil_append], hsent⟩
  | raised h marks =>
    refine hs.update hx _ hnc (fun e he ↦ .inl he) hdist (.inl rfl) fun _ ↦ ?_
    rw [List.append_nil]
    exact hloc.isPrefix
  | lost batch entry rest =>
    obtain ⟨rfl, hmarks, done, hheld, hsent⟩ := hloc
    refine hs.update hx _ hnc (fun e he ↦ .inl he) hdist (hs.sends hx hpc) fun _ ↦ ?_
    show _ <+: tx.held.map (OutboxEntry.publication · rid)
    refine ⟨rest.map (OutboxEntry.publication · rid), ?_⟩
    rw [hsent, hheld, List.map_append, List.map_cons, List.append_assoc, List.singleton_append]

/-- The end of a transaction that is undone. -/
theorem Safe.drop (hs : s.Safe) (hx : s.active? rid = some tx) {status : TxStatus}
    (h : status = .rolledBack ∨ status = .dead) :
    (s.setRelay rid { tx with status := status }).Safe := by
  have hst : status ≠ .committed ∧ status ≠ .active := by
    rcases h with rfl | rfl
    · exact ⟨nofun, nofun⟩
    · exact ⟨nofun, nofun⟩
  have hnew := hs.update hx { tx with status := status } hst.1 (fun e he ↦ .inl he)
    (hs.distinct rid tx hx) (.inl rfl) fun hact ↦ absurd hact hst.2
  rwa [List.append_nil] at hnew

/-! ### The other steps -/

theorem Safe.begin (hs : s.Safe) (now : ℕ) :
    Safe { s with relays := s.relays ++ [{ now := now }] } := by
  have hold : ∀ {r : ℕ} {x : RelayTx}, (s.relays ++ [{ now := now }])[r]? = some x →
      s.relays[r]? = some x ∨ (r = s.relays.length ∧ x = { now := now }) := by
    intro r x h
    rcases List.getElem?_concat_eq_some h with h | ⟨-, hr, hx⟩
    · exact .inl h
    · exact .inr ⟨hr, hx⟩
  have hactive : ∀ {r : ℕ} {x : RelayTx},
      active? { s with relays := s.relays ++ [{ now := now }] } r = some x →
      s.active? r = some x ∨ (r = s.relays.length ∧ x = { now := now }) := by
    intro r x h
    obtain ⟨hget, hact⟩ := active?_eq_some.1 h
    rcases hold hget with hget | hnew
    · exact .inl (active?_eq_some.2 ⟨hget, hact⟩)
    · exact .inr hnew
  constructor
  case locked =>
    intro r x h
    rcases hactive h with h | ⟨-, rfl⟩
    · exact hs.locked r x h
    · exact fun e he ↦ absurd he List.not_mem_nil
  case distinct =>
    intro r x h
    rcases hactive h with h | ⟨-, rfl⟩
    · exact hs.distinct r x h
    · exact .nil
  case apart =>
    intro r r' x x' e e' h h' he he' heq
    rcases hactive h with h | ⟨-, rfl⟩
    · rcases hactive h' with h' | ⟨-, rfl⟩
      · exact hs.apart r r' x x' e e' h h' he he' heq
      · exact absurd he' List.not_mem_nil
    · exact absurd he List.not_mem_nil
  case at_pc =>
    intro r x h
    rcases hactive h with h | ⟨rfl, rfl⟩
    · exact hs.at_pc r x h
    · refine ⟨List.filter_eq_nil_iff.2 fun m hm heq ↦ ?_, rfl, fun _ ↦ rfl⟩
      exact absurd (hs.known m hm) (by rw [of_decide_eq_true heq]; exact lt_irrefl _)
  case done =>
    intro r x h hst
    rcases hold h with h | ⟨-, rfl⟩
    · exact hs.done r x h hst
    · exact nomatch hst
  case known =>
    intro m hm
    rw [List.length_append]
    exact Nat.lt_add_right _ (hs.known m hm)
  case sent => exact hs.sent
  case marked => exact hs.marked
  case hidden => exact hs.hidden
  case repeats =>
    refine hs.repeats.imp fun {m m'} h hid ↦ ?_
    obtain ⟨hne, x, hget, hst⟩ := h hid
    exact ⟨hne, x, List.getElem?_concat_of_some hget _, hst⟩

/-- A step of the repository keeps the committed rows, and those it adds are unpublished. -/
theorem Safe.rows_repo (hs : s.Safe) {a : ServerStep SubmitRequest} {server : Server SubmitRequest}
    (h : s.server.step a = some server) :
    (∀ e ∈ s.rows, e ∈ server.db.outbox.rows) ∧
    ∀ e ∈ server.db.outbox.rows, e ∈ s.rows ∨ e.2.publishedAt = none := by
  obtain ⟨hkeep, hnew, hcom⟩ := Server.outbox_step h
  constructor
  · rintro ⟨id, row⟩ he
    obtain ⟨owner, hc, hr⟩ := SerialTable.mem_visible_rows.1 he
    exact SerialTable.mem_visible_rows.2 ⟨owner, hcom owner hc, hkeep _ hr⟩
  · rintro ⟨id, row⟩ he
    obtain ⟨owner, -, hr⟩ := SerialTable.mem_visible_rows.1 he
    rcases hnew _ hr with hr | hnone
    · cases hc : s.server.committed owner with
      | true => exact .inl (SerialTable.mem_visible_rows.2 ⟨owner, hc, hr⟩)
      | false => exact .inr (hs.hidden _ hr hc)
    · exact .inr hnone

/-- **A step of the repository** disturbs no relay. -/
theorem Safe.repo (hs : s.Safe) {a : ServerStep SubmitRequest} {server : Server SubmitRequest}
    (h : s.server.step a = some server) : Safe { s with server := server } := by
  obtain ⟨hkeep, hnew⟩ := hs.rows_repo h
  constructor
  case locked =>
    intro r x hx e he
    obtain ⟨hrow, hnone⟩ := hs.locked r x hx e he
    exact ⟨hkeep e hrow, hnone⟩
  case distinct => exact hs.distinct
  case apart => exact hs.apart
  case at_pc => exact hs.at_pc
  case done =>
    intro r x hx hst m hm
    obtain ⟨e, he, hmarked, heq⟩ := hs.done r x hx hst m hm
    exact ⟨e, hkeep e he, hmarked, heq⟩
  case known => exact hs.known
  case sent =>
    intro m hm
    obtain ⟨e, he, heq⟩ := hs.sent m hm
    exact ⟨e, hkeep e he, heq⟩
  case marked =>
    intro e he hmarked
    rcases hnew e he with he | hnone
    · exact hs.marked e he hmarked
    · exact absurd hnone hmarked
  case hidden =>
    obtain ⟨-, hrows, hcom⟩ := Server.outbox_step h
    intro r hr hc
    rcases hrows r hr with hr | hnone
    · refine hs.hidden r hr ?_
      cases hc' : s.server.committed r.2.1 with
      | false => rfl
      | true => exact nomatch hc.symm.trans (hcom _ hc')
    · exact hnone
  case repeats => exact hs.repeats

/-! ### The commit -/

/-- A row after a mark. -/
def markEntry (now : ℕ) (ids : List ℕ) (e : OutboxEntry) : OutboxEntry :=
  (e.1, markRow now ids e.1 e.2)

@[simp] theorem publication_markEntry (now : ℕ) (ids : List ℕ) (e : OutboxEntry) (rid : ℕ) :
    OutboxEntry.publication (markEntry now ids e) rid = e.publication rid := by
  rw [markEntry, markRow]
  split
  · rfl
  · rfl

theorem markEntry_of_not_mem {now : ℕ} {ids : List ℕ} {e : OutboxEntry} (h : e.1 ∉ ids) :
    markEntry now ids e = e := by
  rw [markEntry, markRow, if_neg h]

theorem publishedAt_markEntry {now : ℕ} {ids : List ℕ} {e : OutboxEntry}
    (h : e.1 ∈ ids ∨ e.2.publishedAt ≠ none) : (markEntry now ids e).2.publishedAt ≠ none := by
  rw [markEntry, markRow]
  split
  · exact Option.some_ne_none now
  · next hmem => exact h.resolve_left hmem

/-- The visible rows after a mark are those before it, marked. -/
theorem mem_rows_mark {server : Server SubmitRequest} {now : ℕ} {ids : List ℕ} {e : OutboxEntry} :
    e ∈ (mark server now ids).db.outbox.rows ↔
      ∃ e₀ ∈ server.db.outbox.rows, markEntry now ids e₀ = e := by
  show e ∈ ((server.outbox.modify _).visible server.committed).rows ↔ _
  rw [SerialTable.rows_visible_modify, List.mem_map]
  rfl

/-- **The commit of a relay.** What it marks it holds, and has published. -/
theorem Safe.commit (hs : s.Safe) (hx : s.active? rid = some tx) {n : ℕ}
    (hpc : tx.pc = .finished (.ok n)) : (s.commit rid tx).Safe := by
  have hloc := hs.at_pc rid tx hx
  rw [hpc] at hloc
  obtain ⟨hmarks, hsent⟩ := hloc
  have hmine : ∀ {e : OutboxEntry}, e ∈ s.rows → e.1 ∈ tx.marks → e ∈ tx.held := by
    intro e he hmem
    rw [hmarks] at hmem
    obtain ⟨e', he', heq⟩ := List.mem_map.1 hmem
    rwa [SerialTable.eq_of_mem_rows _ he (hs.locked rid tx hx e' he').1 heq.symm]
  have hrows : ∀ {e : OutboxEntry}, e ∈ (s.commit rid tx).rows ↔
      ∃ e₀ ∈ s.rows, markEntry tx.now tx.marks e₀ = e := mem_rows_mark
  have hother : ∀ {r : ℕ} {x : RelayTx}, (s.commit rid tx).active? r = some x →
      r ≠ rid ∧ s.active? r = some x := by
    intro r x h
    rcases active?_set rfl h with hold | ⟨-, -, hact⟩
    · exact hold
    · exact nomatch hact
  constructor
  case locked =>
    intro r x h e he
    obtain ⟨hr, h⟩ := hother h
    obtain ⟨hrow, hnone⟩ := hs.locked r x h e he
    refine ⟨hrows.2 ⟨e, hrow, markEntry_of_not_mem fun hmem ↦ ?_⟩, hnone⟩
    exact hr (hs.apart r rid x tx e e h hx he (hmine hrow hmem) rfl)
  case distinct => exact fun r x h ↦ hs.distinct r x (hother h).2
  case apart => exact fun r r' x x' e e' h h' ↦ hs.apart r r' x x' e e' (hother h).2 (hother h').2
  case at_pc => exact fun r x h ↦ hs.at_pc r x (hother h).2
  case done =>
    intro r x h hst m hm
    rcases List.getElem?_set_eq_some h with ⟨rfl, rfl⟩ | ⟨-, h⟩
    · obtain ⟨e, he, rfl⟩ := hs.sentBy_subset hx hm
      refine ⟨_, hrows.2 ⟨e, (hs.locked rid tx hx e he).1, rfl⟩, publishedAt_markEntry (.inl ?_),
        ?_⟩
      · rw [hmarks]
        exact List.mem_map_of_mem he
      · rw [publication_markEntry]
    · obtain ⟨e, he, hmarked, rfl⟩ := hs.done r x h hst m hm
      exact ⟨_, hrows.2 ⟨e, he, rfl⟩, publishedAt_markEntry (.inr hmarked),
        (publication_markEntry ..).symm⟩
  case known =>
    intro m hm
    exact (hs.known m hm).trans_eq List.length_set.symm
  case sent =>
    intro m hm
    obtain ⟨e, he, heq⟩ := hs.sent m hm
    exact ⟨_, hrows.2 ⟨e, he, rfl⟩, heq.trans (publication_markEntry ..).symm⟩
  case marked =>
    intro e he hmarked
    obtain ⟨e₀, he₀, rfl⟩ := hrows.1 he
    by_cases hmem : e₀.1 ∈ tx.marks
    · refine ⟨rid, List.mem_of_mem_filter (p := fun m ↦ m.relay = rid) ?_⟩
      show _ ∈ s.sentBy rid
      rw [hsent, publication_markEntry]
      exact List.mem_map_of_mem (hmine he₀ hmem)
    · rw [markEntry_of_not_mem hmem] at hmarked ⊢
      exact hs.marked e₀ he₀ hmarked
  case hidden =>
    intro r hr hc
    obtain ⟨r₀, hr₀, rfl⟩ := List.mem_map.1 hr
    have hnot : r₀.1 ∉ tx.marks := by
      intro hmem
      rw [hmarks] at hmem
      obtain ⟨e, he, heq⟩ := List.mem_map.1 hmem
      obtain ⟨owner, howner, hrow⟩ := SerialTable.mem_visible_rows.1 (hs.locked rid tx hx e he).1
      obtain rfl := SerialTable.eq_of_mem_rows _ hr₀ hrow heq.symm
      exact nomatch hc.symm.trans howner
    show (markRow tx.now tx.marks r₀.1 r₀.2.2).publishedAt = none
    rw [markRow, if_neg hnot]
    exact hs.hidden r₀ hr₀ hc
  case repeats =>
    refine hs.repeats.imp fun {m m'} h hid ↦ ?_
    obtain ⟨hne, hundone⟩ := h hid
    exact ⟨hne, hundone.set hx rfl⟩

/-! ### Every run -/

/-- **What the relays publish is safe in every reachable state.** -/
theorem safe_of_reachable (h : (system cfg).Reachable TransitionSystem.anyStep s) : s.Safe := by
  refine h.induct (I := Safe) ?_ ?_
  · rintro s rfl
    have hnone : ∀ (r : ℕ) (x : RelayTx), empty.active? r ≠ some x := by
      intro r x h
      exact nomatch (active?_eq_some.1 h).1
    constructor
    case locked => exact fun r x h ↦ absurd h (hnone r x)
    case distinct => exact fun r x h ↦ absurd h (hnone r x)
    case apart => exact fun r r' x x' e e' h ↦ absurd h (hnone r x)
    case at_pc => exact fun r x h ↦ absurd h (hnone r x)
    case done => exact fun r x h ↦ nomatch h
    case known => exact fun m hm ↦ absurd hm List.not_mem_nil
    case sent => exact fun m hm ↦ absurd hm List.not_mem_nil
    case marked => exact fun e he ↦ absurd he List.not_mem_nil
    case hidden => exact fun r hr ↦ absurd hr List.not_mem_nil
    case repeats => exact .nil
  · intro s a s' _ hs _ (h : s.step cfg a = some s')
    rcases step_cases h with ⟨a, server, hstep, rfl⟩ | ⟨now, rfl⟩ |
      ⟨rid, tx, tx', out, hx, hran, rfl⟩ |
      ⟨rid, tx, n, hx, hpc, rfl⟩ | ⟨rid, tx, status, hx, hst, rfl⟩
    · exact hs.repo hstep
    · exact hs.begin now
    · exact hs.ran hx hran
    · exact hs.commit hx hpc
    · exact hs.drop hx hst

/-- The stream of a broker that drops repeats of a message id. -/
def received (s : RelayedServer) : List Publication := s.sent.firsts Publication.natsMsgId

/-- **Outbox relay safety.** However the statements and publishes of any number of relays interleave
with each other and with the transactions of the repository, and wherever relays die or publishes
fail: a row is marked only if its message was published; only committed rows are published; a row
is published again only when every transaction that published it before was rolled back, so that of
two committed transactions at most one published it; and a broker that drops repeats has one message
of each row that was published, and no other. -/
theorem relay_safe (h : (system cfg).Reachable TransitionSystem.anyStep s) :
    (∀ e ∈ s.rows, e.2.publishedAt ≠ none → ∃ m ∈ s.sent, m.Of e) ∧
    (∀ m ∈ s.sent, ∃ e ∈ s.rows, m.Of e) ∧
    (s.sent.Pairwise fun m m' ↦ m.natsMsgId = m'.natsMsgId →
      m.relay ≠ m'.relay ∧ s.Undone m.relay) ∧
    (∀ m ∈ s.sent, ∀ m' ∈ s.sent, m.natsMsgId = m'.natsMsgId → ∀ tx tx',
      s.relays[m.relay]? = some tx → s.relays[m'.relay]? = some tx' →
      tx.status = .committed → tx'.status = .committed → m.relay = m'.relay) ∧
    (∀ e ∈ s.rows, (∃ m ∈ s.sent, m.natsMsgId = natsMsgId e.1) →
      ∃ m, m.Of e ∧ s.received.filter (fun m ↦ m.natsMsgId = natsMsgId e.1) = [m]) ∧
    ∀ m ∈ s.received, m ∈ s.sent := by
  have hs := safe_of_reachable h
  have hof : ∀ {m : Publication} {e : OutboxEntry}, m = e.publication m.relay → m.Of e := by
    intro m e heq
    exact ⟨congrArg Publication.natsMsgId heq, congrArg Publication.subject heq,
      congrArg Publication.payload heq⟩
  refine ⟨?_, ?_, hs.repeats, ?_, ?_, fun m hm ↦ List.mem_of_mem_firsts _ hm⟩
  · intro e he hmarked
    obtain ⟨rid, hmem⟩ := hs.marked e he hmarked
    exact ⟨_, hmem, hof rfl⟩
  · intro m hm
    obtain ⟨e, he, heq⟩ := hs.sent m hm
    exact ⟨e, he, hof heq⟩
  · intro m hm m' hm' hid tx tx' hget hget' hst hst'
    obtain ⟨i, hi, rfl⟩ := List.mem_iff_getElem.1 hm
    obtain ⟨k, hk, rfl⟩ := List.mem_iff_getElem.1 hm'
    have hrep := List.pairwise_iff_getElem.1 hs.repeats
    rcases Nat.lt_trichotomy i k with hik | rfl | hki
    · exact absurd (hrep i k hi hk hik hid).2 (not_undone hget hst)
    · exact Eq.refl _
    · exact absurd (hrep k i hk hi hki hid.symm).2 (not_undone hget' hst')
  · rintro e he ⟨m, hm, hid⟩
    cases hfind : s.sent.find? fun m ↦ m.natsMsgId = natsMsgId e.1 with
    | none => exact absurd (decide_eq_true hid) (List.find?_eq_none.1 hfind m hm)
    | some m₀ =>
      obtain ⟨e₀, he₀, heq₀⟩ := hs.sent m₀ (List.mem_of_find?_eq_some hfind)
      have hid₀ : m₀.natsMsgId = natsMsgId e.1 := by simpa using List.find?_some hfind
      rw [heq₀] at hid₀
      obtain rfl := SerialTable.eq_of_mem_rows _ he₀ he (natsMsgId_inj.1 hid₀)
      refine ⟨m₀, hof heq₀, ?_⟩
      rw [received, List.filter_firsts, hfind, Option.toList_some]

/-- A relay publishes a row and dies while a second one is looking at it; the second passes the row
over, and a third publishes it again and marks it. -/
def relayDies : List RelayedServerStep :=
  [.repo (.begin 0 (.submitJob ⟨0⟩ "k" (.healthy 10 ten_le_limit) "orbiter.jobs" [])),
    .repo (.run 0), .repo (.run 0), .repo (.run 0), .begin 0, .look 0, .run 0 .served, .finish 0,
    .repo (.run 0), .repo (.finish 0), .begin 1, .look 1, .begin 2, .look 2, .visit 1, .visit 2,
    .run 1 .served, .run 1 .served, .die 1, .run 2 .served, .finish 2, .begin 3, .look 3, .visit 3,
    .run 3 .served, .run 3 .served, .run 3 .served, .finish 3]

/-- A relay dies after its publish, and a later one publishes the row again and marks it. -/
theorem relay_safe_relayDies : ∃ s : RelayedServer,
    (system {}).Reachable TransitionSystem.anyStep s ∧
    s.sent.map (fun m ↦ (m.relay, m.natsMsgId)) = [(1, "outbox-1"), (3, "outbox-1")] ∧
    s.relays.map RelayTx.status = [.committed, .dead, .committed, .committed] ∧
    s.rows.map (fun e ↦ (e.1, e.2.publishedAt)) = [(1, some 3)] ∧
    ∀ e ∈ s.rows, e.2.publishedAt ≠ none → ∃ m ∈ s.sent, m.Of e := by
  have hrun : ((system {}).exec empty relayDies).any (fun s ↦
      decide (s.sent.map (fun m ↦ (m.relay, m.natsMsgId)) = [(1, "outbox-1"), (3, "outbox-1")] ∧
        s.relays.map RelayTx.status = [.committed, .dead, .committed, .committed] ∧
        s.rows.map (fun e ↦ (e.1, e.2.publishedAt)) = [(1, some 3)])) = true := by
    rfl
  obtain ⟨s, hl, hstate⟩ := TransitionSystem.exists_leads_of_exec hrun
  have hr : (system {}).Reachable TransitionSystem.anyStep s := ⟨_, rfl, hl⟩
  obtain ⟨hsent, hrelays, hrows⟩ := of_decide_eq_true hstate
  exact ⟨s, hr, hsent, hrelays, hrows, (relay_safe hr).1⟩

end RelayedServer

end Orbiter
