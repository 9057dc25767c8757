import Orbiter.Leases.Exclusion

/-!
# Do tokens follow the order of acquisition?

`acquire` draws its token in one call and takes the lease in the next. A call that pauses in between
can be overtaken: somebody draws a larger token, takes the lease, writes and goes, and then the
paused call takes the free lease with its small token. The tokens of the acquisitions are then out
of order, and the holder of a live lease is refused because of a write of an earlier holder
(`tokens_out_of_order`).

That is the only way. As long as the second calls on each resource are made in the order of the
first ones (`inDrawOrder`), tokens follow the order of acquisition and no live holder is refused.

* `overtaken` — a larger token was drawn by a call that has already returned; `inDrawOrder` forbids
  to take a lease with a token that has been overtaken;
* `Taken`, `Presented` — auxiliary invariants, which need no guard: a lease returned was taken by
  its own set, and what the resource has accepted was presented by a holder;
* `inOrder_move` — the step lemma under the guard;
* `tokens_follow_acquisition` — both properties in every state reached under the guard.
-/

namespace Orbiter

open LeaseManager TransitionSystem

/-- The call has come to its end. -/
def AcquireCall.isFinished (a : AcquireCall) : Bool :=
  match a.pc with
  | .finished _ => true
  | _ => false

namespace Leasing

/-- Some call on the resource that drew a larger token has already made its `set_if_absent`. -/
def overtaken (s : Leasing) (r : String) (t : ℕ) : Bool :=
  s.store.trace.any fun x ↦
    (x.drew?.any fun d ↦ d.1 = tokenKey r && t < d.2) &&
      (s.calls[x.who]?).any AcquireCall.isFinished

/-- No call makes its `set_if_absent` after it was overtaken. -/
def inDrawOrder (s : Leasing) : LeaseStep → Bool
  | .resume i =>
    match s.calls[i]? with
    | some ⟨r, _, .setLease t⟩ => !s.overtaken r t
    | _ => true
  | _ => true

/-- The tokens of the acquisitions of a resource increase in the order of their `set_if_absent`. -/
def InOrder (s : Leasing) : Prop :=
  ∀ {i i' l l' k k' time time'}, s.Acquired i l k time → s.Acquired i' l' k' time' →
    l.resource = l'.resource → k < k' → l.token < l'.token

/-- The holder of a live lease is not refused. -/
def NeverRefused (s : Leasing) : Prop :=
  ∀ {i l}, s.lease? i = some l → s.store.Owns (leaseKey l.resource) i →
    ∃ writer, s.writer.check l.resource l.token = .ok writer

variable {ttlS : ℚ} {s s' : Leasing}

/-- A token smaller than that of a lease granted since has been overtaken. -/
theorem overtaken_of_lease (hs : Attested ttlS s) {i t : ℕ} {l : Lease} (hl : s.lease? i = some l)
    (ht : t < l.token) : s.overtaken l.resource t = true := by
  obtain ⟨a, hget, hfin⟩ := lease?_eq_some.1 hl
  obtain ⟨k, x, hx, rfl, hd⟩ := hs.drawn hl
  refine List.any_eq_true.2 ⟨x, List.mem_of_getElem? hx, ?_⟩
  rw [hd, hget]
  simp [ht, AcquireCall.isFinished, hfin]

/-- Every lease was taken by a set that is on record. -/
def Taken (s : Leasing) : Prop := ∀ {i l}, s.lease? i = some l → ∃ k time, s.Acquired i l k time

theorem Acquired.move {a : LeaseStep} (hm : Move ttlS s a s') {i k : ℕ} {l : Lease} {time : ℚ}
    (h : s.Acquired i l k time) : s'.Acquired i l k time := by
  obtain ⟨hl, x, hx, hrest⟩ := h
  refine ⟨hm.lease?_of_some hl, x, ?_, hrest⟩
  cases hm with
  | drew _ | won _ _ | lost _ _ | released _ => exact TracedKV.at_serve_of_at hx
  | began _ _ | accepted _ _ | refused _ | advanced _ => exact hx

/-- An acquisition on record was there before, or was made by the step. -/
theorem acquired_cases (hs : Attested ttlS s) {a : LeaseStep} (hm : Move ttlS s a s') {i k : ℕ}
    {l : Lease} {time : ℚ} (h : s'.Acquired i l k time) :
    s.Acquired i l k time ∨
    (k = s.store.trace.length ∧ a = .resume i ∧
      s.calls[i]? = some ⟨l.resource, l.holder, .setLease l.token⟩) := by
  obtain ⟨hl, x, hx, rfl, htime, v, t, htook⟩ := h
  have hold : s.store.At k x → s.Acquired x.who l k time := by
    intro hx
    obtain ⟨-, l', hl', -, -⟩ := hs.sets hx htook
    obtain rfl := Option.some.inj (hl.symm.trans (hm.lease?_of_some hl'))
    exact ⟨hl', x, hx, rfl, htime, v, t, htook⟩
  cases hm with
  | began _ _ | accepted _ _ | refused _ | advanced _ => exact .inl (hold hx)
  | drew _ | released _ =>
    rcases TracedKV.at_serve hx with hx | ⟨-, rfl⟩
    · exact .inl (hold hx)
    · exact absurd (TracedKV.took?_newest.1 htook).1 (by simp [releaseCall])
  | lost _ hheld =>
    rcases TracedKV.at_serve hx with hx | ⟨-, rfl⟩
    · exact .inl (hold hx)
    · obtain ⟨heq, hfree⟩ := TracedKV.took?_newest.1 htook
      rw [(KvCall.setIfAbsent.inj heq).1] at hheld
      exact absurd hfree hheld
  | won hget _ =>
    rcases TracedKV.at_serve hx with hx | ⟨hk, rfl⟩
    · exact .inl (hold hx)
    · rcases lease?_set hl with hl | ⟨-, hfin⟩
      · obtain ⟨b, hb, hfin⟩ := lease?_eq_some.1 hl
        obtain rfl := Option.some.inj (hget.symm.trans hb)
        exact absurd hfin (by simp)
      · obtain rfl := by simpa using hfin
        exact .inr ⟨hk, rfl, hget⟩

/-- Every lease returned was taken by a set of its call. -/
theorem taken_move (hs : Taken s) {a : LeaseStep} (hm : Move ttlS s a s') : Taken s' := by
  intro i l hl
  rcases hm.lease?_cases hl with hold | ⟨r, hd, t, rfl, hget, hfree, rfl, hst⟩
  · obtain ⟨k, time, hacq⟩ := hs hold
    exact ⟨k, time, hacq.move hm⟩
  · have hat : s'.store.At s.store.trace.length
        (s.store.newest i (.setIfAbsent (leaseKey r) (leaseValue hd t) ttlS)) := by
      rw [hst]
      exact TracedKV.at_serve_newest
    exact ⟨_, s.store.now, hl, _, hat, rfl, rfl, _, _, TracedKV.took?_newest.2 ⟨rfl, hfree⟩⟩

/-- **One step.** A call that was not overtaken takes the lease with a token larger than those of
all acquisitions before it. -/
theorem inOrder_move (hs : Attested ttlS s) (ho : s.InOrder) {a : LeaseStep}
    (hg : s.inDrawOrder a = true) (hm : Move ttlS s a s') : s'.InOrder := by
  intro i i' l l' k k' time time' h h' hr hk
  rcases acquired_cases hs hm h' with hold' | ⟨rfl, rfl, hget⟩
  · rcases acquired_cases hs hm h with hold | ⟨rfl, -, -⟩
    · exact ho hold hold' hr hk
    · obtain ⟨-, x, hx, -⟩ := hold'
      exact absurd hx.lt_length (Nat.lt_asymm hk)
  · rcases acquired_cases hs hm h with hold | ⟨rfl, -, -⟩
    · rw [inDrawOrder, hget] at hg
      have hnot : s.overtaken l'.resource l'.token = false := by simpa using hg
      have hle : l.token ≤ l'.token := by
        refine Nat.le_of_not_lt fun hlt ↦ ?_
        rw [← hr, overtaken_of_lease hs hold.1 hlt] at hnot
        exact absurd hnot (by decide)
      refine Nat.lt_of_le_of_ne hle fun heq ↦ ?_
      have hi := (Attested.move hs hm).eq_of_token_eq h.1 h'.1 hr heq
      subst hi
      obtain ⟨b, hb, hfin⟩ := lease?_eq_some.1 hold.1
      obtain rfl := Option.some.inj (hget.symm.trans hb)
      exact absurd hfin (by simp)
    · exact absurd hk (Nat.lt_irrefl _)

/-- What the fenced resource has accepted is the token of a lease. -/
def Presented (s : Leasing) : Prop := ∀ r, s.writer.newestAccepted r ≤ 0 ∨
  ∃ i l, s.lease? i = some l ∧ l.resource = r ∧ s.writer.newestAccepted r = l.token

/-- What the resource has accepted was presented by the holder of a lease. -/
theorem presented_move (hp : s.Presented) {a : LeaseStep} (hm : Move ttlS s a s') :
    s'.Presented := by
  intro r
  -- a token accepted before the step still belongs to its lease
  have hold : s.writer.newestAccepted r ≤ 0 ∨
      ∃ i l, s'.lease? i = some l ∧ l.resource = r ∧ s.writer.newestAccepted r = l.token := by
    rcases hp r with hzero | ⟨i, l, hl, hr, ht⟩
    · exact .inl hzero
    · exact .inr ⟨i, l, hm.lease?_of_some hl, hr, ht⟩
  cases hm with
  | began _ _ | drew _ | won _ _ | lost _ _ | released _ | refused _ | advanced _ => exact hold
  | @accepted i l writer hl hok =>
    rw [FencedWriter.check] at hok
    split at hok
    · exact absurd hok (by simp)
    · obtain rfl := Except.ok.inj hok
      by_cases hr : r = l.resource
      · exact .inr ⟨i, l, hl, hr.symm, if_pos hr⟩
      · show (if r = l.resource then _ else _) ≤ (0 : ℤ) ∨ _
        simp only [if_neg hr]
        exact hold

/-- When tokens are in order, the live holder's is the largest that was presented. -/
theorem neverRefused (ho : s.InOrder) (ht : s.Taken) (hp : s.Presented) :
    s.NeverRefused := by
  intro i l hl hown
  obtain ⟨-, k, x, hlast, rfl⟩ := hown
  have hle : s.writer.newestAccepted l.resource ≤ l.token := by
    rcases hp l.resource with hzero | ⟨i', l', hl', hr, heq⟩
    · exact hzero.trans (Int.natCast_nonneg _)
    · rw [heq]
      obtain ⟨k', time, hacq⟩ := ht hl'
      have hacq' : s.Acquired x.who l k x.time := ⟨hl, x, hlast.1, rfl, rfl, hlast.2.1⟩
      rcases Nat.lt_trichotomy k' k with hlt | rfl | hlt
      · exact Int.ofNat_le.2 (ho hacq hacq' hr hlt).le
      · obtain ⟨-, y, hy, rfl, -⟩ := hacq
        obtain rfl := Option.some.inj (hy.symm.trans hlast.1)
        rw [Option.some.inj (hl.symm.trans hl')]
      · -- nothing was taken after the last set
        obtain ⟨-, y, hy, -, -, v, t, htook⟩ := hacq
        rw [hr] at htook
        exact absurd htook (hlast.2.2 k' y hlt hy.lt_length hy v t)
  exact ⟨_, if_neg (not_lt.2 hle)⟩

/-- **Tokens follow acquisition order in every run in which nobody is overtaken**, and then no live
holder is refused because of an earlier one's write. -/
theorem tokens_follow_acquisition (ttlS : ℚ) {s : Leasing}
    (h : (system ttlS).Reachable (fun s a ↦ s.inDrawOrder a = true) s) :
    s.InOrder ∧ s.NeverRefused := by
  have hinv : s.InOrder ∧ s.Taken ∧ s.Presented := by
    refine h.induct (I := fun s ↦ s.InOrder ∧ s.Taken ∧ s.Presented) ?_ ?_
    · rintro _ ⟨t, rfl⟩
      exact ⟨fun h _ _ _ ↦ absurd h.1 (by simp [lease?]), fun h ↦ absurd h (by simp [lease?]),
        fun _ ↦ .inl le_rfl⟩
    · rintro s a s' hr ⟨ho, ht, hp⟩ hg hstep
      have hm := move_of_step hstep
      exact ⟨inOrder_move (.of_reachable hr) ho hg hm, taken_move ht hm, presented_move hp hm⟩
  exact ⟨hinv.1, neverRefused hinv.1 hinv.2.1 hinv.2.2⟩

/-- The first lease expires, and the next call draws and takes its own. -/
def succession : List LeaseStep :=
  [.acquire "job" "a", .resume 0, .resume 0, .write 0, .advance 15, .acquire "job" "b", .resume 1,
    .resume 1, .write 0]

/-- One holder after another, with tokens 1 and 2, and the second is not refused. -/
theorem tokens_follow_acquisition_succession :
    ∃ s, (system 15).Reachable (fun s a ↦ s.inDrawOrder a = true) s ∧
      s.Acquired 0 ⟨"job", "a", 1⟩ 1 0 ∧ s.Acquired 1 ⟨"job", "b", 2⟩ 3 15 ∧
      s.store.Owns (leaseKey "job") 1 ∧ ∃ writer, s.writer.check "job" 2 = .ok writer := by
  have hrun : ((system 15).execGuarded inDrawOrder ⟨⟨.empty, 0, []⟩, [], .empty⟩ succession).any
      (fun s ↦ s.Acquired 0 ⟨"job", "a", 1⟩ 1 0 ∧ s.Acquired 1 ⟨"job", "b", 2⟩ 3 15 ∧
        s.releaseAnswer ⟨"job", "b", 2⟩ = true) = true := by
    decide +kernel
  obtain ⟨s, hl, hp⟩ := exists_leads_of_execGuarded (fun _ _ hg ↦ hg) hrun
  obtain ⟨ha, hb, hlive⟩ := of_decide_eq_true hp
  have hr : (system 15).Reachable (fun s a ↦ s.inDrawOrder a = true) s := ⟨_, ⟨0, rfl⟩, hl⟩
  have hown := ((Attested.of_reachable hr).releaseAnswer_iff hb.1).1 hlive
  exact ⟨s, hr, ha, hb, hown, (tokens_follow_acquisition 15 hr).2 hb.1 hown⟩

/-- The first call pauses between its two calls; the second one draws, takes the lease, writes and
releases; then the first one takes the free lease. -/
def overtaking : List LeaseStep :=
  [.acquire "job" "a", .acquire "job" "b", .resume 0, .resume 1, .resume 1, .write 1, .release 1,
    .resume 0]

/-- **A call that pauses between its two calls is overtaken**, and its lease is refused. -/
theorem tokens_out_of_order :
    ∃ s, (system 15).Reachable anyStep s ∧ ¬ s.InOrder ∧ ¬ s.NeverRefused := by
  have hrun : ((system 15).exec ⟨⟨.empty, 0, []⟩, [], .empty⟩ overtaking).any (fun s ↦
      s.Acquired 1 ⟨"job", "b", 2⟩ 2 0 ∧ s.Acquired 0 ⟨"job", "a", 1⟩ 4 0 ∧
      s.releaseAnswer ⟨"job", "a", 1⟩ = true ∧ (s.writer.check "job" 1).isOk = false) = true := by
    decide +kernel
  obtain ⟨s, hl, hp⟩ := exists_leads_of_exec hrun
  obtain ⟨hb, ha, hlive, hstale⟩ := of_decide_eq_true hp
  have hr : (system 15).Reachable anyStep s := ⟨_, ⟨0, rfl⟩, hl⟩
  refine ⟨s, hr, fun ho ↦ absurd (ho hb ha rfl (by decide)) (by decide), fun hn ↦ ?_⟩
  have hown := ((Attested.of_reachable hr).releaseAnswer_iff ha.1).1 hlive
  obtain ⟨writer, hok⟩ := hn ha.1 hown
  have hok : s.writer.check "job" 1 = .ok writer := hok
  rw [hok] at hstale
  exact absurd hstale (by simp [Except.isOk, Except.toBool])

end Leasing

end Orbiter
