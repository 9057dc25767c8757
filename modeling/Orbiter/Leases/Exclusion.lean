import Orbiter.Leases.System

/-!
# A lease excludes, and its release is its own

Tokens are drawn from a counter, so no two calls on a resource hold the same one, and the text of an
entry determines holder and token. A deletion that succeeds therefore comes from the lease that
wrote the entry, whatever the holder strings are, and two acquisitions of one resource are a time to
live apart or have the first one's own release between them.

## The argument

* `Attested` — the invariant: each set in the history was made by a call that holds the lease it
  wrote, each deletion by the holder of what it names, and each token by the call that drew it. The
  clauses are kept one by one (`sets_move`, `drops_move`, `pending_move`, `drawn_move`);
* `eq_of_token_eq`, `eq_of_value_eq` — one token or one text, one lease;
* `Attested.apart` — two acquisitions of one resource, from `Recorded.apart` of the store's history
  and `eq_of_value_eq`: the deletion between them is the first lease's own release;
* `exclusion_and_safe_release` — with it, what a release does: it removes the entry if that is still
  the lease's own, and otherwise changes nothing that is live.

Nothing is assumed of the callers. A holder that works on after its lease has expired is in all of
this, and it is the fenced resource that refuses what it writes.
-/

namespace Orbiter

open LeaseManager TransitionSystem

namespace Leasing

/-- What the history says about the calls. -/
structure Attested (ttlS : ℚ) (s : Leasing) : Prop where
  recorded : s.store.Recorded
  /-- Entries are written by acquisitions that succeed. -/
  sets : ∀ {k x key v t}, s.store.At k x → x.took? = some (key, v, t) → t = ttlS ∧
    ∃ l, s.lease? x.who = some l ∧ key = leaseKey l.resource ∧ v = leaseValue l.holder l.token
  /-- Entries are deleted by releases. -/
  drops : ∀ {k x key v}, s.store.At k x → x.dropped? = some (key, v) →
    ∃ l, s.lease? x.who = some l ∧ key = leaseKey l.resource ∧ v = leaseValue l.holder l.token
  /-- A token under way was drawn by its call. -/
  pending : ∀ {i r hd t}, s.calls[i]? = some (⟨r, hd, .setLease t⟩ : AcquireCall) →
    ∃ k x, s.store.At k x ∧ x.who = i ∧ x.drew? = some (tokenKey r, t)
  /-- So was the token of a lease. -/
  drawn : ∀ {i l}, s.lease? i = some l →
    ∃ k x, s.store.At k x ∧ x.who = i ∧ x.drew? = some (tokenKey l.resource, l.token)

namespace Attested

variable {ttlS : ℚ} {s s' : Leasing}

theorem empty (t : ℚ) : Attested ttlS ⟨⟨.empty, t, []⟩, [], .empty⟩ where
  recorded := .empty t
  sets h := absurd h (by simp [TracedKV.At])
  drops h := absurd h (by simp [TracedKV.At])
  pending h := absurd h (by simp)
  drawn h := absurd h (by simp [lease?])

/-- A call to the store by `who`, seen from the history. -/
theorem at_of_serve {who : ℕ} {c : KvCall ℚ} (hst : s'.store = s.store.serve who c) {i : ℕ}
    {d : String × ℕ} (h : ∃ k x, s.store.At k x ∧ x.who = i ∧ x.drew? = some d) :
    ∃ k x, s'.store.At k x ∧ x.who = i ∧ x.drew? = some d := by
  obtain ⟨k, x, hx, hwho, hd⟩ := h
  rw [hst]
  exact ⟨k, x, TracedKV.at_serve_of_at hx, hwho, hd⟩

/-- Whoever sets a lease entry has the lease from then on. -/
theorem sets_move (hs : Attested ttlS s) {a : LeaseStep} (hm : Move ttlS s a s') {k : ℕ}
    {x : Served ℕ ℚ} {key v : String} {t : ℚ} (hx : s'.store.At k x)
    (htook : x.took? = some (key, v, t)) : t = ttlS ∧ ∃ l, s'.lease? x.who = some l ∧
      key = leaseKey l.resource ∧ v = leaseValue l.holder l.token := by
  -- a recorded set keeps its lease
  have hold : s.store.At k x → t = ttlS ∧ ∃ l, s'.lease? x.who = some l ∧
      key = leaseKey l.resource ∧ v = leaseValue l.holder l.token := by
    intro hx
    obtain ⟨ht, l, hl, hkey, hv⟩ := hs.sets hx htook
    exact ⟨ht, l, hm.lease?_of_some hl, hkey, hv⟩
  cases hm with
  | began _ _ | accepted _ _ | refused _ | advanced _ => exact hold hx
  | drew hget | released hl =>
    rcases TracedKV.at_serve hx with hx | ⟨-, rfl⟩
    · exact hold hx
    · exact absurd (TracedKV.took?_newest.1 htook).1 (by simp [releaseCall])
  | @won i r hd tok hget hfree =>
    rcases TracedKV.at_serve hx with hx | ⟨-, rfl⟩
    · exact hold hx
    · obtain ⟨heq, -⟩ := TracedKV.took?_newest.1 htook
      obtain ⟨rfl, rfl, rfl⟩ := by simpa using heq
      refine ⟨rfl, ⟨r, hd, tok⟩,
        lease?_eq_some.2 ⟨⟨r, hd, .finished (some ⟨r, hd, tok⟩)⟩, ?_, rfl⟩, rfl, rfl⟩
      exact List.getElem?_set_self (List.lt_length_of_getElem? hget)
  | lost hget hheld =>
    rcases TracedKV.at_serve hx with hx | ⟨-, rfl⟩
    · exact hold hx
    · obtain ⟨heq, hfree⟩ := TracedKV.took?_newest.1 htook
      obtain ⟨rfl, rfl, rfl⟩ := by simpa using heq
      exact absurd hfree hheld

/-- Whoever deletes a lease entry names its own lease. -/
theorem drops_move (hs : Attested ttlS s) {a : LeaseStep} (hm : Move ttlS s a s') {k : ℕ}
    {x : Served ℕ ℚ} {key v : String} (hx : s'.store.At k x)
    (hdrop : x.dropped? = some (key, v)) : ∃ l, s'.lease? x.who = some l ∧
      key = leaseKey l.resource ∧ v = leaseValue l.holder l.token := by
  have hold : s.store.At k x → ∃ l, s'.lease? x.who = some l ∧
      key = leaseKey l.resource ∧ v = leaseValue l.holder l.token := by
    intro hx
    obtain ⟨l, hl, hkey, hv⟩ := hs.drops hx hdrop
    exact ⟨l, hm.lease?_of_some hl, hkey, hv⟩
  cases hm with
  | began _ _ | accepted _ _ | refused _ | advanced _ => exact hold hx
  | drew _ | won _ _ | lost _ _ =>
    rcases TracedKV.at_serve hx with hx | ⟨-, rfl⟩
    · exact hold hx
    · exact absurd (TracedKV.dropped?_newest.1 hdrop).1 (by simp)
  | @released i l hl =>
    rcases TracedKV.at_serve hx with hx | ⟨-, rfl⟩
    · exact hold hx
    · obtain ⟨heq, -⟩ := TracedKV.dropped?_newest.1 hdrop
      obtain ⟨rfl, rfl⟩ := by simpa [releaseCall] using heq
      exact ⟨l, hl, rfl, rfl⟩

/-- A call about to take its lease has drawn the token. -/
theorem pending_move (hs : Attested ttlS s) {a : LeaseStep} (hm : Move ttlS s a s') {i t : ℕ}
    {r hd : String} (hget : s'.calls[i]? = some ⟨r, hd, .setLease t⟩) :
    ∃ k x, s'.store.At k x ∧ x.who = i ∧ x.drew? = some (tokenKey r, t) := by
  cases hm with
  | began _ _ =>
    rcases List.getElem?_concat_eq_some hget with hold | ⟨-, -, hnew⟩
    · exact hs.pending hold
    · exact absurd hnew (by simp)
  | drew _ =>
    rcases List.getElem?_set_eq_some hget with ⟨rfl, hnew⟩ | ⟨-, hold⟩
    · obtain ⟨rfl, rfl, rfl⟩ := by simpa using hnew
      exact ⟨_, _, TracedKV.at_serve_newest, rfl, TracedKV.drew?_newest.2 ⟨rfl, rfl⟩⟩
    · exact at_of_serve rfl (hs.pending hold)
  | won _ _ | lost _ _ =>
    rcases List.getElem?_set_eq_some hget with ⟨-, hnew⟩ | ⟨-, hold⟩
    · exact absurd hnew (by simp)
    · exact at_of_serve rfl (hs.pending hold)
  | released _ => exact at_of_serve rfl (hs.pending hget)
  | accepted _ _ | refused _ | advanced _ => exact hs.pending hget

theorem drawn_move (hs : Attested ttlS s) {a : LeaseStep} (hm : Move ttlS s a s') {i : ℕ}
    {l : Lease} (hl : s'.lease? i = some l) :
    ∃ k x, s'.store.At k x ∧ x.who = i ∧ x.drew? = some (tokenKey l.resource, l.token) := by
  have hdrawn : ∃ k x, s.store.At k x ∧ x.who = i ∧
      x.drew? = some (tokenKey l.resource, l.token) := by
    rcases hm.lease?_cases hl with hold | ⟨r, hd, t, -, hget, -, rfl, -⟩
    · exact hs.drawn hold
    · exact hs.pending hget
  cases hm with
  | drew _ | won _ _ | lost _ _ | released _ => exact at_of_serve rfl hdrawn
  | began _ _ | accepted _ _ | refused _ | advanced _ => exact hdrawn

theorem move (hs : Attested ttlS s) {a : LeaseStep} (hm : Move ttlS s a s') :
    Attested ttlS s' where
  recorded := by
    cases hm with
    | drew _ | won _ _ | lost _ _ | released _ => exact hs.recorded.serve _ _
    | began _ _ | accepted _ _ | refused _ => exact hs.recorded
    | advanced h => exact hs.recorded.later (le_add_of_nonneg_right h)
  sets := hs.sets_move hm
  drops := hs.drops_move hm
  pending := hs.pending_move hm
  drawn := hs.drawn_move hm

/-- The history is attested in every reachable state. -/
theorem of_reachable {G : Leasing → LeaseStep → Prop} (h : (system ttlS).Reachable G s) :
    Attested ttlS s := by
  refine h.induct ?_ fun _ _ _ _ hs _ hstep ↦ hs.move (move_of_step hstep)
  rintro _ ⟨t, rfl⟩
  exact empty t

/-- **One call, one token.** -/
theorem eq_of_token_eq (hs : Attested ttlS s) {i k : ℕ} {l l' : Lease} (hl : s.lease? i = some l)
    (hl' : s.lease? k = some l') (hr : l.resource = l'.resource) (ht : l.token = l'.token) :
    i = k := by
  obtain ⟨m, x, hx, rfl, hd⟩ := hs.drawn hl
  obtain ⟨n, y, hy, rfl, hd'⟩ := hs.drawn hl'
  rw [← hr, ← ht] at hd'
  rcases Nat.lt_trichotomy m n with hlt | rfl | hlt
  · exact absurd (hs.recorded.increasing hlt hx hy hd hd') (Nat.lt_irrefl _)
  · rw [Option.some.inj (hx.symm.trans hy)]
  · exact absurd (hs.recorded.increasing hlt hy hx hd' hd) (Nat.lt_irrefl _)

/-- The entry of a lease is told by its text. -/
theorem eq_of_value_eq (hs : Attested ttlS s) {i k : ℕ} {l l' : Lease} (hl : s.lease? i = some l)
    (hl' : s.lease? k = some l') (hkey : leaseKey l.resource = leaseKey l'.resource)
    (hv : leaseValue l.holder l.token = leaseValue l'.holder l'.token) : i = k :=
  hs.eq_of_token_eq hl hl' (leaseKey_inj.1 hkey) (leaseValue_inj hv).2

end Attested

/-- Call number `i` returned the lease `l`: its `set_if_absent`, at `time`, was call number `k` of
the store. -/
def Acquired (s : Leasing) (i : ℕ) (l : Lease) (k : ℕ) (time : ℚ) : Prop :=
  s.lease? i = some l ∧ ∃ x, s.store.At k x ∧ x.who = i ∧ x.time = time ∧
    ∃ v t, x.took? = some (leaseKey l.resource, v, t)

instance (s : Leasing) (i : ℕ) (l : Lease) (k : ℕ) (time : ℚ) :
    Decidable (s.Acquired i l k time) :=
  decidable_of_iff (s.lease? i = some l ∧ ∃ x ∈ s.store.trace[k]?, x.who = i ∧ x.time = time ∧
      ∃ y ∈ x.took?, y.1 = leaseKey l.resource) <| by
    refine and_congr_right fun _ ↦ exists_congr fun x ↦ and_congr_right fun _ ↦
      and_congr_right fun _ ↦ and_congr_right fun _ ↦ ?_
    constructor
    · rintro ⟨⟨key, v, t⟩, hy, rfl⟩
      exact ⟨v, t, hy⟩
    · rintro ⟨v, t, hy⟩
      exact ⟨_, hy, rfl⟩

/-- A `release` of the lease `l` that call number `i` returned answered `True`, after call number
`k` of the store and before call number `k'`. -/
def ReleasedBetween (s : Leasing) (i : ℕ) (l : Lease) (k k' : ℕ) : Prop :=
  ∃ m z, k < m ∧ m < k' ∧ s.store.At m z ∧ z.who = i ∧
    z.dropped? = some (leaseKey l.resource, leaseValue l.holder l.token)

/-- What `release` of the lease answers now. -/
def releaseAnswer (s : Leasing) (l : Lease) : Bool := s.store.answer (releaseCall l)

variable {ttlS : ℚ} {s : Leasing}

/-- The set of an acquisition wrote the entry of its lease. -/
theorem Attested.took_of_acquired (hs : Attested ttlS s) {i k : ℕ} {l : Lease} {time : ℚ}
    (h : s.Acquired i l k time) : ∃ x, s.store.At k x ∧ x.who = i ∧ x.time = time ∧
      x.took? = some (leaseKey l.resource, leaseValue l.holder l.token, ttlS) := by
  obtain ⟨hl, x, hx, rfl, rfl, v, t, htook⟩ := h
  obtain ⟨rfl, l', hl', -, rfl⟩ := hs.sets hx htook
  obtain rfl := Option.some.inj (hl.symm.trans hl')
  exact ⟨x, hx, rfl, rfl, htook⟩

/-- **Two acquisitions of one resource** are a time to live apart, or the first was released in
between. -/
theorem Attested.apart (hs : Attested ttlS s) {i i' k k' : ℕ} {l l' : Lease} {time time' : ℚ}
    (h : s.Acquired i l k time) (h' : s.Acquired i' l' k' time') (hr : l.resource = l'.resource)
    (hk : k < k') : time + ttlS ≤ time' ∨ s.ReleasedBetween i l k k' := by
  obtain ⟨x, hx, -, rfl, htook⟩ := hs.took_of_acquired h
  obtain ⟨y, hy, -, rfl, htook'⟩ := hs.took_of_acquired h'
  rw [← hr] at htook'
  rcases hs.recorded.apart hk hx hy htook htook' with hexp | ⟨m, z, hkm, hmk, hz, hdrop, -⟩
  · exact .inl hexp
  · obtain ⟨l'', hl'', hkey, hv⟩ := hs.drops hz hdrop
    exact .inr ⟨m, z, hkm, hmk, hz, (hs.eq_of_value_eq h.1 hl'' hkey hv).symm, hdrop⟩

/-- **A release succeeds for the entry its own acquisition wrote**, and for no other. -/
theorem Attested.releaseAnswer_iff (hs : Attested ttlS s) {i : ℕ} {l : Lease}
    (hl : s.lease? i = some l) :
    s.releaseAnswer l = true ↔ s.store.Owns (leaseKey l.resource) i := by
  have hans : s.releaseAnswer l = (s.store.live (leaseKey l.resource)).any
      fun e ↦ e.value = leaseValue l.holder l.token := InMemoryKV.compareAndDelete_fst ..
  rw [hans]
  constructor
  · intro h
    obtain ⟨e, he, hv⟩ := (Option.any_eq_true _ _).1 h
    obtain ⟨k, x, t, hlast, htook⟩ := hs.recorded.lastTook he
    obtain ⟨-, l', hl', hkey, hv'⟩ := hs.sets hlast.1 htook
    refine ⟨by rw [he]; rfl, k, x, hlast, ?_⟩
    exact (hs.eq_of_value_eq hl hl' hkey ((of_decide_eq_true hv).symm.trans hv')).symm
  · rintro ⟨hlive, k, x, hlast, rfl⟩
    obtain ⟨e, he⟩ := Option.isSome_iff_exists.1 hlive
    obtain ⟨k', x', t, hlast', htook⟩ := hs.recorded.lastTook he
    obtain ⟨rfl, rfl⟩ := hlast.eq hlast'
    obtain ⟨-, l', hl', -, hv⟩ := hs.sets hlast.1 htook
    obtain rfl := Option.some.inj (hl.symm.trans hl')
    rw [he]
    simp [hv]

/-- A release that answers `False` changes nothing: no entry, now or later, and no counter. -/
theorem live_of_releaseAnswer_eq_false {l : Lease} (h : s.releaseAnswer l = false) (i : ℕ) :
    (s.store.serve i (releaseCall l)).kv.counters = s.store.kv.counters ∧
    ∀ key t, s.store.now ≤ t →
      (s.store.serve i (releaseCall l)).kv.live t key = s.store.kv.live t key := by
  refine ⟨InMemoryKV.counters_compareAndDelete .., fun key t ht ↦ ?_⟩
  refine InMemoryKV.live_compareAndDelete_of_ne ht (fun e he hv ↦ ?_) key
  have hans : s.releaseAnswer l = (s.store.live (leaseKey l.resource)).any
      fun e ↦ e.value = leaseValue l.holder l.token := InMemoryKV.compareAndDelete_fst ..
  have hlive : s.store.live (leaseKey l.resource) = some e := he
  rw [hans, hlive] at h
  exact absurd h (by simp [hv])

/-- **Lease exclusion and safe release**, in every interleaving: the tokens drawn for a resource are
distinct; of two acquisitions of a resource the first had expired or was released by its own release
before the second; a release answers `True` exactly when the live entry is the one its acquisition
wrote, and otherwise changes nothing. -/
theorem exclusion_and_safe_release (ttlS : ℚ) {s : Leasing}
    (h : (system ttlS).Reachable anyStep s) :
    (∀ {r m n x y t t'}, m ≠ n → s.store.At m x → s.store.At n y →
      x.drew? = some (tokenKey r, t) → y.drew? = some (tokenKey r, t') → t ≠ t') ∧
    (∀ {i i' l l' k k' time time'}, s.Acquired i l k time → s.Acquired i' l' k' time' →
      l.resource = l'.resource → k < k' → time + ttlS ≤ time' ∨ s.ReleasedBetween i l k k') ∧
    (∀ {i l}, s.lease? i = some l →
      (s.releaseAnswer l = true ↔ s.store.Owns (leaseKey l.resource) i) ∧
      (s.releaseAnswer l = false →
        (s.store.serve i (releaseCall l)).kv.counters = s.store.kv.counters ∧
        ∀ key t, s.store.now ≤ t →
          (s.store.serve i (releaseCall l)).kv.live t key = s.store.kv.live t key)) := by
  have hs := Attested.of_reachable h
  refine ⟨fun {r m n x y t t'} hne hx hy hd hd' ↦ ?_, hs.apart, fun {i l} hl ↦
    ⟨hs.releaseAnswer_iff hl, fun hno ↦ live_of_releaseAnswer_eq_false hno i⟩⟩
  rcases Nat.lt_or_gt_of_ne hne with hlt | hgt
  · exact Nat.ne_of_lt (hs.recorded.increasing hlt hx hy hd hd')
  · exact Nat.ne_of_gt (hs.recorded.increasing hgt hy hx hd' hd)

/-- Two callers, whose holder strings are alike up to the colon: the first acquires and releases,
the second draws before and takes the lease after that, and the first releases again. -/
def handover : List LeaseStep :=
  [.acquire "job" "w", .acquire "job" "w:1", .resume 0, .resume 1, .resume 0, .advance 3,
    .release 0, .resume 1, .advance (1 / 2)]

/-- A handover from `w` to `w:1`, whose names run into the tokens. -/
theorem exclusion_and_safe_release_handover :
    ∃ s, (system 15).Reachable anyStep s ∧ s.ReleasedBetween 0 ⟨"job", "w", 1⟩ 2 4 ∧
      ¬ s.store.Owns (leaseKey "job") 0 ∧ s.store.Owns (leaseKey "job") 1 := by
  have hrun : ((system 15).exec ⟨⟨.empty, 0, []⟩, [], .empty⟩ handover).any (fun s ↦
      s.Acquired 0 ⟨"job", "w", 1⟩ 2 0 ∧ s.Acquired 1 ⟨"job", "w:1", 2⟩ 4 3 ∧
      s.releaseAnswer ⟨"job", "w", 1⟩ = false ∧
      s.releaseAnswer ⟨"job", "w:1", 2⟩ = true) = true := by
    decide +kernel
  obtain ⟨s, hl, hp⟩ := exists_leads_of_exec hrun
  obtain ⟨ha, hb, hno, hyes⟩ := of_decide_eq_true hp
  have hr : (system 15).Reachable anyStep s := ⟨_, ⟨0, rfl⟩, hl⟩
  obtain ⟨-, hapart, hrel⟩ := exclusion_and_safe_release 15 hr
  refine ⟨s, hr, (hapart ha hb rfl (by decide)).resolve_left (by decide +kernel), ?_, ?_⟩
  · rw [← (hrel ha.1).1, hno]
    decide
  · exact (hrel hb.1).1.1 hyes

end Leasing

end Orbiter
