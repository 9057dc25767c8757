import Orbiter.Worker.Claiming

/-!
# A claim excludes, and is removed by its own delivery

A claim names its worker and the attempt, and that name can repeat: the original and the replayed
message of a job may both reach one worker with the same attempt number. What saves the deletion is
that the deliveries of a worker do not overlap. A delivery that deletes has claimed and has not
ended, so everything its namesakes did lies before its own claim, and the live entry that bears the
name is its own.

## The argument

* `Handled` — the invariant: who made which call of the history, that the calls of a worker's
  deliveries stand in the order of the deliveries, and `ownDrops`, that a deletion that succeeded
  removed what the same delivery had set. One lemma for each clause (`called_move`, `sets_move`,
  `ordered_move`, …), put together in `move`;
* `claims_exclude` — two claims of one job are a time to live apart, or the first was dropped by its
  own delivery in between;
* `claims_undone` — **the done marker**. The marker is read in one call and the claim taken in the
  next, so a job can be marked done in between and is then claimed again (`claimed_while_done`). If
  no marker is set while somebody stands between his two calls, whoever claims claims a job that is
  not marked.
-/

namespace Orbiter

open ExecutionGuard TransitionSystem

namespace Claiming

variable {claimTtlS doneTtlS : ℚ} {s s' : Claiming} {a : ClaimStep}

/-- What the history says about deliveries that use the guard as `handle` does. -/
structure Handled (claimTtlS : ℚ) (s : Claiming) : Prop where
  recorded : s.store.Recorded
  /-- Only a delivery that claimed marks or releases. -/
  disciplined : ∀ {i : ℕ} {d : GuardedDelivery}, s.deliveries[i]? = some d →
    d.pc = .setDone ∨ d.pc = .clearClaim ∨ d.pc = .dropClaim → d.claimed = true
  /-- Calls are made by deliveries. -/
  called : ∀ {k x}, s.store.At k x → ∃ d, s.deliveries[x.who]? = some d
  /-- A claim is written by a delivery of its job. -/
  sets : ∀ {k x j v t}, s.store.At k x → x.took? = some (claimKey j, v, t) → t = claimTtlS ∧
    ∃ d : GuardedDelivery, s.deliveries[x.who]? = some d ∧ d.jobId = j ∧ d.delivery = v
  /-- `CLAIMED` means that the claim was written. -/
  taken : ∀ {i : ℕ} {d : GuardedDelivery}, s.deliveries[i]? = some d → d.claimed = true →
    ∃ k x, s.store.At k x ∧ x.who = i ∧ x.took? = some (claimKey d.jobId, d.delivery, claimTtlS)
  /-- The deliveries of a worker are one after the other. -/
  sequential : ∀ {i k : ℕ} {d e : GuardedDelivery}, i < k → s.deliveries[i]? = some d →
    s.deliveries[k]? = some e → d.workerId = e.workerId → d.ended = true
  /-- And so are the calls they made. -/
  ordered : ∀ {k m x y} {d e : GuardedDelivery}, s.store.At k x → s.store.At m y →
    x.who < y.who → s.deliveries[x.who]? = some d → s.deliveries[y.who]? = some e →
    d.workerId = e.workerId → k < m
  /-- **What a delivery removes is its own.** -/
  ownDrops : ∀ {m y key v}, s.store.At m y → y.dropped? = some (key, v) →
    ∃ k x t, k < m ∧ s.store.At k x ∧ x.who = y.who ∧ x.took? = some (key, v, t) ∧
      s.store.Untaken key k m

namespace Handled

theorem empty (t : ℚ) : Handled claimTtlS ⟨⟨.empty, t, []⟩, []⟩ where
  recorded := .empty t
  disciplined h := absurd h (by simp)
  called h := absurd h (by simp [TracedKV.At])
  sets h := absurd h (by simp [TracedKV.At])
  taken h := absurd h (by simp)
  sequential _ h := absurd h (by simp)
  ordered h := absurd h (by simp [TracedKV.At])
  ownDrops h := absurd h (by simp [TracedKV.At])

variable (hs : Handled claimTtlS s) (hm : Move claimTtlS doneTtlS s a s')

include hs in
/-- The entry a delivery is about to delete is its own. -/
theorem owner_eq {i : ℕ} {d : GuardedDelivery} (hget : s.deliveries[i]? = some d)
    (hrun : d.ended = false) (hclaimed : d.claimed = true) {e : Entry ℚ}
    (hlive : s.store.live (claimKey d.jobId) = some e) (hv : e.value = d.delivery) :
    ∃ k x t, s.store.At k x ∧ x.who = i ∧ x.took? = some (claimKey d.jobId, e.value, t) ∧
      s.store.Untaken (claimKey d.jobId) k s.store.trace.length := by
  obtain ⟨k, x, t, hx, htook, -, hun⟩ := hs.recorded.origin hlive
  obtain ⟨-, d', hget', -, hv'⟩ := hs.sets hx htook
  have hw : d'.workerId = d.workerId := (GuardedDelivery.delivery_inj (hv'.trans hv)).1
  refine ⟨k, x, t, hx, ?_, htook, hun⟩
  rcases Nat.lt_trichotomy x.who i with hlt | heq | hgt
  · -- an earlier delivery of the worker made its calls before this one claimed
    obtain ⟨m, y, hy, rfl, htook'⟩ := hs.taken hget hclaimed
    have hkm := hs.ordered hx hy hlt hget' hget hw
    exact absurd htook' (hun m y hkm hy.lt_length hy _ _)
  · exact heq
  · rw [hs.sequential hgt hget hget' hw.symm] at hrun
    exact absurd hrun (by decide)

include hs hm

theorem called_move {k : ℕ} {x : Served ℕ ℚ} (hx : s'.store.At k x) :
    ∃ d, s'.deliveries[x.who]? = some d := by
  have hget : ∃ d, s.deliveries[x.who]? = some d := by
    rcases hm.at_cases hx with hold | ⟨-, -, d, _, _, hget, -⟩
    · exact hs.called hold
    · exact ⟨d, hget⟩
  obtain ⟨d, hget⟩ := hget
  obtain ⟨d', hget', -⟩ := hm.delivery_of_some hget
  exact ⟨d', hget'⟩

/-- Whoever sets a claim writes its own name under its job's key. -/
theorem sets_move {k : ℕ} {x : Served ℕ ℚ} {j v : String} {t : ℚ} (hx : s'.store.At k x)
    (htook : x.took? = some (claimKey j, v, t)) :
    t = claimTtlS ∧ ∃ d : GuardedDelivery, s'.deliveries[x.who]? = some d ∧ d.jobId = j ∧
      d.delivery = v := by
  have hold : t = claimTtlS ∧ ∃ d : GuardedDelivery, s.deliveries[x.who]? = some d ∧ d.jobId = j ∧
      d.delivery = v := by
    rcases hm.at_cases hx with hold | ⟨-, -, d, c, cont, hget, -, hview, hnew, -⟩
    · exact hs.sets hold htook
    · rw [hnew] at htook
      obtain ⟨rfl, -⟩ := TracedKV.took?_newest.1 htook
      obtain ⟨rfl, ⟨-, hkey, rfl⟩ | ⟨-, hkey⟩⟩ := GuardedDelivery.eq_of_view_setIfAbsent hview
      · exact ⟨rfl, d, hget, (claimKey_inj.1 hkey).symm, rfl⟩
      · exact absurd hkey.symm (doneKey_ne_claimKey _ _)
  obtain ⟨ht, d, hget, hj, hv⟩ := hold
  obtain ⟨d', hget', hb⟩ := hm.delivery_of_some hget
  exact ⟨ht, d', hget', hb.jobId.trans hj, hb.delivery.trans hv⟩

/-- A worker takes a delivery when its last one has ended. -/
theorem sequential_move (hg : s.asHandled a = true) {i k : ℕ} {d e : GuardedDelivery} (hik : i < k)
    (hd : s'.deliveries[i]? = some d) (he : s'.deliveries[k]? = some e)
    (hw : d.workerId = e.workerId) : d.ended = true := by
  rcases hm.delivery_cases hd with ⟨d₀, hd₀, hbd⟩ | ⟨hi, ha, -, -⟩
  · rcases hm.delivery_cases he with ⟨e₀, he₀, hbe⟩ | ⟨-, rfl, -, -⟩
    · exact hbd.ended (hs.sequential hik hd₀ he₀ (by rw [← hbd.workerId, hw, hbe.workerId]))
    · -- the new delivery was taken after the last one ended
      rw [asHandled, List.all_eq_true] at hg
      have hend := hg d₀ (List.mem_of_getElem? hd₀)
      exact hbd.ended (of_decide_eq_true hend (by rw [← hbd.workerId, hw]))
  · rcases hm.delivery_cases he with ⟨e₀, he₀, -⟩ | ⟨hk, -, -, -⟩
    · have hlt := List.lt_length_of_getElem? he₀
      omega
    · omega

/-- The calls of a worker's deliveries stand in the order of the deliveries. -/
theorem ordered_move {k m : ℕ} {x y : Served ℕ ℚ} {d e : GuardedDelivery} (hx : s'.store.At k x)
    (hy : s'.store.At m y) (hlt : x.who < y.who) (hd : s'.deliveries[x.who]? = some d)
    (he : s'.deliveries[y.who]? = some e) (hw : d.workerId = e.workerId) : k < m := by
  -- whoever made a call was there before the step, under the same name
  have hwas : ∀ {n z} {d' : GuardedDelivery}, s'.store.At n z → s'.deliveries[z.who]? = some d' →
      ∃ d₀, s.deliveries[z.who]? = some d₀ ∧ d'.workerId = d₀.workerId := by
    intro n z d' hz hd'
    have hget : ∃ d₀, s.deliveries[z.who]? = some d₀ := by
      rcases hm.at_cases hz with hold | ⟨-, -, d₀, _, _, hget, -⟩
      · exact hs.called hold
      · exact ⟨d₀, hget⟩
    obtain ⟨d₀, hget⟩ := hget
    obtain ⟨d'', hget'', hb⟩ := hm.delivery_of_some hget
    obtain rfl := Option.some.inj (hd'.symm.trans hget'')
    exact ⟨d₀, hget, hb.workerId⟩
  obtain ⟨d₀, hd₀, hwd⟩ := hwas hx hd
  obtain ⟨e₀, he₀, hwe⟩ := hwas hy he
  have hw₀ : d₀.workerId = e₀.workerId := by rw [← hwd, hw, hwe]
  rcases hm.at_cases hx with hx | ⟨rfl, -, d₁, _, _, hd₁, hrun, -⟩
  · rcases hm.at_cases hy with hy | ⟨rfl, -, -⟩
    · exact hs.ordered hx hy hlt hd₀ he₀ hw₀
    · exact hx.lt_length
  · -- a delivery that still calls has no successor at its worker
    obtain rfl := Option.some.inj (hd₀.symm.trans hd₁)
    rw [hs.sequential hlt hd₀ he₀ hw₀] at hrun
    exact absurd hrun (by decide)

/-- A claim that was deleted was set by the delivery that deleted it. -/
theorem ownDrops_move {m : ℕ} {y : Served ℕ ℚ} {key v : String} (hy : s'.store.At m y)
    (hdrop : y.dropped? = some (key, v)) :
    ∃ k x t, k < m ∧ s'.store.At k x ∧ x.who = y.who ∧ x.took? = some (key, v, t) ∧
      s'.store.Untaken key k m := by
  rcases hm.at_cases hy with hy | ⟨rfl, -, d, c, cont, hget, hrun, hview, hnew, -⟩
  · obtain ⟨k, x, t, hkm, hx, hwho, htook, hun⟩ := hs.ownDrops hy hdrop
    exact ⟨k, x, t, hkm, hm.at_of_at hx, hwho, htook, hm.untaken hun hy.lt_length.le⟩
  · rw [hnew] at hdrop
    obtain ⟨rfl, e, hlive, rfl⟩ := TracedKV.dropped?_newest.1 hdrop
    obtain ⟨rfl, hv, hpc⟩ := GuardedDelivery.eq_of_view_compareAndDelete hview
    have hclaimed := hs.disciplined hget (.inr hpc)
    obtain ⟨k, x, t, hx, hwho, htook, hun⟩ := hs.owner_eq hget hrun hclaimed hlive hv
    exact ⟨k, x, t, hx.lt_length, hm.at_of_at hx, hwho, htook, hm.untaken hun le_rfl⟩

/-- Only a delivery that has claimed marks or releases. -/
theorem disciplined_move (hg : s.asHandled a = true) {i : ℕ} {d : GuardedDelivery}
    (hget : s'.deliveries[i]? = some d)
    (hpc : d.pc = .setDone ∨ d.pc = .clearClaim ∨ d.pc = .dropClaim) : d.claimed = true := by
  cases hm with
  | delivered _ _ _ =>
    rcases List.getElem?_concat_eq_some hget with hold | ⟨-, -, rfl⟩
    · exact hs.disciplined hold hpc
    · exact absurd hpc (by simp)
  | @begun k e op hk _ =>
    rcases List.getElem?_set_eq_some hget with ⟨-, rfl⟩ | ⟨-, hold⟩
    · rw [asHandled, hk, Option.any_some] at hg
      match op with
      | .tryClaim => exact absurd hpc (by simp [GuardOp.start])
      | .markDone => exact hg
      | .releaseClaim => exact hg
    · exact hs.disciplined hold hpc
  | @called k e c cont hk _ hview =>
    rcases List.getElem?_set_eq_some hget with ⟨-, rfl⟩ | ⟨-, hold⟩
    · rcases GuardedDelivery.eq_of_view hview (s.store.answer c) with ⟨-, hnext⟩ |
        ⟨hdone, -⟩ | ⟨claim, hnext⟩
      · exact absurd hpc (by simp [GuardedDelivery.resumed, hnext])
      · exact (e.becomes_resumed _).claimed (hs.disciplined hk (.inl hdone))
      · exact absurd hpc (by simp [GuardedDelivery.resumed, hnext])
    · exact hs.disciplined hold hpc
  | finished k =>
    obtain ⟨e, he, ⟨-, rfl⟩ | ⟨-, rfl⟩⟩ := List.getElem?_modify_eq_some hget
    · have hclaimed := hs.disciplined he hpc
      exact hclaimed
    · exact hs.disciplined he hpc
  | advanced _ => exact hs.disciplined hget hpc

/-- A delivery that has claimed has set the claim. -/
theorem taken_move {i : ℕ} {d : GuardedDelivery} (hget : s'.deliveries[i]? = some d)
    (hclaimed : d.claimed = true) : ∃ k x, s'.store.At k x ∧ x.who = i ∧
      x.took? = some (claimKey d.jobId, d.delivery, claimTtlS) := by
  -- a claim made before the step is on record
  have hold : ∀ {d₀ : GuardedDelivery}, s.deliveries[i]? = some d₀ → d₀.claimed = true →
      d.jobId = d₀.jobId → d.delivery = d₀.delivery → ∃ k x, s'.store.At k x ∧ x.who = i ∧
        x.took? = some (claimKey d.jobId, d.delivery, claimTtlS) := by
    intro d₀ hget₀ hc hj hv
    obtain ⟨k, x, hx, hwho, htook⟩ := hs.taken hget₀ hc
    exact ⟨k, x, hm.at_of_at hx, hwho, by rw [htook, hj, hv]⟩
  cases hm with
  | delivered _ _ _ =>
    rcases List.getElem?_concat_eq_some hget with hd | ⟨-, -, rfl⟩
    · exact hold hd hclaimed rfl rfl
    · exact absurd hclaimed (by simp)
  | begun op hk _ =>
    rcases List.getElem?_set_eq_some hget with ⟨rfl, rfl⟩ | ⟨-, hd⟩
    · exact hold hk hclaimed rfl rfl
    · exact hold hd hclaimed rfl rfl
  | @called k e c cont hk _ hview =>
    rcases List.getElem?_set_eq_some hget with ⟨rfl, rfl⟩ | ⟨-, hd⟩
    · cases he : e.claimed with
      | true => exact hold hk he rfl rfl
      | false =>
        have hnext : cont (.ok (s.store.answer c)) = .returned (some .claimed) := by
          simpa [GuardedDelivery.resumed, he] using hclaimed
        exact ⟨_, _, TracedKV.at_serve_newest, rfl,
          GuardedDelivery.eq_of_view_claimed hview k hnext⟩
    · exact hold hd hclaimed rfl rfl
  | finished k =>
    obtain ⟨e, he, ⟨-, rfl⟩ | ⟨-, rfl⟩⟩ := List.getElem?_modify_eq_some hget
    · exact hold he hclaimed rfl rfl
    · exact hold he hclaimed rfl rfl
  | advanced _ => exact hold hget hclaimed rfl rfl

/-- A step made as `handle` makes it keeps all of it. -/
theorem move (hg : s.asHandled a = true) : Handled claimTtlS s' where
  recorded := by
    cases hm with
    | called _ _ _ => exact hs.recorded.serve _ _
    | delivered _ _ _ | begun _ _ _ | finished _ => exact hs.recorded
    | advanced h => exact hs.recorded.later (le_add_of_nonneg_right h)
  disciplined := hs.disciplined_move hm hg
  called := hs.called_move hm
  sets := hs.sets_move hm
  taken := hs.taken_move hm
  sequential := hs.sequential_move hm hg
  ordered := hs.ordered_move hm
  ownDrops := hs.ownDrops_move hm

end Handled

/-- It holds in every state that is reached as `handle` makes its steps. -/
theorem Handled.of_reachable
    (h : (system claimTtlS doneTtlS).Reachable (fun s a ↦ s.asHandled a = true) s) :
    Handled claimTtlS s := by
  refine h.induct ?_ fun _ _ _ _ hs hg hstep ↦ hs.move (move_of_step hstep) hg
  rintro _ ⟨t, rfl⟩
  exact .empty t

/-- Delivery number `i`, of job `j`, was answered `CLAIMED`: its `set_if_absent`, at `time`, was
call number `k` of the store. -/
def Claimed (s : Claiming) (i : ℕ) (j : String) (k : ℕ) (time : ℚ) : Prop :=
  (∃ d ∈ s.deliveries[i]?, d.jobId = j ∧ d.claimed = true) ∧
    ∃ x ∈ s.store.trace[k]?, x.who = i ∧ x.time = time ∧ ∃ y ∈ x.took?, y.1 = claimKey j

instance (s : Claiming) (i : ℕ) (j : String) (k : ℕ) (time : ℚ) :
    Decidable (s.Claimed i j k time) :=
  inferInstanceAs (Decidable (_ ∧ _))

/-- Delivery number `i` deleted the claim on job `j`, after call number `k` of the store and before
call number `k'`. -/
def DroppedBetween (s : Claiming) (i : ℕ) (j : String) (k k' : ℕ) : Prop :=
  ∃ m z v, k < m ∧ m < k' ∧ s.store.At m z ∧ z.who = i ∧ z.dropped? = some (claimKey j, v)

/-- **Two claims of one job** are a time to live apart, or the first was dropped by its own
delivery. -/
theorem Handled.apart (hs : Handled claimTtlS s) {i i' k k' : ℕ} {j : String} {time time' : ℚ}
    (h : s.Claimed i j k time) (h' : s.Claimed i' j k' time') (hk : k < k') :
    time + claimTtlS ≤ time' ∨ s.DroppedBetween i j k k' := by
  obtain ⟨-, x, hx, rfl, rfl, ⟨_, v, t⟩, htook, rfl⟩ := h
  obtain ⟨-, y, hy, -, rfl, ⟨_, v', t'⟩, htook', hkey⟩ := h'
  obtain rfl : _ = claimKey j := hkey
  obtain ⟨rfl, -⟩ := hs.sets hx htook
  rcases hs.recorded.apart hk hx hy htook htook' with hexp | ⟨m, z, hkm, hmk, hz, hdrop, hun⟩
  · exact .inl hexp
  · -- the first deletion after the claim is of this claim, and its own delivery made it
    obtain ⟨n, w, t'', hnm, hw, hwho, hwt, hwun⟩ := hs.ownDrops hz hdrop
    obtain ⟨-, rfl⟩ := TracedKV.Untaken.eq hx htook hun hw hwt hwun hkm hnm
    exact .inr ⟨m, z, v, hkm, hmk, hz, hwho.symm, hdrop⟩

/-- **Claim exclusion and ownership**, in every interleaving of deliveries that use the guard as
`handle` does: of two deliveries of a job that were answered `CLAIMED`, the claim of the first had
expired or the first had deleted it itself before the second; and what a deletion removes was taken
by the very delivery that deletes. -/
theorem claims_exclude (claimTtlS doneTtlS : ℚ) {s : Claiming}
    (h : (system claimTtlS doneTtlS).Reachable (fun s a ↦ s.asHandled a = true) s) :
    (∀ {i i' j k k' time time'}, s.Claimed i j k time → s.Claimed i' j k' time' → k < k' →
      time + claimTtlS ≤ time' ∨ s.DroppedBetween i j k k') ∧
    (∀ {j k m x y v t v'}, k < m → s.store.At k x → s.store.At m y →
      x.took? = some (claimKey j, v, t) → y.dropped? = some (claimKey j, v') →
      s.store.Untaken (claimKey j) k m → x.who = y.who) := by
  have hs := Handled.of_reachable h
  refine ⟨hs.apart, fun {j k m x y v t v'} hkm hx hy htook hdrop hun ↦ ?_⟩
  obtain ⟨n, w, t', hnm, hw, hwho, hwt, hwun⟩ := hs.ownDrops hy hdrop
  obtain ⟨-, rfl⟩ := TracedKV.Untaken.eq hx htook hun hw hwt hwun hkm hnm
  exact hwho

/-- The original and the replayed message of a job reach one worker with the same attempt number;
the first delivery fails and releases, the second one claims. -/
def namesakes : List ClaimStep :=
  [.deliver "w" "job" 1, .begin 0 .tryClaim, .resume 0, .resume 0, .advance 2,
    .begin 0 .releaseClaim, .resume 0, .finish 0, .deliver "w" "job" 1, .begin 1 .tryClaim,
    .resume 1, .resume 1]

/-- Two deliveries of one worker with the same attempt number, one after the other. -/
theorem claims_exclude_namesakes :
    ∃ s, (system 30 3600).Reachable (fun s a ↦ s.asHandled a = true) s ∧
      s.DroppedBetween 0 "job" 1 4 := by
  have hrun : ((system 30 3600).execGuarded asHandled ⟨⟨.empty, 0, []⟩, []⟩ namesakes).any
      (fun s ↦ s.Claimed 0 "job" 1 0 ∧ s.Claimed 1 "job" 4 2) = true := by
    decide +kernel
  obtain ⟨s, hl, hp⟩ := exists_leads_of_execGuarded (fun _ _ hg ↦ hg) hrun
  obtain ⟨ha, hb⟩ := of_decide_eq_true hp
  have hr : (system 30 3600).Reachable (fun s a ↦ s.asHandled a = true) s := ⟨_, ⟨0, rfl⟩, hl⟩
  exact ⟨s, hr, ((claims_exclude 30 3600 hr).1 ha hb (by decide)).resolve_left (by decide +kernel)⟩

/-! ### The done marker and the claim -/

/-- Whenever a `try_claim` takes the claim and returns `CLAIMED`, the job's done marker is not
live. -/
def ClaimsUndone (claimTtlS doneTtlS : ℚ) (s : Claiming) : Prop :=
  ∀ {i : ℕ} {d d' : GuardedDelivery} {s' : Claiming},
    s.step claimTtlS doneTtlS (.resume i) = some s' → s.deliveries[i]? = some d →
    s'.deliveries[i]? = some d' → d.pc = .setClaim → d'.pc = .returned (some .claimed) →
    s.store.live (doneKey d.jobId) = none

/-- No `mark_done` sets the marker of a job while a `try_claim` of that job is between its read of
the marker and its set of the claim. -/
def noMarkWhileClaiming (s : Claiming) : ClaimStep → Bool
  | .resume i => (s.deliveries[i]?).all fun d ↦ d.pc = .setDone →
      s.deliveries.all fun e ↦ e.jobId = d.jobId → e.pc = .setClaim → e.ended
  | _ => true

/-- What a `try_claim` read still holds. -/
def ReadsHold (s : Claiming) : Prop :=
  ∀ (i : ℕ) (d : GuardedDelivery), s.deliveries[i]? = some d → d.ended = false →
    d.pc = .setClaim → s.store.live (doneKey d.jobId) = none

/-- The read of `try_claim` found no marker. -/
theorem live_eq_none_of_view {d : GuardedDelivery} {c : KvCall ℚ}
    {cont : Except Empty c.Resp → GuardPc} (hview : d.view claimTtlS doneTtlS = .inr ⟨c, cont⟩)
    {store : TracedKV ℕ ℚ} (hnext : cont (.ok (store.answer c)) = .setClaim) (who : ℕ) :
    (store.serve who c).live (doneKey d.jobId) = none := by
  rcases GuardedDelivery.eq_of_view hview (store.answer c) with ⟨hpc, -⟩ | ⟨-, hdone⟩ | ⟨r, hret⟩
  · rw [GuardedDelivery.view, hpc] at hview
    cases hview
    have hlive : (store.serve who (.get (doneKey d.jobId))).live (doneKey d.jobId) =
        store.live (doneKey d.jobId) := InMemoryKV.live_get le_rfl _ _
    have hans : store.answer (.get (doneKey d.jobId)) =
        (store.live (doneKey d.jobId)).map Entry.value := rfl
    simp only [hans] at hnext
    rw [hlive]
    cases hl : store.live (doneKey d.jobId) with
    | none => rfl
    | some e => simp [hl] at hnext
  · exact absurd (hdone.symm.trans hnext) (by simp)
  · exact absurd (hret.symm.trans hnext) (by simp)

/-- Under the guard, a marker that was read as missing is still missing when the claim is taken. -/
theorem readsHold_move (h : s.ReadsHold) (hg : s.noMarkWhileClaiming a = true)
    (hm : Move claimTtlS doneTtlS s a s') : s'.ReadsHold := by
  intro i d hget hrun hpc
  cases hm with
  | delivered _ _ _ =>
    rcases List.getElem?_concat_eq_some hget with hold | ⟨-, -, rfl⟩
    · exact h i d hold hrun hpc
    · exact absurd hpc (by simp)
  | begun op _ _ =>
    rcases List.getElem?_set_eq_some hget with ⟨-, rfl⟩ | ⟨-, hold⟩
    · cases op <;> exact absurd hpc (by simp [GuardOp.start])
    · exact h i d hold hrun hpc
  | @called k e c cont hk _ hview =>
    rcases List.getElem?_set_eq_some hget with ⟨-, rfl⟩ | ⟨-, hold⟩
    · exact live_eq_none_of_view hview hpc k
    · refine KvCall.live_perform_eq_none le_rfl (fun v t heq ↦ ?_) (h i d hold hrun hpc)
      -- the only set of this marker is excluded while the claim is pending
      subst heq
      obtain ⟨-, ⟨-, hkey, -⟩ | ⟨hdone, hkey⟩⟩ := GuardedDelivery.eq_of_view_setIfAbsent hview
      · exact doneKey_ne_claimKey _ _ hkey
      · rw [noMarkWhileClaiming, hk, Option.all_some] at hg
        have hall := List.all_eq_true.1 (of_decide_eq_true hg hdone) d (List.mem_of_getElem? hold)
        have hend := of_decide_eq_true hall (doneKey_inj.1 hkey) hpc
        rw [hend] at hrun
        exact absurd hrun (by decide)
  | finished k =>
    obtain ⟨e, he, ⟨-, rfl⟩ | ⟨-, rfl⟩⟩ := List.getElem?_modify_eq_some hget
    · exact absurd hrun (by simp)
    · exact h i _ he hrun hpc
  | advanced hd =>
    exact InMemoryKV.live_eq_none_of_le (le_add_of_nonneg_right hd) (h i d hget hrun hpc)

/-- **Done means never claimed again, in every run in which no marker is set in the middle of a
`try_claim`.** -/
theorem claims_undone (claimTtlS doneTtlS : ℚ) {s : Claiming}
    (h : (system claimTtlS doneTtlS).Reachable (fun s a ↦ s.noMarkWhileClaiming a = true) s) :
    s.ClaimsUndone claimTtlS doneTtlS := by
  have hreads : s.ReadsHold := by
    refine h.induct (I := ReadsHold) ?_ fun _ _ _ _ hs hg hstep ↦
      readsHold_move hs hg (move_of_step hstep)
    rintro _ ⟨t, rfl⟩
    exact fun i d hget ↦ absurd hget (by simp)
  intro i d d' s' hstep hget _ hpc _
  cases move_of_step hstep with
  | called hk hrun _ =>
    obtain rfl := Option.some.inj (hget.symm.trans hk)
    exact hreads i d hget hrun hpc

/-- A marked job whose marker has expired is claimed again. -/
def reclaimed : List ClaimStep :=
  [.deliver "w" "job" 1, .begin 0 .tryClaim, .resume 0, .resume 0, .begin 0 .markDone, .resume 0,
    .resume 0, .finish 0, .advance 3600, .deliver "v" "job" 2, .begin 1 .tryClaim, .resume 1]

/-- A job is claimed again after its claim has expired, and is not done. -/
theorem claims_undone_reclaimed :
    ∃ s, (system 30 3600).Reachable (fun s a ↦ s.noMarkWhileClaiming a = true) s ∧
      s.store.live (doneKey "job") = none := by
  have hrun : ((system 30 3600).execGuarded noMarkWhileClaiming ⟨⟨.empty, 0, []⟩, []⟩
      reclaimed).any (fun s ↦ (s.step 30 3600 (.resume 1)).any fun s' ↦
        (s.deliveries[1]?).any (fun d ↦ d.pc = .setClaim ∧ d.jobId = "job") &&
        (s'.deliveries[1]?).any (fun d ↦ d.pc = .returned (some .claimed))) = true := by
    decide +kernel
  obtain ⟨s, hl, hp⟩ := exists_leads_of_execGuarded (fun _ _ hg ↦ hg) hrun
  have hr : (system 30 3600).Reachable (fun s a ↦ s.noMarkWhileClaiming a = true) s :=
    ⟨_, ⟨0, rfl⟩, hl⟩
  obtain ⟨s', hstep, hp⟩ := (Option.any_eq_true _ _).1 hp
  obtain ⟨hd, hd'⟩ := Bool.and_eq_true_iff.1 hp
  obtain ⟨d, hget, hd⟩ := (Option.any_eq_true _ _).1 hd
  obtain ⟨d', hget', hd'⟩ := (Option.any_eq_true _ _).1 hd'
  obtain ⟨hpc, hj⟩ := of_decide_eq_true hd
  rw [← hj]
  exact ⟨s, hr, claims_undone 30 3600 hr hstep hget hget' hpc (of_decide_eq_true hd')⟩

/-- The second delivery reads the marker; the first one, which holds the claim, marks the job done
and deletes the claim; now the second one may claim. -/
def lateClaim : List ClaimStep :=
  [.deliver "w" "job" 1, .deliver "v" "job" 2, .begin 0 .tryClaim, .resume 0, .resume 0,
    .begin 1 .tryClaim, .resume 1, .begin 0 .markDone, .resume 0, .resume 0]

/-- **The marker is not looked at again**: a job is marked done between the read and the claim. -/
theorem claimed_while_done :
    ∃ s, (system 30 3600).Reachable (fun s a ↦ s.asHandled a = true) s ∧
      ¬ s.ClaimsUndone 30 3600 := by
  have hrun : ((system 30 3600).execGuarded asHandled ⟨⟨.empty, 0, []⟩, []⟩
      lateClaim).any (fun s ↦ (s.step 30 3600 (.resume 1)).any fun s' ↦
        (s.deliveries[1]?).any (fun d ↦ d.pc = .setClaim ∧ d.jobId = "job") &&
        (s'.deliveries[1]?).any (fun d ↦ d.pc = .returned (some .claimed)) &&
        (s.store.live (doneKey "job")).isSome) = true := by
    decide +kernel
  obtain ⟨s, hl, hp⟩ := exists_leads_of_execGuarded (fun _ _ hg ↦ hg) hrun
  obtain ⟨s', hstep, hp⟩ := (Option.any_eq_true _ _).1 hp
  obtain ⟨hp, hlive⟩ := Bool.and_eq_true_iff.1 hp
  obtain ⟨hd, hd'⟩ := Bool.and_eq_true_iff.1 hp
  obtain ⟨d, hget, hd⟩ := (Option.any_eq_true _ _).1 hd
  obtain ⟨d', hget', hd'⟩ := (Option.any_eq_true _ _).1 hd'
  obtain ⟨hpc, hj⟩ := of_decide_eq_true hd
  refine ⟨s, ⟨_, ⟨0, rfl⟩, hl⟩, fun hundone ↦ ?_⟩
  have hnone := hundone hstep hget hget' hpc (of_decide_eq_true hd')
  rw [hj] at hnone
  rw [hnone] at hlive
  exact absurd hlive (by decide)

end Claiming

end Orbiter
