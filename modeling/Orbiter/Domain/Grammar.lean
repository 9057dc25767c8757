import Mathlib.Tactic.Abel
import Orbiter.Domain.StateMachine
import Orbiter.Foundation.Residuals

/-!
# The lifecycle grammar

The histories a job can have, written as a regular expression over the events and independently of
the transition table: an attempt is restarted any number of times before it is requeued, and a job
is dead-lettered and replayed any number of times before it ends.

```
roundTrip = STARTED⁺ REQUEUED | STARTED* DEAD_LETTERED REPLAYED
ending    = STARTED⁺ (COMPLETED | FAILED) | STARTED* DEAD_LETTERED
lifecycle = SUBMITTED ENQUEUED roundTrip* ending
```

## Main results

* `remainder` — what may still follow in each state. The transitions of the table are its
  derivatives: `cons_mem_remainder_iff` says that an event may come first in a remainder exactly
  when the table accepts it, and then the rest is the remainder of the state it leads to;
* `grammar` — so the remainders are residuals of the fold `replayFrom` in the sense of
  `Foundation.Residuals`, and none is empty;
* `replay_iff_lifecycle` — **`replay` accepts exactly the non-empty prefixes of the words of the
  grammar**, and names the illegal event otherwise.

The table is read by cases, the grammar by the laws of a Kleene algebra (`kstar_mul`,
`roundTrip_mul_add_ending`); the two meet in the equations for `remainder` and nowhere else.
-/

namespace Orbiter

open Computability

namespace EventType

/-- The history of this one event. -/
def word (e : EventType) : Language EventType := {[e]}

/-- One event or more of a kind. -/
def plus (e : EventType) : Language EventType := e.word * e.word∗

end EventType

open EventType

/-- A round that brings the job back to its queue: retried, or quarantined and replayed. -/
def roundTrip : Language EventType :=
  plus started * word requeued + (word started)∗ * word deadLettered * word replayed

/-- How a history ends: with an outcome, or in quarantine. -/
def ending : Language EventType :=
  plus started * (word completed + word EventType.failed) + (word started)∗ * word deadLettered

/-- The complete histories of a job. -/
def lifecycle : Language EventType :=
  word EventType.submitted * word enqueued * roundTrip∗ * ending

/-- What may follow in a state; `none` is a job that does not exist yet. -/
def remainder : Option JobState → Language EventType
  | none => lifecycle
  | some .submitted => word enqueued * (roundTrip∗ * ending)
  | some .queued => roundTrip∗ * ending
  | some .running =>
    (word started)∗ * (word requeued * (roundTrip∗ * ending) +
      (word completed + word EventType.failed) +
      word deadLettered * (1 + word replayed * (roundTrip∗ * ending)))
  | some .succeeded => 1
  | some .failed => 1
  | some .deadLetter => 1 + word replayed * (roundTrip∗ * ending)

/-! ### What may follow, one event at a time -/

/-- One turn of a loop, or none. -/
theorem kstar_mul {α : Type*} (l m : Language α) : l∗ * m = m + l * (l∗ * m) := by
  conv_lhs => rw [← Language.one_add_self_mul_kstar_eq_kstar]
  rw [add_mul, one_mul, mul_assoc]

theorem remainder_none :
    remainder none = word EventType.submitted * remainder (some .submitted) := by
  simp only [remainder, lifecycle, mul_assoc]

/-- One round more, or the ending, sorted by whether the job is started at all. -/
theorem roundTrip_mul_add_ending (m : Language EventType) : roundTrip * m + ending =
    word started * ((word started)∗ *
      (word requeued * m + (word completed + word EventType.failed))) +
    (word started)∗ * (word deadLettered * (1 + word replayed * m)) := by
  rw [roundTrip, ending, plus]
  simp only [add_mul, mul_add, mul_assoc, mul_one]
  abel

/-- A queued job is started or dead-lettered. -/
theorem remainder_queued : remainder (some .queued) =
    word started * remainder (some .running) +
      word deadLettered * remainder (some .deadLetter) := by
  have hround : roundTrip∗ * ending = roundTrip * (roundTrip∗ * ending) + ending := by
    rw [add_comm, ← kstar_mul]
  calc remainder (some .queued)
      = roundTrip * (roundTrip∗ * ending) + ending := hround
    _ = _ := by
      rw [roundTrip_mul_add_ending, kstar_mul _ (word deadLettered * _)]
      simp only [remainder, mul_add]
      abel

/-- A running job is restarted, or its attempt ends. -/
theorem remainder_running : remainder (some .running) =
    word started * remainder (some .running) + word requeued * remainder (some .queued) +
      (word completed * remainder (some .succeeded) +
        word EventType.failed * remainder (some .failed)) +
      word deadLettered * remainder (some .deadLetter) := by
  conv_lhs => rw [remainder, kstar_mul]
  simp only [remainder, mul_one]
  abel

/-- **Derivatives.** The events that may come next are those the table allows, and what may follow
them is what may follow in the state the table leads to. -/
theorem cons_mem_remainder_iff (state : Option JobState) (e : EventType) (w : List EventType) :
    e :: w ∈ remainder state ↔ ∃ next, apply state e = .ok next ∧ w ∈ remainder (some next) := by
  have hend : e :: w ∉ (1 : Language EventType) := by simp [Language.mem_one]
  cases state with
  | none =>
    rw [remainder_none]
    simp only [word, Language.cons_mem_singleton_mul, apply]
    by_cases he : e = .submitted <;> simp [he]
  | some s =>
    simp only [apply_some_eq_ok]
    cases s with
    | submitted =>
      show e :: w ∈ word enqueued * remainder (some .queued) ↔ _
      simp only [word, Language.cons_mem_singleton_mul]
      cases e <;> simp [transitions]
    | queued =>
      rw [remainder_queued]
      simp only [word, Language.mem_add, Language.cons_mem_singleton_mul]
      cases e <;> simp [transitions]
    | running =>
      rw [remainder_running]
      simp only [word, Language.mem_add, Language.cons_mem_singleton_mul]
      cases e <;> simp [transitions]
    | deadLetter =>
      show e :: w ∈ 1 + word replayed * remainder (some .queued) ↔ _
      simp only [word, Language.mem_add, Language.cons_mem_singleton_mul, hend, false_or]
      cases e <;> simp [transitions]
    | succeeded => simp [remainder, hend, transitions]
    | failed => simp [remainder, hend, transitions]

/-- From every state the history can be completed. -/
theorem exists_mem_remainder (state : Option JobState) : ∃ w, w ∈ remainder state := by
  have hdead : [] ∈ remainder (some .deadLetter) := .inl Language.nil_mem_one
  have step {st : Option JobState} {e : EventType} {next : JobState} {w : List EventType}
      (ha : apply st e = .ok next) (hw : w ∈ remainder (some next)) : e :: w ∈ remainder st :=
    (cons_mem_remainder_iff st e w).2 ⟨next, ha, hw⟩
  have hqueued : [deadLettered] ∈ remainder (some .queued) := step rfl hdead
  have hsubmitted : [enqueued, deadLettered] ∈ remainder (some .submitted) := step rfl hqueued
  match state with
  | none => exact ⟨_, step (e := .submitted) rfl hsubmitted⟩
  | some .submitted => exact ⟨_, hsubmitted⟩
  | some .queued => exact ⟨_, hqueued⟩
  | some .running => exact ⟨_, step (e := deadLettered) rfl hdead⟩
  | some .deadLetter => exact ⟨_, hdead⟩
  | some .succeeded => exact ⟨[], Language.nil_mem_one⟩
  | some .failed => exact ⟨[], Language.nil_mem_one⟩

/-! ### Replay and the grammar -/

/-- One turn of the loop of `replay`. -/
def replayStep (state : Option JobState) (event : EventType) :
    Except IllegalTransition (Option JobState) :=
  (apply state event).map some

/-- Replay is a fold of one judgement after the other. -/
theorem replayFrom_eq_foldlM (state : Option JobState) (l : List EventType) :
    replayFrom state l = l.foldlM replayStep state := by
  induction l generalizing state with
  | nil => rfl
  | cons e l ih =>
    rw [replayFrom, List.foldlM_cons, replayStep]
    cases apply state e with
    | error x => rfl
    | ok next => exact ih (some next)

/-- A refusal names the state and the event. -/
theorem eq_of_replayStep_error {state : Option JobState} {e : EventType} {x : IllegalTransition}
    (h : replayStep state e = .error x) : x = ⟨state, e⟩ := by
  have ha : apply state e = .error x := by
    rw [replayStep] at h
    cases ha : apply state e with
    | error y => rw [ha] at h; exact congrArg Except.error (Except.error.inj h)
    | ok next => rw [ha] at h; exact absurd h (by simp [Except.map])
  cases state with
  | none =>
    rw [apply] at ha
    split at ha
    · exact absurd ha (by simp)
    · exact (Except.error.inj ha).symm
  | some s => exact (apply_some_eq_error.1 ha).2

/-- The grammar read along the loop of `replay`. -/
def grammar : Residuals replayStep where
  lang := remainder
  cons_mem state e w := by
    rw [cons_mem_remainder_iff, replayStep]
    cases apply state e <;> simp [Except.map]
  nonempty := exists_mem_remainder

/-- A prefix of a complete history. -/
def IsHistory (l : List EventType) : Prop := ∃ w ∈ lifecycle, l <+: w

theorem exists_replayFrom_iff {l : List EventType} :
    (∃ state, replayFrom none l = .ok state) ↔ IsHistory l := by
  simp only [replayFrom_eq_foldlM]
  exact grammar.foldlM_ok_iff (s := none)

theorem replay_nil : replay [] = .error .emptyLog := rfl

/-- Folding a log that is not empty never ends before the first event. -/
theorem replayFrom_ne_none {l : List EventType} (hl : l ≠ []) (state : Option JobState) :
    replayFrom state l ≠ .ok none := by
  rcases List.eq_nil_or_concat l with rfl | ⟨l', e, rfl⟩
  · exact absurd rfl hl
  · rw [List.concat_eq_append, replayFrom_append]
    cases replayFrom state l' with
    | error x => simp
    | ok mid => cases ha : apply mid e <;> simp [replayFrom, ha]

/-- The logs that replay to a state are the histories that are not empty. -/
theorem exists_replay_iff {l : List EventType} :
    (∃ s, replay l = .ok s) ↔ l ≠ [] ∧ IsHistory l := by
  rw [← exists_replayFrom_iff]
  constructor
  · rintro ⟨s, h⟩
    refine ⟨?_, some s, replayFrom_of_replay h⟩
    rintro rfl
    exact absurd h (by simp [replay_nil])
  · rintro ⟨hl, state, h⟩
    cases state with
    | none => exact absurd h (replayFrom_ne_none hl none)
    | some s => exact ⟨s, by rw [replay, h]⟩

/-- A log that replays to `submitted` is that one event. -/
theorem eq_submitted_of_replay {l : List EventType} (h : replay l = .ok .submitted) :
    l = [.submitted] := by
  rcases List.eq_nil_or_concat l with rfl | ⟨l', e, rfl⟩
  · exact absurd h (by simp [replay_nil])
  · rw [List.concat_eq_append] at h ⊢
    obtain ⟨mid, hmid, ha⟩ := replay_concat_inv h
    cases mid with
    | none =>
      have hnil : l' = [] := by
        by_contra hne
        exact replayFrom_ne_none hne none hmid
      have he : e = .submitted := by
        by_contra hne
        simp [apply, hne] at ha
      rw [hnil, he, List.nil_append]
    | some s =>
      have ht := apply_some_eq_ok.1 ha
      cases s <;> cases e <;> simp [transitions] at ht

/-- **Accepted histories.** `replay` succeeds on exactly the non-empty prefixes of the complete
histories, the last event decides the state, and every other log is refused: the empty one as such,
any other at the first event that takes it out of the grammar. -/
theorem replay_iff_lifecycle (l : List EventType) :
    ((∃ s, replay l = .ok s) ↔ l ≠ [] ∧ ∃ w ∈ lifecycle, l <+: w) ∧
    (∀ s, replay l = .ok s →
      (s = .succeeded ↔ l.getLast? = some .completed) ∧
      (s = .failed ↔ l.getLast? = some .failed) ∧
      (s = .deadLetter ↔ l.getLast? = some .deadLettered) ∧
      (s = .running ↔ l.getLast? = some .started) ∧
      (s = .queued ↔ l.getLast? = some .enqueued ∨ l.getLast? = some .requeued ∨
        l.getLast? = some .replayed) ∧
      (s = .submitted ↔ l = [.submitted])) ∧
    (l = [] → replay l = .error .emptyLog) ∧
    (l ≠ [] → (¬∃ w ∈ lifecycle, l <+: w) →
      ∃ pre e post state, l = pre ++ e :: post ∧ (∃ w ∈ lifecycle, pre <+: w) ∧
        (¬∃ w ∈ lifecycle, pre ++ [e] <+: w) ∧
        (pre = [] ∧ state = none ∨ ∃ s, replay pre = .ok s ∧ state = some s) ∧
        replay l = .error (.illegal ⟨state, e⟩)) := by
  refine ⟨exists_replay_iff, fun s h ↦ ?_, ?_, fun hl hno ↦ ?_⟩
  · obtain ⟨e, he, ht⟩ := getLast?_of_replay h
    have hsub : s = .submitted ↔ l = [.submitted] := by
      constructor
      · rintro rfl
        exact eq_submitted_of_replay h
      · rintro rfl
        exact (Except.ok.inj h).symm
    refine ⟨?_, ?_, ?_, ?_, ?_, hsub⟩ <;> rw [he, ht] <;> cases e <;> simp [EventType.target]
  · rintro rfl
    exact replay_nil
  · cases h : replayFrom none l with
    | ok state => exact absurd (exists_replayFrom_iff.1 ⟨state, h⟩) hno
    | error x =>
      have herr : replay l = .error (.illegal x) := by rw [replay, h]
      rw [replayFrom_eq_foldlM] at h
      obtain ⟨pre, e, post, state, hl', hpre, he, hout⟩ := grammar.exists_of_foldlM_error h
      rw [← replayFrom_eq_foldlM] at hpre
      refine ⟨pre, e, post, state, hl', exists_replayFrom_iff.1 ⟨state, hpre⟩, hout, ?_, ?_⟩
      · cases state with
        | none =>
          refine .inl ⟨?_, rfl⟩
          by_contra hne
          exact replayFrom_ne_none hne none hpre
        | some s => exact .inr ⟨s, by rw [replay, hpre], rfl⟩
      · rw [herr, eq_of_replayStep_error he]

end Orbiter
