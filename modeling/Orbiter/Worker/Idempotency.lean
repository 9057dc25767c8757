import Orbiter.Leases.Fencing

/-!
# The execution guard

Two keys per job: a `done` marker that short-circuits later deliveries, and a `claim` taken before
executing. Each operation is two calls at most, and other deliveries may run between them.

* `tryClaim` — reads the marker, and takes the claim if there is none. Between the two calls
  somebody may finish the job, so a claim can be granted on a job that is done;
* `markDone` — sets the marker, then drops the claim;
* `releaseClaim` — drops the claim, if it still bears this delivery's name.

The key templates of the guard and of the leases never produce a common key, and one template
produces different keys for different jobs; the proofs need the templates' fixed ends only, so they
hold for job names of any form.
-/

namespace Orbiter

/-- The three answers of `try_claim`. -/
inductive ClaimResult
  | claimed
  | alreadyDone
  | inProgress
  deriving DecidableEq

namespace ExecutionGuard

variable {τ ε : Type}

def doneKey (jobId : String) : String := "orbiter:exec:" ++ jobId ++ ":done"

def claimKey (jobId : String) : String := "orbiter:exec:" ++ jobId ++ ":claim"

def tryClaim (claimTtlS : τ) (jobId delivery : String) :
    KvProg τ ε ClaimResult := do
  if (← KeyValueStore.get (doneKey jobId)).isSome then
    return .alreadyDone
  let claimed ← KeyValueStore.setIfAbsent (claimKey jobId) delivery claimTtlS
  if claimed then return .claimed else return .inProgress

def markDone (doneTtlS : τ) (jobId delivery : String) : KvProg τ ε Unit := do
  let _ ← KeyValueStore.setIfAbsent (doneKey jobId) delivery doneTtlS
  let _ ← KeyValueStore.compareAndDelete (claimKey jobId) delivery

/-- On a retryable failure, free the claim so the redelivery can run. -/
def releaseClaim (jobId delivery : String) : KvProg τ ε Unit := do
  let _ ← KeyValueStore.compareAndDelete (claimKey jobId) delivery

/-! ### The keys are apart -/

open LeaseManager

theorem doneKey_inj {j j' : String} : doneKey j = doneKey j' ↔ j = j' := by
  rw [doneKey, doneKey, String.append_left_inj, String.append_right_inj]

theorem claimKey_inj {j j' : String} : claimKey j = claimKey j' ↔ j = j' := by
  rw [claimKey, claimKey, String.append_left_inj, String.append_right_inj]

/-- The two templates of the guard end in different characters. -/
theorem doneKey_ne_claimKey (j j' : String) : doneKey j ≠ claimKey j' := by
  intro h
  have hl := congrArg (fun s ↦ s.toList.getLast?) h
  simp only [doneKey, claimKey, String.toList_append, List.getLast?_append] at hl
  rw [show ":done".toList.getLast? = some 'e' by decide,
    show ":claim".toList.getLast? = some 'm' by decide, Option.some_or, Option.some_or] at hl
  exact absurd hl (by decide)

/-- Guard and lease keys differ in their ninth character. -/
theorem doneKey_ne_leaseKey (j r : String) : doneKey j ≠ leaseKey r := by
  intro h
  have hl := congrArg (fun s ↦ s.toList[8]?) h
  simp only [doneKey, leaseKey, String.toList_append, List.append_assoc] at hl
  rw [List.getElem?_append_left (by decide), List.getElem?_append_left (by decide)] at hl
  exact absurd hl (by decide)

theorem claimKey_ne_leaseKey (j r : String) : claimKey j ≠ leaseKey r := by
  intro h
  have hl := congrArg (fun s ↦ s.toList[8]?) h
  simp only [claimKey, leaseKey, String.toList_append, List.append_assoc] at hl
  rw [List.getElem?_append_left (by decide), List.getElem?_append_left (by decide)] at hl
  exact absurd hl (by decide)

end ExecutionGuard

end Orbiter
