import Mathlib.Algebra.Order.Ring.Rat
import Mathlib.Data.Rat.Defs

/-!
# What is configured and what is submitted

`Settings` is the configuration the modelled functions read, with the defaults of the source.
Durations are in seconds, as configured; the clock of the model runs in milliseconds, and
`ackWaitMs`, `execGuardTtlMs` and `leaseTtlMs` are the three durations the clock is compared with.
Two relations between them are not enforced by the source: the claim may be shorter than the longest
job, and the redelivery pause shorter than the claim. Results that need one of them say so.

`SubmitRequest` is the one payload type the API admits, with its validated bounds as fields, so a
request out of bounds cannot be built. Its `model_dump()` is what `submit_job` stores and what every
message of the job carries.

The other payloads of the model, `SubmitRequest.healthy` and `SubmitRequest.failing`, are instances
for runs on fixed inputs: a job that runs for a while and completes, and one that always fails.
-/

namespace Orbiter

/-! ### Settings -/

/-- Runtime configuration. -/
structure Settings where
  streamName : String := "ORBITER_JOBS"
  subjectJobs : String := "orbiter.jobs"
  subjectDlq : String := "orbiter.dlq"
  consumerDurable : String := "workers"
  /-- How long a delivery stays invisible before redelivery. -/
  ackWaitS : ℕ := 30
  /-- How many deliveries before the broker gives up. -/
  maxDeliver : ℕ := 5
  relayBatchSize : ℕ := 100
  execGuardTtlS : ℕ := 3600
  /-- The time to live of claims and of leases, deliberately shorter than `ackWaitS`. -/
  leaseTtlS : ℕ := 20

namespace Settings

def ackWaitMs (cfg : Settings) : ℕ := cfg.ackWaitS * 1000

def execGuardTtlMs (cfg : Settings) : ℕ := cfg.execGuardTtlS * 1000

def leaseTtlMs (cfg : Settings) : ℕ := cfg.leaseTtlS * 1000

end Settings

/-! ### The submitted job -/

/-- A submission the API admits. -/
@[ext]
structure SubmitRequest where
  durationMs : ℕ
  failureRate : ℚ
  /-- Simulates a job that kills its worker before any handling can run. -/
  poison : Bool
  durationMs_le : durationMs ≤ 600000
  failureRate_nonneg : 0 ≤ failureRate
  failureRate_le : failureRate ≤ 1

/-- A request with the API's defaults: it never fails and is not poison. -/
def SubmitRequest.healthy (durationMs : ℕ) (h : durationMs ≤ 600000) : SubmitRequest where
  durationMs := durationMs
  failureRate := 0
  poison := false
  durationMs_le := h
  failureRate_nonneg := le_refl 0
  failureRate_le := by decide

/-- A request whose job always fails. -/
def SubmitRequest.failing (durationMs : ℕ) (h : durationMs ≤ 600000) : SubmitRequest where
  durationMs := durationMs
  failureRate := 1
  poison := false
  durationMs_le := h
  failureRate_nonneg := by decide
  failureRate_le := le_refl 1

theorem five_le_limit : 5 ≤ 600000 := by decide

theorem ten_le_limit : 10 ≤ 600000 := by decide

end Orbiter
