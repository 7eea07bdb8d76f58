import NestPlayground.Core.Rounding
import NestPlayground.L1Model.Store

/-!
# What TypeScript computes about the fair queue

`PriorityCalculator` is the copy of the scripts' formula that the unit tests
run. `getQueueStats` reads the size of each level's set; its three commands are
taken together, as in a state in which no other call runs.
-/
namespace NestPlayground.L3
open L1

namespace PriorityCalculator

/-- mirrors libs/bulk-action/src/fair-queue/PriorityCalculator.ts:11-22 -/
def calculate (rnd : Core.Rounding) (alpha nowMs basePriority totalJobs doneJobs : ℚ) : ℚ :=
  let remaining := max 1 (rnd (totalJobs - doneJobs))
  let sjfBoost := rnd (alpha * rnd (-1 + rnd (totalJobs / remaining)))
  rnd (rnd (rnd (-1 * nowMs) + basePriority) + sjfBoost)

/-- The base priority enters as a summand. -/
theorem calculate_inj {alpha nowMs b b' totalJobs doneJobs : ℚ} :
    calculate Core.exact alpha nowMs b totalJobs doneJobs = calculate Core.exact alpha nowMs b' totalJobs doneJobs ↔
      b = b' := by
  simp only [calculate, Core.exact_apply, add_left_inj, add_right_inj]

end PriorityCalculator

/-- mirrors libs/bulk-action/src/fair-queue/FairQueueService.ts:12-17 -/
structure QueueStats where
  highPriorityGroups : Nat
  normalPriorityGroups : Nat
  lowPriorityGroups : Nat
  totalGroups : Nat
  deriving DecidableEq, Repr

/-- mirrors libs/bulk-action/src/fair-queue/FairQueueService.ts:111-129 -/
def getQueueStats (s : Store) : QueueStats :=
  let highCount := (s.fairQueue .high).card
  let normalCount := (s.fairQueue .normal).card
  let lowCount := (s.fairQueue .low).card
  { highPriorityGroups := highCount
    normalPriorityGroups := normalCount
    lowPriorityGroups := lowCount
    totalGroups := highCount + normalCount + lowCount }

end NestPlayground.L3
