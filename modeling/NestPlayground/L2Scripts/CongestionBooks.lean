import NestPlayground.L2Scripts.Backpressure

/-!
# The congestion books, command by command

What the scripts do to a group's counter and to the `currentNonReadyCount` of
its stats hash, one Redis command after another. The counter is an integer, as
DECR and DECRBY leave it, so that the clamps are visible; `Store` has it after
the clamp. `ofStore_…` say that the scripts of `Backpressure` do just this.
-/
namespace NestPlayground.L2
open L1

structure CongestionBooks where
  nonReadyCount : GroupId → Option Int
  currentNonReadyCount : GroupId → Option Int

namespace CongestionBooks

/-! ## Commands -/

def setCount (b : CongestionBooks) (g : GroupId) (n : Int) : CongestionBooks :=
  { b with nonReadyCount := Function.update b.nonReadyCount g (some n) }

/-- INCR: an absent key counts as 0, and the reply is the new value. -/
def incr (b : CongestionBooks) (g : GroupId) : CongestionBooks × Int :=
  let newCount := (b.nonReadyCount g).getD 0 + 1
  (b.setCount g newCount, newCount)

/-- DECRBY, and DECR for 1. -/
def decrBy (b : CongestionBooks) (g : GroupId) (n : Int) : CongestionBooks × Int :=
  let newCount := (b.nonReadyCount g).getD 0 - n
  (b.setCount g newCount, newCount)

/-- HSET of the field `currentNonReadyCount`. -/
def setCurrent (b : CongestionBooks) (g : GroupId) (n : Int) : CongestionBooks :=
  { b with currentNonReadyCount := Function.update b.currentNonReadyCount g (some n) }

/-! ## Scripts -/

/-- mirrors libs/bulk-action/src/lua/congestion-backoff.lua:12-13, 34-40 -/
def backoff (b : CongestionBooks) (g : GroupId) : CongestionBooks :=
  let counted := b.incr g
  counted.1.setCurrent g counted.2

/-- mirrors libs/bulk-action/src/lua/congestion-release.lua:4-15 -/
def release (b : CongestionBooks) (g : GroupId) (decreaseCount : Int) : CongestionBooks :=
  let released := b.decrBy g decreaseCount
  let newCount := released.2
  if newCount < 0 then (released.1.setCount g 0).setCurrent g 0 else released.1.setCurrent g newCount

/-- One job of a batch, by the group that its hash names.
mirrors libs/bulk-action/src/lua/move-to-ready.lua:19-30 -/
def moveJob (b : CongestionBooks) : Option GroupId → CongestionBooks
  | none => b
  | some g =>
    let moved := b.decrBy g 1
    let newCount := moved.2
    let clamped := if newCount < 0 then moved.1.setCount g 0 else moved.1
    clamped.setCurrent g (max 0 newCount)

/-- mirrors libs/bulk-action/src/lua/move-to-ready.lua:15-31 -/
def moveToReady (b : CongestionBooks) (groups : List (Option GroupId)) : CongestionBooks := groups.foldl moveJob b

/-- One DEL for both keys.
mirrors libs/bulk-action/src/congestion/CongestionControlService.ts:158-163 -/
def resetGroupStats (b : CongestionBooks) (g : GroupId) : CongestionBooks where
  nonReadyCount := Function.update b.nonReadyCount g none
  currentNonReadyCount := Function.update b.currentNonReadyCount g none

section
variable {s s' : Store} {g : GroupId}

@[ext] theorem ext {b b' : CongestionBooks} (hcount : ∀ g, b.nonReadyCount g = b'.nonReadyCount g)
    (hcurrent : ∀ g, b.currentNonReadyCount g = b'.currentNonReadyCount g) : b = b' := by
  cases b
  cases b'
  rw [mk.injEq]
  exact ⟨funext hcount, funext hcurrent⟩

/-- Both books of `g` say `n` and those of the other groups are left alone. -/
structure Sets (g : GroupId) (n : Option Int) (b b' : CongestionBooks) : Prop where
  count : b'.nonReadyCount = Function.update b.nonReadyCount g n
  current : b'.currentNonReadyCount = Function.update b.currentNonReadyCount g n

theorem Sets.unique {n : Option Int} {b b₁ b₂ : CongestionBooks} (h₁ : Sets g n b b₁) (h₂ : Sets g n b b₂) :
    b₁ = b₂ := by
  apply ext
  · intro g
    rw [h₁.count, h₂.count]
  · intro g
    rw [h₁.current, h₂.current]

theorem sets_backoff (b : CongestionBooks) (g : GroupId) :
    Sets g (some ((b.nonReadyCount g).getD 0 + 1)) b (b.backoff g) := ⟨rfl, rfl⟩

theorem decrBy_snd (b : CongestionBooks) (g : GroupId) (n : Int) :
    (b.nonReadyCount g).getD 0 - n = (b.decrBy g n).2 := rfl

/-- The clamp writes the counter a second time. -/
theorem sets_clamped (b : CongestionBooks) (g : GroupId) (n : Int) :
    Sets g (some 0) b (((b.decrBy g n).1.setCount g 0).setCurrent g 0) := ⟨Function.update_idem .., rfl⟩

theorem sets_release (b : CongestionBooks) (g : GroupId) (decreaseCount : Int) :
    Sets g (some (max 0 ((b.nonReadyCount g).getD 0 - decreaseCount))) b (b.release g decreaseCount) := by
  unfold release
  rw [decrBy_snd]
  by_cases hneg : (b.decrBy g decreaseCount).2 < 0
  · rw [if_pos hneg, max_eq_left hneg.le]
    exact sets_clamped b g decreaseCount
  · rw [if_neg hneg, max_eq_right (not_lt.mp hneg)]
    exact ⟨rfl, rfl⟩

theorem sets_moveJob (b : CongestionBooks) (g : GroupId) :
    Sets g (some (max 0 ((b.nonReadyCount g).getD 0 - 1))) b (b.moveJob (some g)) := by
  unfold moveJob
  rw [decrBy_snd]
  by_cases hneg : (b.decrBy g 1).2 < 0
  · simp only [if_pos hneg, max_eq_left hneg.le]
    exact sets_clamped b g 1
  · simp only [if_neg hneg, max_eq_right (not_lt.mp hneg)]
    exact ⟨rfl, rfl⟩

theorem sets_resetGroupStats (b : CongestionBooks) (g : GroupId) : Sets g none b (b.resetGroupStats g) := ⟨rfl, rfl⟩

end
end CongestionBooks
end NestPlayground.L2
