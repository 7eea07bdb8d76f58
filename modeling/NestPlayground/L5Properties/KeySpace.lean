import NestPlayground.L1Model.Keys

/-!
# One key, one structure

The holes of the key templates take any text, so an id may contain colons and
segments used elsewhere. Two functions still never meet, because their fixed
texts disagree at the front or at the back (`KeyFunction.apart`), with one
exception: the rate-limit counter of a group named `global` is the global
counter.
-/
namespace NestPlayground.L5.KeySpace
open L1

/-- A key function with its argument. -/
abbrev KeyCall := Σ f : KeyFunction, f.Args

def KeyCall.key (keyPrefix : String) (c : KeyCall) : String := c.1.key keyPrefix c.2

/-- The group's counter is asked for a group named `global`. -/
def GlobalNamed : KeyCall → KeyCall → Prop
  | ⟨.rateLimitGroup, a⟩, ⟨.rateLimitGlobal, window⟩ => a = ("global", window)
  | ⟨.rateLimitGlobal, window⟩, ⟨.rateLimitGroup, a⟩ => a = ("global", window)
  | _, _ => False

/-- The scripts name what `RedisKeyBuilder` names. -/
structure ScriptsAgree (keyPrefix : String) : Prop where
  dequeue : ∀ (g : GroupId) (j : JobId),
    Lua.dequeueGroupJobsKey (RedisKeyBuilder.getPrefix keyPrefix) g = RedisKeyBuilder.groupJobs keyPrefix g ∧
    Lua.dequeueGroupMetaKey (RedisKeyBuilder.getPrefix keyPrefix) g = RedisKeyBuilder.groupMeta keyPrefix g ∧
    Lua.dequeueJobKey (RedisKeyBuilder.getPrefix keyPrefix) j = RedisKeyBuilder.job keyPrefix j
  moveToReady : ∀ (g : GroupId) (j : JobId),
    Lua.moveToReadyJobKey (RedisKeyBuilder.getPrefix keyPrefix) j = RedisKeyBuilder.job keyPrefix j ∧
    Lua.moveToReadyCountKey (RedisKeyBuilder.getPrefix keyPrefix) g =
      RedisKeyBuilder.congestionNonReadyCount keyPrefix g ∧
    Lua.moveToReadyStatsKey (RedisKeyBuilder.getPrefix keyPrefix) g = RedisKeyBuilder.congestionStats keyPrefix g
  recoverOrphans : ∀ j : JobId,
    Lua.recoverOrphansMetaKey (RedisKeyBuilder.inFlightMetaPrefix keyPrefix) j =
      RedisKeyBuilder.inFlightMeta keyPrefix j ∧
    Lua.recoverOrphansJobKey (RedisKeyBuilder.jobKeyPrefix keyPrefix) j = RedisKeyBuilder.job keyPrefix j

theorem scriptsAgree (keyPrefix : String) : ScriptsAgree keyPrefix where
  dequeue _ _ := ⟨rfl, rfl, rfl⟩
  moveToReady _ _ := ⟨rfl, rfl, rfl⟩
  recoverOrphans _ := ⟨rfl, rfl⟩

section
variable {keyPrefix : String}

/-- One function gives different arguments different keys. -/
theorem key_inj {f : KeyFunction} {a a' : f.Args} : f.key keyPrefix a = f.key keyPrefix a' ↔ a = a' := by
  constructor
  · intro h
    rw [KeyFunction.key_eq, KeyFunction.key_eq, String.append_right_inj, Core.Template.fill_inj] at h
    exact KeyFunction.hole_inj h
  · rintro rfl
    rfl

/-- Two functions give different keys, the two counters apart. -/
theorem key_ne {f f' : KeyFunction} (h : f ≠ f') (hr : ¬ (f.rateLimits = true ∧ f'.rateLimits = true)) (a : f.Args)
    (a' : f'.Args) : f.key keyPrefix a ≠ f'.key keyPrefix a' := by
  rw [KeyFunction.key_eq, KeyFunction.key_eq, ne_eq, String.append_right_inj]
  exact (KeyFunction.apart h hr).fill_ne _ _

/-- The exception is between the two counters. -/
theorem globalNamed_counters {c c' : KeyCall} (h : GlobalNamed c c') :
    c.1 ≠ c'.1 ∧ c.1.rateLimits = true ∧ c'.1.rateLimits = true := by
  unfold GlobalNamed at h
  split at h
  · exact ⟨nofun, rfl, rfl⟩
  · exact ⟨nofun, rfl, rfl⟩
  · exact h.elim

/-- The counters meet at the group named `global`. -/
theorem rateLimit_key_eq {g : GroupId} {window window' : Nat} :
    rateLimitGroup keyPrefix g window = rateLimitGlobal keyPrefix window' ↔ (g, window) = ("global", window') := by
  rw [rateLimitGlobal_eq]
  constructor
  · intro h
    have hw := window_of_rateLimitGroup h
    rw [hw] at h ⊢
    rw [rateLimitGroup_inj.mp h]
  · rintro ⟨⟩
    rfl

end

/-- For every prefix and any two calls: one key means one function and one
argument, exactly if the two are not the global counter and the counter of a
group named `global` in the same window. The scripts build the same keys. -/
theorem key_space (keyPrefix : String) :
    (∀ c c' : KeyCall, (c.key keyPrefix = c'.key keyPrefix → c = c') ↔ ¬ GlobalNamed c c') ∧
      ScriptsAgree keyPrefix := by
  refine ⟨?_, scriptsAgree keyPrefix⟩
  rintro ⟨f, a⟩ ⟨f', a'⟩
  by_cases hf : f = f'
  · subst hf
    refine iff_of_true (fun h => congrArg (Sigma.mk f) (key_inj.mp h)) fun hg => (globalNamed_counters hg).1 rfl
  by_cases hr : f.rateLimits = true ∧ f'.rateLimits = true
  · -- the two counters, in either order
    have hne : ∀ c : Prop, (c → (⟨f, a⟩ : KeyCall) = ⟨f', a'⟩) ↔ ¬ c := fun c =>
      ⟨fun h hc => hf (congrArg Sigma.fst (h hc)), fun h hc => absurd hc h⟩
    rw [hne]
    refine not_congr ?_
    cases f with
    | rateLimitGroup =>
      cases f' with
      | rateLimitGroup => exact absurd rfl hf
      | rateLimitGlobal => exact rateLimit_key_eq
      | _ => exact absurd hr.2 (by decide)
    | rateLimitGlobal =>
      cases f' with
      | rateLimitGroup => exact eq_comm.trans rateLimit_key_eq
      | rateLimitGlobal => exact absurd rfl hf
      | _ => exact absurd hr.2 (by decide)
    | _ => exact absurd hr.1 (by decide)
  · exact iff_of_true (fun h => absurd h (key_ne hf hr a a')) fun hg => hr (globalNamed_counters hg).2

/-- A group named `global` counts in the global counter. -/
theorem global_group_counter : ¬ ∀ (keyPrefix : String) (c c' : KeyCall),
    c.key keyPrefix = c'.key keyPrefix → c = c' := by
  intro h
  have heq := h "bulk-action:" ⟨.rateLimitGroup, ("global", 0)⟩ ⟨.rateLimitGlobal, (0 : Nat)⟩ (by decide +kernel)
  cases congrArg Sigma.fst heq

end NestPlayground.L5.KeySpace
