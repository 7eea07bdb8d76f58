import NestPlayground.L3Services.Redis
import Mathlib.Algebra.BigOperators.Group.Finset.Basic

/-!
# Rate limiter accounting

One window of the limiter: `checkRateLimit` of any groups, with groups joining
and leaving the active set in between. `rate-limit-check.lua` counts first and
takes the count back on a denial; `check_cases` says what a call comes to. The
counters of the window then count the allowed calls: all of them under the
global key, those of a group under the group's (`Counts`). A group named
`global` would share the global key.
-/
namespace NestPlayground.L5.RateLimit
open L1 L3

/-- What happens in a window. -/
inductive Event where
  | check (groupId : GroupId) (inp : Input)
  | activate (groupId : GroupId)
  | deactivate (groupId : GroupId)

structure State where
  store : Store
  /-- the calls so far with their answers, newest first -/
  calls : List (GroupId × L2.RateLimitResult)

/-- No group is named `global`. -/
def Named : Event → Prop
  | .check g _ => g ≠ "global"
  | _ => True

section
variable (reg : Registry) (w : Nat)

/-- The counter of a group in the window `w`. -/
def groupCount (s : Store) (g : GroupId) : Nat := s.rateLimit (rateLimitGroup (keyPrefix reg) g w)

/-- The counter of all groups. -/
def globalCount (s : Store) : Nat := s.rateLimit (rateLimitGlobal (keyPrefix reg) w)

/-- `max(1, floor(globalRps / active groups))`, with the caller registered. -/
def perGroupLimit (s : Store) (g : GroupId) : Nat :=
  max 1 (reg.config.backpressure.globalRps / max 1 (Store.sadd s.activeGroups g).length)

inductive Step : State → Event → State → Prop where
  | check {s g inp} (hw : currentWindow reg inp.now = w) :
      Step s (.check g inp)
        ⟨(exec reg (.rateLimitCheck g) inp s.store).1, (g, (exec reg (.rateLimitCheck g) inp s.store).2) :: s.calls⟩
  | activate {s g} :
      Step s (.activate g) { s with store := { s.store with activeGroups := Store.sadd s.store.activeGroups g } }
  | deactivate {s g inp} : Step s (.deactivate g) { s with store := (exec reg (.activeRemove g) inp s.store).1 }

/-- The window, from no calls and no counts. Its keys do not expire. -/
def window : Core.LTS State Event where
  init s := s.calls = [] ∧ globalCount reg w s.store = 0 ∧ ∀ g, groupCount reg w s.store g = 0
  step := Step reg w

/-- What the counters count. -/
structure Counts (s : State) : Prop where
  group : ∀ g, g ≠ "global" → groupCount reg w s.store g = s.calls.countP fun x => x.2.allowed && x.1 = g
  all : globalCount reg w s.store = s.calls.countP (·.2.allowed)
  limit : globalCount reg w s.store ≤ reg.config.backpressure.globalRps
  named : ∀ x ∈ s.calls, x.1 ≠ "global"

/-- The answer to a call: allowed when both limits leave room, and then both
counters are one up; otherwise no counter changes. -/
inductive Checked (s : Store) (g : GroupId) : Store × L2.RateLimitResult → Prop where
  | allowed {s' r} (hglobal : globalCount reg w s < reg.config.backpressure.globalRps)
      (hgroup : groupCount reg w s g < perGroupLimit reg s g) (hr : r.allowed = true)
      (hcount : r.groupCount = groupCount reg w s g + 1)
      (hrl : s'.rateLimit = Function.update
        (Function.update s.rateLimit (rateLimitGlobal (keyPrefix reg) w) (globalCount reg w s + 1))
        (rateLimitGroup (keyPrefix reg) g w) (groupCount reg w s g + 1)) : Checked s g (s', r)
  | denied {s' r} (h : reg.config.backpressure.globalRps ≤ globalCount reg w s ∨
        perGroupLimit reg s g ≤ groupCount reg w s g) (hr : r.allowed = false)
      (hrl : s'.rateLimit = s.rateLimit) : Checked s g (s', r)

end

section
variable {reg : Registry} {w : Nat} {s : Store} {g : GroupId}

theorem keys_ne (hg : g ≠ "global") : rateLimitGroup (keyPrefix reg) g w ≠ rateLimitGlobal (keyPrefix reg) w := by
  rw [rateLimitGlobal_eq]
  exact fun h => hg (rateLimitGroup_inj.mp h)

theorem check_cases (hg : g ≠ "global") {inp : Input} (hw : currentWindow reg inp.now = w) :
    Checked reg w s g (exec reg (.rateLimitCheck g) inp s) := by
  have hne := @keys_ne reg w g hg
  subst hw
  unfold exec L2.rateLimitCheck
  simp only [Function.update_self]
  split
  · rename_i h
    refine .denied (.inl ?_) rfl ?_
    · unfold globalCount
      omega
    · -- the count taken back
      simp
  · rename_i h
    simp only [Function.update_of_ne hne]
    split
    · rename_i h'
      refine .denied (.inr ?_) rfl ?_
      · unfold perGroupLimit groupCount
        omega
      · funext k
        rcases eq_or_ne k (rateLimitGlobal (keyPrefix reg) (currentWindow reg inp.now)) with rfl | hk
        · simp [Function.update_of_ne hne.symm]
        · rcases eq_or_ne k (rateLimitGroup (keyPrefix reg) g (currentWindow reg inp.now)) with rfl | hk'
          · simp [Function.update_of_ne hne]
          · simp [Function.update_of_ne hk, Function.update_of_ne hk']
    · rename_i h'
      refine .allowed ?_ ?_ rfl rfl rfl
      · unfold globalCount
        omega
      · unfold perGroupLimit groupCount
        omega

/-- One call keeps the counts. -/
theorem Counts.check {s : State} (h : Counts reg w s) (hg : g ≠ "global") {x : Store × L2.RateLimitResult}
    (hx : Checked reg w s.store g x) : Counts reg w ⟨x.1, (g, x.2) :: s.calls⟩ := by
  have hnamed : ∀ y ∈ (g, x.2) :: s.calls, y.1 ≠ "global" := by
    intro y hy
    rcases List.mem_cons.mp hy with rfl | hy
    · exact hg
    · exact h.named y hy
  cases hx with
  | @allowed s' r hglobal hgroup hr hcount hrl =>
    have hall : globalCount reg w s' = globalCount reg w s.store + 1 := by
      simp [globalCount, hrl, Function.update_of_ne (keys_ne hg).symm]
    refine ⟨fun g' hg' => ?_, ?_, ?_, hnamed⟩
    · rcases eq_or_ne g' g with rfl | hne
      · simp [groupCount, hrl, hr, ← h.group g' hg']
      · have hk : rateLimitGroup (keyPrefix reg) g' w ≠ rateLimitGroup (keyPrefix reg) g w :=
          fun he => hne (rateLimitGroup_inj.mp he)
        have hold := h.group g' hg'
        unfold groupCount at hold ⊢
        simp [hrl, hr, hne.symm, ← hold, Function.update_of_ne hk, Function.update_of_ne (keys_ne hg')]
    · simp [hall, hr, h.all]
    · show globalCount reg w s' ≤ _
      omega
  | @denied s' r hlimit hr hrl =>
    refine ⟨fun g' hg' => ?_, ?_, ?_, hnamed⟩
    · have hold := h.group g' hg'
      unfold groupCount at hold ⊢
      simp [hrl, hr, hold]
    · have hold := h.all
      unfold globalCount at hold ⊢
      simp [hrl, hr, hold]
    · have hold := h.limit
      unfold globalCount at hold ⊢
      simp [hrl, hold]

theorem counts_inductive (reg : Registry) (w : Nat) :
    ((window reg w).restrict fun _ => Named).Inductive (Counts reg w) where
  init := by
    rintro s ⟨hcalls, hglobal, hgroup⟩
    refine ⟨fun g _ => ?_, ?_, ?_, ?_⟩
    · rw [hgroup g, hcalls]
      rfl
    · rw [hglobal, hcalls]
      rfl
    · rw [hglobal]
      exact Nat.zero_le _
    · rw [hcalls]
      simp
  step := by
    rintro s e s' h ⟨hs, hnamed⟩
    cases hs with
    | check hw => exact h.check hnamed (check_cases hnamed hw)
    | activate => exact ⟨h.group, h.all, h.limit, h.named⟩
    | deactivate => exact ⟨h.group, h.all, h.limit, h.named⟩

/-- The counters of the groups that called add up to the global one. -/
theorem Counts.sum {s : State} (h : Counts reg w s) {gs : Finset GroupId} (hgs : ∀ x ∈ s.calls, x.1 ∈ gs)
    (hnamed : "global" ∉ gs) : ∑ g ∈ gs, groupCount reg w s.store g = globalCount reg w s.store := by
  have hcount : ∀ g ∈ gs, groupCount reg w s.store g =
      ((s.calls.filter (·.2.allowed)).map Prod.fst : Multiset GroupId).count g := by
    intro g hg
    rw [h.group g fun he => hnamed (he ▸ hg), Multiset.coe_count, List.count_eq_countP, List.countP_map,
      List.countP_filter]
    refine List.countP_congr fun x _ => ?_
    simp [and_comm]
  calc ∑ g ∈ gs, groupCount reg w s.store g
      = ∑ g ∈ gs, ((s.calls.filter (·.2.allowed)).map Prod.fst : Multiset GroupId).count g :=
        Finset.sum_congr rfl hcount
    _ = ((s.calls.filter (·.2.allowed)).map Prod.fst).length := by
      refine Multiset.sum_count_eq_card fun g hg => ?_
      obtain ⟨x, hx, rfl⟩ := List.mem_map.mp (Multiset.mem_coe.mp hg)
      exact hgs x (List.mem_of_mem_filter hx)
    _ = globalCount reg w s.store := by rw [h.all, List.length_map, List.countP_eq_length_filter]

/-- In every window, after every call: the global counter counts the allowed
calls, is the sum of the groups' counters and within `globalRps`. The next call
is allowed within the group's limit of that moment, and denied, without a trace
in the counters, exactly when one of the limits is used up. -/
theorem rate_limit_accounting (reg : Registry) (w : Nat) (s : State)
    (h : ((window reg w).restrict fun _ => Named).Reachable s) :
    (globalCount reg w s.store = (s.calls.filter (·.2.allowed)).length ∧
      (∀ gs : Finset GroupId, (∀ x ∈ s.calls, x.1 ∈ gs) → "global" ∉ gs →
        ∑ g ∈ gs, groupCount reg w s.store g = globalCount reg w s.store) ∧
      globalCount reg w s.store ≤ reg.config.backpressure.globalRps) ∧
    ∀ g inp, g ≠ "global" → currentWindow reg inp.now = w → ∀ s' r, exec reg (.rateLimitCheck g) inp s.store = (s', r) →
      (r.allowed = true → groupCount reg w s' g = groupCount reg w s.store g + 1 ∧
        r.groupCount = groupCount reg w s' g ∧ groupCount reg w s' g ≤ perGroupLimit reg s.store g) ∧
      (r.allowed = false → s'.rateLimit = s.store.rateLimit) ∧
      (r.allowed = false ↔ reg.config.backpressure.globalRps ≤ globalCount reg w s.store ∨
        perGroupLimit reg s.store g ≤ groupCount reg w s.store g) := by
  have hc := (counts_inductive reg w).reachable s h
  refine ⟨⟨by rw [hc.all, List.countP_eq_length_filter], fun gs => hc.sum, hc.limit⟩, ?_⟩
  intro g inp hg hw s' r he
  have hx := @check_cases reg w s.store g hg inp hw
  rw [he] at hx
  cases hx with
  | allowed hglobal hgroup hr hcount hrl =>
    have hup : groupCount reg w s' g = groupCount reg w s.store g + 1 := by simp [groupCount, hrl]
    refine ⟨fun _ => ⟨hup, by rw [hcount, hup], by omega⟩, fun hr' => ?_, fun hr' => ?_, fun hfull => ?_⟩
    · rw [hr] at hr'
      cases hr'
    · rw [hr] at hr'
      cases hr'
    · omega
  | denied hfull hr hrl =>
    refine ⟨fun hr' => ?_, fun _ => hrl, fun _ => hfull, fun _ => hr⟩
    rw [hr] at hr'
    cases hr'

end

/-- One call a window, and that call made by `g`. -/
def single : Registry := { config := { backpressure := { globalRps := 1 } } }

def usedUp : State :=
  ⟨(exec single (.rateLimitCheck "g") {} .empty).1, [("g", (exec single (.rateLimitCheck "g") {} .empty).2)]⟩

/-- The second call of the window is denied. -/
theorem rate_limit_accounting_second : globalCount single 0 usedUp.store = 1 ∧
    (exec single (.rateLimitCheck "h") {} usedUp.store).2.allowed = false ∧
    (exec single (.rateLimitCheck "h") {} usedUp.store).1.rateLimit = usedUp.store.rateLimit := by
  have hstep : Step single 0 ⟨.empty, []⟩ (.check "g" {}) usedUp := .check (by decide)
  have hr : ((window single 0).restrict fun _ => Named).Reachable usedUp :=
    .step (.init ⟨rfl, rfl, fun _ => rfl⟩) ⟨hstep, show "g" ≠ "global" by decide⟩
  have hone : globalCount single 0 usedUp.store = 1 := by decide +kernel
  have hnext := (rate_limit_accounting single 0 usedUp hr).2 "h" {} (by decide) (by decide) _ _
    (Prod.mk.eta (p := exec single (.rateLimitCheck "h") {} usedUp.store)).symm
  have hdenied := hnext.2.2.mpr (.inl (le_of_eq hone.symm))
  exact ⟨hone, hdenied, hnext.2.1 hdenied⟩

end NestPlayground.L5.RateLimit
