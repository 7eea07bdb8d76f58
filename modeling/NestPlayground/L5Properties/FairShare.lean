import NestPlayground.L5Properties.RateLimit
import Mathlib.Algebra.Order.BigOperators.Group.Finset

/-!
# The share of a group

The limiter keeps one global counter, which the groups reach in any order, and
one counter for each group. While the same groups are active through a window,
and there are no more of them than calls to give away, the global limit never
bites before the groups' own: the first `globalRps / n` calls of each of the
`n` groups are allowed and no others, whatever the rest of them do
(`fair_share`). A group cannot take calls away from another.
-/
namespace NestPlayground.L5.FairShare
open L1 L3 L5.RateLimit

/-- The active groups stay `gs`, and only they call. -/
def Within (gs : Finset GroupId) : Event → Prop
  | .check g _ => g ∈ gs
  | .activate g => g ∈ gs
  | .deactivate _ => False

/-- A window that begins with the active groups `gs`. -/
def sharedWindow (reg : Registry) (w : Nat) (gs : Finset GroupId) : Core.LTS State Event where
  init s := (window reg w).init s ∧ s.store.activeGroups.Nodup ∧ s.store.activeGroups.toFinset = gs
  step := Step reg w

def share (reg : Registry) (gs : Finset GroupId) : Nat := reg.config.backpressure.globalRps / gs.card

/-- The calls of a group. -/
def callsOf (g : GroupId) (calls : List (GroupId × L2.RateLimitResult)) : Nat := calls.countP (·.1 = g)

/-- The allowed calls of each group are its first ones, up to its share. -/
structure Shared (reg : Registry) (w : Nat) (gs : Finset GroupId) (s : State) : Prop where
  counts : Counts reg w s
  callers : ∀ x ∈ s.calls, x.1 ∈ gs
  nodup : s.store.activeGroups.Nodup
  active : s.store.activeGroups.toFinset = gs
  used : ∀ g ∈ gs, groupCount reg w s.store g = min (callsOf g s.calls) (share reg gs)
  answers : ∀ newer g r older, s.calls = newer ++ (g, r) :: older → (r.allowed = true ↔ callsOf g older < share reg gs)

section
variable {reg : Registry} {w : Nat} {gs : Finset GroupId} {s : State} {g : GroupId}

theorem sadd_of_active (hactive : s.store.activeGroups.toFinset = gs) (hg : g ∈ gs) :
    Store.sadd s.store.activeGroups g = s.store.activeGroups := by
  rw [← hactive, List.mem_toFinset] at hg
  exact if_pos hg

theorem Shared.limit (h : Shared reg w gs s) (hfit : gs.card ≤ reg.config.backpressure.globalRps) (hg : g ∈ gs) :
    perGroupLimit reg s.store g = share reg gs := by
  have hpos : 0 < gs.card := Finset.card_pos.mpr ⟨g, hg⟩
  have hlen : s.store.activeGroups.length = gs.card := by
    rw [← h.active, List.toFinset_card_of_nodup h.nodup]
  have hone : 0 < reg.config.backpressure.globalRps / gs.card := Nat.div_pos hfit hpos
  unfold perGroupLimit share
  rw [sadd_of_active h.active hg, hlen, max_eq_right (show 1 ≤ gs.card from hpos)]
  exact max_eq_right hone

/-- A group below its share finds room under the global limit: the others are at most at theirs. -/
theorem Shared.room (h : Shared reg w gs s) (hnamed : "global" ∉ gs) (hg : g ∈ gs)
    (hbelow : groupCount reg w s.store g < share reg gs) :
    globalCount reg w s.store < reg.config.backpressure.globalRps := by
  have hle : ∀ g' ∈ gs, groupCount reg w s.store g' ≤ share reg gs := by
    intro g' hg'
    rw [h.used g' hg']
    exact Nat.min_le_right _ _
  calc globalCount reg w s.store
      = ∑ g' ∈ gs, groupCount reg w s.store g' := (h.counts.sum h.callers hnamed).symm
    _ < ∑ _g' ∈ gs, share reg gs := Finset.sum_lt_sum hle ⟨g, hg, hbelow⟩
    _ = gs.card * share reg gs := Finset.sum_const_nat fun _ _ => rfl
    _ ≤ reg.config.backpressure.globalRps := Nat.mul_div_le _ _

/-- One call: allowed exactly when the group has not used up its share. -/
theorem Shared.check (h : Shared reg w gs s) (hnamed : "global" ∉ gs)
    (hfit : gs.card ≤ reg.config.backpressure.globalRps) (hg : g ∈ gs) {inp : Input}
    (hw : currentWindow reg inp.now = w) :
    Shared reg w gs
      ⟨(exec reg (.rateLimitCheck g) inp s.store).1, (g, (exec reg (.rateLimitCheck g) inp s.store).2) :: s.calls⟩ := by
  have hne : g ≠ "global" := fun he => hnamed (he ▸ hg)
  have hx := @check_cases reg w s.store g hne inp hw
  have hactive : (exec reg (.rateLimitCheck g) inp s.store).1.activeGroups = s.store.activeGroups := by
    rw [← sadd_of_active h.active hg]
    simp only [exec, L2.rateLimitCheck]
    split
    · simp only [sadd_of_active h.active hg]
    · split <;> simp only [sadd_of_active h.active hg]
  have hcounts := h.counts.check hne hx
  generalize exec reg (.rateLimitCheck g) inp s.store = x at hx hactive hcounts ⊢
  have hused := h.used g hg
  have hallowed : x.2.allowed = true ↔ callsOf g s.calls < share reg gs := by
    cases hx with
    | allowed hglobal hgroup hr hcount hrl =>
      rw [h.limit hfit hg] at hgroup
      exact iff_of_true hr (by omega)
    | denied hfull hr hrl =>
      refine iff_of_false (by simp [hr]) fun hlt => ?_
      have hbelow : groupCount reg w s.store g < share reg gs := by omega
      have hroom := h.room hnamed hg hbelow
      rw [h.limit hfit hg] at hfull
      omega
  refine ⟨hcounts, fun y hy => ?_, ?_, ?_, fun g' hg' => ?_, fun newer g' r older he => ?_⟩
  · rcases List.mem_cons.mp hy with rfl | hy
    · exact hg
    · exact h.callers y hy
  · rw [hactive]
    exact h.nodup
  · rw [hactive]
    exact h.active
  · have hnamed' : ∀ g' ∈ gs, g' ≠ "global" := fun g' hg' he => hnamed (he ▸ hg')
    have hnew := hcounts.group g' (hnamed' g' hg')
    have hold := h.counts.group g' (hnamed' g' hg')
    have hused' := h.used g' hg'
    simp only at hnew
    rw [hnew, List.countP_cons, ← hold]
    unfold callsOf at hused hallowed hused' ⊢
    rw [List.countP_cons]
    rcases eq_or_ne g' g with rfl | hgg
    · by_cases ha : x.2.allowed = true
      · have := hallowed.mp ha
        simp only [ha, decide_true, Bool.and_self, if_true]
        rw [hused, Nat.min_eq_left this.le, Nat.min_eq_left this]
      · have := Nat.le_of_not_lt fun hlt => ha (hallowed.mpr hlt)
        simp only [ha, Bool.false_and, decide_true, if_true, Bool.false_eq_true, if_false]
        rw [hused, Nat.min_eq_right this, Nat.min_eq_right (Nat.le_succ_of_le this)]
        rfl
    · simp only [decide_eq_false hgg.symm, Bool.and_false, Bool.false_eq_true, if_false, Nat.add_zero]
      exact hused'
  · cases newer with
    | nil =>
      cases he
      exact hallowed
    | cons y newer => exact h.answers newer g' r older (List.cons.inj he).2

theorem shared_inductive (reg : Registry) (w : Nat) {gs : Finset GroupId} (hnamed : "global" ∉ gs)
    (hfit : gs.card ≤ reg.config.backpressure.globalRps) :
    ((sharedWindow reg w gs).restrict fun _ => Within gs).Inductive (Shared reg w gs) where
  init := by
    intro s hs
    obtain ⟨hinit, hnodup, hactive⟩ := hs
    refine ⟨(counts_inductive reg w).init s hinit, ?_, hnodup, hactive, fun g _ => ?_, fun newer g r older he => ?_⟩
    · simp [hinit.1]
    · rw [hinit.2.2 g, hinit.1]
      exact (Nat.zero_min _).symm
    · simp [hinit.1] at he
  step := by
    intro s e s' h hs
    obtain ⟨hstep, hwithin⟩ := hs
    cases hstep with
    | check hw => exact h.check hnamed hfit hwithin hw
    | activate =>
      have hsame := sadd_of_active h.active hwithin
      refine ⟨⟨h.counts.group, h.counts.all, h.counts.limit, h.counts.named⟩, h.callers, ?_, ?_, h.used, h.answers⟩
      · simp only [hsame]
        exact h.nodup
      · simp only [hsame]
        exact h.active
    | deactivate => exact absurd hwithin id

/-- While the groups `gs`, no more than `globalRps` and none of them named as the
global counter is, share a window, the allowed calls of each are its first
`globalRps / n`, in whatever order the groups call. -/
theorem fair_share (reg : Registry) (w : Nat) (gs : Finset GroupId) (s : State) (hnamed : "global" ∉ gs)
    (hfit : gs.card ≤ reg.config.backpressure.globalRps)
    (h : ((sharedWindow reg w gs).restrict fun _ => Within gs).Reachable s) :
    (∀ g ∈ gs, groupCount reg w s.store g = min (callsOf g s.calls) (share reg gs)) ∧
      ∀ newer g r older, s.calls = newer ++ (g, r) :: older →
        (r.allowed = true ↔ callsOf g older < share reg gs) := by
  have hs := (shared_inductive reg w hnamed hfit).reachable s h
  exact ⟨hs.used, hs.answers⟩

end

/-- Two calls a window. -/
def two : Registry := { config := { backpressure := { globalRps := 2 } } }

/-- The window with `g` and `h` active. -/
def both : State := ⟨{ Store.empty with activeGroups := ["g", "h"] }, []⟩

def checked (g : GroupId) (s : State) : State :=
  ⟨(exec two (.rateLimitCheck g) {} s.store).1, (g, (exec two (.rateLimitCheck g) {} s.store).2) :: s.calls⟩

/-- `g` calls twice before `h`, and has had its share. -/
theorem fair_share_twice :
    (∀ g ∈ ({"g", "h"} : Finset GroupId), groupCount two 0 (checked "h" (checked "g" (checked "g" both))).store g =
        min (callsOf g (checked "h" (checked "g" (checked "g" both))).calls) (share two {"g", "h"})) ∧
      ∀ newer g r older, (checked "h" (checked "g" (checked "g" both))).calls = newer ++ (g, r) :: older →
        (r.allowed = true ↔ callsOf g older < share two {"g", "h"}) := by
  have hg : Within {"g", "h"} (.check "g" {}) := by simp [Within]
  have hh : Within {"g", "h"} (.check "h" {}) := by simp [Within]
  have hinit : ((sharedWindow two 0 {"g", "h"}).restrict fun _ => Within {"g", "h"}).Reachable both :=
    .init ⟨⟨rfl, rfl, fun _ => rfl⟩, by decide, by decide⟩
  have hw : currentWindow two ({} : Input).now = 0 := by decide
  have hr := ((hinit.step ⟨.check hw, hg⟩).step ⟨.check hw, hg⟩).step ⟨.check hw, hh⟩
  exact fair_share two 0 {"g", "h"} _ (by decide) (by decide) hr

end NestPlayground.L5.FairShare
