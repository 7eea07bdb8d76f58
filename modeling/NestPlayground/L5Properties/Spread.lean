import Mathlib.Data.Finset.Card
import Mathlib.Order.Interval.Finset.Nat
import NestPlayground.L4Pipeline.Deeds

/-!
# A burst is spread out

`congestion-backoff.lua` lets the `n`-th job of a group wait
`baseBackoffMs + ⌊n / rateLimitSpeed⌋ * 1000` ms, where `rateLimitSpeed` is the
number of jobs the group may start in a second. What that is for is a statement
about many calls: while jobs of a group are parked and none is released, no more
than `rateLimitSpeed` of them come due within any second (`due_spread`), at
whatever moments they were parked. The cap `maxBackoffMs` ends this: jobs that
wait the longest backoff come due as they were parked.
-/
namespace NestPlayground.L5.Spread
open L1 L3 L4

/-- A job parked by `congestion-backoff.lua`. -/
structure Parking where
  jobId : JobId
  now : Nat
  reply : L2.BackoffReply
  deriving DecidableEq, Repr

/-- The time from which the dispatcher moves the job. -/
def Parking.executeAt (p : Parking) : Nat := p.now + p.reply.backoffMs

section
variable (reg : Registry)

def parkedIn (g : GroupId) (d : Deed) : Option Parking :=
  match d.cmd with
  | .congestionBackoff j g' =>
    if g' = g then some ⟨j, d.inp.now, (exec reg (.congestionBackoff j g') d.inp d.world).2⟩ else none
  | _ => none

/-- The jobs of `g` parked so far, latest first. -/
def parkings (g : GroupId) (ds : Deeds) : List Parking := ds.filterMap (parkedIn reg g)

/-- The jobs that a group may start in a second.
mirrors libs/bulk-action/src/lua/congestion-backoff.lua:15-22 -/
def rateLimitSpeed (s : Store) : Nat := max 1 (reg.config.backpressure.globalRps / max 1 s.activeGroups.length)

/-- The call releases no job of `g` and deactivates no group. -/
structure Calm (g : GroupId) (d : Deed) : Prop where
  count : (d.world.congestionNonReadyCount g).getD 0 ≤
    ((exec reg d.cmd d.inp d.world).1.congestionNonReadyCount g).getD 0
  active : d.world.activeGroups.length ≤ (exec reg d.cmd d.inp d.world).1.activeGroups.length

/-- A burst: calm, on a clock that does not go back. -/
def Burst (g : GroupId) (ds : Deeds) : Prop :=
  (∀ d ∈ ds, Calm reg g d) ∧ ds.Pairwise fun newer older => older.inp.now ≤ newer.inp.now

instance (g : GroupId) (d : Deed) : Decidable (Calm reg g d) :=
  decidable_of_iff ((d.world.congestionNonReadyCount g).getD 0 ≤
      ((exec reg d.cmd d.inp d.world).1.congestionNonReadyCount g).getD 0 ∧
      d.world.activeGroups.length ≤ (exec reg d.cmd d.inp d.world).1.activeGroups.length)
    ⟨fun h => ⟨h.1, h.2⟩, fun h => ⟨h.1, h.2⟩⟩

instance (g : GroupId) (ds : Deeds) : Decidable (Burst reg g ds) := inferInstanceAs (Decidable (_ ∧ _))

/-- What a parking says of the state it was made in. -/
structure Spreads (speed : Nat) (p : Parking) : Prop where
  backoff : p.reply.backoffMs = min
    (reg.config.congestion.baseBackoffMs + p.reply.nonReadyCount / p.reply.rateLimitSpeed * 1000)
    reg.config.congestion.maxBackoffMs
  pos : 0 < p.reply.rateLimitSpeed
  le : p.reply.rateLimitSpeed ≤ speed

/-- A later parking: on the same clock, with a higher count and no more speed. -/
structure Later (newer older : Parking) : Prop where
  now : older.now ≤ newer.now
  count : older.reply.nonReadyCount < newer.reply.nonReadyCount
  speed : newer.reply.rateLimitSpeed ≤ older.reply.rateLimitSpeed

structure Spreading (speed : Nat) (g : GroupId) (s : Store) (ds : Deeds) : Prop where
  active : rateLimitSpeed reg s ≤ speed
  all : ∀ p ∈ parkings reg g ds, Spreads reg speed p
  counted : ∀ p ∈ parkings reg g ds, p.reply.nonReadyCount ≤ (s.congestionNonReadyCount g).getD 0
  slowed : ∀ p ∈ parkings reg g ds, rateLimitSpeed reg s ≤ p.reply.rateLimitSpeed
  later : (parkings reg g ds).Pairwise Later

end

section
variable {reg : Registry} {g : GroupId} {ds : Deeds} {d : Deed} {s : Store} {speed : Nat}

theorem rateLimitSpeed_anti {s' : Store} (h : s.activeGroups.length ≤ s'.activeGroups.length) :
    rateLimitSpeed reg s' ≤ rateLimitSpeed reg s := by
  unfold rateLimitSpeed
  have : reg.config.backpressure.globalRps / max 1 s'.activeGroups.length ≤
      reg.config.backpressure.globalRps / max 1 s.activeGroups.length :=
    Nat.div_le_div_left (by omega) (by omega)
  omega

/-- Who was parked, and by which deed. -/
theorem mem_parkings {p : Parking} (h : p ∈ parkings reg g ds) : ∃ d ∈ ds, p.now = d.inp.now := by
  obtain ⟨d, hd, hp⟩ := List.mem_filterMap.mp h
  refine ⟨d, hd, ?_⟩
  unfold parkedIn at hp
  split at hp
  · split at hp
    · cases hp
      rfl
    · cases hp
  · cases hp

/-- A parking of `g` counts up and answers with the speed of the moment. -/
theorem parkedIn_spec {p : Parking} (h : parkedIn reg g d = some p) :
    p.now = d.inp.now ∧ p.reply.nonReadyCount = (d.world.congestionNonReadyCount g).getD 0 + 1 ∧
      p.reply.rateLimitSpeed = rateLimitSpeed reg d.world ∧
      p.reply.backoffMs = min
        (reg.config.congestion.baseBackoffMs + p.reply.nonReadyCount / p.reply.rateLimitSpeed * 1000)
        reg.config.congestion.maxBackoffMs ∧
      ((exec reg d.cmd d.inp d.world).1.congestionNonReadyCount g).getD 0 = p.reply.nonReadyCount := by
  obtain ⟨cmd, inp, w⟩ := d
  unfold parkedIn at h
  split at h
  · rename_i j g' hc
    split at h
    · rename_i hg
      cases h
      subst hg
      simp only at hc
      subst hc
      simp [exec, L2.congestionBackoff, rateLimitSpeed]
    · cases h
  · cases h

theorem spreading_exec {cmd : Cmd} {inp : Input} (hcalm : Calm reg g ⟨cmd, inp, s⟩)
    (hclock : ∀ d ∈ ds, d.inp.now ≤ inp.now) (h : Spreading reg speed g s ds) :
    Spreading reg speed g (exec reg cmd inp s).1 (⟨cmd, inp, s⟩ :: ds) := by
  have hspeed : rateLimitSpeed reg (exec reg cmd inp s).1 ≤ rateLimitSpeed reg s := rateLimitSpeed_anti hcalm.active
  have hactive := hspeed.trans h.active
  cases hp : parkedIn reg g ⟨cmd, inp, s⟩ with
  | none =>
    have hsame : parkings reg g (⟨cmd, inp, s⟩ :: ds) = parkings reg g ds := List.filterMap_cons_none hp
    refine ⟨hactive, ?_, ?_, ?_, ?_⟩
    · rw [hsame]
      exact h.all
    · rw [hsame]
      exact fun p hm => (h.counted p hm).trans hcalm.count
    · rw [hsame]
      exact fun p hm => hspeed.trans (h.slowed p hm)
    · rw [hsame]
      exact h.later
  | some p =>
    obtain ⟨hnow, hcount, hpspeed, hbackoff, hafter⟩ := parkedIn_spec hp
    have hcons : parkings reg g (⟨cmd, inp, s⟩ :: ds) = p :: parkings reg g ds := List.filterMap_cons_some hp
    simp only at hnow hcount hpspeed hafter
    refine ⟨hactive, ?_, ?_, ?_, ?_⟩
    · rw [hcons]
      intro q hq
      rcases List.mem_cons.mp hq with rfl | hq
      · refine ⟨hbackoff, ?_, hpspeed ▸ h.active⟩
        rw [hpspeed]
        unfold rateLimitSpeed
        omega
      · exact h.all q hq
    · rw [hcons, hafter]
      intro q hq
      rcases List.mem_cons.mp hq with rfl | hq
      · exact le_refl _
      · have := h.counted q hq
        omega
    · rw [hcons]
      intro q hq
      rcases List.mem_cons.mp hq with rfl | hq
      · exact hpspeed ▸ hspeed
      · exact hspeed.trans (h.slowed q hq)
    · rw [hcons]
      refine List.pairwise_cons.mpr ⟨fun q hq => ⟨?_, ?_, hpspeed ▸ h.slowed q hq⟩, h.later⟩
      · obtain ⟨d, hd, hq⟩ := mem_parkings hq
        rw [hnow, hq]
        exact hclock d hd
      · have := h.counted q hq
        omega

/-- The counts of jobs that come due within a second are close together. -/
theorem count_lt_of_window {newer older : Parking} {T : Nat} (hl : Later newer older)
    (hn : Spreads reg speed newer) (ho : Spreads reg speed older)
    (hcap : newer.reply.backoffMs < reg.config.congestion.maxBackoffMs)
    (hto : T ≤ older.executeAt) (htn : newer.executeAt < T + 1000) :
    newer.reply.nonReadyCount < older.reply.nonReadyCount + older.reply.rateLimitSpeed := by
  by_contra hge
  have hge : older.reply.nonReadyCount + older.reply.rateLimitSpeed ≤ newer.reply.nonReadyCount := Nat.le_of_not_lt hge
  have hdiv : older.reply.nonReadyCount / older.reply.rateLimitSpeed + 1 ≤
      newer.reply.nonReadyCount / newer.reply.rateLimitSpeed :=
    calc older.reply.nonReadyCount / older.reply.rateLimitSpeed + 1
        = (older.reply.nonReadyCount + older.reply.rateLimitSpeed) / older.reply.rateLimitSpeed :=
          (Nat.add_div_right _ ho.pos).symm
      _ ≤ newer.reply.nonReadyCount / older.reply.rateLimitSpeed := Nat.div_le_div_right hge
      _ ≤ newer.reply.nonReadyCount / newer.reply.rateLimitSpeed := Nat.div_le_div_left hl.speed hn.pos
  have hnow := hl.now
  have hbn := hn.backoff
  have hbo := ho.backoff
  unfold Parking.executeAt at hto htn
  omega

/-- Different numbers within `n` of each other are at most `n`. -/
theorem length_le_of_window {l : List Nat} {a n : Nat} (hnodup : l.Nodup) (h : ∀ x ∈ l, a ≤ x ∧ x < a + n) :
    l.length ≤ n := by
  rw [← List.toFinset_card_of_nodup hnodup]
  calc l.toFinset.card ≤ (Finset.Ico a (a + n)).card :=
        Finset.card_le_card fun x hx => Finset.mem_Ico.mpr (h x (List.mem_toFinset.mp hx))
    _ = n := by rw [Nat.card_Ico, Nat.add_sub_cancel_left]

/-- The jobs of `g` that come due within a second, but for those that wait the
longest backoff. -/
def dueWithin (reg : Registry) (g : GroupId) (T : Nat) (ds : Deeds) : List Parking :=
  (parkings reg g ds).filter fun p =>
    T ≤ p.executeAt ∧ p.executeAt < T + 1000 ∧ p.reply.backoffMs < reg.config.congestion.maxBackoffMs

theorem dueWithin_le (h : Spreading reg speed g s ds) (T : Nat) : (dueWithin reg g T ds).length ≤ speed := by
  have hsub : (dueWithin reg g T ds).Sublist (parkings reg g ds) := List.filter_sublist
  have hlater : (dueWithin reg g T ds).Pairwise Later := h.later.sublist hsub
  have hwithin : ∀ p ∈ dueWithin reg g T ds, T ≤ p.executeAt ∧ p.executeAt < T + 1000 ∧
      p.reply.backoffMs < reg.config.congestion.maxBackoffMs := fun p hp => of_decide_eq_true (List.mem_filter.mp hp).2
  have hspreads : ∀ p ∈ dueWithin reg g T ds, Spreads reg speed p := fun p hp => h.all p (hsub.subset hp)
  generalize dueWithin reg g T ds = w at hlater hwithin hspreads
  rcases List.eq_nil_or_concat' w with rfl | ⟨init, older, rfl⟩
  · exact Nat.zero_le _
  · -- all others are later than the first, and not as late as `rateLimitSpeed` jobs after it
    have ho : older ∈ init ++ [older] := List.mem_append_right _ List.mem_cons_self
    refine le_trans ?_ (hspreads older ho).le
    rw [← List.length_map (f := fun p : Parking => p.reply.nonReadyCount)]
    refine @length_le_of_window _ older.reply.nonReadyCount _ ?_ fun n hn => ?_
    · exact List.pairwise_map.mpr (hlater.imp fun hl => hl.count.ne')
    · obtain ⟨p, hp, rfl⟩ := List.mem_map.mp hn
      rcases List.mem_append.mp hp with hi | hi
      · have hl : Later p older := (List.pairwise_append.mp hlater).2.2 p hi older List.mem_cons_self
        exact ⟨hl.count.le, count_lt_of_window hl (hspreads p hp) (hspreads older ho) (hwithin p hp).2.2
          (hwithin older ho).1 (hwithin p hp).2.1⟩
      · rw [List.mem_singleton.mp hi]
        have := (hspreads older ho).pos
        omega

/-- In every run from any state whose calls release no job of `g`, deactivate no
group and read a clock that does not go back: of the jobs of `g` it parks no more
come due within a second than `rateLimitSpeed` was at first, but for those that
wait the longest backoff. -/
theorem due_spread (reg : Registry) (c₀ : State) (g : GroupId) (t : Core.Traced State Label)
    (h : ((pipeline reg).lts c₀).traced.Reachable t) (hb : Burst reg g ((pipeline reg).deeds t.past)) (T : Nat) :
    (dueWithin reg g T ((pipeline reg).deeds t.past)).length ≤ rateLimitSpeed reg c₀.world := by
  have hr : (((pipeline reg).lts c₀).traced.restrict fun _ l => Inputs (fun _ => True) l).Reachable t :=
    h.of_forall fun _ l => by cases l <;> trivial
  refine dueWithin_le (along (I := fun s ds => Burst reg g ds →
    Spreading reg (rateLimitSpeed reg c₀.world) g s ds) ?_ ?_ ?_ hr hb) T
  · exact fun _ => ⟨le_refl _, fun _ hp => (by cases hp), fun _ hp => (by cases hp), fun _ hp => (by cases hp), .nil⟩
  · rintro cmd inp s ds - hI ⟨hcalm, hclock⟩
    obtain ⟨hnow, hclock⟩ := List.pairwise_cons.mp hclock
    exact spreading_exec (hcalm _ List.mem_cons_self) hnow (hI ⟨fun d hd => hcalm d (List.mem_cons_of_mem _ hd), hclock⟩)
  · intro e s ds hI hburst
    obtain ⟨hactive, hall, hcounted, hslowed, hlater⟩ := hI hburst
    cases e <;> exact ⟨hactive, hall, hcounted, hslowed, hlater⟩

end

/-- No job passes the limiter. -/
def stalled : Registry := { config := { backpressure := { globalRps := 0 } } }

/-- Two jobs are parked at one moment and come due a second apart. -/
theorem due_spread_two : ∃ t : Core.Traced State Label,
    (parkings stalled "g" ((pipeline stalled).deeds t.past)).map Parking.executeAt = [3002, 2002] ∧
      (dueWithin stalled "g" 2002 ((pipeline stalled).deeds t.past)).length ≤ 1 := by
  obtain ⟨t, hr, hP⟩ := Core.Program.exists_of_retrace (S := pipeline stalled)
    (P := fun t : Core.Traced State Label =>
      decide (Burst stalled "g" ((pipeline stalled).deeds t.past) ∧
        (parkings stalled "g" ((pipeline stalled).deeds t.past)).map Parking.executeAt = [3002, 2002]))
    (show ((pipeline stalled).retrace (fun _ _ => true) ⟨initialState, []⟩
      ([.spawn (.submitBulkJobs ⟨"g", "SEND_EMAIL", [⟨"j", "null"⟩, ⟨"k", "null"⟩], 0, .normal⟩)] ++ runsAt 0 1 5 ++
        [.spawn .fetchCycle] ++ runsAt 1 2 5 ++ [.spawn .fetchCycle] ++ runsAt 2 2 5)).any _ = true by decide +kernel)
  obtain ⟨hb, hat⟩ := of_decide_eq_true hP
  exact ⟨t, hat, due_spread stalled initialState "g" t hr.unrestrict hb 2002⟩

end NestPlayground.L5.Spread
