import NestPlayground.L4Pipeline.Books
import NestPlayground.L5Properties.Registration

/-!
# The watcher's set of groups

A submission ends by enrolling its group; a watch cycle takes a group out of
the set once it has read a terminal status. Nothing enrolls a group again. So
an enrolled group stays in the set until it is terminal as long as no removal
comes after the status it was decided on has changed, and no `ack.lua` (or
first enqueue) takes a group out of COMPLETED or FAILED that has already left
the set (`Attentive`). `ack.lua` does not look: a group that timed out is
brought back by its late ack and forgotten (`forgotten`).
-/
namespace NestPlayground.L5.Enrolment
open L1 L3 L4

def enrolls : Cmd → Option GroupId
  | .watcherAdd g => some g
  | _ => none

/-- The groups that were put into the set. -/
def enrolled (log : Log) : List GroupId := log.filterMap fun e => enrolls e.cmd

/-- COMPLETED or FAILED. -/
def terminal (s : Store) (g : GroupId) : Bool := (s.groupMeta g).status.any isTerminal

/-- Every enrolled group is terminal or in the set. -/
def Watched (w : Store) (log : Log) : Prop :=
  ∀ g ∈ enrolled log, terminal w g = true ∨ g ∈ w.watcherActiveGroups

/-- The group a call takes out of a terminal status. -/
def revives (s : Store) : Cmd → Option GroupId
  | .ack _ g =>
    if terminal s g = true ∧ (s.groupMeta g).totalJobs.getD 0 ≤ (s.groupMeta g).doneJobs.getD 0 + 1 then some g
    else none
  | .enqueue req =>
    if terminal s req.jobGroupId = true ∧ (s.groupMeta req.jobGroupId).totalJobs.getD 0 = 0 then some req.jobGroupId
    else none
  | _ => none

/-- A group is removed only while it is still terminal, and taken out of a
terminal status only while it is still in the set. -/
def attentive (s : Store) (log : Log) : Cmd → Bool
  | .watcherRemove g => decide (g ∈ enrolled log → terminal s g = true)
  | cmd => decide (∀ g ∈ revives s cmd, g ∈ enrolled log → g ∈ s.watcherActiveGroups)

/-- The condition on the calls of a run. -/
def Attentive (reg : Registry) : State → Label → Prop :=
  onCalls reg fun c _ cmd _ => attentive c.world c.log cmd = true

instance (reg : Registry) (c : State) (l : Label) : Decidable (Attentive reg c l) := instDecidableOnCalls reg _ c l

section
variable {reg : Registry} {cmd : Cmd} {inp : Input} {s : Store} {log : Log} {i : Nat}

@[simp] theorem enrolled_cons (i : Nat) (cmd : Cmd) (r : Reply cmd) (log : Log) :
    enrolled (⟨i, cmd, r⟩ :: log) = (enrolls cmd).toList ++ enrolled log := by
  cases h : enrolls cmd <;> simp [enrolled, h]

/-- A submission that has made all its calls has enrolled its group. -/
theorem enrolled_of_script {sub : Registration.Submission}
    (h : (Core.Program.callsOf i log).map Sigma.fst = sub.script) : sub.groupId ∈ enrolled log := by
  have hadd : Cmd.watcherAdd sub.groupId ∈ sub.script := by
    cases sub with
    | job req => simp [Registration.Submission.script, Registration.Submission.groupId]
    | bulk req =>
      simp [Registration.Submission.script, Registration.Submission.registration, Registration.Submission.groupId]
  rw [← h, Core.Program.callsOf, List.map_reverse, List.map_map, List.mem_reverse] at hadd
  obtain ⟨e, he, hcmd⟩ := List.mem_map.mp hadd
  refine List.mem_filterMap.mpr ⟨e, List.mem_of_mem_filter he, ?_⟩
  rw [show e.cmd = .watcherAdd sub.groupId from hcmd]
  rfl

/-- A revived group is not terminal any more. -/
theorem revives_exec {g : GroupId} (h : revives s cmd = some g) : terminal (exec reg cmd inp s).1 g = false := by
  cases cmd with
  | ack j g' =>
    simp only [revives] at h
    split at h
    · rename_i hc
      cases h
      simp [terminal, exec, L2.ack, hc.2, isTerminal]
    · cases h
  | enqueue req =>
    simp only [revives] at h
    split at h
    · rename_i hc
      cases h
      simp [terminal, exec, L2.enqueue, hc.2, isTerminal]
    · cases h
  | _ => cases h

/-- A terminal group stays terminal under every other call. -/
theorem terminal_exec {g : GroupId} (h : terminal s g = true) (hr : revives s cmd ≠ some g) :
    terminal (exec reg cmd inp s).1 g = true := by
  unfold terminal at h ⊢
  rcases status_cases reg cmd inp s g with hs | ⟨req, rfl, rfl, ht, -⟩ | ⟨j, rfl, hc, -⟩ | ⟨t, rfl, hs, -⟩
  · rw [hs]
    exact h
  · exact absurd (if_pos ⟨h, ht⟩) hr
  · exact absurd (if_pos ⟨h, hc⟩) hr
  · rw [hs, Option.any_some, t.source_not_terminal] at h
    cases h

theorem watched_exec (h : Watched s log) :
    Watched (exec reg cmd inp s).1 (⟨i, cmd, (exec reg cmd inp s).2⟩ :: log) ↔ attentive s log cmd = true := by
  by_cases he : enrolling cmd = true
  · cases cmd with
    | watcherAdd g =>
      refine iff_of_true (fun g' hg' => ?_) (by simp [attentive, revives])
      rw [enrolled_cons] at hg'
      rcases List.mem_append.mp hg' with hg' | hg'
      · exact .inr (Store.mem_sadd.mpr (.inr (by simpa [enrolls] using hg')))
      · rcases h g' hg' with ht | hm
        · exact .inl ht
        · exact .inr (Store.mem_sadd.mpr (.inl hm))
    | watcherRemove g =>
      rw [attentive, decide_eq_true_eq]
      constructor
      · intro hw hg
        rcases hw g (by simpa [enrolls] using hg) with ht | hm
        · exact ht
        · exact absurd rfl (Store.mem_srem.mp hm).2
      · intro hcond g' hg'
        have hold : g' ∈ enrolled log := by simpa [enrolls] using hg'
        rcases eq_or_ne g' g with rfl | hne
        · exact .inl (hcond hold)
        · rcases h g' hold with ht | hm
          · exact .inl ht
          · exact .inr (Store.mem_srem.mpr ⟨hm, hne⟩)
    | _ => cases he
  · have hset := (beside reg cmd inp s).watcher (eq_false_of_ne_true he)
    have henr : enrolls cmd = none := by
      cases cmd <;> first | rfl | exact absurd rfl he
    have hatt : attentive s log cmd = true ↔
        ∀ g ∈ revives s cmd, g ∈ enrolled log → g ∈ s.watcherActiveGroups := by
      cases cmd with
      | watcherRemove => exact absurd rfl he
      | _ => simp only [attentive, decide_eq_true_eq]
    have hlist : enrolled (⟨i, cmd, (exec reg cmd inp s).2⟩ :: log) = enrolled log := by
      rw [enrolled_cons, henr]
      rfl
    unfold Watched
    rw [hatt, hlist, hset]
    constructor
    · intro hw g hr hg
      rcases hw g hg with ht | hm
      · rw [revives_exec hr] at ht
        cases ht
      · exact hm
    · intro hcond g hg
      rcases h g hg with ht | hm
      · by_cases hr : revives s cmd = some g
        · exact .inr (hcond g hr hg)
        · exact .inl (terminal_exec ht hr)
      · exact .inr hm

theorem watched_step {c c' : State} {l : Label} (hc : Watched c.world c.log) (hs : (pipeline reg).Step c l c') :
    Watched c'.world c'.log ↔ Attentive reg c l := by
  cases hs with
  | @run i inp p cmd ok err hp hv =>
    simp only [Attentive, onCalls, nextCall_eq hp hv]
    exact watched_exec hc
  | reject | stop | spawn => exact iff_of_true hc trivial
  | @env e => cases e <;> exact iff_of_true hc trivial

/-- In every run whose calls are attentive, a group whose submission has
returned is COMPLETED, FAILED or in the watcher's set, where every later cycle
finds it; the first call that is not attentive leaves a group that is neither. -/
theorem enrolled_watched (reg : Registry) (c : State) (h : ((runs reg).restrict (Attentive reg)).Reachable c) :
    (∀ (i : Nat) sub, (Core.Program.callsOf i c.log).map Sigma.fst = Registration.Submission.script sub →
      sub.groupId ∈ enrolled c.log) ∧
    (∀ g ∈ enrolled c.log, terminal c.world g = false →
      g ∈ c.world.watcherActiveGroups ∧ ∀ inp, g ∈ (exec reg .watcherMembers inp c.world).2) ∧
    ∀ l c', (pipeline reg).Step c l c' →
      ((∀ g ∈ enrolled c'.log, terminal c'.world g = false → g ∈ c'.world.watcherActiveGroups) ↔
        Attentive reg c l) := by
  have hI : ((runs reg).restrict (Attentive reg)).Inductive fun c => Watched c.world c.log := {
    init := by
      intro c hc g hg
      rw [show c = initialState from hc] at hg
      cases hg
    step := by
      intro c l c' hc hs
      exact (watched_step hc hs.1).mpr hs.2 }
  have hc := hI.reachable c h
  have hlive : ∀ {w log}, Watched w log ↔ ∀ g ∈ enrolled log, terminal w g = false → g ∈ w.watcherActiveGroups := by
    intro w log
    unfold Watched
    refine forall₂_congr fun g _ => ?_
    cases terminal w g <;> simp
  refine ⟨fun i sub hsub => enrolled_of_script hsub, fun g hg ht => ?_, fun l c' hs => ?_⟩
  · have hm := hlive.mp hc g hg ht
    refine ⟨hm, fun inp => ?_⟩
    simp only [exec, listing]
    split
    · rename_i hp
      exact (List.isPerm_iff.mp hp).mem_iff.mpr hm
    · exact hm
  · rw [← hlive]
    exact watched_step hc hs

end

/-- The request of `oneJob`. -/
def submission : Registration.Submission := .bulk ⟨"g", "SEND_EMAIL", [⟨"j", "null"⟩], 0, .normal⟩

/-- The group of one job is submitted. -/
theorem enrolled_watched_submitted : ∃ c : State, terminal c.world "g" = false ∧
    "g" ∈ c.world.watcherActiveGroups ∧ ∀ inp, "g" ∈ (exec {} .watcherMembers inp c.world).2 := by
  obtain ⟨c, hr, hP⟩ := Core.Program.exists_of_replay (S := pipeline {})
    (P := fun c : State => decide ((Core.Program.callsOf 0 c.log).map Sigma.fst = submission.script ∧
      terminal c.world "g" = false))
    (show ((pipeline {}).replay (fun c l => decide (Attentive {} c l)) initialState oneJob).any _ = true by
      decide +kernel)
  have hr' : ((runs {}).restrict (Attentive {})).Reachable c :=
    Core.LTS.Reachable.weaken (fun _ _ h => of_decide_eq_true h) hr
  obtain ⟨hscript, ht⟩ := of_decide_eq_true hP
  obtain ⟨hreturned, hwatched, -⟩ := enrolled_watched {} c hr'
  exact ⟨c, ht, hwatched "g" (hreturned 0 submission hscript) ht⟩

/-- A watch cycle finds the group timed out and the next one drops it from the
set; then the job's worker reports. -/
def lateAck : List Label :=
  oneJob ++ [.spawn .watchCycle] ++ runsAt 2 3600002 4 ++ [.spawn .watchCycle] ++ runsAt 3 3600003 3 ++
    processed 4 3600004 ++ runsAt 4 3600004 3

/-- The late ack brings the group back to AGGREGATING, and no cycle will look at it. -/
theorem forgotten : ¬ ∀ (reg : Registry) (c : State), (runs reg).Reachable c →
    ∀ (i : Nat) sub, (Core.Program.callsOf i c.log).map Sigma.fst = Registration.Submission.script sub →
      terminal c.world sub.groupId = false → sub.groupId ∈ c.world.watcherActiveGroups := by
  intro h
  obtain ⟨c, hr, hP⟩ := Core.Program.exists_of_replay (S := pipeline {})
    (P := fun c : State => decide ((Core.Program.callsOf 0 c.log).map Sigma.fst = submission.script ∧
      (c.world.groupMeta "g").status = some .aggregating ∧ "g" ∉ c.world.watcherActiveGroups))
    (show ((pipeline {}).replay (fun _ _ => true) initialState lateAck).any _ = true by decide +kernel)
  obtain ⟨hscript, hs, hout⟩ := of_decide_eq_true hP
  refine hout (h {} c hr.unrestrict 0 submission hscript ?_)
  show (c.world.groupMeta "g").status.any isTerminal = false
  rw [hs]
  rfl

end NestPlayground.L5.Enrolment
