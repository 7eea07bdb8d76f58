import NestPlayground.L4Pipeline.Frames

/-!
# The in-flight books

The in-flight queue and the hashes `in-flight:{jobId}` are written by four
scripts. `scripts` is the system of these four alone: any of them runs at any
time with any arguments and clock reading, and everything else in the database
may change in between. `Booked` is what they keep for every job (one lemma for
each script), and every run of the pipeline is a run of `scripts`
(`scripts_of_run`), so the books are right there as well.
-/
namespace NestPlayground.L4
open L1 L3

/-- A delivery: the job, and the worker and instance it was handed to. -/
structure Handed where
  jobId : JobId
  workerId : String
  instanceId : String
  deriving DecidableEq, Repr

/-- The database and the deliveries so far, latest first. -/
structure Flight where
  store : Store
  handed : List Handed

/-- The latest delivery of `j`. -/
def latest (j : JobId) (handed : List Handed) : Option Handed := handed.find? (·.jobId = j)

/-- An execution of one of the scripts, with its arguments and the time. -/
inductive Script where
  | reliableDequeue (ackTimeoutMs : Nat) (workerId instanceId : String) (retryCount : Nat) (groupId : GroupId)
      (nowMs : Nat)
  | reliableAck (jobId : JobId)
  | extendDeadline (jobId : JobId) (extensionMs nowMs : Nat)
  | recoverOrphans (nowMs batchSize maxRetryCount : Nat)

def Script.run : Script → Flight → Flight
  | .reliableDequeue ackTimeoutMs w i n g nowMs, f =>
    let (s, reply) := L2.reliableDequeue ackTimeoutMs w i n g nowMs f.store
    ⟨s, (reply.map fun x => ⟨x.1, w, i⟩).toList ++ f.handed⟩
  | .reliableAck j, f => { f with store := (L2.reliableAck j f.store).1 }
  | .extendDeadline j extensionMs nowMs, f => { f with store := (L2.extendDeadline j extensionMs nowMs f.store).1 }
  | .recoverOrphans nowMs batchSize maxRetryCount, f =>
    { f with store := (L2.recoverOrphans nowMs batchSize maxRetryCount f.store).1 }

/-- A script, or a change of anything but the two structures. -/
inductive ScriptStep : Flight → Option Script → Flight → Prop where
  | script {sc f} : ScriptStep f (some sc) (sc.run f)
  | others {f s} (hqueue : s.inFlightQueue = f.store.inFlightQueue) (hmeta : s.inFlightMeta = f.store.inFlightMeta) :
      ScriptStep f none { f with store := s }

def scripts : Core.LTS Flight (Option Script) where
  init f := f.store.inFlightQueue = .empty ∧ (∀ j, f.store.inFlightMeta j = {}) ∧ f.handed = []
  step := ScriptStep

/-- The books on one job: no metadata unless it is in flight, and then the
deadline of the queue and the names of the latest delivery. -/
structure Booked (f : Flight) (j : JobId) : Prop where
  absent : j ∉ f.store.inFlightQueue → f.store.inFlightMeta j = {}
  present : ∀ d, f.store.inFlightQueue.score j = some d → (f.store.inFlightMeta j).deadline = some d ∧
    ∃ e, latest j f.handed = some e ∧ (f.store.inFlightMeta j).workerId = some e.workerId ∧
      (f.store.inFlightMeta j).instanceId = some e.instanceId

section
variable {f : Flight} {j : JobId}

/-- The books on a job are about its own entry, hash and deliveries. -/
theorem Booked.congr {f' : Flight} (h : Booked f j)
    (hscore : f'.store.inFlightQueue.score j = f.store.inFlightQueue.score j)
    (hmeta : f'.store.inFlightMeta j = f.store.inFlightMeta j) (hlatest : latest j f'.handed = latest j f.handed) :
    Booked f' j where
  absent hj := by
    rw [hmeta]
    exact h.absent fun hmem => hj (Core.ZSet.mem_iff_score.mpr (hscore ▸ Core.ZSet.mem_iff_score.mp hmem))
  present d hd := by
    rw [hmeta, hlatest]
    exact h.present d (hscore ▸ hd)

/-- A job taken out of flight with its hash. -/
theorem booked_removed {s : Store} {handed : List Handed} (hj : j ∉ s.inFlightQueue) (hmeta : s.inFlightMeta j = {}) :
    Booked ⟨s, handed⟩ j where
  absent _ := hmeta
  present d hd := absurd (Core.ZSet.mem_iff_score.mpr ⟨d, hd⟩) hj

theorem booked_reliableDequeue (ackTimeoutMs : Nat) (w i : String) (n : Nat) (g : GroupId) (nowMs : Nat)
    (h : Booked f j) : Booked ((Script.reliableDequeue ackTimeoutMs w i n g nowMs).run f) j := by
  simp only [Script.run, L2.reliableDequeue]
  cases hr : f.store.readyQueue with
  | nil => exact h
  | cons k rest =>
    rcases eq_or_ne j k with rfl | hne
    · refine ⟨fun hj => absurd (Core.ZSet.mem_zadd.mpr (.inl rfl)) hj, fun d hd => ?_⟩
      rw [Core.ZSet.score_zadd_self] at hd
      cases hd
      simp only [Function.update_self]
      exact ⟨trivial, ⟨j, w, i⟩, by simp [latest], rfl, rfl⟩
    · refine h.congr (Core.ZSet.score_zadd_ne _ _ hne) (Function.update_of_ne hne _ _) ?_
      simp [latest, hne.symm]

theorem booked_reliableAck (k : JobId) (h : Booked f j) : Booked ((Script.reliableAck k).run f) j := by
  simp only [Script.run, L2.reliableAck]
  rcases eq_or_ne j k with rfl | hne
  · exact booked_removed (fun hj => (Core.ZSet.mem_zrem.mp hj).2 rfl) (Function.update_self _ _ _)
  · exact h.congr (Core.ZSet.score_zrem_ne _ hne) (Function.update_of_ne hne _ _) rfl

/-- A heartbeat for a job that is not in flight writes nothing. -/
theorem booked_extendDeadline (k : JobId) (extensionMs nowMs : Nat) (h : Booked f j) :
    Booked ((Script.extendDeadline k extensionMs nowMs).run f) j := by
  simp only [Script.run, L2.extendDeadline]
  split
  · rename_i hk
    rcases eq_or_ne j k with rfl | hne
    · refine ⟨fun hj => absurd (Core.ZSet.mem_zadd.mpr (.inl rfl)) hj, fun d hd => ?_⟩
      rw [Core.ZSet.score_zadd_self] at hd
      cases hd
      obtain ⟨d₀, hd₀⟩ := Core.ZSet.mem_iff_score.mp hk
      simp only [Function.update_self]
      exact ⟨trivial, (h.present d₀ hd₀).2⟩
    · exact h.congr (Core.ZSet.score_zadd_ne _ _ hne) (Function.update_of_ne hne _ _) rfl
  · exact h

theorem booked_recoverOrphans (nowMs batchSize maxRetryCount : Nat) (h : Booked f j) :
    Booked ((Script.recoverOrphans nowMs batchSize maxRetryCount).run f) j := by
  obtain ⟨dead, jobs, he, -⟩ := L2.recoverOrphans_spec nowMs maxRetryCount batchSize f.store
  simp only [Script.run, he]
  by_cases hj : j ∈ f.store.inFlightQueue.rangeByScore nowMs batchSize
  · exact booked_removed (fun hmem => (Core.ZSet.mem_foldl_zrem.mp hmem).2 hj) (if_pos hj)
  · exact h.congr (Core.ZSet.score_foldl_zrem hj) (if_neg hj) rfl

theorem booked_step {f' : Flight} {l : Option Script} (hs : ScriptStep f l f') (h : Booked f j) : Booked f' j := by
  cases hs with
  | @script sc =>
    cases sc with
    | reliableDequeue a w i n g now => exact booked_reliableDequeue a w i n g now h
    | reliableAck k => exact booked_reliableAck k h
    | extendDeadline k ext now => exact booked_extendDeadline k ext now h
    | recoverOrphans now batch max => exact booked_recoverOrphans now batch max h
  | others hqueue hmeta => exact h.congr (by rw [hqueue]) (by rw [hmeta]) rfl

theorem booked_reachable (h : scripts.Reachable f) (j : JobId) : Booked f j := by
  induction h with
  | init hi => exact booked_removed (by rw [hi.1]; exact Core.ZSet.notMem_empty j) (hi.2.1 j)
  | step _ hs ih => exact booked_step hs ih

end

/-! ## The scripts in the pipeline -/

/-- The delivery an executed call makes. -/
def hands : (cmd : Cmd) → Reply cmd → Option Handed
  | .reliableDequeue w i _ _, some (j, _) => some ⟨j, w, i⟩
  | _, _ => none

def handedIn (log : Log) : List Handed := log.filterMap fun e => hands e.cmd e.reply

/-- The script a call executes. -/
def scriptOf (reg : Registry) (inp : Input) : Cmd → Option Script
  | .reliableDequeue w i n g => some (.reliableDequeue reg.config.reliableQueue.ackTimeoutMs w i n g inp.now)
  | .reliableAck j => some (.reliableAck j)
  | .extendDeadline j => some (.extendDeadline j reg.config.reliableQueue.ackTimeoutMs inp.now)
  | .recoverOrphans =>
    some (.recoverOrphans inp.now reg.config.reliableQueue.orphanRecoveryBatchSize
      reg.config.reliableQueue.maxRetryCount)
  | _ => none

/-- One call is one step of the scripts. -/
theorem script_of_call (reg : Registry) (i : Nat) (cmd : Cmd) (inp : Input) (s : Store) (log : Log) :
    ScriptStep ⟨s, handedIn log⟩ (scriptOf reg inp cmd)
      ⟨(exec reg cmd inp s).1, handedIn (⟨i, cmd, (exec reg cmd inp s).2⟩ :: log)⟩ := by
  by_cases hf : flights cmd = true
  · cases cmd with
    | reliableDequeue w k n g =>
      have hrun : (Script.reliableDequeue reg.config.reliableQueue.ackTimeoutMs w k n g inp.now).run
          ⟨s, handedIn log⟩ = ⟨(exec reg (.reliableDequeue w k n g) inp s).1,
            handedIn (⟨i, .reliableDequeue w k n g, (exec reg (.reliableDequeue w k n g) inp s).2⟩ :: log)⟩ := by
        simp only [Script.run, exec, handedIn, L2.reliableDequeue]
        cases s.readyQueue <;> rfl
      exact hrun ▸ .script
    | reliableAck k => exact .script
    | extendDeadline k => exact .script
    | recoverOrphans => exact .script
    | _ => cases hf
  · have hframe := @flight_frame reg cmd inp s (eq_false_of_ne_true hf)
    have hnone : handedIn (⟨i, cmd, (exec reg cmd inp s).2⟩ :: log) = handedIn log := by
      cases cmd <;> first | rfl | exact absurd rfl hf
    have hother : scriptOf reg inp cmd = none := by
      cases cmd <;> first | rfl | exact absurd rfl hf
    rw [hnone, hother]
    exact .others hframe.1 hframe.2

/-- Every run of the pipeline is a run of the scripts. -/
theorem scripts_of_run {reg : Registry} {c : State} (h : (runs reg).Reachable c) :
    scripts.Reachable ⟨c.world, handedIn c.log⟩ := by
  induction h with
  | init hc =>
    cases hc
    exact .init ⟨rfl, fun _ => rfl, rfl⟩
  | @step c l c' _ hs ih =>
    cases hs with
    | @run i inp p cmd ok err => exact .step ih (script_of_call reg i cmd inp c.world c.log)
    | @env e => cases e <;> exact .step ih (.others rfl rfl)
    | reject | stop | spawn => exact ih

/-- The in-flight books of the pipeline are right. -/
theorem booked {reg : Registry} {c : State} (h : (runs reg).Reachable c) (j : JobId) :
    Booked ⟨c.world, handedIn c.log⟩ j :=
  booked_reachable (scripts_of_run h) j

end NestPlayground.L4
