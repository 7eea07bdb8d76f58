import NestPlayground.L4Pipeline.RetryCounts

/-!
# The holder of a job

A delivery hands a job to an activity. That activity holds the job until it acks
or nacks it or recovery takes it back, whatever the in-flight queue says: a late
ack of somebody else takes the entry out of the queue and leaves the holder. In
`fence_step` a job is in one place: it waits, an activity has it in hand to
queue or to bury it, somebody holds it, or it was dead-lettered.
-/
namespace NestPlayground.L5.Holders
open L1 L3 L4

/-- Recovery takes `j` out of flight. -/
def Expires (reg : Registry) (j : JobId) (k : Call) : Prop :=
  k.cmd = .recoverOrphans ∧
    j ∈ k.world.inFlightQueue.rangeByScore k.inp.now reg.config.reliableQueue.orphanRecoveryBatchSize

instance (reg : Registry) (j : JobId) (k : Call) : Decidable (Expires reg j k) := inferInstanceAs (Decidable (_ ∧ _))

/-- The job the call handed to its caller. -/
def handed (reg : Registry) (k : Call) : Option JobId := delivers k.cmd (exec reg k.cmd k.inp k.world).2

/-- Recovery has taken `j` back since it was handed to activity `i`. -/
def lost (reg : Registry) (j : JobId) (i : Nat) : List Call → Bool
  | [] => false
  | k :: ks => if Expires reg j k then true else if k.pid = i ∧ handed reg k = some j then false else lost reg j i ks

/-- The activity `j` was last handed to, until it gives the job back or recovery
takes it. -/
def holder (reg : Registry) (j : JobId) : List Call → Option Nat
  | [] => none
  | k :: ks =>
    if Expires reg j k then none
    else if handed reg k = some j then some k.pid
    else if returns k.cmd = some j ∧ holder reg j ks = some k.pid then none
    else holder reg j ks

/-- The jobs a call puts into the dead-letter queue. -/
def letters : (cmd : Cmd) → Reply cmd → List JobId
  | .deadLetter j _ _ _, _ => [j]
  | .recoverOrphans, r => r.pairs.map Prod.fst
  | _, _ => []

def deadLettered (log : Log) : List JobId := log.flatMap fun e => letters e.cmd e.reply

/-! ## Who holds a job -/

section
variable {reg : Registry} {j : JobId} {k : Call} {ks : List Call} {m : Nat}

theorem holder_expired (h : Expires reg j k) : holder reg j (k :: ks) = none := if_pos h

theorem holder_handed (he : ¬ Expires reg j k) (h : handed reg k = some j) : holder reg j (k :: ks) = some k.pid := by
  rw [holder, if_neg he, if_pos h]

theorem holder_returned (he : ¬ Expires reg j k) (hh : handed reg k ≠ some j) (hr : returns k.cmd = some j)
    (hk : holder reg j ks = some k.pid) : holder reg j (k :: ks) = none := by
  rw [holder, if_neg he, if_neg hh, if_pos ⟨hr, hk⟩]

/-- Somebody else's call takes nothing from the holder unless recovery does. -/
theorem holder_same (he : ¬ Expires reg j k) (hh : handed reg k ≠ some j)
    (hr : returns k.cmd = some j → holder reg j ks ≠ some k.pid) : holder reg j (k :: ks) = holder reg j ks := by
  rw [holder, if_neg he, if_neg hh, if_neg fun h => hr h.1 h.2]

/-- Who holds the job after somebody else's call held it before. -/
theorem holder_of_other (h : holder reg j (k :: ks) = some m) (hm : m ≠ k.pid) :
    ¬ Expires reg j k ∧ holder reg j ks = some m := by
  unfold holder at h
  split at h
  · cases h
  · rename_i he
    refine ⟨he, ?_⟩
    split at h
    · cases h
      exact absurd rfl hm
    · split at h
      · cases h
      · exact h

theorem lost_same (he : ¬ Expires reg j k) (hh : ¬ (k.pid = m ∧ handed reg k = some j)) :
    lost reg j m (k :: ks) = lost reg j m ks := by
  rw [lost, if_neg he, if_neg hh]

/-- A delivery stays its worker's through the calls of others, or is lost. -/
theorem held_or_lost (h : holder reg j ks = some m ∨ lost reg j m ks = true) (hm : m ≠ k.pid)
    (hone : handed reg k = some j → holder reg j ks = none) :
    holder reg j (k :: ks) = some m ∨ lost reg j m (k :: ks) = true := by
  by_cases he : Expires reg j k
  · right
    rw [lost, if_pos he]
  · rcases h with h | h
    · left
      rw [holder_same he (fun hh => ?_) (fun _ hk => ?_), h]
      · rw [hone hh] at h
        cases h
      · rw [h] at hk
        exact hm (Option.some.inj hk)
    · right
      rw [lost_same he fun hh => hm hh.1.symm, h]

/-- Whether somebody holds `j`. -/
def held (reg : Registry) (j : JobId) (ks : List Call) : Nat := if (holder reg j ks).isSome then 1 else 0

theorem held_le_one : held reg j ks ≤ 1 := by
  unfold held
  split <;> omega

theorem held_of_holder (h : (holder reg j ks).isSome) : held reg j ks = 1 := if_pos h

theorem held_of_none (h : holder reg j ks = none) : held reg j ks = 0 := by
  simp [held, h]

/-- The calls by which a job comes to a holder or leaves it. -/
def transfers : Cmd → Bool
  | .reliableDequeue _ _ _ _ | .reliableAck _ | .recoverOrphans => true
  | _ => false

theorem stays_of_not_transfers (h : transfers k.cmd = false) :
    ¬ Expires reg j k ∧ handed reg k ≠ some j ∧ returns k.cmd ≠ some j := by
  obtain ⟨i, cmd, inp, w⟩ := k
  refine ⟨fun he => ?_, fun hh => ?_, fun hr => ?_⟩
  · cases he.1
    cases h
  · cases cmd with
    | reliableDequeue w n count g => cases h
    | _ => cases hh
  · cases cmd with
    | reliableAck k => cases h
    | _ => cases hr

theorem held_same (h : transfers k.cmd = false) : held reg j (k :: ks) = held reg j ks := by
  obtain ⟨he, hh, hr⟩ := @stays_of_not_transfers reg j k h
  rw [held, holder_same he hh fun h => absurd h hr]
  rfl

theorem transfers_of_idle {cmd : Cmd} (h : carries cmd = false) : transfers cmd = false := by
  cases cmd <;> first | rfl | cases h

end

/-! ## A job is in one place -/

section
variable {reg : Registry} {E : List (JobId × GroupId)} {cmd : Cmd} {r : Reply cmd} {inp : Input} {s : Store}
  {ds ds' : List Duty} {j : JobId} {i : Nat} {ks : List Call}

/-- A delivery makes its worker the holder. -/
theorem held_delivered {w n : String} {count : Nat} {g : GroupId} :
    held reg j (⟨i, .reliableDequeue w n count g, inp, s⟩ :: ks) ≤ held reg j ks +
      (delivers (.reliableDequeue w n count g) (exec reg (.reliableDequeue w n count g) inp s).2).toList.count j := by
  have he : ¬ Expires reg j ⟨i, .reliableDequeue w n count g, inp, s⟩ := fun h => by cases h.1
  by_cases hh : delivers (.reliableDequeue w n count g) (exec reg (.reliableDequeue w n count g) inp s).2 = some j
  · rw [hh]
    have := @held_le_one reg j (⟨i, .reliableDequeue w n count g, inp, s⟩ :: ks)
    simp only [Option.toList_some, List.count_singleton_self]
    omega
  · have hsame := @holder_same reg j ⟨i, .reliableDequeue w n count g, inp, s⟩ ks he hh (fun h => by cases h)
    simp only [held, hsame]
    exact Nat.le_add_right _ _

/-- An ack or a nack does not make anybody a holder. -/
theorem held_returned_le {k : JobId} : held reg j (⟨i, .reliableAck k, inp, s⟩ :: ks) ≤ held reg j ks := by
  have he : ¬ Expires reg j ⟨i, .reliableAck k, inp, s⟩ := fun h => by cases h.1
  have hh : handed reg ⟨i, .reliableAck k, inp, s⟩ ≠ some j := fun h => by cases h
  by_cases hr : k = j ∧ holder reg j ks = some i
  · rw [held_of_none (holder_returned he hh (by rw [hr.1]; rfl) hr.2)]
    exact Nat.zero_le _
  · have hsame := @holder_same reg j ⟨i, .reliableAck k, inp, s⟩ ks he hh
      fun h hk => hr ⟨Option.some.inj h, hk⟩
    simp only [held, hsame]
    exact le_refl _

/-- The holder's own gives the job back. -/
theorem held_returned (hi : holder reg j ks = some i) :
    held reg j (⟨i, .reliableAck j, inp, s⟩ :: ks) + 1 = held reg j ks := by
  have he : ¬ Expires reg j ⟨i, .reliableAck j, inp, s⟩ := fun h => by cases h.1
  have hh : handed reg ⟨i, .reliableAck j, inp, s⟩ ≠ some j := fun h => by cases h
  rw [held_of_none (holder_returned he hh rfl hi), held_of_holder (by rw [hi]; rfl)]

/-- A nack of the holder's moves the job into its hands. -/
theorem held_nacked {k : JobId} (hi : k = j → holder reg j ks = some i) :
    held reg j (⟨i, .reliableAck k, inp, s⟩ :: ks) + (if k = j then 1 else 0) ≤ held reg j ks := by
  split
  · rename_i hk
    subst hk
    exact le_of_eq (held_returned (hi rfl))
  · exact held_returned_le

/-- Recovery takes the orphans from their holders, puts them back or dead-letters them. -/
theorem fence_recovered (hexp : Expires reg j ⟨i, .recoverOrphans, inp, s⟩ → (holder reg j ks).isSome) :
    (raised reg inp s .recoverOrphans).count j + held reg j (⟨i, .recoverOrphans, inp, s⟩ :: ks) +
      (letters .recoverOrphans (exec reg .recoverOrphans inp s).2).count j ≤ held reg j ks := by
  obtain ⟨dead, jobs, -, hp, -⟩ := L2.recoverOrphans_spec inp.now reg.config.reliableQueue.maxRetryCount
    reg.config.reliableQueue.orphanRecoveryBatchSize s
  have hsplit := L2.count_orphans reg.config.reliableQueue.maxRetryCount s
    (s.inFlightQueue.rangeByScore inp.now reg.config.reliableQueue.orphanRecoveryBatchSize) j
  have hone := List.nodup_iff_count_le_one.mp (Core.ZSet.nodup_rangeByScore s.inFlightQueue inp.now
    reg.config.reliableQueue.orphanRecoveryBatchSize) j
  have hletters : (letters .recoverOrphans (exec reg .recoverOrphans inp s).2).count j =
      (L2.deadLettered reg.config.reliableQueue.maxRetryCount s
        (s.inFlightQueue.rangeByScore inp.now reg.config.reliableQueue.orphanRecoveryBatchSize)).countP (·.1 = j) := by
    simp only [letters, exec, hp, List.count, List.countP_map]
    exact List.countP_congr fun x _ => by simp
  rw [hletters]
  simp only [raised]
  by_cases he : Expires reg j ⟨i, .recoverOrphans, inp, s⟩
  · rw [held_of_none (holder_expired he), held_of_holder (hexp he)]
    omega
  · have hnone := List.count_eq_zero.mpr fun hm => he ⟨rfl, hm⟩
    have hsame := @holder_same reg j ⟨i, .recoverOrphans, inp, s⟩ ks he (fun h => by cases h) (fun h => by cases h)
    simp only at hnone
    simp only [held, hsame]
    omega

theorem live_pairDuties (pairs : List (JobId × GroupId)) (j : JobId) :
    (pairDuties pairs).countP (Duty.live j) = 0 := by
  rw [pairDuties, List.countP_map]
  simp [Function.comp_def, Duty.live]

theorem letters_idle (h : carries cmd = false) : letters cmd r = [] := by
  cases cmd <;> first | rfl | cases h

/-- The balance of one call. -/
theorem fence_step (hm : Moves reg E cmd r ds ds') (hr : (exec reg cmd inp s).2 = r) (hretry : retries cmd = none)
    (hexp : Expires reg j ⟨i, cmd, inp, s⟩ → (holder reg j ks).isSome)
    (hnack : returns cmd = some j → 0 < ds'.countP (Duty.live j) → holder reg j ks = some i) :
    waiting j (exec reg cmd inp s).1 + held reg j (⟨i, cmd, inp, s⟩ :: ks) + ds'.countP (Duty.live j) +
        (letters cmd r).count j ≤
      waiting j s + held reg j ks + ds.countP (Duty.live j) + (fetches cmd r).toList.countP (·.1 = j) := by
  cases hm with
  | idle h =>
    rw [waiting_idle h hretry, letters_idle h, held_same (transfers_of_idle h)]
    simp
  | abandoned h =>
    rw [waiting_idle h hretry, letters_idle h, held_same (transfers_of_idle h)]
    simp
    omega
  | nothing =>
    rw [waiting_dequeue, held_same rfl]
    simp [letters]
  | fetched h =>
    rw [waiting_dequeue, held_same rfl]
    simp [letters, fetches, Duty.live, h, List.countP_cons]
  | refused h =>
    rw [waiting_idle rfl hretry, held_same rfl]
    simp [letters]
    omega
  | @pushed k b =>
    have := @waiting_push_le reg inp s j k
    rw [held_same rfl]
    simp [letters, Duty.live, List.countP_cons]
    omega
  | @backedOff k g r | @parked k g r =>
    have : waiting j (exec reg (.congestionBackoff k g) inp s).1 ≤ waiting j s + if k = j then 1 else 0 := by
      refine waiting_park_le ?_ ⟨_, rfl⟩ j
      rfl
    rw [held_same rfl]
    simp [letters, Duty.live, List.countP_cons]
    omega
  | @backedOffFixed k | @parkedFixed k =>
    have : waiting j (exec reg (.nonReadyAdd k) inp s).1 ≤ waiting j s + if k = j then 1 else 0 := by
      refine waiting_park_le ?_ ⟨_, rfl⟩ j
      rfl
    rw [held_same rfl]
    simp [letters, Duty.live, List.countP_cons]
    omega
  | @idling w n count g | @delivered w n count g _ _ =>
    have hwait := @waiting_reliableDequeue reg inp s w n count g j
    have hheld := @held_delivered reg inp s j i ks w n count g
    simp [letters, Duty.live]
    omega
  | cleaned =>
    have := @held_returned_le reg inp s j i ks ""
    show waiting j s + _ + _ + _ ≤ _
    simp [letters, Duty.live]
    omega
  | @acked k g b h =>
    have := @held_returned_le reg inp s j i ks k
    show waiting j s + _ + _ + _ ≤ _
    simp [letters, Duty.live]
    omega
  | @nacked k b | @nackedOut k g b h =>
    have := @held_nacked reg inp s j i ks k fun hk => hnack (by rw [hk]; rfl) (by simp [Duty.live, hk])
    show waiting j s + _ + _ + _ ≤ _
    simp [letters, Duty.live, List.countP_cons]
    omega
  | @recovered r =>
    have hwait := @waiting_recoverOrphans reg inp s j
    have hheld := fence_recovered hexp
    rw [hr] at hheld
    rw [live_pairDuties]
    simp [fetches]
    omega
  | @buried k g n e =>
    rw [held_same rfl]
    show waiting j s + _ + _ + _ ≤ _
    simp [letters, Duty.live, List.countP_cons, List.count_cons]
  | reported | recorded | settled =>
    rw [held_same rfl]
    show waiting j s + _ + _ + _ ≤ _
    simp [letters, Duty.live]

end

end NestPlayground.L5.Holders
