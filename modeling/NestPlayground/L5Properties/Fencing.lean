import NestPlayground.L4Pipeline.InFlight
import NestPlayground.L4Pipeline.Tokens

/-!
# Fencing of recovered deliveries

A delivery is one `reliable-dequeue.lua` that handed a job to a tick. Its
worker acks, nacks and extends it by the job's id alone, so after recovery and
another dequeue the calls of the old worker act on the new delivery
(`ack_of_another_delivery`): `reliable-ack.lua` takes it out of flight and
reports success. Unlike `release-lock.lua`, neither script compares an owner.
A call of an old worker does nothing exactly when the job is not in flight.
-/
namespace NestPlayground.L5.Fencing
open L1 L3 L4

/-- The activity with the latest delivery of `j`. -/
def lastDelivery (j : JobId) (log : Log) : Option Nat :=
  ((delivered log).find? (·.1 = j)).map Prod.snd

/-- The job an ack, nack or extension is for. -/
def touched : Cmd → Option JobId
  | .reliableAck j => some j
  | .extendDeadline j => some j
  | _ => none

/-- Whether an ack, nack or extension reports success. -/
def reports : (cmd : Cmd) → Reply cmd → Option Bool
  | .reliableAck _, b => some b
  | .extendDeadline _, b => some b
  | _, _ => none

def recovers : Cmd → Bool
  | .recoverOrphans => true
  | _ => false

/-- Acks, nacks and extensions by an old worker find the job not in flight. -/
def Fenced (reg : Registry) : State → Label → Prop :=
  onCalls reg fun c i cmd _ => ∀ j ∈ touched cmd, lastDelivery j c.log ≠ some i → j ∉ c.world.inFlightQueue

/-- The step ends no delivery of `j` to `i`: it is not `i`'s own ack or nack, no
recovery after the deadline, and no other delivery of `j`. -/
def Continues (reg : Registry) (j : JobId) (i : Nat) : State → Label → Prop :=
  onCalls reg fun c k cmd inp => (k = i → returns cmd ≠ some j) ∧
    (recovers cmd = true → ∀ d ∈ c.world.inFlightQueue.score j, inp.now < d) ∧
    delivers cmd (exec reg cmd inp c.world).2 ≠ some j

instance (reg : Registry) (c : State) (l : Label) : Decidable (Fenced reg c l) :=
  instDecidableOnCalls reg
    (fun c i cmd _ => ∀ j ∈ touched cmd, lastDelivery j c.log ≠ some i → j ∉ c.world.inFlightQueue) c l

/-- The in-flight entry and metadata of `j` are the same. -/
def SameEntry (j : JobId) (w w' : Store) : Prop :=
  w'.inFlightQueue.score j = w.inFlightQueue.score j ∧ w'.inFlightMeta j = w.inFlightMeta j

/-- `j` is in flight under the metadata `m`, with whatever deadline. -/
def Recoverable (j : JobId) (m : InFlightMeta) (w : Store) : Prop :=
  ∃ d, w.inFlightQueue.score j = some d ∧ w.inFlightMeta j = { m with deadline := some d }

section
variable {reg : Registry} {cmd : Cmd} {inp : Input} {s : Store} {log : Log} {i : Nat} {j : JobId}

/-- Metadata is kept for jobs in flight only. -/
def Kept (w : Store) : Prop := ∀ j, w.inFlightMeta j ≠ {} → j ∈ w.inFlightQueue

/-- A delivery stays in flight under its metadata through every call that does
not end it. -/
theorem Recoverable.exec {m : InFlightMeta} (h : Recoverable j m s) (hret : returns cmd ≠ some j)
    (hrec : recovers cmd = true → ∀ d ∈ s.inFlightQueue.score j, inp.now < d)
    (hdel : delivers cmd (exec reg cmd inp s).2 ≠ some j) : Recoverable j m (exec reg cmd inp s).1 := by
  obtain ⟨d, hd, hmeta⟩ := h
  by_cases hf : flights cmd = true
  · cases cmd with
    | reliableDequeue w k n g =>
      simp only [L3.exec, L2.reliableDequeue] at hdel ⊢
      split
      · exact ⟨d, hd, hmeta⟩
      · rename_i j' rest hr
        rw [hr] at hdel
        have hne : j ≠ j' := fun he => hdel (by rw [he]; rfl)
        exact ⟨d, (Core.ZSet.score_zadd_ne _ _ hne).trans hd, by simp only [Function.update_of_ne hne, hmeta]⟩
    | reliableAck k =>
      have hne : j ≠ k := fun he => hret (by rw [he]; rfl)
      refine ⟨d, ?_, ?_⟩
      · simp only [L3.exec, L2.reliableAck]
        exact (Core.ZSet.score_zrem_ne _ hne).trans hd
      · simp only [L3.exec, L2.reliableAck, Function.update_of_ne hne, hmeta]
    | extendDeadline k =>
      simp only [L3.exec, L2.extendDeadline]
      split
      · rcases eq_or_ne j k with rfl | hne
        · exact ⟨_, Core.ZSet.score_zadd_self _ _ _, by simp only [Function.update_self, hmeta]⟩
        · exact ⟨d, (Core.ZSet.score_zadd_ne _ _ hne).trans hd, by simp only [Function.update_of_ne hne, hmeta]⟩
      · exact ⟨d, hd, hmeta⟩
    | recoverOrphans =>
      obtain ⟨dead, jobs, he, -⟩ := L2.recoverOrphans_spec inp.now
        reg.config.reliableQueue.maxRetryCount reg.config.reliableQueue.orphanRecoveryBatchSize s
      have hn : j ∉ s.inFlightQueue.rangeByScore inp.now reg.config.reliableQueue.orphanRecoveryBatchSize := by
        intro hj
        obtain ⟨d', hd', hle⟩ := Core.ZSet.score_le_of_mem_rangeByScore hj
        have := hrec rfl d' hd'
        omega
      simp only [L3.exec, he]
      refine ⟨d, (Core.ZSet.score_foldl_zrem hn).trans hd, ?_⟩
      simp only [if_neg hn, hmeta]
    | _ => cases hf
  · obtain ⟨hqueue, hsame⟩ := @flight_frame reg cmd inp s (eq_false_of_ne_true hf)
    unfold Recoverable
    rw [hqueue, hsame]
    exact ⟨d, hd, hmeta⟩

/-- An ack, nack or extension does nothing exactly when its job is not in flight. -/
theorem misses_iff (hk : Kept s) (hj : touched cmd = some j) :
    (SameEntry j s (exec reg cmd inp s).1 ∧ reports cmd (exec reg cmd inp s).2 = some false) ↔
      j ∉ s.inFlightQueue := by
  cases cmd with
  | reliableAck k =>
    cases hj
    constructor
    · rintro ⟨-, hr⟩ hmem
      simp [exec, L2.reliableAck, reports, hmem] at hr
    · intro hmem
      have hmeta : s.inFlightMeta j = {} := by
        by_contra hne
        exact hmem (hk j hne)
      refine ⟨⟨?_, ?_⟩, ?_⟩
      · simp only [exec, L2.reliableAck, Core.ZSet.zrem_of_notMem hmem]
      · simp only [exec, L2.reliableAck, Function.update_self, hmeta]
      · simp [exec, L2.reliableAck, reports, hmem]
  | extendDeadline k =>
    cases hj
    constructor
    · rintro ⟨-, hr⟩ hmem
      simp [exec, L2.extendDeadline, reports, hmem] at hr
    · intro hmem
      simp only [exec, L2.extendDeadline, if_neg hmem]
      exact ⟨⟨rfl, rfl⟩, rfl⟩
  | _ => cases hj

theorem lastDelivery_cons {r : Reply cmd} (h : delivers cmd r ≠ some j) :
    lastDelivery j (⟨i, cmd, r⟩ :: log) = lastDelivery j log := by
  unfold lastDelivery
  rw [delivered_cons]
  cases hd : delivers cmd r with
  | none => rfl
  | some k =>
    have hne : ¬ k = j := fun he => h (he ▸ hd)
    simp [hne]

/-- A new delivery is in flight under its own metadata. -/
theorem recoverable_delivered (h : delivers cmd (exec reg cmd inp s).2 = some j) :
    Recoverable j ((exec reg cmd inp s).1.inFlightMeta j) (exec reg cmd inp s).1 := by
  cases cmd with
  | reliableDequeue w k n g =>
    simp only [exec, L2.reliableDequeue] at h ⊢
    split at h
    · cases h
    · cases h
      exact ⟨_, Core.ZSet.score_zadd_self _ _ _, by simp only [Function.update_self]⟩
  | _ => cases h

theorem kept_reachable {c : State} (h : (runs reg).Reachable c) : Kept c.world := by
  intro j hj
  by_contra hn
  exact hj ((booked h j).absent hn)

/-- One step that does not end the delivery of `j` to `i`. -/
theorem recoverable_step {c c' : State} {l : Label} {m : InFlightMeta}
    (h : Recoverable j m c.world ∧ lastDelivery j c.log = some i) (hs : (pipeline reg).Step c l c')
    (hf : Fenced reg c l) (hc : Continues reg j i c l) :
    Recoverable j m c'.world ∧ lastDelivery j c'.log = some i := by
  obtain ⟨hrec, hlast⟩ := h
  cases hs with
  | @run k inp p cmd ok err hp hv =>
    obtain ⟨hown, hexpiry, hdel⟩ := onCalls_run hc hp hv
    have hret : returns cmd ≠ some j := by
      by_cases hk : k = i
      · exact hown hk
      · -- somebody else's ack would have found the job in flight
        intro hret
        have htouch : touched cmd = some j := by
          cases cmd <;> first | exact hret | cases hret
        obtain ⟨d, hd, -⟩ := hrec
        refine onCalls_run hf hp hv j htouch ?_ (Core.ZSet.mem_iff_score.mpr ⟨d, hd⟩)
        rw [hlast]
        exact fun he => hk (Option.some.inj he).symm
    exact ⟨hrec.exec hret hexpiry hdel, (lastDelivery_cons hdel).trans hlast⟩
  | @env ev => cases ev <;> exact ⟨hrec, hlast⟩
  | reject | stop | spawn => exact ⟨hrec, hlast⟩

/-- In every reachable state and for every next call: an ack, nack or extension
by a worker that does not have the latest delivery leaves entry and metadata
alone and reports failure exactly when the job is not in flight; and a delivery
stays in flight under its metadata through all steps in which old workers'
calls find their job not in flight, up to its own worker's ack or nack, a
recovery after its deadline, or another delivery. -/
theorem recovered_delivery_fenced (c c₁ : State) (l : Label) (h : (runs reg).Reachable c)
    (hs : (pipeline reg).Step c l c₁) : ∀ e, c₁.log = e :: c.log →
    (∀ j ∈ touched e.cmd, lastDelivery j c.log ≠ some e.pid →
      ((SameEntry j c.world c₁.world ∧ reports e.cmd e.reply = some false) ↔ j ∉ c.world.inFlightQueue)) ∧
    ∀ j ∈ delivers e.cmd e.reply, ∀ c₂,
      ((runs reg).restrict fun c l => Fenced reg c l ∧ Continues reg j e.pid c l).Steps c₁ c₂ →
      Recoverable j (c₁.world.inFlightMeta j) c₂.world := by
  intro e he
  cases hs with
  | @run i inp p cmd ok err hp hv =>
    obtain ⟨rfl, -⟩ := List.cons.inj he
    refine ⟨fun j hj _ => misses_iff (kept_reachable h) hj, fun j hj c₂ hc₂ => ?_⟩
    let m := ((pipeline reg).ran c i cmd inp ok).world.inFlightMeta j
    have hkeep : ∀ c l c', Recoverable j m c.world ∧ lastDelivery j c.log = some i →
        ((runs reg).restrict fun c l => Fenced reg c l ∧ Continues reg j i c l).step c l c' →
        Recoverable j m c'.world ∧ lastDelivery j c'.log = some i :=
      fun c l c' h hs => recoverable_step h hs.1 hs.2.1 hs.2.2
    refine (hc₂.preserves hkeep ⟨recoverable_delivered hj, ?_⟩).1
    have hj : delivers cmd (exec reg cmd inp c.world).2 = some j := hj
    simp [Core.Program.ran, pipeline, lastDelivery, hj]
  | reject | stop | spawn | env => simp at he

end

/-- Worker 2 takes the job of `oneJob`; recovery puts it back after the deadline
and worker 4 takes it. -/
def takenOver : List Label :=
  oneJob ++ processed 2 3 ++ [.spawn .recoverOnce] ++ runsAt 3 50003 1 ++
    [.spawn (.tick "worker-1" "i")] ++ runsAt 4 50004 5

/-- The old worker's ack, after the new one's. -/
theorem recovered_delivery_fenced_late_ack : ∃ c c₁, (pipeline {}).Step c (runAt 2 50006) c₁ ∧
    lastDelivery "j" c.log = some 4 ∧ SameEntry "j" c.world c₁.world ∧
      ∃ e ∈ c₁.log, reports e.cmd e.reply = some false := by
  obtain ⟨c, c₁, hr, hs, hP⟩ := Core.Program.exists_step_of_replay (S := pipeline {}) (l := runAt 2 50006)
    (P := fun c c₁ : State => decide (lastDelivery "j" c.log = some 4 ∧ "j" ∉ c.world.inFlightQueue ∧
      ∃ e ∈ c₁.log.head?, e.pid = 2 ∧ touched e.cmd = some "j"))
    (show ((pipeline {}).replay (fun _ _ => true) initialState
      (takenOver ++ runsAt 4 50005 2 ++
        [.run 4 { now := 50005, outcome := some (.returned ⟨"j", "g", true, none, none, 0, none⟩) }] ++
        runsAt 4 50005 2)).any _ = true by decide +kernel)
  obtain ⟨hlast, hnot, e, he, hpid, htouch⟩ := of_decide_eq_true hP
  have hother : lastDelivery "j" c.log ≠ some e.pid := by
    rw [hlast, hpid]
    decide
  have hlog := Core.Program.log_of_run hs he
  obtain ⟨hsame, hrep⟩ :=
    ((recovered_delivery_fenced c c₁ _ hr.unrestrict hs e hlog).1 "j" htouch hother).mpr hnot
  exact ⟨c, c₁, hs, hlast, hsame, e, List.mem_of_mem_head? he, hrep⟩

/-- Worker 2's ack takes worker 4's delivery out of flight and reports success. -/
theorem ack_of_another_delivery :
    ¬ ∀ (reg : Registry) (c c₁ : State) (l : Label), (runs reg).Reachable c → (pipeline reg).Step c l c₁ →
      ∀ e, c₁.log = e :: c.log → ∀ j ∈ touched e.cmd, (j, e.pid) ∈ delivered c.log →
        (∃ r ∈ c.log, recovers r.cmd = true) → lastDelivery j c.log ≠ some e.pid →
        SameEntry j c.world c₁.world ∧ reports e.cmd e.reply = some false := by
  intro h
  obtain ⟨c, c₁, hr, hs, hP⟩ := Core.Program.exists_step_of_replay (S := pipeline {}) (l := runAt 2 50006)
    (P := fun c c₁ : State => decide (lastDelivery "j" c.log = some 4 ∧ ("j", 2) ∈ delivered c.log ∧
      (∃ r ∈ c.log, recovers r.cmd = true) ∧
      ∃ e ∈ c₁.log.head?, e.pid = 2 ∧ touched e.cmd = some "j" ∧ reports e.cmd e.reply = some true))
    (show ((pipeline {}).replay (fun _ _ => true) initialState takenOver).any _ = true by decide +kernel)
  obtain ⟨hlast, hdel, hrec, e, he, hpid, htouch, hrep⟩ := of_decide_eq_true hP
  have hother : lastDelivery "j" c.log ≠ some e.pid := by
    rw [hlast, hpid]
    decide
  have hmiss := (h {} c c₁ _ hr.unrestrict hs e (Core.Program.log_of_run hs he) "j" htouch (hpid ▸ hdel) hrec hother).2
  rw [hrep] at hmiss
  cases hmiss

end NestPlayground.L5.Fencing
