import NestPlayground.L4Pipeline.Charges

/-!
# In time

While orphan recovery finds no expired deadline, a job leaves the in-flight
queue only by the ack or nack of the worker that took it. Then no ack is late
(`punctual_of_unexpired`): who works on a job has it in flight, and as a job is
one token, nobody else works on it.
-/
namespace NestPlayground.L4
open L1 L3

/-- The orphans a call finds. -/
def expired (reg : Registry) (inp : Input) (w : Store) : Cmd → List JobId
  | .recoverOrphans => w.inFlightQueue.rangeByScore inp.now reg.config.reliableQueue.orphanRecoveryBatchSize
  | _ => []

/-- Orphan recovery finds no orphan. -/
def Unexpired (reg : Registry) : State → Label → Prop :=
  onCalls reg fun c _ cmd inp => expired reg inp c.world cmd = []

instance (reg : Registry) (c : State) (l : Label) : Decidable (Unexpired reg c l) :=
  instDecidableOnCalls reg (fun c _ cmd inp => expired reg inp c.world cmd = []) c l

/-- The duty to work on `j`. -/
def Duty.works (j : JobId) : Duty → Bool
  | .work j' => j' = j
  | _ => false

section
variable {reg : Registry} {E : List (JobId × GroupId)} {H : State → Label → Prop} {cmd : Cmd} {r : Reply cmd}
  {inp : Input} {s : Store} {ds ds' : List Duty} {j : JobId}

/-- Without orphans nobody is dead-lettered by recovery. -/
theorem ownGroup_of_unexpired {c : State} {l : Label} (h : Unexpired reg c l) : OwnGroup reg c l := by
  cases l with
  | run i inp =>
    simp only [Unexpired, OwnGroup, onCalls] at h ⊢
    split
    · rename_i cmd hc
      rw [hc] at h
      cases cmd with
      | recoverOrphans =>
        simp only [expired] at h
        simp [deadLetters, h, L2.deadLettered]
      | _ => exact fun x hx => (by cases hx)
    · trivial
  | _ => trivial

/-- The calls that put a job into the in-flight queue or take it out. -/
def flies : Cmd → Bool
  | .reliableDequeue _ _ _ _ | .reliableAck _ => true
  | _ => false

theorem inFlight_frame (hf : flies cmd = false) (hx : expired reg inp s cmd = []) (j : JobId) :
    (exec reg cmd inp s).1.inFlightQueue.members.count j = s.inFlightQueue.members.count j := by
  cases cmd with
  | reliableDequeue | reliableAck => cases hf
  | recoverOrphans =>
    obtain ⟨dead, jobs, he, -⟩ := L2.recoverOrphans_spec inp.now reg.config.reliableQueue.maxRetryCount
      reg.config.reliableQueue.orphanRecoveryBatchSize s
    simp only [expired] at hx
    simp only [exec, he, hx, List.foldl_nil]
  | extendDeadline k =>
    simp only [exec, L2.extendDeadline]
    split
    · rename_i hk
      simp only [Core.ZSet.count_zadd]
      split
      · rename_i he
        rw [he, Core.ZSet.count_members s.inFlightQueue, if_pos hk]
      · rfl
    · rfl
  | _ => rw [(flight_frame rfl).1]

/-- One call: whoever comes to work on a job brings it into flight, and who
takes it out of flight stops working on it. -/
theorem work_step (hm : Moves reg E cmd r ds ds') (hr : (exec reg cmd inp s).2 = r)
    (hx : expired reg inp s cmd = []) (hone : queued j s ≤ 1) :
    1 - (exec reg cmd inp s).1.inFlightQueue.members.count j + ds'.countP (Duty.works j) ≤
      1 - s.inFlightQueue.members.count j + ds.countP (Duty.works j) := by
  have hack : ∀ {k : JobId}, cmd = .reliableAck k → ds = [.work k] → ds'.countP (Duty.works j) = 0 →
      1 - (exec reg cmd inp s).1.inFlightQueue.members.count j + ds'.countP (Duty.works j) ≤
        1 - s.inFlightQueue.members.count j + ds.countP (Duty.works j) := by
    intro k he hds hds'
    subst he hds
    simp only [hds', exec, L2.reliableAck, Core.ZSet.count_zrem, List.countP_singleton, Duty.works, decide_eq_true_eq]
    by_cases hj : j = k
    · subst hj
      simp only [if_true]
      omega
    · simp only [if_neg hj, if_neg (Ne.symm hj)]
      omega
  have hstay : flies cmd = false → ds'.countP (Duty.works j) ≤ ds.countP (Duty.works j) →
      1 - (exec reg cmd inp s).1.inFlightQueue.members.count j + ds'.countP (Duty.works j) ≤
        1 - s.inFlightQueue.members.count j + ds.countP (Duty.works j) := by
    intro hf hle
    rw [inFlight_frame hf hx]
    omega
  cases hm with
  | cleaned | acked | nacked | nackedOut => exact hack rfl rfl rfl
  | idling =>
    simp only [exec, L2.reliableDequeue] at hr ⊢
    split at hr
    · simp
    · cases hr
  | @delivered w i n g k d =>
    simp only [exec, L2.reliableDequeue] at hr ⊢
    split at hr
    · cases hr
    · rename_i rest hready
      cases hr
      simp only [Core.ZSet.count_zadd, List.countP_singleton, Duty.works, decide_eq_true_eq, List.countP_nil]
      by_cases hj : j = k
      · -- its one token was in the ready queue, so it was not in flight
        subst hj
        unfold queued at hone
        rw [hready, List.count_cons_self] at hone
        simp only [if_true]
        omega
      · simp only [if_neg hj, if_neg (Ne.symm hj)]
        omega
  | idle h =>
    refine hstay ?_ (le_refl _)
    cases cmd <;> first | rfl | cases h
  | abandoned h =>
    refine hstay ?_ (Nat.zero_le _)
    cases cmd <;> first | rfl | cases h
  | recovered =>
    refine hstay rfl (Nat.le_of_eq ?_)
    refine List.countP_eq_zero.mpr fun d hd => ?_
    obtain ⟨x, -, rfl⟩ := List.mem_map.mp hd
    exact Bool.false_ne_true
  | reported | recorded | settled => exact hstay rfl (by simp [Duty.works])
  | _ => exact hstay rfl (Nat.zero_le _)

theorem work_account (hown : ∀ c l, H c l → Answers Own reg c l) (hx : ∀ c l, H c l → Unexpired reg c l) (j : JobId) :
    Core.Program.Account (pipeline reg)
      (fun c l => H c l ∧ (Identified (enqueued c.log) c.world ∧
        ∀ (i : Nat) p, c.procs[i]? = some p → Sound Own (enqueued c.log) p) ∧ tokens false j c ≤ 1)
      (fun w _ => 1 - w.inFlightQueue.members.count j) (fun p => (duties p).countP (Duty.works j)) fun _ => 1 where
  run := by
    intro c i inp p cmd ok err hp hv hstep
    obtain ⟨hH, ⟨hid, hs⟩, hone⟩ := hstep
    have hmoves := moves_of_run (hs i p hp) hv hid (onCalls_run (hown _ _ hH) hp hv)
    have hqueued : queued j c.world ≤ 1 := by
      simp only [tokens, Core.Program.total] at hone
      omega
    have := work_step hmoves rfl (onCalls_run (hx _ _ hH) hp hv) hqueued
    simp only [Core.Program.ran, pipeline]
    omega
  reject := by
    intro c i p cmd ok err hp hv hstep
    obtain ⟨_, ⟨_, hs⟩, _⟩ := hstep
    obtain h | ⟨h, -⟩ := drops_of_reject (hs i p hp) hv
    · rw [h]
    · rw [h]
      exact Nat.zero_le _
  dead := rfl
  spawn := by
    intro t
    simp only [pipeline, duties_start]
    rfl
  env := by
    intro w log e
    cases e <;> exact le_refl _

/-- Who works on a job has it in flight. -/
theorem working_inFlight (hown : ∀ c l, H c l → Answers Own reg c l) (hfresh : ∀ c l, H c l → Fresh reg c l)
    (hretry : ∀ c l, H c l → NoRetry reg c l) (hx : ∀ c l, H c l → Unexpired reg c l)
    (hlate : ∀ c l, H c l → Punctual reg c l) {c : State} (h : ((runs reg).restrict H).Reachable c) {i : Nat}
    {p : Proc} (hp : c.procs[i]? = some p) (hw : .work j ∈ duties p) : j ∈ c.world.inFlightQueue := by
  have hr := h.enrich fun c h =>
    And.intro (identity_reachable hown h) (tokens_le_one hown hfresh hretry hlate h false j)
  have h₀ : Core.Program.total (fun w _ => 1 - w.inFlightQueue.members.count j)
      (fun p => (duties p).countP (Duty.works j)) initialState ≤ 1 := Nat.sub_le _ _
  have htotal := (work_account hown hx j).le_minted h₀ hr
  have hle := Core.Program.hold_le_sum (fun p => (duties p).countP (Duty.works j)) (List.mem_of_getElem? hp)
  have hhold : 0 < (duties p).countP (Duty.works j) :=
    List.countP_pos_iff.mpr ⟨_, hw, decide_eq_true rfl⟩
  simp only [Core.Program.total, Core.ZSet.count_members] at htotal
  by_contra hn
  rw [if_neg hn] at htotal
  omega

/-- An ack or nack is made by who works on the job. -/
theorem work_of_returns (hm : Moves reg E cmd r ds ds') (hj : j ∈ returns cmd) : .work j ∈ ds := by
  cases hm with
  | cleaned | acked | nacked | nackedOut =>
    cases hj
    exact List.mem_cons_self
  | idle h | abandoned h => cases cmd <;> first | (cases hj; done) | cases h
  | _ => cases hj

/-- In runs in which recovery finds no orphan, no ack is late. -/
theorem punctual_of_unexpired (hown : ∀ c l, H c l → Answers Own reg c l) (hfresh : ∀ c l, H c l → Fresh reg c l)
    (hretry : ∀ c l, H c l → NoRetry reg c l) (hx : ∀ c l, H c l → Unexpired reg c l) {c : State}
    (h : ((runs reg).restrict H).Reachable c) :
    ((runs reg).restrict fun c l => H c l ∧ Punctual reg c l).Reachable c := by
  induction h with
  | init hc => exact .init hc
  | @step c l c' _ hs ih =>
    refine .step ih ⟨hs.1, hs.2, ?_⟩
    obtain ⟨hstep, hH⟩ := hs
    cases hstep with
    | @run i inp p cmd ok err hp hv =>
      simp only [Punctual, onCalls, nextCall_eq hp hv]
      intro j hj
      obtain ⟨hid, hsound⟩ := identity_reachable (fun _ _ h => hown _ _ h.1) ih
      have hmoves := moves_of_run (hsound i p hp) hv hid (onCalls_run (hown _ _ hH) hp hv)
      exact working_inFlight (fun _ _ h => hown _ _ h.1) (fun _ _ h => hfresh _ _ h.1) (fun _ _ h => hretry _ _ h.1)
        (fun _ _ h => hx _ _ h.1) (fun _ _ h => h.2) ih hp (work_of_returns hmoves hj)
    | _ => trivial

end
end NestPlayground.L4
