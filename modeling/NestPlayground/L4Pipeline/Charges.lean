import NestPlayground.L4Pipeline.Tokens

/-!
# Who is charged

A result is recorded for a group and a count made in its `doneJobs`: both are
charged to the group the duty names. The charges of a run are made for jobs of
the group charged if recovery dead-letters under the right group (`OwnGroup`);
and whatever is counted has been recorded before, so an activity that is about
to count a job is behind the records by one (`acked_lt_recorded`).
-/
namespace NestPlayground.L4
open L1 L3

/-- The orphans a call dead-letters, with the groups it charges. -/
def deadLetters (reg : Registry) (inp : Input) (w : Store) : Cmd → List (JobId × GroupId)
  | .recoverOrphans => L2.deadLettered reg.config.reliableQueue.maxRetryCount w
      (w.inFlightQueue.rangeByScore inp.now reg.config.reliableQueue.orphanRecoveryBatchSize)
  | _ => []

/-- Recovery dead-letters a job only under the group in the job's hash. -/
def OwnGroup (reg : Registry) : State → Label → Prop :=
  onCalls reg fun c _ cmd inp => ∀ x ∈ deadLetters reg inp c.world cmd, (c.world.jobs x.1).groupId = some x.2

instance (reg : Registry) (c : State) (l : Label) : Decidable (OwnGroup reg c l) :=
  instDecidableOnCalls reg
    (fun c _ cmd inp => ∀ x ∈ deadLetters reg inp c.world cmd, (c.world.jobs x.1).groupId = some x.2) c l

/-- The groups a duty is going to charge are the job's. -/
def Charges (E : List (JobId × GroupId)) : Duty → Prop
  | .queue _ => True
  | .work _ => True
  | .park _ => True
  | .bury j g => (j, g) ∈ E
  | .report j g => (j, g) ∈ E
  | .record j g => (j, g) ∈ E
  | .settle j g => (j, g) ∈ E

theorem Charges.mono {E E' : List (JobId × GroupId)} (hE : E ⊆ E') {d : Duty} (h : Charges E d) :
    Charges E' d := by
  cases d with
  | queue | work | park => trivial
  | bury | report | record | settle => exact hE h

/-- Charges are made for jobs of the group charged. -/
def Charged (log : Log) : Prop :=
  (∀ x ∈ recorded log, x ∈ enqueued log) ∧ ∀ x ∈ acked log, x ∈ enqueued log

/-- The orphans a reply reports. -/
def orphanPairs : (cmd : Cmd) → Reply cmd → List (JobId × GroupId)
  | .recoverOrphans, r => r.pairs
  | _, _ => []

section
variable {reg : Registry} {E : List (JobId × GroupId)} {H : State → Label → Prop}

theorem charges_pairDuties {pairs : List (JobId × GroupId)} :
    (∀ d ∈ pairDuties pairs, Charges E d) ↔ ∀ x ∈ pairs, x ∈ E := by
  simp only [pairDuties, List.forall_mem_map]
  exact Iff.rfl

/-- A call charges what its caller's duties said, and leaves such duties. -/
theorem charges_step {cmd : Cmd} {r : Reply cmd} {ds ds' : List Duty} (hm : Moves reg E cmd r ds ds')
    (hds : ∀ d ∈ ds, Charges E d) (hrec : ∀ x ∈ orphanPairs cmd r, x ∈ E) :
    (∀ d ∈ ds', Charges E d) ∧ (∀ x ∈ records cmd, x ∈ E) ∧ ∀ x ∈ acks cmd, x ∈ E := by
  have hno : records cmd = none → acks cmd = none →
      (∀ x ∈ records cmd, x ∈ E) ∧ ∀ x ∈ acks cmd, x ∈ E := by
    intro h1 h2
    rw [h1, h2]
    exact ⟨fun x hx => (by cases hx), fun x hx => (by cases hx)⟩
  cases hm with
  | idle h =>
    obtain ⟨h1, h2⟩ := not_spends_of_idle h
    exact ⟨hds, hno h1 h2⟩
  | abandoned h =>
    obtain ⟨h1, h2⟩ := not_spends_of_idle h
    exact ⟨fun d hd => (by cases hd), hno h1 h2⟩
  | nothing | refused | pushed | backedOff | backedOffFixed | idling | cleaned | parked | parkedFixed =>
    exact ⟨fun d hd => (by cases hd), hno rfl rfl⟩
  | fetched | delivered | nacked =>
    refine ⟨fun d hd => ?_, hno rfl rfl⟩
    rw [List.mem_singleton.mp hd]
    trivial
  | acked h | nackedOut h =>
    refine ⟨fun d hd => ?_, hno rfl rfl⟩
    rw [List.mem_singleton.mp hd]
    exact h
  | buried =>
    have h := hds _ List.mem_cons_self
    refine ⟨fun d hd => ?_, hno rfl rfl⟩
    rw [List.mem_singleton.mp hd]
    exact h
  | recovered => exact ⟨charges_pairDuties.mpr hrec, hno rfl rfl⟩
  | reported | recorded =>
    have h := hds _ List.mem_cons_self
    refine ⟨fun d hd => ?_, ?_, fun x hx => (by cases hx)⟩
    · rcases List.mem_cons.mp hd with rfl | hd
      · exact h
      · exact hds d (List.mem_cons_of_mem _ hd)
    · rintro x ⟨⟩
      exact h
  | settled =>
    refine ⟨fun d hd => hds d (List.mem_cons_of_mem _ hd), fun x hx => (by cases hx), ?_⟩
    rintro x ⟨⟩
    exact hds _ List.mem_cons_self

/-- The charges of a run. -/
theorem charged_outline (hown : ∀ c l, H c l → Answers Own reg c l) (hgroup : ∀ c l, H c l → OwnGroup reg c l) :
    Core.Program.Outline (pipeline reg)
      (fun c l => H c l ∧ Identified (enqueued c.log) c.world ∧
        ∀ (i : Nat) p, c.procs[i]? = some p → Sound Own (enqueued c.log) p)
      (fun _ log => Charged log) fun _ log _ p => ∀ d ∈ duties p, Charges (enqueued log) d where
  run := by
    intro c i inp p cmd ok err hI hA hp hv hstep
    obtain ⟨hH, hid, hs⟩ := hstep
    have hmoves := moves_of_run (hs i p hp) hv hid (onCalls_run (hown _ _ hH) hp hv)
    have hrec : ∀ x ∈ orphanPairs cmd (exec reg cmd inp c.world).2, x ∈ enqueued c.log := by
      intro x hx
      have hdead := onCalls_run (hgroup _ _ hH) hp hv
      cases cmd with
      | recoverOrphans =>
        obtain ⟨_, _, -, hpairs, -⟩ := L2.recoverOrphans_spec inp.now reg.config.reliableQueue.maxRetryCount
          reg.config.reliableQueue.orphanRecoveryBatchSize c.world
        simp only [orphanPairs, exec, hpairs] at hx
        have hknown := hid.inFlight _ (mem_expired ((L2.mem_deadLettered _).mp hx).1)
        obtain ⟨-, -, g, hg, hmem⟩ := hid.hash _ hknown
        have := hdead x hx
        rw [hg] at this
        cases this
        exact hmem
      | _ => cases hx
    obtain ⟨h1, h2, h3⟩ := charges_step hmoves (hA i p hp) hrec
    have hsub : enqueued c.log ⊆ enqueued ((pipeline reg).ran c i cmd inp ok).log := fun x hx => mem_enqueued_cons hx
    refine ⟨⟨fun x hx => ?_, fun x hx => ?_⟩, fun d hd => (h1 d hd).mono hsub,
      fun k q _ hk d hd => (hA k q hk d hd).mono hsub⟩
    · simp only [Core.Program.ran, recorded_cons, List.mem_append, Option.mem_toList] at hx
      exact hsub (hx.elim (h2 x) (hI.1 x))
    · simp only [Core.Program.ran, acked_cons, List.mem_append, Option.mem_toList] at hx
      exact hsub (hx.elim (h3 x) (hI.2 x))
  reject := by
    intro c i p cmd ok err hI hA hp hv hstep
    obtain ⟨_, _, hs⟩ := hstep
    rcases drops_of_reject (hs i p hp) hv with he | ⟨he, -⟩
    · rw [he]
      exact hA
    · rw [he]
      exact fun d hd => by cases hd
  dead := fun _ _ _ d hd => by cases hd
  spawn := by
    intro c t hI hH d hd
    rw [show duties ((pipeline reg).start t) = [] from duties_start t] at hd
    cases hd
  env := fun _ h => ⟨h, fun _ _ h => h⟩

theorem charged_reachable (hown : ∀ c l, H c l → Answers Own reg c l) (hgroup : ∀ c l, H c l → OwnGroup reg c l)
    {c : State} (h : ((runs reg).restrict H).Reachable c) : Charged c.log := by
  have h₀ : Core.Program.Holds (fun _ log => Charged log)
      (fun _ log _ p => ∀ d ∈ duties p, Charges (enqueued log) d) initialState :=
    ⟨⟨fun x hx => (by cases hx), fun x hx => (by cases hx)⟩, fun i p hp => by simp [initialState] at hp⟩
  have hr := h.enrich fun c h => identity_reachable hown h
  exact (((charged_outline hown hgroup).inductive h₀).reachable c hr).1

/-- Jobs spent once and charged to their own group are jobs of that group. -/
theorem subperm_of_spent {l E : List (JobId × GroupId)} (hone : ∀ j, l.countP (·.1 = j) ≤ 1) (hE : ∀ x ∈ l, x ∈ E) :
    l.Subperm E := by
  refine List.subperm_ext_iff.mpr fun x hx => ?_
  have h1 : l.count x ≤ l.countP (·.1 = x.1) := by
    refine List.countP_mono_left fun y _ hy => ?_
    simp [beq_iff_eq.mp hy]
  have h2 : 0 < E.count x := List.count_pos_iff.mpr (hE x hx)
  have h3 := hone x.1
  omega

/-! ## Counted after recorded -/

/-- The duty to count a job of `g` as done. -/
def Duty.settles (g : GroupId) : Duty → Bool
  | .settle _ g' => g' = g
  | _ => false

theorem settles_pairDuties (pairs : List (JobId × GroupId)) (g : GroupId) :
    (pairDuties pairs).countP (Duty.settles g) = 0 := by
  refine List.countP_eq_zero.mpr fun d hd => ?_
  obtain ⟨x, -, rfl⟩ := List.mem_map.mp hd
  exact Bool.false_ne_true

/-- A count was due, and it falls due by a record. -/
theorem settle_step {cmd : Cmd} {r : Reply cmd} {ds ds' : List Duty} (hm : Moves reg E cmd r ds ds') (g : GroupId) :
    (acks cmd).toList.countP (·.2 = g) + ds'.countP (Duty.settles g) ≤
      ds.countP (Duty.settles g) + (records cmd).toList.countP (·.2 = g) := by
  cases hm with
  | idle h =>
    obtain ⟨h1, h2⟩ := not_spends_of_idle h
    rw [h1, h2]
    simp
  | abandoned h =>
    obtain ⟨h1, h2⟩ := not_spends_of_idle h
    rw [h1, h2]
    simp
  | recovered => simp [acks, records, settles_pairDuties]
  | reported | recorded => simp [acks, records, Duty.settles, List.countP_cons, Nat.add_comm]
  | @settled j g' b ds =>
    by_cases hg : g' = g
    · simp [acks, records, Duty.settles, hg, Nat.add_comm]
    · simp [acks, records, Duty.settles, hg]
  | _ => simp [acks, records, Duty.settles]

theorem settle_account (hown : ∀ c l, H c l → Answers Own reg c l) (g : GroupId) :
    Core.Program.Account (pipeline reg)
      (fun c l => H c l ∧ Identified (enqueued c.log) c.world ∧
        ∀ (i : Nat) p, c.procs[i]? = some p → Sound Own (enqueued c.log) p)
      (fun _ log => (acked log).countP (·.2 = g)) (fun p => (duties p).countP (Duty.settles g))
      fun log => (recorded log).countP (·.2 = g) where
  run := by
    intro c i inp p cmd ok err hp hv hstep
    obtain ⟨hH, hid, hs⟩ := hstep
    have hmoves := moves_of_run (hs i p hp) hv hid (onCalls_run (hown _ _ hH) hp hv)
    have hstep := settle_step hmoves g
    simp only [Core.Program.ran, acked_cons, recorded_cons, List.countP_append]
    simp only [pipeline]
    omega
  reject := by
    intro c i p cmd ok err hp hv hstep
    obtain ⟨_, _, hs⟩ := hstep
    obtain h | ⟨h, -⟩ := drops_of_reject (hs i p hp) hv
    · rw [h]
    · rw [h]
      exact Nat.zero_le _
  dead := rfl
  spawn := by
    intro t
    simp only [pipeline, duties_start]
    rfl
  env := fun _ _ _ => le_refl _

/-- Who is about to count a job of a group has one more record to count. -/
theorem acked_lt_recorded (hown : ∀ c l, H c l → Answers Own reg c l) {c : State}
    (h : ((runs reg).restrict H).Reachable c) {i : Nat} {p : Proc} {j : JobId} {g : GroupId}
    {ok : Reply (.ack j g) → Proc} {err : Proc} (hp : c.procs[i]? = some p)
    (hv : p.view reg = .call (.ack j g) ok err) :
    (acked c.log).countP (·.2 = g) < (recorded c.log).countP (·.2 = g) := by
  have h₀ : Core.Program.total (fun _ log => (acked log).countP (·.2 = g))
      (fun p => (duties p).countP (Duty.settles g)) initialState ≤ (recorded initialState.log).countP (·.2 = g) :=
    Nat.le_refl 0
  have hr := h.enrich fun c h => identity_reachable hown h
  have htotal := (settle_account hown g).le_minted h₀ hr
  have hle := Core.Program.hold_le_sum (fun p => (duties p).countP (Duty.settles g)) (List.mem_of_getElem? hp)
  have hhold : 0 < (duties p).countP (Duty.settles g) := by
    have hm := @duties_spec reg _ _ ((identity_reachable hown h).2 i p hp)
    rw [hv] at hm
    have hmoves := hm.2.1 true trivial
    generalize duties p = ds at hmoves ⊢
    generalize duties (ok true) = ds' at hmoves
    cases hmoves with
    | idle h | abandoned h => cases h
    | settled => simp [Duty.settles]
  simp only [Core.Program.total] at htotal
  omega

end
end NestPlayground.L4
