import NestPlayground.L4Pipeline.Books

/-!
# The status protocol

The watcher's table and the compare-and-set of `transition-status.lua` keep a
group on the edges of the state machine. `ack.lua` writes AGGREGATING without
looking at the status. `AckLive` says that it does so only to a group that is
there and not in a terminal state; in runs that meet it every writer follows
the protocol and the terminal states are absorbing. Without it a group that
timed out goes from FAILED to AGGREGATING (`failed_then_aggregating`).
-/
namespace NestPlayground.L5.StatusProtocol
open L1 L3 L4

def status (c : State) (g : GroupId) : Option GroupStatus := (c.world.groupMeta g).status

/-- The initialisation, an edge of the table, or a move forward to AGGREGATING. -/
def Follows (s t : Option GroupStatus) : Prop :=
  (s = none ∧ t = some .created) ∨
    ∃ a b, s = some a ∧ t = some b ∧
      (isValidTransition a b = true ∨ b = .aggregating ∧ (a = .created ∨ a = .dispatched ∨ a = .running))

/-- The group is there and not in a terminal state. -/
def live (c : State) (g : GroupId) : Bool := (status c g).any fun st => !isTerminal st

/-- An `ack.lua` that completes a group finds it live. -/
def AckLive (reg : Registry) : State → Label → Prop :=
  onCalls reg fun c _ cmd _ =>
    match cmd with
    | .ack _ g =>
      (c.world.groupMeta g).totalJobs.getD 0 ≤ (c.world.groupMeta g).doneJobs.getD 0 + 1 → live c g = true
    | _ => True

theorem live_iff {c : State} {g : GroupId} :
    live c g = true ↔ ∃ st, status c g = some st ∧ isTerminal st = false := by
  simp [live, Option.any_eq_true]

/-- A group with a status has been enqueued to. -/
def Counted (w : Store) (_ : Log) : Prop :=
  ∀ g, (w.groupMeta g).status ≠ none → 0 < (w.groupMeta g).totalJobs.getD 0

theorem follows_of_not_terminal {a : GroupStatus} (h : isTerminal a = false) (hne : a ≠ .aggregating) :
    a = .created ∨ a = .dispatched ∨ a = .running := by
  cases a with
  | created => exact .inl rfl
  | dispatched => exact .inr (.inl rfl)
  | running => exact .inr (.inr rfl)
  | aggregating => exact absurd rfl hne
  | completed => cases h
  | failed => cases h

/-- A terminal state is left by no move of the protocol. -/
theorem not_follows_terminal {a : GroupStatus} {t : Option GroupStatus} (h : isTerminal a = true) :
    ¬ Follows (some a) t := by
  rintro (⟨hn, -⟩ | ⟨a', b, ha, -, hv | ⟨-, hl⟩⟩)
  · cases hn
  · cases ha
    rw [(isTerminal_iff a).mp h b] at hv
    cases hv
  · cases ha
    rcases hl with rfl | rfl | rfl <;> cases h

section
variable {reg : Registry}

theorem counted : Core.Program.Ledgered (pipeline reg) (AckLive reg) Counted where
  run := by
    intro c i inp p cmd ok err hI hp hv hH g hg
    have hmono := totalJobs_mono reg cmd inp c.world g
    have hlive := onCalls_run hH hp hv
    rcases status_cases reg cmd inp c.world g with hs | ⟨req, rfl, rfl, -, -⟩ | ⟨j, rfl, hc, -⟩ | ⟨t, rfl, hs, -⟩
    · exact lt_of_lt_of_le (hI g (hs ▸ hg)) hmono
    · -- the enqueue itself counts
      simp only [pipeline, exec, L2.enqueue, Function.update_self]
      split <;> exact Nat.succ_pos _
    · obtain ⟨st, hst, -⟩ := live_iff.mp (hlive hc)
      exact lt_of_lt_of_le (hI g (by rw [show (c.world.groupMeta g).status = some st from hst]; simp)) hmono
    · exact lt_of_lt_of_le (hI g (by rw [hs]; simp)) hmono
  env := by
    intro w log e hI
    cases e <;> exact hI

theorem counted_reachable {c : State} (h : ((runs reg).restrict (AckLive reg)).Reachable c) :
    Counted c.world c.log :=
  (counted.inductive (fun _ hg => absurd rfl hg)).reachable c h

/-- The moves of one step. -/
theorem follows_step {c c' : State} {l : Label} (hI : Counted c.world c.log)
    (hs : (pipeline reg).Step c l c') (hH : AckLive reg c l) (g : GroupId)
    (hne : status c' g ≠ status c g) : Follows (status c g) (status c' g) := by
  cases hs with
  | @run i inp p cmd ok err hp hv =>
    have hlive := onCalls_run hH hp hv
    rcases status_cases reg cmd inp c.world g with hs | ⟨req, rfl, rfl, ht, hs⟩ | ⟨j, rfl, hc, hs⟩ | ⟨t, rfl, hs, hs'⟩
    · exact absurd hs hne
    · refine .inl ⟨?_, hs⟩
      by_contra hn
      have := hI req.jobGroupId hn
      omega
    · obtain ⟨st, hst, hterm⟩ := live_iff.mp (hlive hc)
      refine .inr ⟨st, .aggregating, hst, hs, .inr ⟨rfl, follows_of_not_terminal hterm ?_⟩⟩
      rintro rfl
      exact hne (hs.trans hst.symm)
    · exact .inr ⟨t.source, t.target, hs, hs', .inl t.valid⟩
  | reject hp hv hr => exact absurd rfl hne
  | stop hp => exact absurd rfl hne
  | spawn => exact absurd rfl hne
  | @env e => cases e <;> exact absurd rfl hne

/-- In every run in which `ack.lua` completes only live groups, every change of
a status follows the protocol, and COMPLETED and FAILED are never left. -/
theorem status_protocol (c : State) (h : ((runs reg).restrict (AckLive reg)).Reachable c) :
    (∀ l c', (pipeline reg).Step c l c' → AckLive reg c l → ∀ g, status c' g ≠ status c g →
      Follows (status c g) (status c' g)) ∧
    ∀ c', ((runs reg).restrict (AckLive reg)).Steps c c' → ∀ g st, isTerminal st = true →
      status c g = some st → status c' g = some st := by
  refine ⟨fun l c' hs hH g hne => follows_step (counted_reachable h) hs hH g hne, ?_⟩
  intro c' hsteps g st hterm hst
  have hkeep := Core.LTS.Steps.preserves
    (I := fun s => ((runs reg).restrict (AckLive reg)).Reachable s ∧ status s g = some st) ?_ hsteps ⟨h, hst⟩
  · exact hkeep.2
  · rintro s l s' ⟨hr, hsg⟩ hs
    refine ⟨.step hr hs, ?_⟩
    by_contra hne
    have hf := follows_step (counted_reachable hr) hs.1 hs.2 g (by rw [hsg]; exact hne)
    rw [hsg] at hf
    exact not_follows_terminal hterm hf

end

instance (reg : Registry) (c : State) (l : Label) : Decidable (AckLive reg c l) := by
  refine @instDecidableOnCalls reg _ (fun c i cmd inp => ?_) c l
  cases cmd <;> first | exact inferInstanceAs (Decidable (_ → _)) | exact inferInstanceAs (Decidable True)

/-- A watch cycle that finds the group timed out. -/
def timedOut (i : Nat) : List Label :=
  [.spawn .watchCycle, runAt i 3600002, runAt i 3600002, runAt i 3600002, runAt i 3600002]

/-- A group that its worker has completed stays COMPLETED. -/
theorem status_protocol_one_job : ∃ c, ((runs {}).restrict (AckLive {})).Reachable c ∧
    status c "g" = some .completed ∧
    ∀ c', ((runs {}).restrict (AckLive {})).Steps c c' → status c' "g" = some .completed := by
  obtain ⟨c, hr, hs⟩ := Core.Program.exists_of_replay (S := pipeline {})
    (P := fun c => decide (status c "g" = some .completed))
    (show ((pipeline {}).replay (fun c l => decide (AckLive {} c l)) initialState
      (oneJob ++ processed 2 3 ++ runsAt 2 3 12)).any _ = true by decide +kernel)
  have hr' : ((runs {}).restrict (AckLive {})).Reachable c :=
    Core.LTS.Reachable.weaken (fun _ _ h => of_decide_eq_true h) hr
  have hs := of_decide_eq_true hs
  exact ⟨c, hr', hs, fun c' hsteps => (status_protocol c hr').2 c' hsteps "g" _ rfl hs⟩

/-- The group times out while its last job is being processed; the ack that
follows takes it out of FAILED. -/
theorem failed_then_aggregating :
    ¬ ∀ (reg : Registry) (c : State), (runs reg).Reachable c → ∀ l c', (pipeline reg).Step c l c' →
      ∀ g, status c' g ≠ status c g → Follows (status c g) (status c' g) := by
  intro h
  obtain ⟨c, c', hr, hs, hP⟩ := Core.Program.exists_step_of_replay (S := pipeline {})
    (l := runAt 3 3600004)
    (P := fun c c' => decide (status c "g" = some .failed ∧ status c' "g" = some .aggregating))
    (show ((pipeline {}).replay (fun _ _ => true) initialState
      (oneJob ++ timedOut 2 ++ processed 3 3600003 ++ runsAt 3 3600003 2)).any _ = true by decide +kernel)
  obtain ⟨hf, ha⟩ := of_decide_eq_true hP
  have := h {} c hr.unrestrict _ c' hs "g" (by rw [hf, ha]; decide)
  rw [hf] at this
  exact not_follows_terminal rfl this

end NestPlayground.L5.StatusProtocol
