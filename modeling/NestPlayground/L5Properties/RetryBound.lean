import NestPlayground.Core.Traced
import NestPlayground.L4Pipeline.InFlight
import NestPlayground.L5Properties.Holders

/-!
# The retry bound

A nack is not fenced: the worker whose delivery was recovered still increments
the retry count of the job, or dead-letters it, by the count it loaded with its
own delivery (`stale_nacks`). As long as nobody nacks a delivery that recovery
has taken back, and recovery goes by a count that is not below the job's own,
each job is in one place at a time (`Fenced.single`) and every delivery but the
first cost one of its retries (`deliveries_le`).
-/
namespace NestPlayground.L5.RetryBound
open L1 L3 L4 Holders

/-- The retry count passed to `reliable-dequeue.lua`. -/
def registers : Cmd → Option Nat
  | .reliableDequeue _ _ n _ => some n
  | _ => none

/-- No id is submitted twice, processors answer with the ids of their job, and no
dead letter is retried. -/
def Assumed (reg : Registry) (c : State) (l : Label) : Prop :=
  Fresh reg c l ∧ Answers Own reg c l ∧ Unretried reg c l

/-- No worker nacks a delivery that recovery has taken back. -/
def InTime (reg : Registry) (t : Core.Traced State Label) : Label → Prop
  | .run i _ => ∀ p ∈ t.state.procs[i]?, ∀ x ∈ nacks p, lost reg x.1 i (calls reg t.past) = false
  | _ => True

/-- A job is not registered with a lower retry count than its own. -/
def Counted (reg : Registry) : State → Label → Prop :=
  onCalls reg fun c _ cmd _ => ∀ n ∈ registers cmd, ∀ j ∈ c.world.readyQueue.head?, retryCount c.world j ≤ n

def Guarded (reg : Registry) (t : Core.Traced State Label) (l : Label) : Prop := InTime reg t l ∧ Counted reg t.state l

instance (reg : Registry) (c : State) (l : Label) : Decidable (Assumed reg c l) :=
  inferInstanceAs (Decidable (_ ∧ _ ∧ _))

instance (reg : Registry) (t : Core.Traced State Label) (l : Label) : Decidable (InTime reg t l) :=
  match l with
  | .run i _ =>
    inferInstanceAs (Decidable (∀ p ∈ t.state.procs[i]?, ∀ x ∈ nacks p, lost reg x.1 i (calls reg t.past) = false))
  | .reject _ | .stop _ | .spawn _ | .env _ => isTrue trivial

instance (reg : Registry) (c : State) (l : Label) : Decidable (Counted reg c l) :=
  instDecidableOnCalls reg
    (fun c _ cmd _ => ∀ n ∈ registers cmd, ∀ j ∈ c.world.readyQueue.head?, retryCount c.world j ≤ n) c l

instance (reg : Registry) (t : Core.Traced State Label) (l : Label) : Decidable (Guarded reg t l) :=
  inferInstanceAs (Decidable (_ ∧ _))

/-! ## What the activities know -/

/-- The delivery an activity works on, once it has loaded the job. -/
def loaded : Proc → Option (JobId × Job)
  | .tick (.startTime j job) => some (j, job)
  | .tick (.process j job _) => some (j, job)
  | .tick (.heartbeat j job _) => some (j, job)
  | .tick (.endTime j job _ _) => some (j, job)
  | .tick (.ack j job _) => some (j, job)
  | .tick (.nack j job _) => some (j, job)
  | .tick (.nackCaught j job _) => some (j, job)
  | _ => none

/-- Whoever works on a delivery holds the job or has lost it; a holder loaded no
lower retry count than the job has, and neither has a nack that stays below the limit. -/
structure Aware (reg : Registry) (ks : List Call) (w : Store) (i : Nat) (p : Proc) : Prop where
  works : ∀ j, .work j ∈ duties p → holder reg j ks = some i ∨ lost reg j i ks = true
  loaded : ∀ x ∈ loaded p, holder reg x.1 ks = some i → retryCount w x.1 ≤ x.2.retryCount
  owing : ∀ job ∈ owing p, retryCount w job.id ≤ job.retryCount ∧
    job.retryCount < reg.config.workerPool.maxRetryCount

/-- How often `p` has `j` in hand. -/
def inHand (j : JobId) (p : Proc) : Nat := (duties p).countP (Duty.live j)

/-- Every job is in one place, and nobody goes by a lower retry count than it has. -/
structure Fenced (reg : Registry) (ks : List Call) (c : State) : Prop where
  single : ∀ j, waiting j c.world + held reg j ks + (c.procs.map (inHand j)).sum + (deadLettered c.log).count j ≤
    (fetched c.log).countP (·.1 = j)
  inFlight : ∀ j ∈ c.world.inFlightQueue, (holder reg j ks).isSome ∧
    retryCount c.world j ≤ (c.world.inFlightMeta j).retryCount.getD 0
  aware : ∀ (i : Nat) p, c.procs[i]? = some p → Aware reg ks c.world i p
  bounded : ∀ j, retryCount c.world j ≤ reg.config.workerPool.maxRetryCount

section
variable {reg : Registry} {p p' : Proc} {j : JobId}

/-- What a call makes an activity load. -/
theorem loaded_spec (reg : Registry) (p : Proc) :
    (p.view reg).Spec (fun _ => True)
      (fun cmd r p' => ∀ x ∈ loaded p', carries cmd = false ∧
        (loaded p = some x ∨ ∀ inp s, (exec reg cmd inp s).2 = r → x.2.retryCount = retryCount s x.1))
      fun _ p' => ∀ x ∈ loaded p', loaded p = some x := by
  have nothing : ∀ {Pc α : Type} {a : Await Pc α} {mk : Core.Next Pc α → Proc}, (∀ x, loaded (mk x) = none) →
      (a.map mk).Spec (fun _ => True)
        (fun cmd r p' => ∀ x ∈ loaded p', carries cmd = false ∧
          (loaded p = some x ∨ ∀ inp s, (exec reg cmd inp s).2 = r → x.2.retryCount = retryCount s x.1))
        fun _ p' => ∀ x ∈ loaded p', loaded p = some x := by
    intro Pc α a mk hmk
    cases a with
    | call cmd ok err =>
      refine ⟨trivial, fun r x hx => ?_, fun x hx => ?_⟩
      · rw [hmk] at hx
        cases hx
      · rw [hmk] at hx
        cases hx
    | halt => trivial
  cases p with
  | tick p =>
    cases p with
    | dequeue p =>
      rw [Proc.view, TickPc.view, Core.Action.map_map]
      exact nothing fun x => by rcases x with p | (_ | ⟨_, _⟩) | _ <;> rfl
    | loadJob j =>
      refine ⟨trivial, fun hash x hx => ?_, fun x hx => by cases hx⟩
      replace hx : x ∈ loaded (resume .tick (TickPc.loaded j hash)) := hx
      unfold TickPc.loaded at hx
      split at hx
      · cases hx
      · split at hx
        · rename_i job hjob
          cases hx
          refine ⟨rfl, .inr fun inp s hr => ?_⟩
          obtain ⟨payload, -, rfl⟩ := Option.map_eq_some_iff.mp hjob
          rw [← hr]
          rfl
        · cases hx
    | cleanUp j => exact ⟨trivial, fun _ x hx => (by cases hx), fun x hx => by cases hx⟩
    | startTime j job =>
      refine ⟨trivial, fun now x hx => ⟨rfl, .inl ?_⟩, fun x hx => by cases hx⟩
      replace hx : x ∈ loaded (resume .tick (if _ then _ else _)) := hx
      split at hx <;> exact hx
    | process j job t =>
      refine ⟨trivial, fun outcome x hx => ⟨rfl, .inl ?_⟩, fun x hx => by cases hx⟩
      cases outcome with
      | none => exact hx
      | some outcome => cases outcome <;> exact hx
    | heartbeat j job t => exact ⟨trivial, fun _ x hx => ⟨rfl, .inl hx⟩, fun x hx => hx⟩
    | endTime j job t r =>
      refine ⟨trivial, fun now x hx => ⟨rfl, .inl ?_⟩, fun x hx => by cases hx⟩
      replace hx : x ∈ loaded (.tick (TickPc.settle j job _)) := hx
      unfold TickPc.settle at hx
      split at hx
      · exact hx
      · split at hx
        · split at hx <;> exact hx
        · exact hx
    | ack j job r => exact ⟨trivial, fun _ x hx => (by cases hx), fun x hx => hx⟩
    | nack j job e =>
      refine ⟨trivial, fun _ x hx => ?_, fun x hx => hx⟩
      replace hx : x ∈ loaded (.tick (.failed _)) := hx
      cases hx
    | nackCaught j job e =>
      refine ⟨trivial, fun _ x hx => ?_, fun x hx => by cases hx⟩
      replace hx : x ∈ loaded (.tick (.failed _)) := hx
      cases hx
    | complete p =>
      rw [Proc.view, TickPc.view, Core.Action.map_map]
      exact nothing fun x => by cases x <;> rfl
    | failed p =>
      rw [Proc.view, TickPc.view, Core.Action.map_map]
      exact nothing fun x => by cases x <;> rfl
  | done => trivial
  | _ => exact nothing fun x => by cases x <;> rfl

end

/-! ## One call -/

/-- What a call of a guarded run may go by. -/
structure Acting (reg : Registry) (ks : List Call) (c : State) (i : Nat) (inp : Input) (p : Proc) (cmd : Cmd)
    (ok : Reply cmd → Proc) (err : Proc) : Prop where
  fenced : Fenced reg ks c
  once : ∀ j, (fetched c.log).countP (·.1 = j) ≤ 1
  identified : Identified (enqueued c.log) c.world
  sound : Sound Own (enqueued c.log) p
  booked : ∀ j, Booked ⟨c.world, handedIn c.log⟩ j
  proc : c.procs[i]? = some p
  view : p.view reg = .call cmd ok err
  answers : ∀ x ∈ answers cmd inp, Own x.1 x.2.jobId x.2.groupId
  unretried : retrying cmd = false
  inTime : ∀ x ∈ nacks p, lost reg x.1 i ks = false
  counted : ∀ n ∈ registers cmd, ∀ j ∈ c.world.readyQueue.head?, retryCount c.world j ≤ n

section
variable {reg : Registry} {ks : List Call} {c : State} {i k : Nat} {inp : Input} {p q : Proc} {cmd : Cmd}
  {ok : Reply cmd → Proc} {err : Proc} {j : JobId}

theorem Acting.owes (h : Acting reg ks c i inp p cmd ok err) : increments cmd = owed p := by
  have := increments_spec reg p
  rw [h.view] at this
  exact this.1

theorem Acting.moves (h : Acting reg ks c i inp p cmd ok err) : Moves reg (enqueued c.log) cmd
    (exec reg cmd inp c.world).2 (duties p) (duties (ok (exec reg cmd inp c.world).2)) :=
  moves_of_run h.sound h.view h.identified h.answers

theorem Acting.returned (h : Acting reg ks c i inp p cmd ok err) (hr : (returns cmd).isSome) :
    Returned reg p cmd (ok (exec reg cmd inp c.world).2) := by
  have := returned_spec reg p
  rw [h.view] at this
  have hret := this.2.1 (exec reg cmd inp c.world).2
  simp only [hr, if_true] at hret
  exact hret

/-- Recovery takes a job from its holder. -/
theorem Acting.holder_of_expires (h : Acting reg ks c i inp p cmd ok err)
    (he : Expires reg j ⟨i, cmd, inp, c.world⟩) : (holder reg j ks).isSome :=
  (h.fenced.inFlight j (mem_expired he.2)).1

theorem work_of_nacks {E : List (JobId × GroupId)} {x : JobId × Job} (hs : Sound Own E p) (hn : nacks p = some x) :
    .work x.1 ∈ duties p ∧ x.2.id = x.1 ∧ loaded p = some x := by
  cases p with
  | tick p =>
    cases p with
    | nack j job e =>
      cases hn
      exact ⟨List.mem_singleton.mpr rfl, hs.1, rfl⟩
    | nackCaught j job e =>
      cases hn
      exact ⟨List.mem_singleton.mpr rfl, hs.1, rfl⟩
    | _ => cases hn
  | _ => cases hn

/-- A worker that nacks in time holds the job. -/
theorem Acting.holder_of_nacks (h : Acting reg ks c i inp p cmd ok err) {x : JobId × Job} (hn : nacks p = some x) :
    holder reg x.1 ks = some i := by
  rcases (h.fenced.aware i p h.proc).works x.1 (work_of_nacks h.sound hn).1 with hh | hl
  · exact hh
  · rw [h.inTime x hn] at hl
    cases hl

/-- How a retry count rises. -/
theorem Acting.raise_cases (h : Acting reg ks c i inp p cmd ok err) (j : JobId) :
    retryCount (exec reg cmd inp c.world).1 j ≤ retryCount c.world j ∨
      retryCount (exec reg cmd inp c.world).1 j = retryCount c.world j + 1 ∧
        (increments cmd = some j ∨ Expires reg j ⟨i, cmd, inp, c.world⟩ ∧
          L2.orphanRetryCount c.world j < reg.config.reliableQueue.maxRetryCount) := by
  cases he : enqueues cmd with
  | none =>
    rw [retryCount_exec he h.unretried]
    by_cases hj : j ∈ raised reg inp c.world cmd
    · right
      cases cmd with
      | jobIncrRetryCount k =>
        obtain rfl := List.mem_singleton.mp hj
        exact ⟨by simp [raised], .inl rfl⟩
      | recoverOrphans =>
        obtain ⟨hexp, hlt⟩ := (L2.mem_requeued _).mp hj
        have hn : (raised reg inp c.world .recoverOrphans).Nodup := (Core.ZSet.nodup_rangeByScore _ _ _).filter _
        exact ⟨by rw [List.count_eq_one_of_mem hn hj], .inr ⟨⟨rfl, hexp⟩, hlt⟩⟩
      | _ => cases hj
    · left
      rw [List.count_eq_zero.mpr hj]
      exact le_refl _
  | some x =>
    cases cmd with
    | enqueue req =>
      left
      rw [retryCount_enqueue]
      split
      · exact Nat.zero_le _
      · exact le_refl _
    | _ => cases he

theorem inHand_of_owed (h : owed p = some j) : inHand j p = 1 := by
  simp [inHand, duties_of_owed h, Duty.live]

/-- The retry count of a job that is held rises by recovery only. -/
theorem Acting.stays_of_held (h : Acting reg ks c i inp p cmd ok err) (hh : (holder reg j ks).isSome)
    (he : ¬ Expires reg j ⟨i, cmd, inp, c.world⟩) :
    retryCount (exec reg cmd inp c.world).1 j ≤ retryCount c.world j := by
  rcases h.raise_cases j with hle | ⟨-, hinc | hexp⟩
  · exact hle
  · have hhand := inHand_of_owed (h.owes.symm.trans hinc)
    have hle := Core.Program.hold_le_sum (inHand j) (List.mem_of_getElem? h.proc)
    have hsingle := h.fenced.single j
    have honce := h.once j
    rw [held_of_holder hh] at hsingle
    omega
  · exact absurd hexp.1 he

/-- Nobody else raises the retry count of a job in hand. -/
theorem Acting.stays_of_inHand (h : Acting reg ks c i inp p cmd ok err) (hq : c.procs[k]? = some q) (hk : k ≠ i)
    (hhand : 0 < inHand j q) : retryCount (exec reg cmd inp c.world).1 j ≤ retryCount c.world j := by
  have hsingle := h.fenced.single j
  have honce := h.once j
  rcases h.raise_cases j with hle | ⟨-, hinc | hexp⟩
  · exact hle
  · have hown := inHand_of_owed (h.owes.symm.trans hinc)
    have hle := Core.Program.hold_add_le_sum (inHand j) h.proc hq (Ne.symm hk)
    omega
  · have hle := Core.Program.hold_le_sum (inHand j) (List.mem_of_getElem? hq)
    rw [held_of_holder (h.holder_of_expires hexp.1)] at hsingle
    omega

/-- A job that is handed out is held by nobody. -/
theorem Acting.free_of_handed (h : Acting reg ks c i inp p cmd ok err)
    (hh : handed reg ⟨i, cmd, inp, c.world⟩ = some j) : holder reg j ks = none := by
  have hsingle := h.fenced.single j
  have honce := h.once j
  cases cmd with
  | reliableDequeue w n count g =>
    have hwait := @waiting_reliableDequeue reg inp c.world w n count g j
    rw [show delivers _ _ = some j from hh, Option.toList_some, List.count_singleton_self] at hwait
    by_contra hsome
    rw [held_of_holder (Option.isSome_iff_ne_none.mpr hsome)] at hsingle
    omega
  | _ => cases hh

/-! ## What a call keeps -/

theorem Acting.single (h : Acting reg ks c i inp p cmd ok err) (j : JobId) :
    waiting j (exec reg cmd inp c.world).1 + held reg j (⟨i, cmd, inp, c.world⟩ :: ks) +
        inHand j (ok (exec reg cmd inp c.world).2) + (letters cmd (exec reg cmd inp c.world).2).count j ≤
      waiting j c.world + held reg j ks + inHand j p +
        (fetches cmd (exec reg cmd inp c.world).2).toList.countP (·.1 = j) := by
  refine fence_step h.moves rfl (retries_of_not_retrying h.unretried) h.holder_of_expires fun hr hlive => ?_
  cases h.returned (by rw [hr]; rfl) with
  | acked hd ho =>
    rw [hd j] at hlive
    cases hlive
  | @nacked k job e hn hc hp =>
    have hk : k = j := by
      rw [hc] at hr
      exact Option.some.inj hr
    exact hk ▸ h.holder_of_nacks hn

/-- A job that stays in flight keeps its holder and its books. -/
theorem Acting.inFlight_of_same (h : Acting reg ks c i inp p cmd ok err) (hj : j ∈ c.world.inFlightQueue)
    (he : ¬ Expires reg j ⟨i, cmd, inp, c.world⟩) (hh : handed reg ⟨i, cmd, inp, c.world⟩ ≠ some j)
    (hr : returns cmd ≠ some j)
    (hm : ((exec reg cmd inp c.world).1.inFlightMeta j).retryCount = (c.world.inFlightMeta j).retryCount) :
    (holder reg j (⟨i, cmd, inp, c.world⟩ :: ks)).isSome ∧
      retryCount (exec reg cmd inp c.world).1 j ≤ ((exec reg cmd inp c.world).1.inFlightMeta j).retryCount.getD 0 := by
  obtain ⟨hsome, hle⟩ := h.fenced.inFlight j hj
  rw [holder_same he hh fun hc => absurd hc hr, hm]
  exact ⟨hsome, (h.stays_of_held hsome he).trans hle⟩

/-- What is registered now is held, and what was in flight stays as it was. -/
theorem Acting.inFlight_delivering {w n : String} {count : Nat} {g : GroupId}
    {ok : Reply (.reliableDequeue w n count g) → Proc}
    (h : Acting reg ks c i inp p (.reliableDequeue w n count g) ok err) (j : JobId)
    (hj : j ∈ (exec reg (.reliableDequeue w n count g) inp c.world).1.inFlightQueue) :
    (holder reg j (⟨i, .reliableDequeue w n count g, inp, c.world⟩ :: ks)).isSome ∧
      retryCount (exec reg (.reliableDequeue w n count g) inp c.world).1 j ≤
        ((exec reg (.reliableDequeue w n count g) inp c.world).1.inFlightMeta j).retryCount.getD 0 := by
  have he : ¬ Expires reg j ⟨i, .reliableDequeue w n count g, inp, c.world⟩ := fun he => by cases he.1
  by_cases hh : handed reg ⟨i, .reliableDequeue w n count g, inp, c.world⟩ = some j
  · rw [holder_handed he hh]
    refine ⟨rfl, ?_⟩
    have hcount := h.counted count rfl j
    simp only [handed, exec, L2.reliableDequeue] at hh ⊢
    split at hh
    · cases hh
    · rename_i k rest hready
      cases hh
      simp only [Function.update_self]
      exact hcount (by rw [hready]; rfl)
  · refine h.inFlight_of_same ?_ he hh (fun hr => by cases hr) ?_
    · simp only [handed, exec, L2.reliableDequeue] at hj hh
      split at hj
      · exact hj
      · rename_i k rest hready
        rw [hready] at hh
        rcases Core.ZSet.mem_zadd.mp hj with rfl | hj
        · exact absurd rfl hh
        · exact hj
    · simp only [handed, exec, L2.reliableDequeue] at hh ⊢
      split
      · rfl
      · rename_i k rest hready
        rw [hready] at hh
        have hne : j ≠ k := fun hjk => hh (hjk ▸ rfl)
        simp only [Function.update_of_ne hne]

theorem Acting.inFlight (h : Acting reg ks c i inp p cmd ok err) (j : JobId)
    (hj : j ∈ (exec reg cmd inp c.world).1.inFlightQueue) :
    (holder reg j (⟨i, cmd, inp, c.world⟩ :: ks)).isSome ∧
      retryCount (exec reg cmd inp c.world).1 j ≤ ((exec reg cmd inp c.world).1.inFlightMeta j).retryCount.getD 0 := by
  by_cases hf : flights cmd = true
  · cases cmd with
    | reliableDequeue => exact h.inFlight_delivering j hj
    | reliableAck k =>
      obtain ⟨hj, hne⟩ := Core.ZSet.mem_zrem.mp hj
      refine h.inFlight_of_same hj (fun he => by cases he.1) (fun hh => by cases hh) (fun hr => ?_) ?_
      · exact hne (Option.some.inj hr).symm
      · simp only [exec, L2.reliableAck, Function.update_of_ne hne]
    | extendDeadline k =>
      refine h.inFlight_of_same ?_ (fun he => by cases he.1) (fun hh => by cases hh) (fun hr => by cases hr) ?_
      · simp only [exec, L2.extendDeadline] at hj
        split at hj
        · rename_i hk
          rcases Core.ZSet.mem_zadd.mp hj with rfl | hj
          · exact hk
          · exact hj
        · exact hj
      · simp only [exec, L2.extendDeadline]
        split
        · rcases eq_or_ne j k with rfl | hne
          · simp only [Function.update_self]
          · simp only [Function.update_of_ne hne]
        · rfl
    | recoverOrphans =>
      obtain ⟨dead, jobs, hs, -⟩ := L2.recoverOrphans_spec inp.now reg.config.reliableQueue.maxRetryCount
        reg.config.reliableQueue.orphanRecoveryBatchSize c.world
      simp only [exec, hs] at hj
      obtain ⟨hj, hn⟩ := Core.ZSet.mem_foldl_zrem.mp hj
      refine h.inFlight_of_same hj (fun he => hn he.2) (fun hh => by cases hh) (fun hr => by cases hr) ?_
      simp only [exec, hs, if_neg hn]
    | _ => cases hf
  · have hf := eq_false_of_ne_true hf
    have hstays : transfers cmd = false := by
      cases cmd <;> first | rfl | cases hf
    obtain ⟨he, hh, hr⟩ := @stays_of_not_transfers reg j ⟨i, cmd, inp, c.world⟩ hstays
    have hframe := @flight_frame reg cmd inp c.world hf
    rw [hframe.1] at hj
    exact h.inFlight_of_same hj he hh hr (by rw [hframe.2])

theorem Acting.bounded (h : Acting reg ks c i inp p cmd ok err)
    (hM : reg.config.reliableQueue.maxRetryCount = reg.config.workerPool.maxRetryCount) (j : JobId) :
    retryCount (exec reg cmd inp c.world).1 j ≤ reg.config.workerPool.maxRetryCount := by
  rcases h.raise_cases j with hle | ⟨he, hinc | ⟨hexp, hlt⟩⟩
  · exact hle.trans (h.fenced.bounded j)
  · obtain ⟨job, hjob, rfl⟩ := Option.map_eq_some_iff.mp (h.owes.symm.trans hinc)
    obtain ⟨hle, hlt⟩ := (h.fenced.aware i p h.proc).owing job hjob
    omega
  · -- recovery goes by the metadata, which is not below the hash
    have hj := mem_expired hexp.2
    have hle := (h.fenced.inFlight j hj).2
    obtain ⟨d, hd⟩ := Core.ZSet.mem_iff_score.mp hj
    have hmeta : c.world.inFlightMeta j ≠ {} := by
      intro hnone
      have hdeadline := ((h.booked j).present d hd).1
      rw [show (Flight.store _).inFlightMeta j = {} from hnone] at hdeadline
      cases hdeadline
    rw [L2.orphanRetryCount, if_neg hmeta] at hlt
    omega

theorem Acting.aware_other (h : Acting reg ks c i inp p cmd ok err) (hk : k ≠ i) (hq : c.procs[k]? = some q) :
    Aware reg (⟨i, cmd, inp, c.world⟩ :: ks) (exec reg cmd inp c.world).1 k q := by
  have hA := h.fenced.aware k q hq
  refine ⟨fun j hj => held_or_lost (hA.works j hj) hk h.free_of_handed, fun x hx hh => ?_, fun job hjob => ?_⟩
  · obtain ⟨he, hh⟩ := holder_of_other hh hk
    exact (h.stays_of_held (by rw [hh]; rfl) he).trans (hA.loaded x hx hh)
  · obtain ⟨hle, hlt⟩ := hA.owing job hjob
    have hhand : inHand job.id q = 1 := inHand_of_owed (by rw [owed, hjob]; rfl)
    exact ⟨(h.stays_of_inHand hq hk (by omega)).trans hle, hlt⟩

theorem work_of_moves {E : List (JobId × GroupId)} {r : Reply cmd} {ds ds' : List Duty} (hm : Moves reg E cmd r ds ds')
    (hj : .work j ∈ ds') : transfers cmd = false ∧ .work j ∈ ds ∨ delivers cmd r = some j := by
  have hpairs : ∀ {pairs : List (JobId × GroupId)}, Duty.work j ∉ pairDuties pairs := by
    intro pairs hp
    obtain ⟨x, -, hx⟩ := List.mem_map.mp hp
    cases hx
  cases hm with
  | idle h => exact .inl ⟨transfers_of_idle h, hj⟩
  | delivered =>
    cases List.mem_singleton.mp hj
    exact .inr rfl
  | recovered => exact absurd hj hpairs
  | recorded | settled => exact .inl ⟨rfl, by simpa using hj⟩
  | _ => simp at hj

theorem Acting.aware_self (h : Acting reg ks c i inp p cmd ok err) :
    Aware reg (⟨i, cmd, inp, c.world⟩ :: ks) (exec reg cmd inp c.world).1 i (ok (exec reg cmd inp c.world).2) := by
  have hA := h.fenced.aware i p h.proc
  refine ⟨fun j hj => ?_, fun x hx hh => ?_, fun job hjob => ?_⟩
  · rcases work_of_moves h.moves hj with ⟨hc, hj⟩ | hd
    · obtain ⟨he, hh, hr⟩ := @stays_of_not_transfers reg j ⟨i, cmd, inp, c.world⟩ hc
      rw [holder_same he hh fun hret => absurd hret hr, lost_same he fun hhand => hh hhand.2]
      exact hA.works j hj
    · refine .inl (holder_handed (fun he => ?_) hd)
      cases cmd with
      | recoverOrphans => cases hd
      | _ => cases he.1
  · have hspec := loaded_spec reg p
    rw [h.view] at hspec
    obtain ⟨hc, hx⟩ := hspec.2.1 _ x hx
    obtain ⟨he, hhand, hr⟩ := @stays_of_not_transfers reg x.1 ⟨i, cmd, inp, c.world⟩ (transfers_of_idle hc)
    rw [holder_same he hhand fun hret => absurd hret hr] at hh
    refine (h.stays_of_held (by rw [hh]; rfl) he).trans ?_
    rcases hx with hx | hx
    · exact hA.loaded x hx hh
    · exact (hx inp c.world rfl).ge
  · have hspec := returned_spec reg p
    rw [h.view] at hspec
    have hret : if (returns cmd).isSome then Returned reg p cmd (ok (exec reg cmd inp c.world).2)
        else owing (ok (exec reg cmd inp c.world).2) = none := hspec.2.1 _
    split at hret
    · cases hret with
      | acked hd ho =>
        rw [ho] at hjob
        cases hjob
      | @nacked k job' e hn hc hp =>
        obtain ⟨-, hid, hload⟩ := work_of_nacks h.sound hn
        have hhold := h.holder_of_nacks hn
        rw [hp] at hjob
        unfold FailedPc.start at hjob
        split at hjob
        · rename_i hlt
          cases hjob
          have he : ¬ Expires reg k ⟨i, cmd, inp, c.world⟩ := fun he => by
            rw [hc] at he
            cases he.1
          obtain rfl : job.id = k := hid
          exact ⟨(h.stays_of_held (by rw [hhold]; rfl) he).trans (hA.loaded _ hload hhold), hlt⟩
        · cases hjob
    · rw [hret] at hjob
      cases hjob

end

/-! ## Runs -/

section
variable {reg : Registry} {ks : List Call} {w : Store} {i : Nat} {p : Proc}

/-- An activity that has nothing to do with any job. -/
theorem aware_idle (hd : duties p = []) (hl : loaded p = none) (ho : owing p = none) : Aware reg ks w i p := by
  refine ⟨fun j hj => ?_, fun x hx => ?_, fun job hjob => ?_⟩
  · rw [hd] at hj
    cases hj
  · rw [hl] at hx
    cases hx
  · rw [ho] at hjob
    cases hjob

theorem aware_of_started (h : Started p) : Aware reg ks w i p := by
  apply aware_idle <;> cases h <;> rfl

/-- An activity whose call rejects has no more in hand than before, and knows as much. -/
theorem Aware.rejected {E : List (JobId × GroupId)} {cmd : Cmd} {ok : Reply cmd → Proc} {err : Proc}
    (h : Aware reg ks w i p) (hs : Sound Own E p) (hv : p.view reg = .call cmd ok err) :
    Aware reg ks w i err ∧ ∀ j, inHand j err ≤ inHand j p := by
  have hdrop := drops_of_reject hs hv
  have hload := loaded_spec reg p
  have hret := returned_spec reg p
  rw [hv] at hload hret
  refine ⟨⟨fun j hj => ?_, fun x hx => h.loaded x (hload.2.2 x hx), fun job hjob => ?_⟩, fun j => ?_⟩
  · obtain hd | ⟨hd, -⟩ := hdrop
    · exact h.works j (hd ▸ hj)
    · rw [hd] at hj
      cases hj
  · rw [hret.2.2] at hjob
    cases hjob
  · unfold inHand
    obtain hd | ⟨hd, -⟩ := hdrop
    · rw [hd]
    · rw [hd]
      exact Nat.zero_le _

/-- A step of the activities alone. -/
theorem Fenced.same {c : State} (h : Fenced reg ks c) {ps : List Proc}
    (hsum : ∀ j, (ps.map (inHand j)).sum ≤ (c.procs.map (inHand j)).sum)
    (haware : ∀ (i : Nat) p, ps[i]? = some p → Aware reg ks c.world i p) : Fenced reg ks { c with procs := ps } := by
  refine ⟨fun j => ?_, h.inFlight, haware, h.bounded⟩
  have h1 := h.single j
  have h2 := hsum j
  simp only at h1 ⊢
  omega

theorem Fenced.step {t t' : Core.Traced State Label} {l : Label}
    (hM : reg.config.reliableQueue.maxRetryCount = reg.config.workerPool.maxRetryCount)
    (h : Fenced reg (calls reg t.past) t.state) (hr : (runs reg).Reachable t.state)
    (hone : ∀ j, (fetched t.state.log).countP (·.1 = j) ≤ 1)
    (hid : Identified (enqueued t.state.log) t.state.world)
    (hsound : ∀ (i : Nat) p, t.state.procs[i]? = some p → Sound Own (enqueued t.state.log) p)
    (hs : (runs reg).traced.step t l t') (hA : Assumed reg t.state l) (hG : Guarded reg t l) :
    Fenced reg (calls reg t'.past) t'.state := by
  obtain ⟨c, past⟩ := t
  obtain ⟨c', past'⟩ := t'
  obtain ⟨hs, rfl⟩ : (pipeline reg).Step c l c' ∧ past' = (c, l) :: past := hs
  obtain ⟨-, hown, hretry⟩ := hA
  obtain ⟨hin, hcount⟩ := hG
  cases hs with
  | @run i inp p cmd ok err hp hv =>
    have hact : Acting reg (calls reg past) c i inp p cmd ok err :=
      ⟨h, hone, hid, hsound i p hp, booked hr, hp, hv, onCalls_run hown hp hv, onCalls_run hretry hp hv,
        hin p hp, onCalls_run hcount hp hv⟩
    have hcalls : calls reg ((c, .run i inp) :: past) = ⟨i, cmd, inp, c.world⟩ :: calls reg past := by
      simp only [calls, List.filterMap_cons, @callOf_run reg c i inp p cmd ok err hp hv]
    rw [hcalls]
    refine ⟨fun j => ?_, hact.inFlight, ?_, hact.bounded hM⟩
    · have h1 := h.single j
      have h2 := hact.single j
      have h3 := Core.Program.sum_map_set (inHand j) hp (ok (exec reg cmd inp c.world).2)
      have hlog : deadLettered ((pipeline reg).ran c i cmd inp ok).log =
          letters cmd (exec reg cmd inp c.world).2 ++ deadLettered c.log := rfl
      rw [hlog]
      simp only [Core.Program.ran, pipeline, fetched_cons, List.countP_append, List.count_append] at h1 h2 h3 ⊢
      omega
    · exact Core.Program.forall_set (fun k q hk hq => hact.aware_other hk hq) hact.aware_self
  | @reject i p cmd ok err hp hv _ =>
    obtain ⟨haware, hle⟩ := (h.aware i p hp).rejected (hsound i p hp) hv
    refine h.same (fun j => ?_) (Core.Program.forall_set (fun k q _ hq => h.aware k q hq) haware)
    have hsum := Core.Program.sum_map_set (inHand j) hp err
    have := hle j
    simp only
    omega
  | @stop i p hp =>
    refine h.same (fun j => ?_)
      (Core.Program.forall_set (fun k q _ hq => h.aware k q hq) (aware_idle rfl rfl rfl))
    have hsum := Core.Program.sum_map_set (inHand j) hp Proc.done
    have hdone : inHand j .done = 0 := rfl
    simp only [pipeline]
    omega
  | @spawn t =>
    refine h.same (fun j => ?_)
      (Core.Program.forall_append (fun k q hq => h.aware k q hq) (aware_of_started (t.started reg)))
    have hstart : inHand j (t.start reg) = 0 := by simp [inHand, duties_start]
    simp only [pipeline, List.map_append, List.map_cons, List.map_nil, List.sum_append, List.sum_cons, List.sum_nil,
      hstart]
    exact le_refl _
  | @env e =>
    have haware : ∀ (k : Nat) q, c.procs[k]? = some q → Aware reg (calls reg past) (expire e c.world) k q := by
      intro k q hq
      obtain ⟨hworks, hload, howing⟩ := h.aware k q hq
      cases e <;> exact ⟨hworks, hload, howing⟩
    cases e <;> exact ⟨h.single, h.inFlight, haware, h.bounded⟩

theorem fenced_reachable {t : Core.Traced State Label}
    (hM : reg.config.reliableQueue.maxRetryCount = reg.config.workerPool.maxRetryCount)
    (h : ((runs reg).traced.restrict fun t l => Assumed reg t.state l ∧ Guarded reg t l).Reachable t) :
    Fenced reg (calls reg t.past) t.state := by
  induction h with
  | @init t hi =>
    obtain ⟨c, past⟩ := t
    obtain ⟨rfl, rfl⟩ : c = initialState ∧ past = [] := hi
    refine ⟨fun j => Nat.le_refl 0, fun j hj => absurd hj (Core.ZSet.notMem_empty j), fun i p hp => ?_,
      fun j => Nat.zero_le _⟩
    simp [initialState] at hp
  | @step t l t' hr hs ih =>
    obtain ⟨hs, hA, hG⟩ := hs
    have hrun : ((runs reg).restrict (Assumed reg)).Reachable t.state := hr.untraced fun _ _ h => h.1
    obtain ⟨hid, hsound⟩ := identity_reachable (fun _ _ h => h.2.1) hrun
    exact ih.step hM hrun.unrestrict (fetched_le_one (fun _ _ h => h.1) hrun) hid hsound hs hA hG

/-- In every run in which no worker nacks a delivery that recovery has taken
back and no job is registered with a lower retry count than its own: a job is
delivered at most once more than it may be retried, and dead-lettered at most once. -/
theorem retry_bound (reg : Registry)
    (hM : reg.config.reliableQueue.maxRetryCount = reg.config.workerPool.maxRetryCount) (t : Core.Traced State Label)
    (h : ((runs reg).traced.restrict fun t l => Assumed reg t.state l ∧ Guarded reg t l).Reachable t) (j : JobId) :
    ((delivered t.state.log).map Prod.fst).count j ≤ reg.config.workerPool.maxRetryCount + 1 ∧
      (deadLettered t.state.log).count j ≤ 1 := by
  have hF := fenced_reachable hM h
  have hrun : ((runs reg).restrict (Assumed reg)).Reachable t.state := h.untraced fun _ _ h => h.1
  have hone := fetched_le_one (fun _ _ h => h.1) hrun j
  constructor
  · have hdel := deliveries_le (fun _ _ h => h.2.1) (fun _ _ h => h.1) (fun _ _ h => h.2.2) hrun j
    have hbound := hF.bounded j
    omega
  · have hsingle := hF.single j
    omega

end

/-- Both services retry `n` times. -/
def retriesOf (n : Nat) : Registry :=
  { config := { workerPool := { maxRetryCount := n }, reliableQueue := { maxRetryCount := n } } }

/-- Worker `i` takes the job `j`, and its processor fails; its nack is next. -/
def failed (i now : Nat) : List Label :=
  [.spawn (.tick "worker-0" "i")] ++ runsAt i now 7 ++ [.run i { now, outcome := some (.threw "boom") }]

/-- With one retry: a failure, another one, and the dead-letter queue. -/
theorem retry_bound_failed : ∃ t : Core.Traced State Label, t.state.world.deadLetterQueue.map (·.jobId) = ["j"] ∧
    ((delivered t.state.log).map Prod.fst).count "j" = 2 ∧ (deadLettered t.state.log).count "j" ≤ 1 := by
  obtain ⟨t, hr, hP⟩ := Core.Program.exists_of_retrace (S := pipeline (retriesOf 1))
    (P := fun t : Core.Traced State Label => decide (t.state.world.deadLetterQueue.map (·.jobId) = ["j"] ∧
      ((delivered t.state.log).map Prod.fst).count "j" = 2))
    (show ((pipeline (retriesOf 1)).retrace
      (fun t l => decide (Assumed (retriesOf 1) t.state l ∧ Guarded (retriesOf 1) t l)) ⟨initialState, []⟩
      (oneJob ++ failed 2 3 ++ runsAt 2 3 4 ++ [.spawn .dispatchOnce] ++ runsAt 3 60000 2 ++ failed 4 60001 ++
        runsAt 4 60002 5)).any _ = true by decide +kernel)
  obtain ⟨hdlq, hdel⟩ := of_decide_eq_true hP
  exact ⟨t, hdlq, hdel, (retry_bound (retriesOf 1) rfl t (hr.weaken fun _ _ h => of_decide_eq_true h) "j").2⟩

/-- The first delivery is recovered and the job handed out again before the
first worker nacks. -/
def overtaken : List Label :=
  oneJob ++ failed 2 3 ++ [.spawn .recoverOnce] ++ runsAt 3 50003 1 ++ failed 4 50004 ++ runsAt 2 50005 4

/-- With one retry the job is delivered a third time before it is done or
dead-lettered; without retries both recovery and the worker dead-letter it. -/
theorem stale_nacks :
    (¬ ∀ (reg : Registry), reg.config.reliableQueue.maxRetryCount = reg.config.workerPool.maxRetryCount →
      ∀ c : State, ((runs reg).restrict (Assumed reg)).Reachable c → ∀ j, j ∉ (recorded c.log).map Prod.fst →
        j ∉ deadLettered c.log →
          ((delivered c.log).map Prod.fst).count j ≤ reg.config.workerPool.maxRetryCount + 1) ∧
    ¬ ∀ (reg : Registry), reg.config.reliableQueue.maxRetryCount = reg.config.workerPool.maxRetryCount →
      ∀ c : State, ((runs reg).restrict (Assumed reg)).Reachable c → ∀ j, (deadLettered c.log).count j ≤ 1 := by
  constructor
  · intro h
    obtain ⟨c, hr, hP⟩ := Core.Program.exists_of_replay (S := pipeline (retriesOf 1))
      (P := fun c : State => decide ("j" ∉ (recorded c.log).map Prod.fst ∧ "j" ∉ deadLettered c.log ∧
        ((delivered c.log).map Prod.fst).count "j" = 3))
      (show ((pipeline (retriesOf 1)).replay (fun c l => decide (Assumed (retriesOf 1) c l)) initialState
        (overtaken ++ [.spawn .dispatchOnce] ++ runsAt 5 60000 2 ++ [.spawn (.tick "worker-1" "i")] ++
          runsAt 6 60001 5)).any _ = true by decide +kernel)
    obtain ⟨hrec, hdead, hdel⟩ := of_decide_eq_true hP
    have := h (retriesOf 1) rfl c (hr.weaken fun _ _ h => of_decide_eq_true h) "j" hrec hdead
    rw [hdel] at this
    exact absurd this (by decide)
  · intro h
    obtain ⟨c, hr, hP⟩ := Core.Program.exists_of_replay (S := pipeline (retriesOf 0))
      (P := fun c : State => decide ((deadLettered c.log).count "j" = 2))
      (show ((pipeline (retriesOf 0)).replay (fun c l => decide (Assumed (retriesOf 0) c l)) initialState
        (oneJob ++ failed 2 3 ++ [.spawn .recoverOnce] ++ runsAt 3 50003 1 ++ runsAt 2 50004 2)).any _ = true by
          decide +kernel)
    have := h (retriesOf 0) rfl c (hr.weaken fun _ _ h => of_decide_eq_true h) "j"
    rw [of_decide_eq_true hP] at this
    exact absurd this (by decide)

end NestPlayground.L5.RetryBound
