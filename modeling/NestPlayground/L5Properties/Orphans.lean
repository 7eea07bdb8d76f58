import NestPlayground.Core.Sequential
import NestPlayground.L4Pipeline.Frames

/-!
# Accounting for dead-lettered orphans

`recover-orphans.lua` takes the jobs it dead-letters out of flight and names
them in its reply, and the loop of `handleDeadLetteredOphans` records and acks
each. The reply exists once. So when the loop is cut short, the jobs it has not
acked stay unaccounted whatever later cycles do (`unaccounted`); none is
accounted twice either (`Accounts`).
-/
namespace NestPlayground.L5.Orphans
open L1 L3 L4

/-- The jobs a call reports as dead-lettered, with the group each names. -/
def letters : (cmd : Cmd) → Reply cmd → List (JobId × GroupId)
  | .recoverOrphans, r => r.pairs
  | _, _ => []

/-- The results recorded as failed. -/
def failures : Cmd → Option (JobId × GroupId)
  | .recordJobResult r => if r.success then none else some (r.jobId, r.groupId)
  | _ => none

def failed (log : Log) : List (JobId × GroupId) := log.filterMap fun e => failures e.cmd

/-- The calls of activity `i`. -/
def by_ (i : Nat) (log : Log) : Log := log.filter (·.pid = i)

/-- The batch of activity `i`. -/
def batch (i : Nat) (log : Log) : List (JobId × GroupId) := (by_ i log).flatMap fun e => letters e.cmd e.reply

def groupOf (s : Store) (j : JobId) : GroupId := (s.jobs j).groupId.getD ""

/-- Each job of the batch was recorded once, as failed, and counted once, for its own group. -/
def Accounted (i : Nat) (c : State) : Prop :=
  ∀ x ∈ batch i c.log, (failed c.log).countP (·.1 = x.1) = 1 ∧ (recorded c.log).countP (·.1 = x.1) = 1 ∧
    (acked c.log).countP (·.1 = x.1) = 1 ∧ (x.1, groupOf c.world x.1) ∈ acked c.log

/-- Only recovery cycles and watch cycles start. -/
def Cycles : Label → Bool
  | .spawn .recoverOnce | .spawn .watchCycle => true
  | .spawn _ => false
  | _ => true

/-- The runs of such cycles, any number of them at a time, on the database `s`. -/
def cycles (reg : Registry) (s : Store) : Core.LTS State Label :=
  ((pipeline reg).lts ⟨s, [], []⟩).restrict fun _ l => Cycles l = true

/-- In the loop, with the job it is about to account for and those left; `none`
in the finalization that follows an ack. -/
inductive Position (ps rs as : List (JobId × GroupId)) : Proc → Prop where
  | script (hp : ps = []) (hr : rs = []) (ha : as = []) : Position ps rs as (.recovery .script)
  | record {done j g rest} (hp : ps = done ++ (j, g) :: rest) (hr : rs = done.reverse) (ha : as = done.reverse) :
      Position ps rs as (.recovery (.record j g rest))
  | ack {done j g rest} (hp : ps = done ++ (j, g) :: rest) (hr : rs = (j, g) :: done.reverse)
      (ha : as = done.reverse) : Position ps rs as (.recovery (.ack j g rest))
  | finalize {done f rest} (hp : ps = done ++ rest) (hr : rs = done.reverse) (ha : as = done.reverse) :
      Position ps rs as (.recovery (.finalize f rest))
  | aside {p : Proc} (h : p.service = .watch ∨ p.service = .done) : Position ps rs as p

section
variable {reg : Registry} {s s' : Store} {log : Log} {c c' : State} {i k : Nat} {cmd : Cmd}
  {ps rs as : List (JobId × GroupId)}

theorem position_loop {done rest : List (JobId × GroupId)} (hp : ps = done ++ rest) (hr : rs = done.reverse)
    (ha : as = done.reverse) : Position ps rs as (resume .recovery (RecoveryPc.loop rest)) := by
  cases rest with
  | nil => exact .aside (.inr rfl)
  | cons x rest => exact .record hp hr ha

/-- What an activity of such a run calls. -/
structure Allowed (ps : List (JobId × GroupId)) (cmd : Cmd) : Prop where
  script : cmd = .recoverOrphans → ps = []
  flight : flights cmd = true → cmd = .recoverOrphans
  enqueue : enqueues cmd = none
  failed : failures cmd = records cmd
  recorded : ∀ x ∈ records cmd, x ∈ ps
  acked : ∀ x ∈ acks cmd, x ∈ ps

theorem allowed_housekeeping (h : housekeeping cmd = true) : Allowed ps cmd := by
  constructor <;> intros <;> cases cmd <;> first | rfl | contradiction

theorem letters_housekeeping (h : housekeeping cmd = true) (r : Reply cmd) : letters cmd r = [] := by
  cases cmd <;> first | rfl | cases h

/-- Every await of the recovery loop and of the watcher. -/
theorem position_spec {p : Proc} (h : Position ps rs as p) :
    (p.view reg).Spec (Allowed ps)
      (fun cmd r p' => Position (letters cmd r ++ ps) ((records cmd).toList ++ rs) ((acks cmd).toList ++ as) p')
      fun _ p' => Position ps rs as p' := by
  have house : ∀ {Pc α : Type} (a : Await Pc α) (mk : Core.Next Pc α → Proc), Housekeeps a →
      (∀ x, Position ps rs as (mk x)) → (a.map mk).Spec (Allowed ps)
        (fun cmd r p' => Position (letters cmd r ++ ps) ((records cmd).toList ++ rs) ((acks cmd).toList ++ as) p')
        fun _ p' => Position ps rs as p' := by
    intro Pc α a mk ha hmk
    cases a with
    | call cmd ok err =>
      have hsame : records cmd = none ∧ acks cmd = none := by
        have := ha.1
        cases cmd <;> first | exact ⟨rfl, rfl⟩ | cases this
      refine ⟨allowed_housekeeping ha.1, fun r => ?_, hmk _⟩
      simp only [letters_housekeeping ha.1, hsame.1, hsame.2]
      exact hmk _
    | halt => trivial
  cases h with
  | script hp hr ha =>
    subst hp hr ha
    refine ⟨?_, fun r => ?_, .aside (.inr rfl)⟩
    · constructor <;> intros <;> first | rfl | contradiction
    · simp only [letters, records, acks, Option.toList_none, List.append_nil]
      exact @position_loop _ _ _ [] _ rfl rfl rfl
  | @record done j g rest hp hr ha =>
    have hmem : (j, g) ∈ ps := by simp [hp]
    refine ⟨⟨?_, ?_, rfl, rfl, ?_, ?_⟩, fun r => .ack hp (congrArg _ hr) ha, .aside (.inr rfl)⟩
    · intro hcmd
      cases hcmd
    · intro hcmd
      cases hcmd
    · intro x hx
      cases hx
      exact hmem
    · intro x hx
      cases hx
  | @ack done j g rest hp hr ha =>
    have hmem : (j, g) ∈ ps := by simp [hp]
    have hps : ps = (done ++ [(j, g)]) ++ rest := by rw [hp, List.append_assoc]; rfl
    have hrs : rs = (done ++ [(j, g)]).reverse := by rw [hr, List.reverse_append]; rfl
    have has : (j, g) :: as = (done ++ [(j, g)]).reverse := by rw [ha, List.reverse_append]; rfl
    refine ⟨⟨?_, ?_, rfl, rfl, ?_, ?_⟩, fun r => ?_, .aside (.inr rfl)⟩
    · intro hcmd
      cases hcmd
    · intro hcmd
      cases hcmd
    · intro x hx
      cases hx
    · intro x hx
      cases hx
      exact hmem
    · cases r with
      | false => exact position_loop hps hrs has
      | true => exact .finalize hps hrs has
  | @finalize done f rest hp hr ha =>
    simp only [Proc.view, RecoveryPc.view, Core.Action.map_map]
    refine house _ _ (finalize_calls reg f) fun x => ?_
    cases x with
    | goto f' => exact .finalize hp hr ha
    | ret b => exact position_loop hp hr ha
    | throw => exact .aside (.inr rfl)
  | aside h =>
    cases p with
    | watch p =>
      refine house _ _ (watch_calls reg p) fun x => ?_
      cases x with
      | goto p' => exact .aside (.inl rfl)
      | ret b => exact .aside (.inr rfl)
      | throw => exact .aside (.inr rfl)
    | done => trivial
    | _ => rcases h with h | h <;> cases h

/-! ## All activities together -/

@[simp] theorem by_self (r : Reply cmd) : by_ i (⟨i, cmd, r⟩ :: log) = ⟨i, cmd, r⟩ :: by_ i log := by
  simp [by_]

theorem by_other (h : k ≠ i) (r : Reply cmd) : by_ i (⟨k, cmd, r⟩ :: log) = by_ i log := by
  simp [by_, h]

theorem batch_cons (i k : Nat) (r : Reply cmd) (log : Log) :
    batch k (⟨i, cmd, r⟩ :: log) = (if i = k then letters cmd r else []) ++ batch k log := by
  by_cases h : i = k
  · subst h
    simp [batch]
  · rw [batch, by_other h, if_neg h]
    rfl

theorem mem_batch_cons {x : JobId × GroupId} (h : x ∈ batch k log) (r : Reply cmd) :
    x ∈ batch k (⟨i, cmd, r⟩ :: log) := by
  rw [batch_cons]
  exact List.mem_append_right _ h

/-- The batches are of different jobs, none of them in flight, and each record
and each ack is for a job of the caller's batch. -/
structure Accounts (s : Store) (log : Log) : Prop where
  nodup : ∀ i, ((batch i log).map Prod.fst).Nodup
  apart : ∀ i k, ∀ x ∈ batch i log, ∀ y ∈ batch k log, x.1 = y.1 → i = k
  away : ∀ i, ∀ x ∈ batch i log, x.1 ∉ s.inFlightQueue
  failed : failed log = recorded log
  recorded : ∀ e ∈ log, ∀ x ∈ records e.cmd, x ∈ batch e.pid log
  acked : ∀ e ∈ log, ∀ x ∈ acks e.cmd, x ∈ batch e.pid log

theorem failed_cons (r : Reply cmd) : failed (⟨i, cmd, r⟩ :: log) = (failures cmd).toList ++ failed log := by
  cases h : failures cmd <;> simp [failed, h]

/-- The jobs of a reply were in flight and no longer are. -/
theorem letters_taken {inp : Input} :
    ((letters .recoverOrphans (exec reg .recoverOrphans inp s).2).map Prod.fst).Nodup ∧
    ∀ x ∈ letters .recoverOrphans (exec reg .recoverOrphans inp s).2,
      x.1 ∈ s.inFlightQueue ∧ x.1 ∉ (exec reg .recoverOrphans inp s).1.inFlightQueue := by
  obtain ⟨dead, jobs, he, hpairs, -, -⟩ := L2.recoverOrphans_spec inp.now reg.config.reliableQueue.maxRetryCount
    reg.config.reliableQueue.orphanRecoveryBatchSize s
  simp only [letters, exec, hpairs, he]
  constructor
  · simp only [L2.deadLettered, List.map_map, Function.comp_def, List.map_id']
    exact (Core.ZSet.nodup_rangeByScore _ _ _).filter _
  · intro x hx
    have hmem := ((L2.mem_deadLettered _).mp hx).1
    exact ⟨Core.ZSet.mem_of_mem_rangeByScore hmem, fun h => (Core.ZSet.mem_foldl_zrem.mp h).2 hmem⟩

theorem recovered_fewer {inp : Input} {j : JobId} (h : j ∈ (exec reg .recoverOrphans inp s).1.inFlightQueue) :
    j ∈ s.inFlightQueue := by
  obtain ⟨dead, jobs, he, -⟩ := L2.recoverOrphans_spec inp.now reg.config.reliableQueue.maxRetryCount
    reg.config.reliableQueue.orphanRecoveryBatchSize s
  simp only [exec, he] at h
  exact (Core.ZSet.mem_foldl_zrem.mp h).1

theorem Accounts.call {inp : Input} (h : Accounts s log) (hc : Allowed (batch i log) cmd) :
    Accounts (exec reg cmd inp s).1 (⟨i, cmd, (exec reg cmd inp s).2⟩ :: log) := by
  have hfailed : Orphans.failed (⟨i, cmd, (exec reg cmd inp s).2⟩ :: log) =
      L4.recorded (⟨i, cmd, (exec reg cmd inp s).2⟩ :: log) := by
    rw [failed_cons, recorded_cons, hc.failed, h.failed]
  have hrecorded : ∀ e ∈ (⟨i, cmd, (exec reg cmd inp s).2⟩ :: log : Log), ∀ x ∈ records e.cmd,
      x ∈ batch e.pid (⟨i, cmd, (exec reg cmd inp s).2⟩ :: log) := by
    intro e he x hx
    rcases List.mem_cons.mp he with rfl | he
    · exact mem_batch_cons (hc.recorded x hx) _
    · exact mem_batch_cons (h.recorded e he x hx) _
  have hacked : ∀ e ∈ (⟨i, cmd, (exec reg cmd inp s).2⟩ :: log : Log), ∀ x ∈ acks e.cmd,
      x ∈ batch e.pid (⟨i, cmd, (exec reg cmd inp s).2⟩ :: log) := by
    intro e he x hx
    rcases List.mem_cons.mp he with rfl | he
    · exact mem_batch_cons (hc.acked x hx) _
    · exact mem_batch_cons (h.acked e he x hx) _
  by_cases hs : cmd = .recoverOrphans
  · subst hs
    have hnil := hc.script rfl
    obtain ⟨hnodup, htaken⟩ := @letters_taken reg s inp
    have hnew : ∀ k x, x ∈ batch k (⟨i, .recoverOrphans, (exec reg .recoverOrphans inp s).2⟩ :: log) →
        (k = i ∧ x ∈ letters .recoverOrphans (exec reg .recoverOrphans inp s).2) ∨ x ∈ batch k log := by
      intro k x hx
      rw [batch_cons] at hx
      rcases List.mem_append.mp hx with hx | hx
      · split at hx
        · exact .inl ⟨by omega, hx⟩
        · cases hx
      · exact .inr hx
    refine ⟨fun k => ?_, fun k l x hx y hy hxy => ?_, fun k x hx => ?_, hfailed, hrecorded, hacked⟩
    · rw [batch_cons]
      split
      · rename_i hk
        rw [← hk, hnil, List.append_nil]
        exact hnodup
      · exact h.nodup k
    · rcases hnew k x hx with ⟨hk, hx'⟩ | hx'
      · rcases hnew l y hy with ⟨hl, -⟩ | hy'
        · rw [hk, hl]
        · exact absurd (hxy ▸ (htaken x hx').1) (h.away l y hy')
      · rcases hnew l y hy with ⟨-, hy'⟩ | hy'
        · exact absurd (hxy ▸ (htaken y hy').1) (h.away k x hx')
        · exact h.apart k l x hx' y hy' hxy
    · rcases hnew k x hx with ⟨-, hx'⟩ | hx'
      · exact (htaken x hx').2
      · exact fun hmem => h.away k x hx' (recovered_fewer hmem)
  · have hsame : ∀ k, batch k (⟨i, cmd, (exec reg cmd inp s).2⟩ :: log) = batch k log := by
      intro k
      have hnone : letters cmd (exec reg cmd inp s).2 = [] := by
        cases cmd <;> first | rfl | exact absurd rfl hs
      rw [batch_cons, hnone, ite_self]
      rfl
    have hflight := (@flight_frame reg cmd inp s (eq_false_of_ne_true fun hf => hs (hc.flight hf))).1
    refine ⟨?_, ?_, ?_, hfailed, hrecorded, hacked⟩
    · simpa only [hsame] using h.nodup
    · simpa only [hsame] using h.apart
    · simpa only [hsame, hflight] using h.away

theorem accounts_outline (reg : Registry) : Core.Program.Outline (pipeline reg)
    (fun c l => Cycles l = true ∧ ∀ e ∈ c.log, e.pid < c.procs.length) Accounts
    fun _ log i p => Position (batch i log) (recorded (by_ i log)) (acked (by_ i log)) p where
  run {c} {i} {inp p cmd ok err} hi ha hp hv _ := by
    have hspec := @position_spec reg _ _ _ p (ha i p hp)
    rw [show p.view reg = .call cmd ok err from hv] at hspec
    refine ⟨hi.call hspec.1, ?_, fun k q hk hq => ?_⟩
    · have := hspec.2.1 (exec reg cmd inp c.world).2
      simpa only [Core.Program.ran, pipeline, batch_cons, if_true, by_self, recorded_cons, acked_cons] using this
    · have := ha k q hq
      simpa only [Core.Program.ran, pipeline, batch_cons, if_neg hk.symm, by_other hk.symm, List.nil_append] using this
  reject {c} {i p cmd ok err} _ ha hp hv _ := by
    have hspec := @position_spec reg _ _ _ p ha
    rw [show p.view reg = .call cmd ok err from hv] at hspec
    exact hspec.2.2
  dead _ _ _ := .aside (.inr rfl)
  spawn {c} {t} hi ht := by
    have hnone : by_ c.procs.length c.log = [] := by
      refine List.filter_eq_nil_iff.mpr fun e he hpid => ?_
      have := ht.2 e he
      simp only [decide_eq_true_eq] at hpid
      omega
    simp only [batch, hnone]
    have htask := ht.1
    cases t with
    | recoverOnce => exact .script rfl rfl rfl
    | watchCycle => exact .aside (.inl rfl)
    | _ => cases htask
  env {w log} e h := by
    refine ⟨?_, fun _ _ h => h⟩
    cases e <;> exact ⟨h.nodup, h.apart, h.away, h.failed, h.recorded, h.acked⟩

theorem accounts_reachable (h : (cycles reg s).Reachable c) : Accounts c.world c.log ∧ ∀ (i : Nat) p,
    c.procs[i]? = some p → Position (batch i c.log) (recorded (by_ i c.log)) (acked (by_ i c.log)) p := by
  have hr := h.enrich fun c h => (Core.Program.follows_reachable rfl ⟨rfl, rfl⟩ h).1
  have hnone : Accounts s [] := by constructor <;> simp [batch, by_, failed, recorded]
  have h₀ : Core.Program.Holds Accounts (fun _ log i p =>
      Position (batch i log) (recorded (by_ i log)) (acked (by_ i log)) p) (⟨s, [], []⟩ : State) :=
    ⟨hnone, fun i p hp => (by cases hp)⟩
  exact ((accounts_outline reg).inductive h₀).reachable _ hr

theorem groupOf_reachable (h : (cycles reg s).Reachable c) (j : JobId) : groupOf c.world j = groupOf s j := by
  have hsame : (c.world.jobs j).SameJob (s.jobs j) := by
    induction h with
    | init hc =>
      cases hc
      exact .refl _
    | @step c l c' hr hs ih =>
      obtain ⟨hs, -⟩ := hs
      cases hs with
      | @run i inp p cmd ok err hp hv =>
        have hspec := @position_spec reg _ _ _ p ((accounts_reachable hr).2 i p hp)
        rw [show p.view reg = .call cmd ok err from hv] at hspec
        exact (jobs_sameJob hspec.1.enqueue j).trans ih
      | @env e => cases e <;> exact ih
      | reject | stop | spawn => exact ih
  rw [groupOf, groupOf, hsame.groupId]

/-! ## After the fault -/

/-- The activity accounts for no further job. -/
inductive Doomed : Proc → Prop where
  | done : Doomed .done
  | release {g token rest} : Doomed (.recovery (.finalize (.release g token none) rest))

/-- A rejected call ends the loop, if need be after the lock is released. -/
theorem doomed_of_rejection {q : RecoveryPc} : (q.view reg).Spec (fun _ => True) (fun _ _ _ => True)
    fun _ x => Doomed (resume .recovery x) := by
  cases q with
  | finalize f rest =>
    cases f with
    | acquire g p => cases p <;> exact ⟨trivial, fun _ => trivial, .done⟩
    | aggregate g token p => cases p <;> exact ⟨trivial, fun _ => trivial, .release⟩
    | release => exact ⟨trivial, fun _ => trivial, .done⟩
    | _ => exact ⟨trivial, fun _ => trivial, .release⟩
  | _ => exact ⟨trivial, fun _ => trivial, .done⟩

/-- Activity `i` is doomed and has accounted for no job since `c`. -/
structure Ended (i : Nat) (c c' : State) : Prop where
  doomed : ∃ p, c'.procs[i]? = some p ∧ Doomed p
  batch : batch i c'.log = batch i c.log
  recorded : recorded (by_ i c'.log) = recorded (by_ i c.log)
  acked : acked (by_ i c'.log) = acked (by_ i c.log)

theorem Ended.step {l : Label} {c'' : State} (h : Ended i c c') (hs : (pipeline reg).Step c' l c'') :
    Ended i c c'' := by
  obtain ⟨⟨p, hp, hd⟩, hbatch, hrecorded, hacked⟩ := h
  have hlt := (List.getElem?_eq_some_iff.mp hp).1
  cases hs with
  | @run k inp q cmd ok err hq hv =>
    rcases eq_or_ne k i with rfl | hk
    · cases hp.symm.trans hq
      cases hd with
      | done => cases hv
      | release =>
        cases hv
        refine ⟨⟨_, List.getElem?_set_self hlt, .done⟩, ?_, ?_, ?_⟩
        · simpa only [Core.Program.ran, batch_cons, if_true, letters, List.nil_append] using hbatch
        · simpa only [Core.Program.ran, by_self, recorded_cons, records, Option.toList_none, List.nil_append]
            using hrecorded
        · simpa only [Core.Program.ran, by_self, acked_cons, acks, Option.toList_none, List.nil_append] using hacked
    · refine ⟨⟨p, ?_, hd⟩, ?_, ?_, ?_⟩
      · simpa only [Core.Program.ran, List.getElem?_set_ne hk] using hp
      · simpa only [Core.Program.ran, batch_cons, if_neg hk, List.nil_append] using hbatch
      · simpa only [Core.Program.ran, by_other hk] using hrecorded
      · simpa only [Core.Program.ran, by_other hk] using hacked
  | @reject k q cmd ok err hq hv =>
    refine ⟨?_, hbatch, hrecorded, hacked⟩
    rcases eq_or_ne k i with rfl | hk
    · cases hp.symm.trans hq
      cases hd with
      | done => cases hv
      | release =>
        cases hv
        exact ⟨_, List.getElem?_set_self hlt, .done⟩
    · exact ⟨p, by simpa only [List.getElem?_set_ne hk] using hp, hd⟩
  | @stop k q hq =>
    refine ⟨?_, hbatch, hrecorded, hacked⟩
    rcases eq_or_ne k i with rfl | hk
    · exact ⟨_, List.getElem?_set_self hlt, .done⟩
    · exact ⟨p, by simpa only [List.getElem?_set_ne hk] using hp, hd⟩
  | spawn => exact ⟨⟨p, by simpa only [List.getElem?_append_left hlt] using hp, hd⟩, hbatch, hrecorded, hacked⟩
  | env => exact ⟨⟨p, hp, hd⟩, hbatch, hrecorded, hacked⟩

/-- A fault that strikes activity `i` in its loop: one of its calls rejects, or the process stops. -/
theorem ended_of_fault {l : Label} {q : RecoveryPc} (hq : c.procs[i]? = some (.recovery q))
    (hl : l = .reject i ∨ l = .stop i) (hs : (pipeline reg).Step c l c') : Ended i c c' := by
  have hlt := (List.getElem?_eq_some_iff.mp hq).1
  rcases hl with rfl | rfl
  · cases hs with
    | @reject _ p cmd ok err hp hv =>
      cases hq.symm.trans hp
      have hspec : (Proc.view reg (.recovery q)).Spec (fun _ => True) (fun _ _ _ => True) fun _ p => Doomed p :=
        (@doomed_of_rejection reg q).map (fun _ _ _ _ => trivial) fun _ _ h => h
      rw [show Proc.view reg (.recovery q) = .call cmd ok err from hv] at hspec
      exact ⟨⟨_, List.getElem?_set_self hlt, hspec.2.2⟩, rfl, rfl, rfl⟩
  · cases hs with
    | stop => exact ⟨⟨_, List.getElem?_set_self hlt, .done⟩, rfl, rfl, rfl⟩

theorem Ended.steps {c'' : State} (h : Ended i c c') (hs : (cycles reg s).Steps c' c'') : Ended i c c'' :=
  hs.preserves (fun _ _ _ h hs => h.step hs.1) h

/-- What is recorded or acked for a job of the batch of activity `i`, activity `i` records or acks. -/
theorem count_by {f : Core.Entry Reply → Option (JobId × GroupId)} {x : JobId × GroupId} (h : Accounts s log)
    (hf : ∀ e ∈ log, ∀ y ∈ f e, y ∈ batch e.pid log) (hx : x ∈ batch i log) :
    (log.filterMap f).countP (·.1 = x.1) = ((by_ i log).filterMap f).countP (·.1 = x.1) := by
  have hcaller : ∀ e ∈ log, ∀ y ∈ f e, y.1 = x.1 → e.pid = i :=
    fun e he y hy hxy => h.apart _ _ y (hf e he y hy) x hx hxy
  clear hf h hx
  induction log with
  | nil => rfl
  | cons e log ih =>
    have ih := ih fun e he => hcaller e (List.mem_cons_of_mem _ he)
    have hcons : by_ i (e :: log) = if e.pid = i then e :: by_ i log else by_ i log := by
      simp [by_, List.filter_cons]
    cases hy : f e with
    | none =>
      rw [List.filterMap_cons_none hy, ih, hcons]
      split
      · rw [List.filterMap_cons_none hy]
      · rfl
    | some y =>
      rw [List.filterMap_cons_some hy, List.countP_cons, ih, hcons]
      by_cases hp : e.pid = i
      · rw [if_pos hp, List.filterMap_cons_some hy, List.countP_cons]
      · have hne : y.1 ≠ x.1 := fun he => hp (hcaller e List.mem_cons_self y hy he)
        simp [hp, hne]

/-- A list of pairs with different first components has one of each. -/
theorem countP_of_mem {x : JobId × GroupId} (hn : (ps.map Prod.fst).Nodup) (hx : x ∈ ps) :
    ps.countP (·.1 = x.1) = 1 := by
  rw [countP_fst]
  exact List.count_eq_one_of_mem hn (List.mem_map_of_mem hx)

/-- Once the loop was cut short, the batch is accounted for exactly if its last
job was acked and every job was counted for its own group. -/
theorem accounted_iff {q : RecoveryPc} (h : (cycles reg s).Reachable c) (hq : c.procs[i]? = some (.recovery q))
    (hloop : q ≠ .script) (h' : (cycles reg s).Reachable c') (hend : Ended i c c') :
    Accounted i c' ↔ (∃ f, q = .finalize f []) ∧ ∀ x ∈ batch i c.log, x.2 = groupOf c'.world x.1 := by
  obtain ⟨hacc, -⟩ := accounts_reachable h'
  obtain ⟨hacc₀, hpos⟩ := accounts_reachable h
  have hrec : ∀ x ∈ batch i c.log,
      (recorded c'.log).countP (·.1 = x.1) = (recorded (by_ i c.log)).countP (·.1 = x.1) := by
    intro x hx
    rw [← hend.batch] at hx
    rw [← hend.recorded]
    exact count_by hacc hacc.recorded hx
  have hack : ∀ x ∈ batch i c.log,
      (acked c'.log).countP (·.1 = x.1) = (acked (by_ i c.log)).countP (·.1 = x.1) := by
    intro x hx
    rw [← hend.batch] at hx
    rw [← hend.acked]
    exact count_by hacc hacc.acked hx
  -- a job that the loop had not come to, or had not acked, is never acked
  have hshort : ∀ done x rest, batch i c.log = done ++ x :: rest → acked (by_ i c.log) = done.reverse →
      ¬ Accounted i c' := by
    intro done x rest hp ha hall
    have hx : x ∈ batch i c.log := by simp [hp]
    have hone := (hall x (hend.batch ▸ hx)).2.2.1
    rw [hack x hx, ha, List.countP_reverse] at hone
    have hn := hp ▸ hacc₀.nodup i
    obtain ⟨y, hy, hxy⟩ := List.countP_pos_iff.mp (hone ▸ Nat.one_pos)
    rw [List.map_append, List.map_cons] at hn
    exact (List.nodup_append.mp hn).2.2 y.1 (List.mem_map_of_mem hy) x.1 (by simp) (by simpa using hxy)
  cases hpos i _ hq with
  | script => exact absurd rfl hloop
  | record hp _ ha => exact iff_of_false (hshort _ _ _ hp ha) fun ⟨⟨f, hf⟩, _⟩ => (by cases hf)
  | ack hp _ ha => exact iff_of_false (hshort _ _ _ hp ha) fun ⟨⟨f, hf⟩, _⟩ => (by cases hf)
  | @finalize done f rest hp hr ha =>
    cases rest with
    | cons x rest => exact iff_of_false (hshort _ _ _ hp ha) fun ⟨⟨f', hf⟩, _⟩ => (by cases hf)
    | nil =>
      rw [List.append_nil] at hp
      subst hp
      constructor
      · refine fun hall => ⟨⟨f, rfl⟩, fun x hx => ?_⟩
        have hx' : x ∈ batch i c'.log := hend.batch ▸ hx
        obtain ⟨e, he, hack'⟩ := List.mem_filterMap.mp (hall x hx').2.2.2
        have hmem := hacc.acked e he _ hack'
        obtain rfl := hacc.apart _ _ _ hmem x hx' rfl
        exact congrArg Prod.snd (List.inj_on_of_nodup_map (hacc.nodup _) hx' hmem rfl)
      · rintro ⟨-, hown⟩ x hx
        rw [hend.batch] at hx
        have hone := countP_of_mem (hacc₀.nodup i) hx
        have hrecorded : (recorded c'.log).countP (·.1 = x.1) = 1 := by
          rw [hrec x hx, hr, List.countP_reverse, hone]
        refine ⟨hacc.failed ▸ hrecorded, hrecorded, ?_, ?_⟩
        · rw [hack x hx, ha, List.countP_reverse, hone]
        · have hmem : x ∈ acked (by_ i c'.log) := by
            rw [hend.acked, ha]
            exact List.mem_reverse.mpr hx
          rw [← hown x hx]
          exact (List.filter_sublist.filterMap _).subset hmem
  | aside h => rcases h with h | h <;> cases h

/-- However many cycles follow a fault in the loop: the jobs of the batch are
accounted for exactly if the fault came after the last ack and the script
reported each job with its own group. -/
theorem orphans_accounted {reg : Registry} {s : Store} {c c₁ c₂ : State} {i : Nat} {q : RecoveryPc} {l : Label}
    (h : (cycles reg s).Reachable c) (hq : c.procs[i]? = some (.recovery q)) (hloop : q ≠ .script)
    (hl : l = .reject i ∨ l = .stop i) (hfault : (pipeline reg).Step c l c₁) (hafter : (cycles reg s).Steps c₁ c₂) :
    Accounted i c₂ ↔ (∃ f, q = .finalize f []) ∧ ∀ x ∈ batch i c.log, x.2 = groupOf c.world x.1 := by
  have hstep : (cycles reg s).step c l c₁ := by
    rcases hl with rfl | rfl <;> exact ⟨hfault, rfl⟩
  have h₂ : (cycles reg s).Reachable c₂ := (h.step hstep).steps hafter
  rw [accounted_iff h hq hloop h₂ ((ended_of_fault hq hl hfault).steps hafter)]
  simp only [groupOf_reachable h, groupOf_reachable h₂]

end

/-! ## Two databases -/

/-- These jobs of `g` are in flight with a deadline of 5 and no retry left. -/
def overdue (js : List JobId) : Store := { Store.empty with
  inFlightQueue := js.foldl (fun z j => z.zadd 5 j) .empty
  inFlightMeta := fun j => if j ∈ js then { jobId := some j, retryCount := some 3, groupId := some "g" } else {}
  jobs := fun j => if j ∈ js then { id := some j, groupId := some "g" } else {}
  groupMeta := fun g => if g = "g" then { status := some .running, totalJobs := some js.length } else {} }

def isRecording : Proc → Bool
  | .recovery (.record _ _ _) => true
  | _ => false

def isFinalizingLast : Proc → Bool
  | .recovery (.finalize _ []) => true
  | _ => false

/-- The process stops while the only orphan's group is finalized. -/
theorem orphans_accounted_stopped : ∃ c c₁, (cycles {} (overdue ["a"])).Reachable c ∧
    batch 0 c.log = [("a", "g")] ∧ (pipeline {}).Step c (.stop 0) c₁ ∧ Accounted 0 c₁ := by
  obtain ⟨c, hr, hP⟩ := Core.Program.exists_of_replay (S := pipeline {})
    (P := fun c : State => (c.procs[0]?).any isFinalizingLast &&
      decide (batch 0 c.log = [("a", "g")] ∧ groupOf c.world "a" = "g"))
    (show ((pipeline {}).replay (fun _ l => Cycles l) ⟨overdue ["a"], [], []⟩
      (.spawn .recoverOnce :: runsAt 0 10 3)).any _ = true by decide +kernel)
  obtain ⟨hpos, hbatch⟩ := Bool.and_eq_true_iff.mp hP
  obtain ⟨hbatch, hgroup⟩ := of_decide_eq_true hbatch
  obtain ⟨p, hp, hlast⟩ := (Option.any_eq_true _ _).mp hpos
  cases p with
  | recovery q =>
    cases q with
    | finalize f rest =>
      cases rest with
      | nil =>
        refine ⟨c, _, hr, hbatch, .stop hp, ?_⟩
        refine (orphans_accounted hr hp (by simp) (.inr rfl) (.stop hp) .refl).mpr ⟨⟨f, rfl⟩, ?_⟩
        rw [hbatch]
        simp [hgroup]
      | cons => cases hlast
    | _ => cases hlast
  | _ => cases hlast

/-- The record of the first of two orphans rejects: no cycle accounts for them. -/
theorem orphans_unaccounted : ∃ c c₁, (cycles {} (overdue ["a", "b"])).Reachable c ∧
    batch 0 c.log = [("a", "g"), ("b", "g")] ∧ (pipeline {}).Step c (.reject 0) c₁ ∧
    ∀ c₂, (cycles {} (overdue ["a", "b"])).Steps c₁ c₂ → ¬ Accounted 0 c₂ := by
  obtain ⟨c, hr, hP⟩ := Core.Program.exists_of_replay (S := pipeline {})
    (P := fun c : State => (c.procs[0]?).any isRecording && decide (batch 0 c.log = [("a", "g"), ("b", "g")]))
    (show ((pipeline {}).replay (fun _ l => Cycles l) ⟨overdue ["a", "b"], [], []⟩
      (.spawn .recoverOnce :: runsAt 0 10 1)).any _ = true by decide +kernel)
  obtain ⟨hpos, hbatch⟩ := Bool.and_eq_true_iff.mp hP
  obtain ⟨p, hp, hfirst⟩ := (Option.any_eq_true _ _).mp hpos
  cases p with
  | recovery q =>
    cases q with
    | record j g rest =>
      have hfault : (pipeline {}).Step c (.reject 0) _ := .reject hp rfl rfl
      refine ⟨c, _, hr, of_decide_eq_true hbatch, hfault, fun c₂ hafter hall => ?_⟩
      have h₂ : (cycles {} (overdue ["a", "b"])).Reachable c₂ := (hr.step ⟨hfault, rfl⟩).steps hafter
      obtain ⟨⟨f, hf⟩, -⟩ := (accounted_iff hr hp (by simp) h₂
        ((ended_of_fault hp (.inl rfl) hfault).steps hafter)).mp hall
      cases hf
    | _ => cases hfirst
  | _ => cases hfirst

end NestPlayground.L5.Orphans
