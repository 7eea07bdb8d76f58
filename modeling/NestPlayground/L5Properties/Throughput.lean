import NestPlayground.Core.Traced
import NestPlayground.L4Pipeline.Tokens
import NestPlayground.L5Properties.Capacity
import NestPlayground.L5Properties.RateLimit
import Mathlib.Data.List.Perm.Subperm

/-!
# Global throughput

The limiter counts admissions. An id is appended to the ready queue by an
admission that was allowed, or by the dispatcher, which by design does not ask
the limiter again. So the admissions of a window append at most `globalRps`
ids, some of them when the window is over; what the dispatcher moves comes on
top, once for every time the id was deferred (`global_throughput`). Either way
more than `globalRps` ids may be appended in one window (`over_limit`).
-/
namespace NestPlayground.L5.Throughput
open L1 L3 L4

/-- The jobs a call defers. -/
def defers : Cmd → Option JobId
  | .congestionBackoff j _ => some j
  | .nonReadyAdd j => some j
  | _ => none

/-- The limiter's answer. -/
def allows : (cmd : Cmd) → Reply cmd → Bool
  | .rateLimitCheck _, r => r.allowed
  | _, _ => false

/-- Where an append comes from: an admission, with the window of its check, or
the dispatcher. -/
inductive Origin where
  | admission (checked : Option Nat)
  | dispatcher
  | other
  deriving DecidableEq

/-- An admission that was not allowed in the window `w`. -/
def Origin.late (w : Nat) : Origin → Bool
  | .admission v => v ≠ some w
  | _ => false

/-- An id appended to the ready queue, in which window and by whom. -/
structure Append where
  jobId : JobId
  window : Nat
  pid : Nat
  origin : Origin

section
variable (reg : Registry)

def window (k : Call) : Nat := currentWindow reg k.inp.now

def allowed (k : Call) : Bool := allows k.cmd (exec reg k.cmd k.inp k.world).2

/-- The window of the activity's latest check. -/
def checkedIn (i : Nat) (before : List Call) : Option Nat :=
  (before.find? fun k => k.pid = i && limiting k.cmd).map (window reg)

def origin (k : Call) (before : List Call) : Origin :=
  match k.cmd with
  | .readyQueuePush _ => .admission (checkedIn reg k.pid before)
  | .moveToReady => .dispatcher
  | _ => .other

/-- What was appended to the ready queue, latest call first. -/
def appends : List Call → List Append
  | [] => []
  | k :: before =>
    (arrivals reg k.inp k.world k.cmd).map (fun j => ⟨j, window reg k, k.pid, origin reg k before⟩) ++ appends before

/-- How many ids were appended in the window. -/
def appendedIn (w : Nat) (past : Past) : Nat := (appends reg (calls reg past)).countP (·.window = w)

/-- How many ids the admissions that were allowed in the window have appended. -/
def admittedIn (w : Nat) (past : Past) : Nat :=
  (appends reg (calls reg past)).countP (·.origin = .admission (some w))

/-- How many ids were appended in the window by admissions allowed in another one. -/
def lateIn (w : Nat) (past : Past) : Nat :=
  (appends reg (calls reg past)).countP fun x => x.window = w && x.origin.late w

/-- How many ids the dispatcher has moved in the window. -/
def movedIn (w : Nat) (past : Past) : Nat :=
  (appends reg (calls reg past)).countP fun x => x.window = w && x.origin = .dispatcher

/-- How often the dispatcher has moved the job. -/
def moves (j : JobId) (past : Past) : Nat :=
  (appends reg (calls reg past)).countP fun x => x.jobId = j && x.origin = .dispatcher

/-- How often the job was deferred. -/
def deferrals (j : JobId) (past : Past) : Nat := (calls reg past).countP fun k => defers k.cmd = some j

/-- The key expires. -/
def expires (key : String) : Label → Bool
  | .env (.rateLimit k) => k = key
  | _ => false

/-- The counter of a window does not expire before its last check. -/
def Kept (t : Core.Traced State Label) (l : Label) : Prop :=
  ∀ k ∈ callOf reg t.state l, limiting k.cmd = true →
    ∀ e ∈ t.past, expires (rateLimitGlobal (keyPrefix reg) (window reg k)) e.2 = false

/-- No orphan recovery. -/
def NoRecovery : State → Label → Prop := onCalls reg fun _ _ cmd _ => cmd ≠ .recoverOrphans

/-- The runs of the theorem. -/
def Undisturbed (t : Core.Traced State Label) (l : Label) : Prop :=
  NoRecovery reg t.state l ∧ NoRetry reg t.state l ∧ Kept reg t l

/-- The throughput of a window. -/
structure Limited (w : Nat) (past : Past) : Prop where
  admitted : admittedIn reg w past ≤ reg.config.backpressure.globalRps
  total : appendedIn reg w past ≤ reg.config.backpressure.globalRps + lateIn reg w past + movedIn reg w past
  deferred : ∀ j, moves reg j past ≤ deferrals reg j past

end

instance (reg : Registry) (t : Core.Traced State Label) (l : Label) : Decidable (Kept reg t l) :=
  inferInstanceAs (Decidable (∀ k ∈ callOf reg t.state l, _))

instance (reg : Registry) (c : State) (l : Label) : Decidable (NoRecovery reg c l) :=
  instDecidableOnCalls reg (fun _ _ cmd _ => cmd ≠ .recoverOrphans) c l

instance (reg : Registry) (t : Core.Traced State Label) (l : Label) : Decidable (Undisturbed reg t l) :=
  inferInstanceAs (Decidable (_ ∧ _ ∧ _))

/-! ## The limiter -/

section
variable {reg : Registry} {w : Nat} {s : Store} {g : GroupId} {inp : Input}

/-- A check, in its own window: the global counter goes up if it is allowed,
and stays within the limit; a group named `global` takes it up by two. -/
theorem globalCount_check :
    ((exec reg (.rateLimitCheck g) inp s).2.allowed = true ∧
      RateLimit.globalCount reg (currentWindow reg inp.now) s <
        RateLimit.globalCount reg (currentWindow reg inp.now) (exec reg (.rateLimitCheck g) inp s).1 ∧
      RateLimit.globalCount reg (currentWindow reg inp.now) (exec reg (.rateLimitCheck g) inp s).1 ≤
        reg.config.backpressure.globalRps) ∨
    (exec reg (.rateLimitCheck g) inp s).2.allowed = false ∧
      RateLimit.globalCount reg (currentWindow reg inp.now) (exec reg (.rateLimitCheck g) inp s).1 =
        RateLimit.globalCount reg (currentWindow reg inp.now) s := by
  have hlimit : ∀ n, max 1 (reg.config.backpressure.globalRps / max 1 n) ≤ max 1 reg.config.backpressure.globalRps := by
    intro n
    have := Nat.div_le_self reg.config.backpressure.globalRps (max 1 n)
    omega
  unfold RateLimit.globalCount exec L2.rateLimitCheck
  by_cases hkey : rateLimitGroup (keyPrefix reg) g (currentWindow reg inp.now) =
      rateLimitGlobal (keyPrefix reg) (currentWindow reg inp.now)
  · simp only [hkey, Function.update_self]
    split
    · exact .inr ⟨rfl, by simp⟩
    · split
      · exact .inr ⟨rfl, by simp⟩
      · rename_i h h'
        have := hlimit (Store.sadd s.activeGroups g).length
        refine .inl ⟨rfl, ?_, ?_⟩ <;> simp only [Function.update_self] <;> omega
  · simp only [Function.update_self, Function.update_of_ne hkey, Function.update_of_ne (Ne.symm hkey)]
    split
    · exact .inr ⟨rfl, by simp⟩
    · split
      · exact .inr ⟨rfl, by simp⟩
      · refine .inl ⟨rfl, ?_, ?_⟩ <;> simp only [Function.update_of_ne (Ne.symm hkey), Function.update_self] <;> omega

/-- The other calls, and the checks in other windows, leave the counter alone. -/
theorem globalCount_other {cmd : Cmd} (h : limiting cmd = true → currentWindow reg inp.now ≠ w) :
    RateLimit.globalCount reg w (exec reg cmd inp s).1 = RateLimit.globalCount reg w s := by
  by_cases hl : limiting cmd = true
  · cases cmd with
    | rateLimitCheck g =>
      have hglobal : rateLimitGlobal (keyPrefix reg) w ≠
          rateLimitGlobal (keyPrefix reg) (currentWindow reg inp.now) := by
        intro hk
        rw [rateLimitGlobal_eq, rateLimitGlobal_eq] at hk
        exact h rfl (window_of_rateLimitGroup hk).symm
      have hgroup : rateLimitGlobal (keyPrefix reg) w ≠
          rateLimitGroup (keyPrefix reg) g (currentWindow reg inp.now) := by
        intro hk
        rw [rateLimitGlobal_eq] at hk
        exact h rfl (window_of_rateLimitGroup hk).symm
      unfold RateLimit.globalCount exec L2.rateLimitCheck
      simp only
      split
      · simp only [Function.update_of_ne hglobal]
      · split <;> simp only [Function.update_of_ne hglobal, Function.update_of_ne hgroup]
    | _ => cases hl
  · unfold RateLimit.globalCount
    rw [(beside reg cmd inp s).counters (eq_false_of_ne_true hl)]

theorem limiting_of_allows {cmd : Cmd} {r : Reply cmd} (h : allows cmd r = true) : limiting cmd = true := by
  cases cmd <;> first | rfl | cases h

/-- How many checks of the window were allowed. -/
def allowedIn (reg : Registry) (w : Nat) (cs : List Call) : Nat :=
  cs.countP fun k => allowed reg k && window reg k = w

/-- The counter of a window counts the allowed checks, unless it has expired. -/
def Metered (reg : Registry) (w : Nat) (s : Store) (cs : List Call) : Prop :=
  allowedIn reg w cs ≤ RateLimit.globalCount reg w s ∧
    RateLimit.globalCount reg w s ≤ reg.config.backpressure.globalRps

/-- One call keeps the counters. -/
theorem metered_call {k : Call} {cs : List Call} (h : Metered reg w k.world cs) :
    Metered reg w (exec reg k.cmd k.inp k.world).1 (k :: cs) := by
  obtain ⟨i, cmd, inp, s⟩ := k
  simp only [Metered, allowedIn, List.countP_cons] at h ⊢
  by_cases hw : limiting cmd = true ∧ currentWindow reg inp.now = w
  · obtain ⟨hl, rfl⟩ := hw
    cases cmd with
    | rateLimitCheck g =>
      rcases @globalCount_check reg s g inp with ⟨hallowed, hup, hle⟩ | ⟨hdenied, hsame⟩
      · have hin : (allowed reg ⟨i, .rateLimitCheck g, inp, s⟩ &&
            decide (window reg ⟨i, .rateLimitCheck g, inp, s⟩ = currentWindow reg inp.now)) = true :=
          Bool.and_eq_true_iff.mpr ⟨hallowed, decide_eq_true rfl⟩
        rw [if_pos hin]
        omega
      · have hnot : allowed reg ⟨i, .rateLimitCheck g, inp, s⟩ = false := hdenied
        rw [hnot, hsame]
        simpa using h
    | _ => cases hl
  · have hother := @globalCount_other reg w s inp cmd fun hl he => hw ⟨hl, he⟩
    have hnot : (allowed reg ⟨i, cmd, inp, s⟩ && decide (window reg ⟨i, cmd, inp, s⟩ = w)) = false := by
      by_contra hne
      simp only [Bool.not_eq_false, Bool.and_eq_true, decide_eq_true_eq] at hne
      exact hw ⟨limiting_of_allows hne.1, hne.2⟩
    rw [hnot, hother]
    simpa using h

/-- An allowed check finds the counter below the limit, so the limit holds
after it even if the counter has expired since. -/
theorem allowedIn_call {k : Call} {cs : List Call} (h : allowedIn reg w cs ≤ reg.config.backpressure.globalRps)
    (hm : limiting k.cmd = true → window reg k = w → Metered reg w k.world cs) :
    allowedIn reg w (k :: cs) ≤ reg.config.backpressure.globalRps := by
  by_cases hk : (allowed reg k && decide (window reg k = w)) = true
  · have hk' := hk
    simp only [Bool.and_eq_true, decide_eq_true_eq] at hk'
    have hnext := metered_call (hm (limiting_of_allows hk'.1) hk'.2)
    exact hnext.1.trans hnext.2
  · rw [allowedIn, List.countP_cons, if_neg hk]
    exact h

/-! ## Admissions -/

/-- The activity has been allowed and is about to push its job. -/
def pushing : Proc → Bool
  | .fetch (.admission _ (.push _)) => true
  | _ => false

theorem pushing_of_started {p : Proc} (h : Started p) : pushing p = false := by
  cases h <;> rfl

def pushes : Cmd → Bool
  | .readyQueuePush _ => true
  | _ => false

/-- A push follows an allowed check of the same activity. -/
theorem pushing_spec (reg : Registry) (p : Proc) :
    (p.view reg).Spec (fun cmd => pushes cmd = true → pushing p = true)
      (fun cmd r p' => pushing p' = true → allows cmd r = true) fun _ p' => pushing p' = false := by
  have hloop : ∀ n, pushing (resume .fetch (FetchPc.loop reg n)) = false := by
    intro n
    unfold FetchPc.loop
    split <;> rfl
  by_cases hp : p.service = .fetch
  · cases p with
    | fetch p =>
      cases p with
      | hasCapacity n =>
        refine ⟨by simp [pushes], fun r h => ?_, rfl⟩
        simp only at h
        split at h <;> cases h
      | dequeue n =>
        refine ⟨by simp [pushes], fun r h => ?_, rfl⟩
        cases r with
        | none => cases h
        | some hash =>
          simp only at h
          split at h <;> cases h
      | admission n p =>
        rw [Proc.view, FetchPc.view, Core.Action.map_map]
        cases p with
        | hasCapacity job =>
          refine ⟨by simp [pushes], fun r h => ?_, rfl⟩
          by_cases hr : r < reg.config.backpressure.readyQueueMaxSize
          · simp only [if_pos hr] at h
            cases h
          · simp only [if_neg hr] at h
            cases h
        | checkRateLimit job =>
          refine ⟨by simp [pushes], fun r h => ?_, rfl⟩
          by_contra hno
          have hno : ¬ r.allowed = true := hno
          simp only [if_neg hno] at h
          cases h
        | push job =>
          refine ⟨fun _ => rfl, fun r h => ?_, rfl⟩
          cases r with
          | true => exact absurd ((hloop (n + 1)).symm.trans h) (by decide)
          | false => cases h
        | addToNonReady rl p =>
          rw [AdmitPc.view, Core.Action.map_map]
          cases p with
          | script j g => exact ⟨by simp [pushes], fun r h => absurd ((hloop (n + 1)).symm.trans h) (by decide), rfl⟩
          | fixedBackoff j =>
            exact ⟨by simp [pushes], fun r h => absurd ((hloop (n + 1)).symm.trans h) (by decide), rfl⟩
    | _ => cases hp
  · have hnot : ∀ {p' : Proc}, p'.service = p.service ∨ p'.service = .done → pushing p' = false := by
      intro p' h
      cases p' with
      | fetch q =>
        rcases h with h | h
        · exact absurd h.symm hp
        · cases h
      | _ => rfl
    have hcalls := may_call reg p
    have hsame := same_service reg p
    cases hv : p.view reg with
    | call cmd ok err =>
      rw [hv] at hcalls hsame
      refine ⟨fun hpush => ?_, fun r h => ?_, hnot hsame.2.2⟩
      · have hmay := hcalls.1
        cases cmd with
        | readyQueuePush j =>
          cases p with
          | fetch q => exact absurd rfl hp
          | _ => cases hmay
        | _ => cases hpush
      · rw [hnot (hsame.2.1 r)] at h
        cases h
    | halt => trivial

/-- The ids the activity has appended with admissions allowed in the window. -/
def paidBy (reg : Registry) (i w : Nat) (cs : List Call) : Nat :=
  (appends reg cs).countP fun x => x.pid = i && x.origin = .admission (some w)

/-- Its allowed checks of the window. -/
def allowedBy (reg : Registry) (i w : Nat) (cs : List Call) : Nat :=
  cs.countP fun k => k.pid = i && (allowed reg k && window reg k = w)

/-- An activity appends at most one id for each allowed check, and one less
while it has not pushed yet. -/
structure Paid (reg : Registry) (i w : Nat) (ps : List Proc) (cs : List Call) : Prop where
  le : paidBy reg i w cs ≤ allowedBy reg i w cs
  lt : ∀ p, ps[i]? = some p → pushing p = true → checkedIn reg i cs = some w → paidBy reg i w cs < allowedBy reg i w cs

theorem checkedIn_cons (i : Nat) (k : Call) (cs : List Call) : checkedIn reg i (k :: cs) =
    if k.pid = i ∧ limiting k.cmd = true then some (window reg k) else checkedIn reg i cs := by
  unfold checkedIn
  by_cases h : k.pid = i ∧ limiting k.cmd = true
  · simp [h]
  · rw [if_neg h, List.find?_cons_of_neg (by simpa using h)]

/-- What a call adds to the ids paid for. -/
theorem paidBy_cons (i : Nat) (k : Call) (cs : List Call) :
    paidBy reg i w (k :: cs) = paidBy reg i w cs ∨
      k.pid = i ∧ pushes k.cmd = true ∧ checkedIn reg i cs = some w ∧
        paidBy reg i w (k :: cs) = paidBy reg i w cs + 1 := by
  have hsplit : paidBy reg i w (k :: cs) = (if k.pid = i ∧ origin reg k cs = .admission (some w) then
      (arrivals reg k.inp k.world k.cmd).length else 0) + paidBy reg i w cs := by
    simp only [paidBy, appends, List.countP_append, List.countP_map]
    congr 1
    by_cases h : k.pid = i ∧ origin reg k cs = .admission (some w)
    · rw [if_pos h, List.countP_eq_length]
      intro j _
      simpa using h
    · rw [if_neg h, List.countP_eq_zero]
      intro j _
      simpa using h
  rw [hsplit]
  by_cases h : k.pid = i ∧ origin reg k cs = .admission (some w)
  · rw [if_pos h]
    obtain ⟨hpid, horigin⟩ := h
    obtain ⟨i', cmd, inp, s⟩ := k
    cases cmd with
    | readyQueuePush j =>
      simp only [origin, Origin.admission.injEq] at horigin
      simp only [arrivals]
      split
      · exact .inr ⟨hpid, rfl, hpid ▸ horigin, Nat.add_comm _ _⟩
      · exact .inl (Nat.zero_add _)
    | _ => cases horigin
  · rw [if_neg h]
    exact .inl (Nat.zero_add _)

/-- One call keeps the account of every activity. -/
theorem paid_call {ps : List Proc} {p p' : Proc} {k : Call} {cs : List Call} {i : Nat} (h : Paid reg i w ps cs)
    (hp : ps[k.pid]? = some p) (hpush : pushes k.cmd = true → pushing p = true)
    (hnext : pushing p' = true → allowed reg k = true) : Paid reg i w (ps.set k.pid p') (k :: cs) := by
  have hmono : allowedBy reg i w (k :: cs) = allowedBy reg i w cs +
      if (decide (k.pid = i) && (allowed reg k && decide (window reg k = w))) = true then 1 else 0 := List.countP_cons
  refine ⟨?_, fun q hq hqp hin => ?_⟩
  · rcases @paidBy_cons reg w i k cs with hsame | ⟨rfl, hcmd, hchecked, hone⟩
    · have := h.le
      omega
    · have := h.lt p hp (hpush hcmd) hchecked
      omega
  · by_cases hi : k.pid = i
    · subst hi
      obtain rfl : p' = q := by
        rw [List.getElem?_set_self (List.getElem?_eq_some_iff.mp hp).1] at hq
        exact Option.some.inj hq
      have hallowed := hnext hqp
      have hl := limiting_of_allows hallowed
      rw [checkedIn_cons, if_pos ⟨rfl, hl⟩] at hin
      rw [if_pos (by simp [hallowed, Option.some.inj hin])] at hmono
      rcases @paidBy_cons reg w k.pid k cs with hsame | ⟨-, hcmd, -⟩
      · have := h.le
        omega
      · -- a check is no push
        cases hk : k.cmd with
        | readyQueuePush j => rw [hk] at hl; cases hl
        | _ => rw [hk] at hcmd; cases hcmd
    · rw [List.getElem?_set_ne hi] at hq
      rw [checkedIn_cons, if_neg fun h => hi h.1] at hin
      rw [if_neg (by simp [hi])] at hmono
      rcases @paidBy_cons reg w i k cs with hsame | ⟨hpid, -⟩
      · have := h.lt q hq hqp hin
        omega
      · exact absurd hpid hi

/-- The account does not depend on activities that are not about to push. -/
theorem Paid.frame {ps ps' : List Proc} {cs : List Call} {i : Nat} (h : Paid reg i w ps cs)
    (hps : ∀ p, ps'[i]? = some p → pushing p = true → ps[i]? = some p) : Paid reg i w ps' cs :=
  ⟨h.le, fun p hp hpp => h.lt p (hps p hp hpp) hpp⟩

/-! ## Deferrals -/

/-- What the dispatcher has moved of a job and what of it still waits, against
how often the job was deferred. -/
def Waited (reg : Registry) (j : JobId) (s : Store) (cs : List Call) : Prop :=
  ((appends reg cs).countP fun x => x.jobId = j && x.origin = .dispatcher) + s.nonReadyQueue.members.count j ≤
    cs.countP fun k => defers k.cmd = some j

theorem waited_call {j : JobId} {k : Call} {cs : List Call} (h : Waited reg j k.world cs) :
    Waited reg j (exec reg k.cmd k.inp k.world).1 (k :: cs) := by
  obtain ⟨i, cmd, inp, s⟩ := k
  simp only [Waited, appends, List.countP_append, List.countP_map, List.countP_cons] at h ⊢
  generalize (cs.countP fun k => decide (defers k.cmd = some j)) = deferred at h ⊢
  by_cases hp : parks cmd = true
  · cases cmd with
    | moveToReady =>
      obtain ⟨_, _, he⟩ := @moveToReady_frame reg inp s
      have hcount := Core.ZSet.count_foldl_zrem
        (Core.ZSet.nodup_rangeByScore s.nonReadyQueue inp.now reg.config.backpressure.dispatchBatchSize)
        (fun _ => Core.ZSet.mem_of_mem_rangeByScore) j
      have hmoved : ∀ l : List JobId,
          l.countP ((fun x : Append => decide (x.jobId = j) && decide (x.origin = .dispatcher)) ∘
            fun j => ⟨j, window reg ⟨i, .moveToReady, inp, s⟩, i, origin reg ⟨i, .moveToReady, inp, s⟩ cs⟩) =
          l.count j := by
        intro l
        rw [List.count]
        refine List.countP_congr fun x _ => ?_
        simp [origin]
      rw [he, hmoved]
      simp only [arrivals]
      omega
    | congestionBackoff j' g | nonReadyAdd j' =>
      simp only [exec, L2.congestionBackoff, arrivals, defers, Core.ZSet.count_zadd, List.countP_nil,
        Option.some.injEq, decide_eq_true_eq]
      by_cases hj : j = j'
      · simp only [hj, if_true] at h ⊢
        omega
      · simp only [if_neg hj, if_neg (Ne.symm hj)]
        omega
    | _ => cases hp
  · have hp := eq_false_of_ne_true hp
    rw [nonReady_frame hp]
    have hnone : ∀ l : List JobId,
        l.countP ((fun x : Append => decide (x.jobId = j) && decide (x.origin = .dispatcher)) ∘
          fun j => ⟨j, window reg ⟨i, cmd, inp, s⟩, i, origin reg ⟨i, cmd, inp, s⟩ cs⟩) = 0 := by
      intro l
      rw [List.countP_eq_zero]
      intro x _
      cases cmd <;> first | (cases hp; done) | simp [origin]
    rw [hnone]
    omega

/-! ## Runs -/

/-- Without recovery and retries every append is an admission's or the dispatcher's. -/
theorem origin_call {k : Call} {cs : List Call} (h : ∀ x ∈ appends reg cs, x.origin ≠ .other)
    (hrec : k.cmd ≠ .recoverOrphans) (hretry : retries k.cmd = none) :
    ∀ x ∈ appends reg (k :: cs), x.origin ≠ .other := by
  intro x hx
  rcases List.mem_append.mp hx with hx | hx
  · obtain ⟨j, hj, rfl⟩ := List.mem_map.mp hx
    obtain ⟨i, cmd, inp, s⟩ := k
    cases cmd with
    | readyQueuePush | moveToReady => simp [origin]
    | recoverOrphans => exact absurd rfl hrec
    | readyAppend j => cases hretry
    | _ => cases hj
  · exact h x hx

/-- What holds along a run. -/
structure Accounted (reg : Registry) (t : Core.Traced State Label) : Prop where
  limit : ∀ w, allowedIn reg w (calls reg t.past) ≤ reg.config.backpressure.globalRps
  metered : ∀ w, (∀ e ∈ t.past, expires (rateLimitGlobal (keyPrefix reg) w) e.2 = false) →
    Metered reg w t.state.world (calls reg t.past)
  paid : ∀ i w, Paid reg i w t.state.procs (calls reg t.past)
  waited : ∀ j, Waited reg j t.state.world (calls reg t.past)
  origins : ∀ x ∈ appends reg (calls reg t.past), x.origin ≠ .other

/-- A step that executes no call and leaves the store and the activities that
are about to push. -/
theorem Accounted.idle {t t' : Core.Traced State Label} {l : Label} (h : Accounted reg t)
    (hpast : t'.past = (t.state, l) :: t.past) (hl : callOf reg t.state l = none)
    (hrl : ∀ w, expires (rateLimitGlobal (keyPrefix reg) w) l = false →
      RateLimit.globalCount reg w t'.state.world = RateLimit.globalCount reg w t.state.world)
    (hz : t'.state.world.nonReadyQueue = t.state.world.nonReadyQueue)
    (hps : ∀ (i : Nat) p, t'.state.procs[i]? = some p → pushing p = true → t.state.procs[i]? = some p) :
    Accounted reg t' := by
  have hcalls : calls reg t'.past = calls reg t.past := by
    rw [hpast]
    exact List.filterMap_cons_none hl
  obtain ⟨h1, h2, h3, h4, h5⟩ := h
  refine ⟨?_, fun w hw => ?_, fun i w => ?_, fun j => ?_, ?_⟩
  · rw [hcalls]
    exact h1
  · rw [hpast] at hw
    have hold := h2 w fun e he => hw e (List.mem_cons_of_mem _ he)
    unfold Metered at hold ⊢
    rw [hcalls, hrl w (hw _ List.mem_cons_self)]
    exact hold
  · rw [hcalls]
    exact (h3 i w).frame (hps i)
  · unfold Waited
    rw [hcalls, hz]
    exact h4 j
  · rw [hcalls]
    exact h5

/-- An executed call. -/
theorem Accounted.call {t t' : Core.Traced State Label} {i : Nat} {inp : Input} {p p' : Proc} {cmd : Cmd}
    (h : Accounted reg t) (hH : Undisturbed reg t (.run i inp)) (hpast : t'.past = (t.state, .run i inp) :: t.past)
    (hl : callOf reg t.state (.run i inp) = some ⟨i, cmd, inp, t.state.world⟩)
    (hworld : t'.state.world = (exec reg cmd inp t.state.world).1) (hprocs : t'.state.procs = t.state.procs.set i p')
    (hp : t.state.procs[i]? = some p) (hpush : pushes cmd = true → pushing p = true)
    (hnext : pushing p' = true → allowed reg ⟨i, cmd, inp, t.state.world⟩ = true)
    (hrec : cmd ≠ .recoverOrphans) (hretry : retries cmd = none) : Accounted reg t' := by
  have hcalls : calls reg t'.past = ⟨i, cmd, inp, t.state.world⟩ :: calls reg t.past := by
    rw [hpast]
    exact List.filterMap_cons_some hl
  refine ⟨fun w => ?_, fun w hw => ?_, fun j w => ?_, fun j => ?_, ?_⟩
  · rw [hcalls]
    refine allowedIn_call (h.limit w) fun hlim hw => h.metered w ?_
    rw [← hw]
    exact hH.2.2 _ hl hlim
  · rw [hcalls, hworld]
    rw [hpast] at hw
    exact metered_call (h.metered w fun e he => hw e (List.mem_cons_of_mem _ he))
  · rw [hcalls, hprocs]
    exact paid_call (h.paid j w) hp hpush hnext
  · rw [hcalls, hworld]
    exact waited_call (h.waited j)
  · rw [hcalls]
    exact origin_call h.origins hrec hretry

theorem accounted_inductive (reg : Registry) :
    ((runs reg).traced.restrict (Undisturbed reg)).Inductive (Accounted reg) where
  init := by
    rintro ⟨c, past⟩ ⟨hc, hpast⟩
    obtain rfl : c = initialState := hc
    obtain rfl : past = [] := hpast
    refine ⟨fun w => Nat.zero_le _, fun w _ => ⟨Nat.zero_le _, Nat.zero_le _⟩, fun i w => ⟨Nat.zero_le _, ?_⟩,
      fun j => Nat.zero_le _, by simp [calls, appends]⟩
    intro p hp
    simp [initialState] at hp
  step := by
    rintro ⟨c, past⟩ l ⟨c', past'⟩ h ⟨⟨hs, hpast⟩, hH⟩
    have hs : (pipeline reg).Step c l c' := hs
    have hquiet : ∀ {i : Nat} {q : Proc}, pushing q = false → ∀ (k : Nat) p, (c.procs.set i q)[k]? = some p →
        pushing p = true → c.procs[k]? = some p := by
      intro i q hq
      exact Core.Program.forall_set (fun k p _ hk _ => hk) fun hpp => absurd (hq.symm.trans hpp) (by decide)
    cases hs with
    | @run i inp p cmd ok err hp hv =>
      have hspec := pushing_spec reg p
      rw [show p.view reg = .call cmd ok err from hv] at hspec
      exact h.call hH hpast (callOf_run hp hv) rfl rfl hp hspec.1 (hspec.2.1 _) (onCalls_run hH.1 hp hv)
        (onCalls_run hH.2.1 hp hv)
    | @reject i p cmd ok err hp hv hr =>
      have hspec := pushing_spec reg p
      rw [show p.view reg = .call cmd ok err from hv] at hspec
      exact h.idle hpast rfl (fun _ _ => rfl) rfl (hquiet hspec.2.2)
    | stop hp => exact h.idle hpast rfl (fun _ _ => rfl) rfl (hquiet rfl)
    | @spawn t =>
      refine h.idle hpast rfl (fun _ _ => rfl) rfl (Core.Program.forall_append (fun k p hk _ => hk) fun hpp => ?_)
      exact absurd ((pushing_of_started (t.started reg)).symm.trans hpp) (by decide)
    | @env e =>
      cases e with
      | lock key => exact h.idle hpast rfl (fun _ _ => rfl) rfl fun _ _ hk _ => hk
      | rateLimit key =>
        refine h.idle hpast rfl (fun w hw => ?_) rfl fun _ _ hk _ => hk
        have hne : rateLimitGlobal (keyPrefix reg) w ≠ key := fun he => by simp [expires, he] at hw
        exact Function.update_of_ne hne _ _

/-- Two lists of which the first has no more entries of any key. -/
theorem length_le_of_fibers {α β : Type} {l : List α} {m : List β} {f : α → Nat} {g : β → Nat}
    (h : ∀ i, l.countP (f · = i) ≤ m.countP (g · = i)) : l.length ≤ m.length := by
  have hsub : (l.map f).Subperm (m.map g) := List.subperm_ext_iff.mpr fun i _ => by
    have := h i
    simpa only [List.count, List.countP_map, Function.comp_def, beq_eq_decide] using this
  simpa using hsub.length_le

theorem appended_le {l : List Append} (h : ∀ x ∈ l, x.origin ≠ .other) (w : Nat) :
    l.countP (·.window = w) ≤ l.countP (·.origin = .admission (some w)) +
      l.countP (fun x => x.window = w && x.origin.late w) +
      l.countP (fun x => x.window = w && x.origin = .dispatcher) := by
  induction l with
  | nil => exact Nat.zero_le _
  | cons x l ih =>
    have hx := h x List.mem_cons_self
    have ih := ih fun y hy => h y (List.mem_cons_of_mem _ hy)
    simp only [List.countP_cons]
    by_cases hw : x.window = w
    · cases ho : x.origin with
      | admission v =>
        by_cases hv : v = some w
        · simp only [hw, hv, decide_true, if_true]
          omega
        · have hlate : (Origin.admission v).late w = true := by simp [Origin.late, hv]
          simp only [hw, hlate, decide_true, Bool.and_true, if_true]
          omega
      | dispatcher =>
        simp only [hw, decide_true, Bool.and_true, if_true]
        omega
      | other => exact absurd ho hx
    · simp only [hw, decide_false, Bool.false_eq_true, if_false]
      omega

/-- In every run without orphan recovery and dead-letter retries in which the
counter of a window does not expire before its last check: the admissions of a
window append at most `globalRps` ids. The dispatcher moves a job as often as
it was deferred, and what it moves in a window comes on top. -/
theorem global_throughput (reg : Registry) (t : Core.Traced State Label)
    (h : ((runs reg).traced.restrict (Undisturbed reg)).Reachable t) (w : Nat) : Limited reg w t.past := by
  have ha := (accounted_inductive reg).reachable t h
  have hadmitted : admittedIn reg w t.past ≤ reg.config.backpressure.globalRps := by
    refine le_trans ?_ (ha.limit w)
    unfold admittedIn allowedIn
    rw [List.countP_eq_length_filter, List.countP_eq_length_filter]
    -- activity by activity
    refine length_le_of_fibers (f := Append.pid) (g := Call.pid) fun i => ?_
    rw [List.countP_filter, List.countP_filter]
    exact (ha.paid i w).le
  refine ⟨hadmitted, ?_, fun j => ?_⟩
  · have := appended_le ha.origins w
    unfold admittedIn at hadmitted
    unfold appendedIn lateIn movedIn
    omega
  · have := ha.waited j
    unfold Waited at this
    unfold moves deferrals
    omega

end

/-- The jobs `j2` and `j3` are denied in the first second; five seconds later the
dispatcher moves both. -/
def movedLater : List Label := Capacity.twoDenied ++ [.spawn .dispatchOnce] ++ runsAt 4 5000 2

theorem global_throughput_moved : ∃ t : Core.Traced State Label, movedIn RateLimit.single 5 t.past = 2 ∧
    ∀ w, Limited RateLimit.single w t.past := by
  obtain ⟨t, hr, hP⟩ := Core.Program.exists_of_retrace (S := pipeline RateLimit.single)
    (P := fun t : Core.Traced State Label => decide (movedIn RateLimit.single 5 t.past = 2))
    (show ((pipeline RateLimit.single).retrace (fun t l => decide (Undisturbed RateLimit.single t l)) ⟨initialState, []⟩
      movedLater).any _ = true by decide +kernel)
  have hr' : ((runs RateLimit.single).traced.restrict (Undisturbed RateLimit.single)).Reachable t :=
    Core.LTS.Reachable.weaken (fun _ _ h => of_decide_eq_true h) hr
  exact ⟨t, of_decide_eq_true hP, fun w => global_throughput RateLimit.single t hr' w⟩

/-- The first job is allowed at the end of a second and pushed in the next one,
in which the second job is allowed and pushed. -/
def pushedLate : List Label :=
  [.spawn (.submitBulkJobs ⟨"g", "SEND_EMAIL", [⟨"j1", "null"⟩, ⟨"j2", "null"⟩], 0, .normal⟩)] ++ runsAt 0 1 5 ++
    [.spawn .fetchCycle] ++ runsAt 1 900 4 ++ [.spawn .fetchCycle] ++ runsAt 2 1000 5 ++ runsAt 1 1000 1

/-- With one request a second, two ids are appended in one: by the dispatcher,
or by admissions alone. -/
theorem over_limit :
    (¬ ∀ (reg : Registry) (t : Core.Traced State Label),
      ((runs reg).traced.restrict (Undisturbed reg)).Reachable t →
      ∀ w, appendedIn reg w t.past ≤ reg.config.backpressure.globalRps) ∧
    ¬ ∀ (reg : Registry) (t : Core.Traced State Label),
      ((runs reg).traced.restrict (Undisturbed reg)).Reachable t →
      ∀ w, appendedIn reg w t.past ≤ reg.config.backpressure.globalRps + movedIn reg w t.past := by
  constructor
  · intro h
    obtain ⟨t, hr, hP⟩ := Core.Program.exists_of_retrace (S := pipeline RateLimit.single)
      (P := fun t : Core.Traced State Label => decide (appendedIn RateLimit.single 5 t.past = 2))
      (show ((pipeline RateLimit.single).retrace (fun t l => decide (Undisturbed RateLimit.single t l))
        ⟨initialState, []⟩ movedLater).any _ = true by decide +kernel)
    have hle := h RateLimit.single t (Core.LTS.Reachable.weaken (fun _ _ h => of_decide_eq_true h) hr) 5
    rw [of_decide_eq_true hP] at hle
    exact absurd hle (by decide)
  · intro h
    obtain ⟨t, hr, hP⟩ := Core.Program.exists_of_retrace (S := pipeline RateLimit.single)
      (P := fun t : Core.Traced State Label => decide (appendedIn RateLimit.single 1 t.past = 2 ∧
        movedIn RateLimit.single 1 t.past = 0))
      (show ((pipeline RateLimit.single).retrace (fun t l => decide (Undisturbed RateLimit.single t l))
        ⟨initialState, []⟩ pushedLate).any _ = true by decide +kernel)
    have hle := h RateLimit.single t (Core.LTS.Reachable.weaken (fun _ _ h => of_decide_eq_true h) hr) 1
    obtain ⟨happended, hmoved⟩ := of_decide_eq_true hP
    rw [happended, hmoved] at hle
    exact absurd hle (by decide)

end NestPlayground.L5.Throughput
