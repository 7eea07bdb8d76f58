import NestPlayground.Core.Chronicle
import NestPlayground.L4Pipeline.Frames

/-!
# The deeds of a run of the pipeline

What has been pushed, handed out, parked and moved so far is read off the
deeds. `along` is the induction behind all of it: what every call and every
expiry keeps of the store and the deeds holds along every run, from whatever
state the run starts in.
-/
namespace NestPlayground.L4
open L1 L3

abbrev Deed := Core.Deed Cmd Input Store
abbrev Deeds := List Deed

/-- A step condition on what calls read from outside. -/
def Inputs (ok : Input → Prop) : Label → Prop
  | .run _ inp => ok inp
  | _ => True

instance (ok : Input → Prop) [DecidablePred ok] (l : Label) : Decidable (Inputs ok l) :=
  match l with
  | .run _ inp => inferInstanceAs (Decidable (ok inp))
  | .reject _ | .stop _ | .spawn _ | .env _ => isTrue trivial

theorem along {reg : Registry} {ok : Input → Prop} {c₀ : State} {I : Store → Deeds → Prop} (h₀ : I c₀.world [])
    (hexec : ∀ cmd inp s ds, ok inp → I s ds → I (exec reg cmd inp s).1 (⟨cmd, inp, s⟩ :: ds))
    (hexpire : ∀ e s ds, I s ds → I (expire e s) ds) {t : Core.Traced State Label}
    (h : (((pipeline reg).lts c₀).traced.restrict fun _ l => Inputs ok l).Reachable t) :
    I t.state.world ((pipeline reg).deeds t.past) := by
  have L : Core.Program.Ledgered (pipeline reg).chronicled (fun _ l => Inputs ok l) fun w _ => I w.1 w.2 :=
    ⟨fun hI _ _ hH => hexec _ _ _ _ hH hI, fun e hI => hexpire e _ _ hI⟩
  exact L.chronicle h₀ (fun _ _ h => h) h

section
variable (reg : Registry)

/-- The jobs that a call appended to the ready queue. -/
def pushedBy (d : Deed) : List JobId := arrivals reg d.inp d.world d.cmd

/-- The job that a call took from the ready queue. -/
def handedBy (d : Deed) : Option JobId := delivers d.cmd (exec reg d.cmd d.inp d.world).2

/-- The jobs that the dispatcher moved. -/
def movedBy (d : Deed) : List JobId :=
  match d.cmd with
  | .moveToReady => d.world.nonReadyQueue.rangeByScore d.inp.now reg.config.backpressure.dispatchBatchSize
  | _ => []

/-- When a call that parks `j` lets it be executed.
mirrors libs/bulk-action/src/lua/congestion-backoff.lua:22-31 and
libs/bulk-action/src/congestion/CongestionControlService.ts:41-47, 62-72 -/
def parkedUntil (j : JobId) (d : Deed) : Option Nat :=
  match d.cmd with
  | .congestionBackoff k g =>
    if k = j then
      some (d.inp.now + (L2.congestionBackoff reg.config.backpressure.globalRps reg.config.congestion.baseBackoffMs
        reg.config.congestion.maxBackoffMs k g d.inp.now d.world).2.backoffMs)
    else none
  | .nonReadyAdd k => if k = j then some (d.inp.now + reg.config.congestion.baseBackoffMs) else none
  | _ => none

/-- Everything pushed so far, in order. -/
def arrived (ds : Deeds) : List JobId := ds.reverse.flatMap (pushedBy reg)

/-- Everything handed out so far, in order. -/
def departed (ds : Deeds) : List JobId := ds.reverse.filterMap (handedBy reg)

/-- The executions of `move-to-ready.lua`. -/
def dispatches (ds : Deeds) : Nat :=
  ds.countP fun d =>
    match d.cmd with
    | .moveToReady => true
    | _ => false

@[simp] theorem arrived_cons (d : Deed) (ds : Deeds) : arrived reg (d :: ds) = arrived reg ds ++ pushedBy reg d := by
  simp [arrived]

@[simp] theorem departed_cons (d : Deed) (ds : Deeds) :
    departed reg (d :: ds) = departed reg ds ++ (handedBy reg d).toList := by
  cases h : handedBy reg d <;> simp [departed, h]

end

/-- What a call does to the non-ready queue. -/
inductive NonReadyStep (reg : Registry) (d : Deed) (z : Core.ZSet JobId Nat) : Core.ZSet JobId Nat → Prop where
  | other (hm : movedBy reg d = []) (hp : ∀ j, parkedUntil reg j d = none) : NonReadyStep reg d z z
  | parked {j e} (hm : movedBy reg d = []) (hp : parkedUntil reg j d = some e)
      (hne : ∀ k, k ≠ j → parkedUntil reg k d = none) : NonReadyStep reg d z (z.zadd e j)
  | moved (hc : d.cmd = .moveToReady) (hp : ∀ j, parkedUntil reg j d = none) :
      NonReadyStep reg d z ((movedBy reg d).foldl Core.ZSet.zrem z)

theorem nonReady_step (reg : Registry) (cmd : Cmd) (inp : Input) (s : Store) :
    NonReadyStep reg ⟨cmd, inp, s⟩ s.nonReadyQueue (exec reg cmd inp s).1.nonReadyQueue := by
  by_cases hp : parks cmd = true
  · cases cmd with
    | moveToReady =>
      obtain ⟨_, _, he⟩ := @moveToReady_frame reg inp s
      rw [he]
      exact .moved rfl fun _ => rfl
    | congestionBackoff j g => exact .parked rfl (if_pos rfl) fun k hk => if_neg hk.symm
    | nonReadyAdd j => exact .parked rfl (if_pos rfl) fun k hk => if_neg hk.symm
    | _ => cases hp
  · rw [nonReady_frame (eq_false_of_ne_true hp)]
    cases cmd with
    | moveToReady | congestionBackoff | nonReadyAdd => exact absurd rfl hp
    | _ => exact .other rfl fun _ => rfl

end NestPlayground.L4
