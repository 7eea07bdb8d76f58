import NestPlayground.Core.LTS
import Mathlib.Algebra.Order.BigOperators.Group.List
import Mathlib.Algebra.Order.Ring.Nat

/-!
# Coroutines over a shared world

An `async` function runs alone between two awaits and is suspended at each
one. A suspended activity is a value `p : Pc` (where it is and its locals);
`view p` is the call it waits for, how it goes on with the reply, and how it
goes on when the call rejects. A `Net` holds the shared world, every activity
started so far and the history of executed calls, newest first. Its steps
interleave the activities in any order: one call is executed (`run`), rejects
without effect (`reject`), an activity stops for good (`stop`), a new one is
started (`spawn`), or the environment acts on the world (`env`).

The proof rules say what has to be checked call by call:

* `Outline.inductive`: an invariant of world and history together with an
  assertion for each activity, kept by its own steps and by everybody else's;
* `Account.le_minted`: a quantity that is in the world or in the hands of the
  activities never exceeds what the history minted;
* `Presence.present`: what is due stays in the world or in somebody's hands.
-/
namespace NestPlayground.Core

/-- The next move of a suspended activity. -/
inductive Action {C : Type} (R : C → Type) (Pc : Type) where
  | call (c : C) (ok : R c → Pc) (err : Pc)
  | halt

/-- Where an `async` function is after a call: at its next await, returned, or
rejected. -/
inductive Next (Pc α : Type) where
  | goto (p : Pc)
  | ret (a : α)
  | throw

/-- An inner activity seen from the outer one it was awaited in. -/
def Action.map {C : Type} {R : C → Type} {A B : Type} (f : A → B) : Action R A → Action R B
  | .call c ok err => .call c (fun r => f (ok r)) (f err)
  | .halt => .halt

theorem Action.map_map {C : Type} {R : C → Type} {A B D : Type} (f : A → B) (g : B → D) (a : Action R A) :
    (a.map f).map g = a.map fun x => g (f x) := by
  cases a <;> rfl

/-- A triple for the next call: `pre` of the call, `post` of the call, its reply
and where the activity goes on with it, `exc` of where it goes on when the call
rejects. -/
def Action.Spec {C : Type} {R : C → Type} {Pc : Type} (pre : C → Prop)
    (post : (c : C) → R c → Pc → Prop) (exc : C → Pc → Prop) : Action R Pc → Prop
  | .call c ok err => pre c ∧ (∀ r, post c r (ok r)) ∧ exc c err
  | .halt => True

/-- The triple of an inner activity, with what the outer one makes of its
outcomes, is the triple of the outer one. -/
theorem Action.Spec.map {C : Type} {R : C → Type} {A B : Type} {pre : C → Prop}
    {post : (c : C) → R c → A → Prop} {exc : C → A → Prop} {post' : (c : C) → R c → B → Prop}
    {exc' : C → B → Prop} {f : A → B} {a : Action R A} (h : a.Spec pre post exc)
    (hpost : ∀ c r x, post c r x → post' c r (f x)) (hexc : ∀ c x, exc c x → exc' c (f x)) :
    (a.map f).Spec pre post' exc' := by
  cases a with
  | call c ok err =>
    obtain ⟨h1, h2, h3⟩ := h
    exact ⟨h1, fun r => hpost c r _ (h2 r), hexc c _ h3⟩
  | halt => trivial

/-- What holds of everything the outer activity makes of an outcome. -/
theorem Action.map_all {C : Type} {R : C → Type} {A B : Type} (a : Action R A) {f : A → B} {P : B → Prop}
    (hf : ∀ x, P (f x)) : (a.map f).Spec (fun _ => True) (fun _ _ x => P x) fun _ x => P x := by
  cases a with
  | call c ok err => exact ⟨trivial, fun r => hf _, hf _⟩
  | halt => trivial

/-- What holds of every call and every outcome. -/
theorem Action.Spec.of_forall {C : Type} {R : C → Type} {Pc : Type} {pre : C → Prop}
    {post : (c : C) → R c → Pc → Prop} {exc : C → Pc → Prop} (hpre : ∀ c, pre c) (hpost : ∀ c r x, post c r x)
    (hexc : ∀ c x, exc c x) (a : Action R Pc) : a.Spec pre post exc := by
  cases a with
  | call c ok err => exact ⟨hpre c, fun r => hpost c r _, hexc c _⟩
  | halt => trivial

/-- A triple with weaker conditions. -/
theorem Action.Spec.mono {C : Type} {R : C → Type} {Pc : Type} {pre pre' : C → Prop}
    {post post' : (c : C) → R c → Pc → Prop} {exc exc' : C → Pc → Prop} {a : Action R Pc} (h : a.Spec pre post exc)
    (hpre : ∀ c, pre c → pre' c) (hpost : ∀ c r x, post c r x → post' c r x) (hexc : ∀ c x, exc c x → exc' c x) :
    a.Spec pre' post' exc' := by
  cases a with
  | call c ok err =>
    obtain ⟨h1, h2, h3⟩ := h
    exact ⟨hpre c h1, fun r => hpost c r _ (h2 r), hexc c _ h3⟩
  | halt => trivial

/-- Two triples of one call. -/
theorem Action.Spec.and {C : Type} {R : C → Type} {Pc : Type} {pre pre' : C → Prop}
    {post post' : (c : C) → R c → Pc → Prop} {exc exc' : C → Pc → Prop} {a : Action R Pc} (h : a.Spec pre post exc)
    (h' : a.Spec pre' post' exc') :
    a.Spec (fun c => pre c ∧ pre' c) (fun c r x => post c r x ∧ post' c r x) fun c x => exc c x ∧ exc' c x := by
  cases a with
  | call c ok err => exact ⟨⟨h.1, h'.1⟩, fun r => ⟨h.2.1 r, h'.2.1 r⟩, h.2.2, h'.2.2⟩
  | halt => trivial

/-- `P` holds of the await, if there is one. -/
def Next.All {Pc α : Type} (P : Pc → Prop) : Next Pc α → Prop
  | .goto p => P p
  | .ret _ => True
  | .throw => True

theorem Next.all_of_forall {Pc α : Type} {P : Pc → Prop} (h : ∀ p, P p) (x : Next Pc α) : x.All P := by
  cases x with
  | goto p => exact h p
  | ret b => trivial
  | throw => trivial

/-- One executed call: who made it, the call and its reply. -/
structure Entry {C : Type} (R : C → Type) where
  pid : Nat
  cmd : C
  reply : R cmd

structure Net {C : Type} (R : C → Type) (W Pc : Type) where
  world : W
  procs : List Pc
  log : List (Entry R)

inductive Label (Inp E T : Type) where
  | run (i : Nat) (inp : Inp)
  | reject (i : Nat)
  | stop (i : Nat)
  | spawn (t : T)
  | env (e : E)

/-- `exec` is the meaning of a call; `inp` is what the call reads from outside
the world. `remote` calls may reject. `start t` is the activity of task `t`. -/
structure Program {C : Type} (R : C → Type) (W Inp E T Pc : Type) where
  exec : (c : C) → Inp → W → W × R c
  remote : C → Bool
  view : Pc → Action R Pc
  start : T → Pc
  env : E → W → W
  dead : Pc

namespace Program
variable {C : Type} {R : C → Type} {W Inp E T Pc : Type}

/-- The state after activity `i` executed `cmd` and went on with the reply. -/
def ran (S : Program R W Inp E T Pc) (c : Net R W Pc) (i : Nat) (cmd : C) (inp : Inp)
    (ok : R cmd → Pc) : Net R W Pc where
  world := (S.exec cmd inp c.world).1
  procs := c.procs.set i (ok (S.exec cmd inp c.world).2)
  log := ⟨i, cmd, (S.exec cmd inp c.world).2⟩ :: c.log

inductive Step (S : Program R W Inp E T Pc) : Net R W Pc → Label Inp E T → Net R W Pc → Prop where
  | run {c i inp p cmd ok err} (hp : c.procs[i]? = some p) (hv : S.view p = .call cmd ok err) :
      Step S c (.run i inp) (S.ran c i cmd inp ok)
  | reject {c i p cmd ok err} (hp : c.procs[i]? = some p) (hv : S.view p = .call cmd ok err)
      (hr : S.remote cmd = true) : Step S c (.reject i) { c with procs := c.procs.set i err }
  | stop {c i p} (hp : c.procs[i]? = some p) :
      Step S c (.stop i) { c with procs := c.procs.set i S.dead }
  | spawn {c t} : Step S c (.spawn t) { c with procs := c.procs ++ [S.start t] }
  | env {c e} : Step S c (.env e) { c with world := S.env e c.world }

/-- The step as a function of the label, to replay a schedule. -/
def step (S : Program R W Inp E T Pc) (c : Net R W Pc) : Label Inp E T → Option (Net R W Pc)
  | .run i inp =>
    match c.procs[i]? with
    | none => none
    | some p =>
      match S.view p with
      | .halt => none
      | .call cmd ok _ => some (S.ran c i cmd inp ok)
  | .reject i =>
    match c.procs[i]? with
    | none => none
    | some p =>
      match S.view p with
      | .halt => none
      | .call cmd _ err => if S.remote cmd then some { c with procs := c.procs.set i err } else none
  | .stop i => (c.procs[i]?).map fun _ => { c with procs := c.procs.set i S.dead }
  | .spawn t => some { c with procs := c.procs ++ [S.start t] }
  | .env e => some { c with world := S.env e c.world }

theorem step_sound {S : Program R W Inp E T Pc} {c c' : Net R W Pc} {l : Label Inp E T}
    (h : S.step c l = some c') : S.Step c l c' := by
  cases l with
  | run i inp =>
    simp only [step] at h
    split at h
    · cases h
    · rename_i p hp
      split at h
      · cases h
      · rename_i hv
        cases h
        exact .run hp hv
  | reject i =>
    simp only [step] at h
    split at h
    · cases h
    · rename_i p hp
      split at h
      · cases h
      · rename_i hv
        split at h
        · rename_i hr
          cases h
          exact .reject hp hv hr
        · cases h
  | stop i =>
    simp only [step, Option.map_eq_some_iff] at h
    obtain ⟨p, hp, rfl⟩ := h
    exact .stop hp
  | spawn t =>
    cases h
    exact .spawn
  | env e =>
    cases h
    exact .env

/-- An executed call is the latest entry of the history. -/
theorem log_of_run {S : Program R W Inp E T Pc} {c c' : Net R W Pc} {i : Nat} {inp : Inp}
    (h : S.Step c (.run i inp) c') {e : Entry R} (he : e ∈ c'.log.head?) : c'.log = e :: c.log := by
  cases h
  cases he
  rfl

/-- Activities are never removed. -/
theorem length_le {S : Program R W Inp E T Pc} {c c' : Net R W Pc} {l : Label Inp E T} (h : S.Step c l c') :
    c.procs.length ≤ c'.procs.length := by
  cases h with
  | run | reject | stop => exact (List.length_set ..).ge
  | spawn => exact (List.length_append ..).ge.trans' (Nat.le_add_right _ _)
  | env => exact le_refl _

def lts (S : Program R W Inp E T Pc) (c₀ : Net R W Pc) : LTS (Net R W Pc) (Label Inp E T) where
  init c := c = c₀
  step := S.Step

/-- Replay a schedule, checking `ok` before every step. -/
def replay (S : Program R W Inp E T Pc) (ok : Net R W Pc → Label Inp E T → Bool) :
    Net R W Pc → List (Label Inp E T) → Option (Net R W Pc)
  | c, [] => some c
  | c, l :: ls =>
    if ok c l then
      match S.step c l with
      | some c' => S.replay ok c' ls
      | none => none
    else none

theorem replay_reachable {S : Program R W Inp E T Pc} {c₀ : Net R W Pc}
    {ok : Net R W Pc → Label Inp E T → Bool} (ls : List (Label Inp E T)) :
    ∀ {c c' : Net R W Pc}, ((S.lts c₀).restrict fun s l => ok s l = true).Reachable c →
      S.replay ok c ls = some c' → ((S.lts c₀).restrict fun s l => ok s l = true).Reachable c' := by
  induction ls with
  | nil =>
    intro c c' hc h
    cases h
    exact hc
  | cons l ls ih =>
    intro c c' hc h
    simp only [replay] at h
    split at h
    · rename_i hok
      split at h
      · rename_i c₁ hs
        exact ih (.step hc ⟨step_sound hs, hok⟩) h
      · cases h
    · cases h

/-- A schedule that replays to a state with `P` shows such a state reachable. -/
theorem exists_of_replay {S : Program R W Inp E T Pc} {c₀ : Net R W Pc}
    {ok : Net R W Pc → Label Inp E T → Bool} {ls : List (Label Inp E T)} {P : Net R W Pc → Bool}
    (h : (S.replay ok c₀ ls).any P = true) :
    ∃ c, ((S.lts c₀).restrict fun s l => ok s l = true).Reachable c ∧ P c = true := by
  obtain ⟨c, hc, hP⟩ := (Option.any_eq_true _ _).mp h
  exact ⟨c, replay_reachable ls (.init rfl) hc, hP⟩

/-- The same with one more step. -/
theorem exists_step_of_replay {S : Program R W Inp E T Pc} {c₀ : Net R W Pc}
    {ok : Net R W Pc → Label Inp E T → Bool} {ls : List (Label Inp E T)} {l : Label Inp E T}
    {P : Net R W Pc → Net R W Pc → Bool}
    (h : (S.replay ok c₀ ls).any (fun c => (S.step c l).any (P c)) = true) :
    ∃ c c', ((S.lts c₀).restrict fun s l => ok s l = true).Reachable c ∧ S.Step c l c' ∧ P c c' = true := by
  obtain ⟨c, hc, hP⟩ := exists_of_replay h
  obtain ⟨c', hc', hP⟩ := (Option.any_eq_true _ _).mp hP
  exact ⟨c, c', hc, step_sound hc', hP⟩

/-! ## Invariants of world and history -/

/-- `I` is kept by every call, whoever makes it, and by the environment. -/
structure Ledgered (S : Program R W Inp E T Pc) (H : Net R W Pc → Label Inp E T → Prop)
    (I : W → List (Entry R) → Prop) : Prop where
  run : ∀ {c : Net R W Pc} {i inp p cmd ok err}, I c.world c.log → c.procs[i]? = some p →
    S.view p = .call cmd ok err → H c (.run i inp) →
    I (S.exec cmd inp c.world).1 (⟨i, cmd, (S.exec cmd inp c.world).2⟩ :: c.log)
  env : ∀ {w log} e, I w log → I (S.env e w) log

theorem Ledgered.step {S : Program R W Inp E T Pc} {H : Net R W Pc → Label Inp E T → Prop}
    {I : W → List (Entry R) → Prop} (L : Ledgered S H I) {c c' : Net R W Pc} {l : Label Inp E T}
    (hc : I c.world c.log) (hs : S.Step c l c') (hH : H c l) : I c'.world c'.log := by
  cases hs with
  | run hp hv => exact L.run hc hp hv hH
  | reject hp hv hr => exact hc
  | stop hp => exact hc
  | spawn => exact hc
  | env => exact L.env _ hc

theorem Ledgered.inductive {S : Program R W Inp E T Pc} {H : Net R W Pc → Label Inp E T → Prop}
    {I : W → List (Entry R) → Prop} (L : Ledgered S H I) {c₀ : Net R W Pc} (h₀ : I c₀.world c₀.log) :
    ((S.lts c₀).restrict H).Inductive fun c => I c.world c.log where
  init _ hc := hc ▸ h₀
  step _ _ _ hc hs := L.step hc hs.1 hs.2

/-! ## Assertions for each activity -/

theorem forall_set {P : Nat → Pc → Prop} {ps : List Pc} {i : Nat} {p' : Pc}
    (h : ∀ k q, k ≠ i → ps[k]? = some q → P k q) (h' : P i p') :
    ∀ k q, (ps.set i p')[k]? = some q → P k q := by
  intro k q hk
  rcases eq_or_ne k i with rfl | hki
  · rw [List.getElem?_set_self'] at hk
    obtain ⟨-, -, rfl⟩ := Option.map_eq_some_iff.mp hk
    exact h'
  · rw [List.getElem?_set_ne (Ne.symm hki)] at hk
    exact h k q hki hk

theorem forall_append {P : Nat → Pc → Prop} {ps : List Pc} {p' : Pc} (h : ∀ k q, ps[k]? = some q → P k q)
    (h' : P ps.length p') : ∀ k q, (ps ++ [p'])[k]? = some q → P k q := by
  intro k q hk
  rcases Nat.lt_or_ge k ps.length with hlt | hge
  · rw [List.getElem?_append_left hlt] at hk
    exact h k q hk
  · rw [List.getElem?_append_right hge, List.getElem?_singleton] at hk
    split at hk
    · cases hk
      rw [show k = ps.length by omega]
      exact h'
    · cases hk

/-- A proof outline: `I` holds of world and history, `A` of every activity.
An executed call has to keep `I`, establish the caller's next assertion and
keep everybody's; the other steps have one obligation each. `H` is the step
condition of the runs considered. -/
structure Outline (S : Program R W Inp E T Pc) (H : Net R W Pc → Label Inp E T → Prop)
    (I : W → List (Entry R) → Prop) (A : W → List (Entry R) → Nat → Pc → Prop) : Prop where
  run : ∀ {c : Net R W Pc} {i inp p cmd ok err}, I c.world c.log →
    (∀ k q, c.procs[k]? = some q → A c.world c.log k q) →
    c.procs[i]? = some p → S.view p = .call cmd ok err → H c (.run i inp) →
    I (S.ran c i cmd inp ok).world (S.ran c i cmd inp ok).log ∧
    A (S.ran c i cmd inp ok).world (S.ran c i cmd inp ok).log i (ok (S.exec cmd inp c.world).2) ∧
    ∀ k q, k ≠ i → c.procs[k]? = some q → A (S.ran c i cmd inp ok).world (S.ran c i cmd inp ok).log k q
  reject : ∀ {c : Net R W Pc} {i p cmd ok err}, I c.world c.log → A c.world c.log i p →
    c.procs[i]? = some p → S.view p = .call cmd ok err → H c (.reject i) → A c.world c.log i err
  dead : ∀ w log i, A w log i S.dead
  spawn : ∀ {c : Net R W Pc} {t}, I c.world c.log → H c (.spawn t) →
    A c.world c.log c.procs.length (S.start t)
  env : ∀ {w log} e, I w log → I (S.env e w) log ∧ ∀ i q, A w log i q → A (S.env e w) log i q

/-- What an outline asserts of a state. -/
def Holds (I : W → List (Entry R) → Prop) (A : W → List (Entry R) → Nat → Pc → Prop)
    (c : Net R W Pc) : Prop :=
  I c.world c.log ∧ ∀ i p, c.procs[i]? = some p → A c.world c.log i p

section Outline
variable {S : Program R W Inp E T Pc} {H : Net R W Pc → Label Inp E T → Prop}
  {I : W → List (Entry R) → Prop} {A : W → List (Entry R) → Nat → Pc → Prop}

theorem Outline.step (O : Outline S H I A) {c c' : Net R W Pc} {l : Label Inp E T}
    (hc : Holds I A c) (hs : S.Step c l c') (hH : H c l) : Holds I A c' := by
  obtain ⟨hi, ha⟩ := hc
  cases hs with
  | run hp hv =>
    obtain ⟨h1, h2, h3⟩ := O.run hi ha hp hv hH
    exact ⟨h1, forall_set h3 h2⟩
  | reject hp hv hr =>
    exact ⟨hi, forall_set (fun k q _ hk => ha k q hk) (O.reject (c := c) hi (ha _ _ hp) hp hv hH)⟩
  | stop hp => exact ⟨hi, forall_set (fun k q _ hk => ha k q hk) (O.dead _ _ _)⟩
  | spawn => exact ⟨hi, forall_append ha (O.spawn (c := c) hi hH)⟩
  | env => exact ⟨(O.env _ hi).1, fun k q hk => (O.env _ hi).2 k q (ha k q hk)⟩

theorem Outline.inductive (O : Outline S H I A) {c₀ : Net R W Pc} (h₀ : Holds I A c₀) :
    ((S.lts c₀).restrict H).Inductive (Holds I A) where
  init _ hc := hc ▸ h₀
  step _ _ _ hc hs := O.step hc hs.1 hs.2

end Outline

/-! ## Quantities shared between the world and the activities -/

/-- What world and history show plus what the activities hold. -/
def total (place : W → List (Entry R) → Nat) (hold : Pc → Nat) (c : Net R W Pc) : Nat :=
  place c.world c.log + (c.procs.map hold).sum

theorem sum_map_set (hold : Pc → Nat) {ps : List Pc} {i : Nat} {p : Pc} (hp : ps[i]? = some p)
    (p' : Pc) : ((ps.set i p').map hold).sum + hold p = (ps.map hold).sum + hold p' := by
  induction ps generalizing i with
  | nil => simp at hp
  | cons q ps ih =>
    cases i with
    | zero =>
      simp only [List.getElem?_cons_zero, Option.some.injEq] at hp
      subst hp
      simp only [List.set_cons_zero, List.map_cons, List.sum_cons]
      omega
    | succ i =>
      simp only [List.getElem?_cons_succ] at hp
      have := ih hp
      simp only [List.set_cons_succ, List.map_cons, List.sum_cons]
      omega

theorem hold_le_sum (hold : Pc → Nat) {ps : List Pc} {p : Pc} (hp : p ∈ ps) :
    hold p ≤ (ps.map hold).sum :=
  List.single_le_sum (fun _ _ => Nat.zero_le _) _ (List.mem_map_of_mem hp)

/-- Two activities hold no more than all. -/
theorem hold_add_le_sum (hold : Pc → Nat) {ps : List Pc} {i k : Nat} {p q : Pc} (hp : ps[i]? = some p)
    (hq : ps[k]? = some q) (hne : i ≠ k) : hold p + hold q ≤ (ps.map hold).sum := by
  induction ps generalizing i k with
  | nil => simp at hp
  | cons r ps ih =>
    have hmem : ∀ {m : Nat} {x : Pc}, ps[m]? = some x → hold x ≤ (ps.map hold).sum := fun h =>
      hold_le_sum hold (List.mem_of_getElem? h)
    rw [List.map_cons, List.sum_cons]
    cases i with
    | zero =>
      cases k with
      | zero => exact absurd rfl hne
      | succ k =>
        cases hp
        exact Nat.add_le_add_left (hmem hq) _
    | succ i =>
      cases k with
      | zero =>
        cases hq
        rw [Nat.add_comm]
        exact Nat.add_le_add_left (hmem hp) _
      | succ k => exact (ih hp hq fun h => hne (congrArg _ h)).trans (Nat.le_add_left _ _)

section Quantity
variable {S : Program R W Inp E T Pc} {H : Net R W Pc → Label Inp E T → Prop}
  {place : W → List (Entry R) → Nat} {hold : Pc → Nat}

/-- The step conditions of an account: what a call puts into the world or into
its caller's hands it takes out of them, or the history mints it. -/
structure Account (S : Program R W Inp E T Pc) (H : Net R W Pc → Label Inp E T → Prop)
    (place : W → List (Entry R) → Nat) (hold : Pc → Nat) (minted : List (Entry R) → Nat) : Prop where
  run : ∀ {c : Net R W Pc} {i inp p cmd ok err}, c.procs[i]? = some p →
    S.view p = .call cmd ok err → H c (.run i inp) →
    place (S.ran c i cmd inp ok).world (S.ran c i cmd inp ok).log +
        hold (ok (S.exec cmd inp c.world).2) + minted c.log ≤
      place c.world c.log + hold p + minted (S.ran c i cmd inp ok).log
  reject : ∀ {c i p cmd ok err}, c.procs[i]? = some p → S.view p = .call cmd ok err →
    H c (.reject i) → hold err ≤ hold p
  dead : hold S.dead = 0
  spawn : ∀ t, hold (S.start t) = 0
  env : ∀ w log e, place (S.env e w) log ≤ place w log

theorem Account.step {minted : List (Entry R) → Nat} (K : Account S H place hold minted)
    {c c' : Net R W Pc} {l : Label Inp E T} (hs : S.Step c l c') (hH : H c l)
    (h : total place hold c ≤ minted c.log) : total place hold c' ≤ minted c'.log := by
  unfold total at h ⊢
  cases hs with
  | @run i inp p cmd ok err hp hv =>
    have h1 := K.run hp hv hH
    have h2 := sum_map_set hold hp (ok (S.exec cmd inp c.world).2)
    simp only [ran] at h1 ⊢
    omega
  | @reject i p cmd ok err hp hv hr =>
    have h1 := K.reject hp hv hH
    have h2 := sum_map_set hold hp err
    simp only
    omega
  | stop hp =>
    have h1 := K.dead
    have h2 := sum_map_set hold hp S.dead
    simp only
    omega
  | @spawn t =>
    have h1 := K.spawn t
    simp only [List.map_append, List.sum_append, List.map_cons, List.map_nil, List.sum_cons,
      List.sum_nil]
    omega
  | @env e =>
    have := K.env c.world c.log e
    simp only
    omega

/-- An account never shows more than was minted. -/
theorem Account.le_minted {minted : List (Entry R) → Nat} (K : Account S H place hold minted)
    {c₀ : Net R W Pc} (h₀ : total place hold c₀ ≤ minted c₀.log) {c : Net R W Pc}
    (h : ((S.lts c₀).restrict H).Reachable c) : total place hold c ≤ minted c.log := by
  induction h with
  | init hc => exact hc ▸ h₀
  | step _ hs ih => exact K.step hs.1 hs.2 ih

/-- The step conditions of a presence: once `due`, something shows in the
world, in the history or in the hands of an activity, and no step of the one
who holds it lets go of it. -/
structure Presence (S : Program R W Inp E T Pc) (H : Net R W Pc → Label Inp E T → Prop)
    (place : W → List (Entry R) → Nat) (hold : Pc → Nat) (due : List (Entry R) → Prop) : Prop where
  run : ∀ {c : Net R W Pc} {i inp p cmd ok err}, c.procs[i]? = some p →
    S.view p = .call cmd ok err → H c (.run i inp) →
    (due c.log → 0 < place c.world c.log + hold p) → due (S.ran c i cmd inp ok).log →
    0 < place (S.ran c i cmd inp ok).world (S.ran c i cmd inp ok).log +
      hold (ok (S.exec cmd inp c.world).2)
  reject : ∀ {c i p cmd ok err}, c.procs[i]? = some p → S.view p = .call cmd ok err →
    H c (.reject i) → hold p ≤ hold err
  stop : ∀ {c i p}, c.procs[i]? = some p → H c (.stop i) → hold p = 0
  env : ∀ w log e, place w log ≤ place (S.env e w) log

theorem Presence.step {due : List (Entry R) → Prop} (K : Presence S H place hold due)
    {c c' : Net R W Pc} {l : Label Inp E T} (hs : S.Step c l c') (hH : H c l)
    (h : due c.log → 0 < total place hold c) (hd : due c'.log) : 0 < total place hold c' := by
  unfold total at h ⊢
  cases hs with
  | @run i inp p cmd ok err hp hv =>
    have h2 := sum_map_set hold hp (ok (S.exec cmd inp c.world).2)
    have h3 := hold_le_sum hold (List.mem_of_getElem? hp)
    -- somebody else holds it, or it is in the world or with the caller
    by_cases ho : (c.procs.map hold).sum = hold p
    · have := K.run hp hv hH (fun hd => by have := h hd; omega) hd
      simp only [ran] at this ⊢
      omega
    · simp only [ran]
      omega
  | @reject i p cmd ok err hp hv hr =>
    have h1 := K.reject hp hv hH
    have h2 := sum_map_set hold hp err
    have := h hd
    simp only
    omega
  | @stop i p hp =>
    have h1 := K.stop hp hH
    have h2 := sum_map_set hold hp S.dead
    have := h hd
    simp only
    omega
  | spawn =>
    have := h hd
    simp only [List.map_append, List.sum_append]
    omega
  | @env e =>
    have h1 := K.env c.world c.log e
    have := h hd
    simp only
    omega

/-- What is due stays present. -/
theorem Presence.present {due : List (Entry R) → Prop} (K : Presence S H place hold due)
    {c₀ : Net R W Pc} (h₀ : due c₀.log → 0 < total place hold c₀) {c : Net R W Pc}
    (h : ((S.lts c₀).restrict H).Reachable c) (hd : due c.log) : 0 < total place hold c := by
  induction h with
  | init hc => exact hc ▸ h₀ (hc ▸ hd)
  | step _ hs ih => exact K.step hs.1 hs.2 ih hd

/-- A total that shows nothing in the world is in somebody's hands. -/
theorem exists_holder {c : Net R W Pc} (h : 0 < total place hold c) (hw : place c.world c.log = 0) :
    ∃ p ∈ c.procs, 0 < hold p := by
  by_contra hn
  have : (c.procs.map hold).sum = 0 := by
    refine List.sum_eq_zero fun n hn' => ?_
    obtain ⟨p, hp, rfl⟩ := List.mem_map.mp hn'
    exact Nat.eq_zero_of_not_pos fun h => hn ⟨p, hp, h⟩
  unfold total at h
  omega

end Quantity

/-! ## Coming to an end -/

/-- Activities that come nearer to their end with every call, whatever it is
answered, can be run to their end. `tag` is what no call changes. -/
theorem exists_finished {S : Program R W Inp E T Pc} {H : Net R W Pc → Label Inp E T → Prop} {left : Pc → Nat}
    {A : Type} {tag : Pc → A} (inp : Inp) (hH : ∀ c i, H c (.run i inp))
    (hcall : ∀ p, 0 < left p → ∃ cmd ok err, S.view p = .call cmd ok err ∧
      ∀ r, left (ok r) < left p ∧ tag (ok r) = tag p)
    {c₀ : Net R W Pc} (c : Net R W Pc) : ∃ c', ((S.lts c₀).restrict H).Steps c c' ∧
      (∀ p ∈ c'.procs, left p = 0) ∧ c'.procs.map tag = c.procs.map tag := by
  generalize hn : (c.procs.map left).sum = n
  induction n using Nat.strong_induction_on generalizing c with
  | _ n ih =>
    by_cases hdone : ∀ p ∈ c.procs, left p = 0
    · exact ⟨c, .refl, hdone, rfl⟩
    push Not at hdone
    obtain ⟨p, hp, hpos⟩ := hdone
    obtain ⟨i, hi⟩ := List.mem_iff_getElem?.mp hp
    obtain ⟨cmd, ok, err, hv, hok⟩ := hcall p (Nat.pos_of_ne_zero hpos)
    obtain ⟨hless, htag⟩ := hok (S.exec cmd inp c.world).2
    have hsum := sum_map_set left hi (ok (S.exec cmd inp c.world).2)
    obtain ⟨c', hs, hall, htags⟩ := ih _ (by simp only [ran]; omega) (S.ran c i cmd inp ok) rfl
    refine ⟨c', .head ⟨_, .run hi hv, hH c i⟩ hs, hall, htags.trans ?_⟩
    obtain ⟨hlt, rfl⟩ := List.getElem?_eq_some_iff.mp hi
    have hlt' : i < (c.procs.map tag).length := by rwa [List.length_map]
    rw [ran, List.map_set, htag, ← List.getElem_map tag (h := hlt')]
    exact List.set_getElem_self hlt'

end Program
end NestPlayground.Core
