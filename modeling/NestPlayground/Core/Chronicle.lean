import NestPlayground.Core.Traced

/-!
# The deeds of a run

An `Outline` speaks of world and history, and the history keeps of a call only
the reply. `S.chronicled` is the same program over a world that also writes
down every executed call as a `Deed`: what it read from outside and the world
it was executed on. A run with its past is a run of the chronicled program
(`chronicle_reachable`), so an outline of the chronicled program proves facts
about the deeds of the run (`Outline.chronicle`).
-/
namespace NestPlayground.Core

/-- An executed call, what it read from outside, and the world it was executed on. -/
structure Deed (C Inp W : Type) where
  cmd : C
  inp : Inp
  world : W

namespace Program
variable {C : Type} {R : C → Type} {W Inp E T Pc : Type}

/-- The program that writes its deeds down, latest first. -/
def chronicled (S : Program R W Inp E T Pc) : Program R (W × List (Deed C Inp W)) Inp E T Pc where
  exec cmd inp w := (((S.exec cmd inp w.1).1, ⟨cmd, inp, w.1⟩ :: w.2), (S.exec cmd inp w.1).2)
  remote := S.remote
  view := S.view
  start := S.start
  env e w := (S.env e w.1, w.2)
  dead := S.dead

/-- The call a step executes. -/
def deedOf (S : Program R W Inp E T Pc) (c : Net R W Pc) : Label Inp E T → List (Deed C Inp W)
  | .run i inp =>
    match (c.procs[i]?).map S.view with
    | some (.call cmd _ _) => [⟨cmd, inp, c.world⟩]
    | _ => []
  | _ => []

/-- The deeds of a run, latest first. -/
def deeds (S : Program R W Inp E T Pc) (past : List (Net R W Pc × Label Inp E T)) : List (Deed C Inp W) :=
  past.flatMap fun x => S.deedOf x.1 x.2

/-- A state and the deeds that led to it. -/
def chronicle (S : Program R W Inp E T Pc) (t : Traced (Net R W Pc) (Label Inp E T)) :
    Net R (W × List (Deed C Inp W)) Pc where
  world := (t.state.world, S.deeds t.past)
  procs := t.state.procs
  log := t.state.log

@[simp] theorem deeds_cons (S : Program R W Inp E T Pc) (c : Net R W Pc) (l : Label Inp E T)
    (past : List (Net R W Pc × Label Inp E T)) : S.deeds ((c, l) :: past) = S.deedOf c l ++ S.deeds past := rfl

theorem deedOf_run {S : Program R W Inp E T Pc} {c : Net R W Pc} {i : Nat} {inp : Inp} {p : Pc} {cmd : C}
    {ok : R cmd → Pc} {err : Pc} (hp : c.procs[i]? = some p) (hv : S.view p = .call cmd ok err) :
    S.deedOf c (.run i inp) = [⟨cmd, inp, c.world⟩] := by
  simp [deedOf, hp, hv]

/-- A step of a run is a step of the chronicled program. -/
theorem chronicled_step {S : Program R W Inp E T Pc} {t t' : Traced (Net R W Pc) (Label Inp E T)}
    {l : Label Inp E T} (hs : S.Step t.state l t'.state) (hp : t'.past = (t.state, l) :: t.past) :
    S.chronicled.Step (S.chronicle t) l (S.chronicle t') := by
  obtain ⟨c, past⟩ := t
  obtain ⟨c', past'⟩ := t'
  simp only at hs hp
  subst hp
  cases hs with
  | @run i inp p cmd ok err hi hv =>
    unfold chronicle
    simp only [deeds_cons, deedOf_run hi hv]
    exact .run hi hv
  | @reject i p cmd ok err hi hv hr => exact .reject (S := S.chronicled) hi hv hr
  | @stop i p hi => exact .stop (S := S.chronicled) hi
  | spawn => exact .spawn (S := S.chronicled)
  | env => exact .env (S := S.chronicled)

/-- A run with its past is a run of the chronicled program. -/
theorem chronicle_reachable {S : Program R W Inp E T Pc} {c₀ : Net R W Pc}
    {H : Traced (Net R W Pc) (Label Inp E T) → Label Inp E T → Prop}
    {K : Net R (W × List (Deed C Inp W)) Pc → Label Inp E T → Prop} (hK : ∀ t l, H t l → K (S.chronicle t) l)
    {t : Traced (Net R W Pc) (Label Inp E T)} (h : ((S.lts c₀).traced.restrict H).Reachable t) :
    ((S.chronicled.lts ⟨(c₀.world, []), c₀.procs, c₀.log⟩).restrict K).Reachable (S.chronicle t) := by
  induction h with
  | @init t hi =>
    refine .init ?_
    obtain ⟨c, past⟩ := t
    obtain ⟨hc, hp⟩ := hi
    cases hc
    cases hp
    rfl
  | step _ hs ih => exact .step ih ⟨chronicled_step hs.1.1 hs.1.2, hK _ _ hs.2⟩

/-- What an outline over the deeds asserts holds along every run. -/
theorem Outline.chronicle {S : Program R W Inp E T Pc} {c₀ : Net R W Pc}
    {K : Net R (W × List (Deed C Inp W)) Pc → Label Inp E T → Prop}
    {I : W × List (Deed C Inp W) → List (Entry R) → Prop}
    {A : W × List (Deed C Inp W) → List (Entry R) → Nat → Pc → Prop} (O : Outline S.chronicled K I A)
    (h₀ : Holds I A ⟨(c₀.world, []), c₀.procs, c₀.log⟩)
    {H : Traced (Net R W Pc) (Label Inp E T) → Label Inp E T → Prop} (hK : ∀ t l, H t l → K (S.chronicle t) l)
    {t : Traced (Net R W Pc) (Label Inp E T)} (h : ((S.lts c₀).traced.restrict H).Reachable t) :
    Holds I A (S.chronicle t) :=
  (O.inductive h₀).reachable _ (chronicle_reachable hK h)

/-- What a ledger over the deeds asserts holds along every run. -/
theorem Ledgered.chronicle {S : Program R W Inp E T Pc} {c₀ : Net R W Pc}
    {K : Net R (W × List (Deed C Inp W)) Pc → Label Inp E T → Prop}
    {I : W × List (Deed C Inp W) → List (Entry R) → Prop} (L : Ledgered S.chronicled K I)
    (h₀ : I (c₀.world, []) c₀.log)
    {H : Traced (Net R W Pc) (Label Inp E T) → Label Inp E T → Prop} (hK : ∀ t l, H t l → K (S.chronicle t) l)
    {t : Traced (Net R W Pc) (Label Inp E T)} (h : ((S.lts c₀).traced.restrict H).Reachable t) :
    I (t.state.world, S.deeds t.past) t.state.log := by
  have hind : ((S.chronicled.lts ⟨(c₀.world, []), c₀.procs, c₀.log⟩).restrict K).Inductive
      fun c => I c.world c.log := L.inductive h₀
  exact hind.reachable _ (chronicle_reachable hK h)

end Program
end NestPlayground.Core
