import Mathlib.Logic.Relation

/-!
# Labelled transition systems

Safety is stated over reachable states and proved by one induction
(`Inductive.reachable`). `restrict T H` keeps the steps that meet `H`, so a
hypothesis about the schedule is a hypothesis about every step of a run.
-/
namespace NestPlayground.Core

structure LTS (S L : Type) where
  init : S → Prop
  step : S → L → S → Prop

namespace LTS
variable {S L : Type}

inductive Reachable (T : LTS S L) : S → Prop where
  | init {s} : T.init s → Reachable T s
  | step {s l s'} : Reachable T s → T.step s l s' → Reachable T s'

/-- `s'` is reached from `s` by some steps. -/
def Steps (T : LTS S L) : S → S → Prop := Relation.ReflTransGen fun s s' => ∃ l, T.step s l s'

structure Inductive (T : LTS S L) (I : S → Prop) : Prop where
  init : ∀ s, T.init s → I s
  step : ∀ s l s', I s → T.step s l s' → I s'

theorem Inductive.reachable {T : LTS S L} {I : S → Prop} (h : T.Inductive I) (s : S)
    (hr : T.Reachable s) : I s := by
  induction hr with
  | init hi => exact h.init _ hi
  | step _ hs ih => exact h.step _ _ _ ih hs

theorem Steps.preserves {T : LTS S L} {I : S → Prop}
    (h : ∀ s l s', I s → T.step s l s' → I s') {s s' : S} (hs : T.Steps s s') (hi : I s) : I s' := by
  induction hs with
  | refl => exact hi
  | tail _ hst ih =>
    obtain ⟨l, hl⟩ := hst
    exact h _ l _ ih hl

theorem Reachable.steps {T : LTS S L} {s s' : S} (hr : T.Reachable s) (hs : T.Steps s s') : T.Reachable s' := by
  induction hs with
  | refl => exact hr
  | tail _ hst ih =>
    obtain ⟨l, hl⟩ := hst
    exact .step ih hl

/-- A simulation: states are mapped, and a step becomes some steps, perhaps none. -/
theorem Reachable.map {T : LTS S L} {S' L' : Type} {T' : LTS S' L'} (f : S → S') (hinit : ∀ s, T.init s → T'.init (f s))
    (hstep : ∀ s l s', T.step s l s' → T'.Steps (f s) (f s')) {s : S} (hr : T.Reachable s) : T'.Reachable (f s) := by
  induction hr with
  | init hi => exact .init (hinit _ hi)
  | step _ hs ih => exact ih.steps (hstep _ _ _ hs)

/-- The runs whose every step meets `H`. -/
def restrict (T : LTS S L) (H : S → L → Prop) : LTS S L where
  init := T.init
  step s l s' := T.step s l s' ∧ H s l

theorem Reachable.unrestrict {T : LTS S L} {H : S → L → Prop} {s : S}
    (hr : (T.restrict H).Reachable s) : T.Reachable s := by
  induction hr with
  | init hi => exact .init hi
  | step _ hs ih => exact .step ih hs.1

/-- A condition that every step meets restricts nothing. -/
theorem Reachable.of_forall {T : LTS S L} {H : S → L → Prop} (h : ∀ s l, H s l) {s : S} (hr : T.Reachable s) :
    (T.restrict H).Reachable s := by
  induction hr with
  | init hi => exact .init hi
  | step _ hs ih => exact .step ih ⟨hs, h _ _⟩

/-- A weaker step condition admits more runs. -/
theorem Reachable.weaken {T : LTS S L} {H K : S → L → Prop} (h : ∀ s l, H s l → K s l) {s : S}
    (hr : (T.restrict H).Reachable s) : (T.restrict K).Reachable s := by
  induction hr with
  | init hi => exact .init hi
  | step _ hs ih => exact .step ih ⟨hs.1, h _ _ hs.2⟩

/-- What holds in every state of the runs may be assumed before and after every step. -/
theorem Reachable.enrich_next {T : LTS S L} {H : S → L → Prop} {J : S → Prop}
    (hJ : ∀ s, (T.restrict H).Reachable s → J s) {s : S} (hr : (T.restrict H).Reachable s) :
    (T.restrict fun s l => H s l ∧ J s ∧ ∀ s', T.step s l s' → J s').Reachable s := by
  induction hr with
  | init hi => exact .init hi
  | step hr hs ih => exact .step ih ⟨hs.1, hs.2, hJ _ hr, fun _ hs' => hJ _ (.step hr ⟨hs', hs.2⟩)⟩

theorem Reachable.enrich {T : LTS S L} {H : S → L → Prop} {J : S → Prop}
    (hJ : ∀ s, (T.restrict H).Reachable s → J s) {s : S} (hr : (T.restrict H).Reachable s) :
    (T.restrict fun s l => H s l ∧ J s).Reachable s :=
  (hr.enrich_next hJ).weaken fun _ _ h => ⟨h.1, h.2.1⟩

/-- Take the steps `ls` of a step function, checking `ok` before each. -/
def follow (step : S → L → Option S) (ok : S → L → Bool) : S → List L → Option S
  | s, [] => some s
  | s, l :: ls =>
    if ok s l then
      match step s l with
      | some s' => follow step ok s' ls
      | none => none
    else none

theorem follow_reachable {T : LTS S L} {step : S → L → Option S} (hT : ∀ s l s', step s l = some s' → T.step s l s')
    {ok : S → L → Bool} (ls : List L) :
    ∀ {s s' : S}, (T.restrict fun s l => ok s l = true).Reachable s → follow step ok s ls = some s' →
      (T.restrict fun s l => ok s l = true).Reachable s' := by
  induction ls with
  | nil =>
    intro s s' hr h
    cases h
    exact hr
  | cons l ls ih =>
    intro s s' hr h
    simp only [follow] at h
    split at h
    · rename_i hok
      split at h
      · rename_i s₁ hs
        exact ih (.step hr ⟨hT _ _ _ hs, hok⟩) h
      · cases h
    · cases h

end LTS
end NestPlayground.Core
