import NestPlayground.Core.Coroutine

/-!
# Runs with their past

The history of a net says what was called and answered, not when nor on what
world. `traced T` remembers every step of a run with the state it was taken in,
newest first: what is counted along a run is then a function of the past, and
a condition on a step may look back.
-/
namespace NestPlayground.Core

structure Traced (S L : Type) where
  state : S
  past : List (S × L)

namespace LTS
variable {S L : Type}

def traced (T : LTS S L) : LTS (Traced S L) L where
  init t := T.init t.state ∧ t.past = []
  step t l t' := T.step t.state l t'.state ∧ t'.past = (t.state, l) :: t.past

/-- The states of a run are those of the run without its past. -/
theorem Reachable.untraced {T : LTS S L} {H : Traced S L → L → Prop} {K : S → L → Prop}
    (hK : ∀ t l, H t l → K t.state l) {t : Traced S L} (h : (T.traced.restrict H).Reachable t) :
    (T.restrict K).Reachable t.state := by
  induction h with
  | init hi => exact .init hi.1
  | step _ hs ih => exact .step ih ⟨hs.1.1, hK _ _ hs.2⟩

end LTS

namespace Program
variable {C : Type} {R : C → Type} {W Inp E T Pc : Type}

/-- `replay` that keeps the past. -/
def retrace (S : Program R W Inp E T Pc) (ok : Traced (Net R W Pc) (Label Inp E T) → Label Inp E T → Bool) :
    Traced (Net R W Pc) (Label Inp E T) → List (Label Inp E T) → Option (Traced (Net R W Pc) (Label Inp E T))
  | t, [] => some t
  | t, l :: ls =>
    if ok t l then
      match S.step t.state l with
      | some c => S.retrace ok ⟨c, (t.state, l) :: t.past⟩ ls
      | none => none
    else none

theorem retrace_reachable {S : Program R W Inp E T Pc} {c₀ : Net R W Pc}
    {ok : Traced (Net R W Pc) (Label Inp E T) → Label Inp E T → Bool} (ls : List (Label Inp E T)) :
    ∀ {t t' : Traced (Net R W Pc) (Label Inp E T)},
      ((S.lts c₀).traced.restrict fun s l => ok s l = true).Reachable t → S.retrace ok t ls = some t' →
      ((S.lts c₀).traced.restrict fun s l => ok s l = true).Reachable t' := by
  induction ls with
  | nil =>
    intro t t' ht h
    cases h
    exact ht
  | cons l ls ih =>
    intro t t' ht h
    simp only [retrace] at h
    split at h
    · rename_i hok
      split at h
      · rename_i c hs
        exact ih (.step ht ⟨⟨step_sound hs, rfl⟩, hok⟩) h
      · cases h
    · cases h

theorem exists_of_retrace {S : Program R W Inp E T Pc} {c₀ : Net R W Pc}
    {ok : Traced (Net R W Pc) (Label Inp E T) → Label Inp E T → Bool} {ls : List (Label Inp E T)}
    {P : Traced (Net R W Pc) (Label Inp E T) → Bool} (h : (S.retrace ok ⟨c₀, []⟩ ls).any P = true) :
    ∃ t, ((S.lts c₀).traced.restrict fun s l => ok s l = true).Reachable t ∧ P t = true := by
  obtain ⟨t, ht, hP⟩ := (Option.any_eq_true _ _).mp h
  have h₀ : ((S.lts c₀).traced.restrict fun s l => ok s l = true).Reachable ⟨c₀, []⟩ := .init ⟨rfl, rfl⟩
  exact ⟨t, retrace_reachable ls h₀ ht, hP⟩

end Program
end NestPlayground.Core
