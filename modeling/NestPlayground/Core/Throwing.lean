import Mathlib.Logic.Function.Basic

/-!
# Programs that throw

Running a program that may throw over a state that a throw keeps, construct by
construct, and the loop that stops at the first element whose body throws.
-/
namespace NestPlayground.Core.Throwing

variable {ε σ α β : Type} {s : σ}

/-! ## The constructs -/

section
variable {x : ExceptT ε (StateM σ) α}

theorem bind_eq {f : α → ExceptT ε (StateM σ) β} :
    (x >>= f) s = match x s with
      | (.ok a, s') => f a s'
      | (.error e, s') => (.error e, s') := by
  show (match x s with | (r, s') => ExceptT.bindCont f r s') = _
  rcases x s with ⟨_ | _, _⟩ <;> rfl

/-- The handler goes on from the state of the throw. -/
theorem tryCatch_eq {handler : ε → ExceptT ε (StateM σ) α} :
    (tryCatch x handler) s = match x s with
      | (.ok a, s') => (.ok a, s')
      | (.error e, s') => handler e s' := by
  simp only [tryCatch, tryCatchThe, MonadExceptOf.tryCatch, ExceptT.tryCatch, ExceptT.mk, bind, StateT.bind]
  rcases x s with ⟨_ | _, _⟩ <;> rfl

/-- The outcome stands unless the finalizer throws. -/
theorem tryFinally_eq {finalizer : ExceptT ε (StateM σ) β} :
    (tryFinally x finalizer) s = match finalizer (x s).2 with
      | (.ok _, s') => ((x s).1, s')
      | (.error e, s') => (.error e, s') := by
  simp only [tryFinally, MonadFinally.tryFinally', bind, StateT.bind, ExceptT.mk, Functor.map, ExceptT.map]
  rcases x s with ⟨_ | _, s'⟩
  · simp only [pure]
    rcases finalizer s' with ⟨_ | _, _⟩ <;> rfl
  · simp only [pure]
    rcases finalizer s' with ⟨_ | _, _⟩ <;> rfl

end

/-! ## The loop -/

section
variable {f : α → ExceptT ε (StateM σ) Unit} {throws : σ → α → Option ε} {after : σ → α → σ}

/-- How a body ends that throws what is given. -/
def outcome : Option ε → Except ε Unit
  | none => .ok ()
  | some e => .error e

/-- No element's body throws. -/
def Passes (throws : σ → α → Option ε) (after : σ → α → σ) (s : σ) (l : List α) : Prop :=
  ∀ pre a post, l = pre ++ a :: post → throws (pre.foldl after s) a = none

theorem passes_nil : Passes throws after s [] := by
  intro pre a post h
  simp at h

theorem passes_cons {a : α} {l : List α} :
    Passes throws after s (a :: l) ↔ throws s a = none ∧ Passes throws after (after s a) l := by
  constructor
  · intro h
    refine ⟨h [] a l rfl, fun pre b post hl => ?_⟩
    exact h (a :: pre) b post (by rw [hl, List.cons_append])
  · rintro ⟨ha, hl⟩ pre b post h
    cases pre with
    | nil =>
      obtain ⟨rfl, -⟩ := List.cons.inj h
      exact ha
    | cons c pre =>
      obtain ⟨rfl, htail⟩ := List.cons.inj h
      exact hl pre b post htail

/-- The loop goes through its elements up to the first whose body throws. -/
theorem forM_spec (hf : ∀ s a, f a s = (outcome (throws s a), after s a))
    (l : List α) (s : σ) :
    (Passes throws after s l ∧ l.forM f s = (.ok (), l.foldl after s)) ∨
      ¬ Passes throws after s l ∧ ∃ e l', l' <+: l ∧ l.forM f s = (.error e, l'.foldl after s) := by
  induction l generalizing s with
  | nil => exact .inl ⟨passes_nil, rfl⟩
  | cons a l ih =>
    rw [show (a :: l).forM f s = (f a >>= fun _ => l.forM f) s from rfl, bind_eq, hf, passes_cons]
    cases ha : throws s a with
    | some e => exact .inr ⟨by simp, e, [a], ⟨l, rfl⟩, rfl⟩
    | none =>
      obtain ⟨hl, hrun⟩ | ⟨hl, e, l', hpre, hrun⟩ := ih (after s a)
      · exact .inl ⟨⟨rfl, hl⟩, hrun⟩
      · exact .inr ⟨by simp [hl], e, a :: l', List.cons_prefix_cons.mpr ⟨rfl, hpre⟩, hrun⟩

end

end NestPlayground.Core.Throwing
