import NestPlayground.Core.Coroutine

/-!
# The same activities over other data

A computation that may fail, and that keeps what it did before it failed, is an
`EStateM`. `Simulates rep m s r` is a triple that relates it to a function of
an abstract world: from data that represents `s` it succeeds, with the reply
and the data of `r`. The rules follow the program text (`bind`, `ite`,
`foldlM`).

A `Backend` executes the calls of a program on data of its own. If every call
simulates the call of the program, and what the environment does to the data
it may do to the world and the other way round (`Refines`), then the two reach
the same activities with the same history, and no call fails.
-/
namespace NestPlayground.Core

/-! ## Computations -/

section
variable {W D E α β : Type}

/-- From data that represents `s`, `m` succeeds with the reply `r.2` and leaves
data that represents `r.1`. -/
def Simulates (rep : W → D → Prop) (m : EStateM E D α) (s : W) (r : W × α) : Prop :=
  ∀ d, rep s d → ∃ d', m.run d = .ok r.2 d' ∧ rep r.1 d'

namespace Simulates
variable {rep : W → D → Prop} {m : EStateM E D α} {k : α → EStateM E D β} {s : W}

theorem pure (a : α) : Simulates rep (Pure.pure a : EStateM E D α) s (s, a) :=
  fun d hd => ⟨d, rfl, hd⟩

theorem of_eq {r r' : W × α} (h : Simulates rep m s r) (he : r = r') : Simulates rep m s r' := he ▸ h

theorem bind {s₁ : W} {a : α} {r : W × β} (hm : Simulates rep m s (s₁, a)) (hk : Simulates rep (k a) s₁ r) :
    Simulates rep (m >>= k) s r := by
  intro d hd
  obtain ⟨d₁, h₁, hd₁⟩ := hm d hd
  obtain ⟨d₂, h₂, hd₂⟩ := hk d₁ hd₁
  exact ⟨d₂, by rw [EStateM.run_bind, h₁]; exact h₂, hd₂⟩

/-- The reply is only converted. -/
theorem map {s₁ : W} {a : α} {f : α → β} (hm : Simulates rep m s (s₁, a)) :
    Simulates rep (do return f (← m)) s (s₁, f a) :=
  hm.bind (.pure _)

theorem ite {c : Prop} [Decidable c] {m' : EStateM E D α} {r : W × α} (h : c → Simulates rep m s r)
    (h' : ¬ c → Simulates rep m' s r) : Simulates rep (if c then m else m') s r := by
  split
  · rename_i hc
    exact h hc
  · rename_i hc
    exact h' hc

/-- A loop over a list, with what it accumulates. -/
theorem foldlM {f : β → α → EStateM E D β} {g : W × β → α → W × β}
    (h : ∀ s b a, Simulates rep (f b a) s (g (s, b) a)) (as : List α) :
    ∀ s b, Simulates rep (as.foldlM f b) s (as.foldl g (s, b)) := by
  induction as with
  | nil => exact fun s b => .pure b
  | cons a as ih =>
    intro s b
    rw [List.foldlM_cons, List.foldl_cons]
    exact bind (h s b a) (ih _ _)

end Simulates
end

/-! ## Programs -/

/-- Another meaning of the calls and of the environment: on data of type `D`. -/
structure Backend {C : Type} (R : C → Type) (E D Inp Ev : Type) where
  exec : (c : C) → Inp → EStateM E D (R c)
  env : Ev → D → D

namespace Backend
variable {C : Type} {R : C → Type} {W D E Inp Ev Ev' T Pc : Type}

/-- The steps of the activities of `S` on the backend. A call that fails rejects. -/
inductive Step (B : Backend R E D Inp Ev') (S : Program R W Inp Ev T Pc) :
    Net R D Pc → Label Inp Ev' T → Net R D Pc → Prop where
  | run {c i inp p cmd ok err r d} (hp : c.procs[i]? = some p) (hv : S.view p = .call cmd ok err)
      (he : (B.exec cmd inp).run c.world = .ok r d) :
      Step B S c (.run i inp) ⟨d, c.procs.set i (ok r), ⟨i, cmd, r⟩ :: c.log⟩
  | fail {c i inp p cmd ok err e d} (hp : c.procs[i]? = some p) (hv : S.view p = .call cmd ok err)
      (he : (B.exec cmd inp).run c.world = .error e d) :
      Step B S c (.run i inp) ⟨d, c.procs.set i err, c.log⟩
  | reject {c i p cmd ok err} (hp : c.procs[i]? = some p) (hv : S.view p = .call cmd ok err)
      (hr : S.remote cmd = true) : Step B S c (.reject i) { c with procs := c.procs.set i err }
  | stop {c i p} (hp : c.procs[i]? = some p) :
      Step B S c (.stop i) { c with procs := c.procs.set i S.dead }
  | spawn {c t} : Step B S c (.spawn t) { c with procs := c.procs ++ [S.start t] }
  | env {c e} : Step B S c (.env e) { c with world := B.env e c.world }

def lts (B : Backend R E D Inp Ev') (S : Program R W Inp Ev T Pc) (d₀ : D) : LTS (Net R D Pc) (Label Inp Ev' T) where
  init c := c = ⟨d₀, [], []⟩
  step := B.Step S

/-- Some activity of the program makes the call. -/
def Made (S : Program R W Inp Ev T Pc) (cmd : C) : Prop := ∃ p ok err, S.view p = .call cmd ok err

/-- The backend is the program's world under another representation. -/
structure Refines (B : Backend R E D Inp Ev') (S : Program R W Inp Ev T Pc) (rep : W → D → Prop) : Prop where
  exec : ∀ cmd inp s, Made S cmd → Simulates rep (B.exec cmd inp) s (S.exec cmd inp s)
  env : ∀ {s d} e, rep s d → rep s (B.env e d) ∨ ∃ e', rep (S.env e' s) (B.env e d)
  env' : ∀ {s d} e, rep s d → rep (S.env e s) d ∨ ∃ e', rep (S.env e s) (B.env e' d)

section
variable {B : Backend R E D Inp Ev'} {S : Program R W Inp Ev T Pc} {rep : W → D → Prop} {w₀ : W} {d₀ : D}

/-- One step on the backend is one step of the program, or none. -/
theorem Refines.step (h : B.Refines S rep) {c c' : Net R D Pc} {l : Label Inp Ev' T} {w : W} (hw : rep w c.world)
    (hs : B.Step S c l c') (hr : (S.lts ⟨w₀, [], []⟩).Reachable ⟨w, c.procs, c.log⟩) :
    ∃ w', rep w' c'.world ∧ (S.lts ⟨w₀, [], []⟩).Reachable ⟨w', c'.procs, c'.log⟩ := by
  cases hs with
  | @run i inp p cmd ok err r d hp hv he =>
    obtain ⟨d', he', hd'⟩ := h.exec cmd inp w ⟨p, ok, err, hv⟩ c.world hw
    obtain ⟨rfl, rfl⟩ := EStateM.Result.ok.inj (he.symm.trans he')
    exact ⟨_, hd', .step hr (.run hp hv)⟩
  | @fail i inp p cmd ok err e d hp hv he =>
    obtain ⟨d', he', -⟩ := h.exec cmd inp w ⟨p, ok, err, hv⟩ c.world hw
    rw [he] at he'
    cases he'
  | reject hp hv hr' => exact ⟨w, hw, .step hr (.reject hp hv hr')⟩
  | stop hp => exact ⟨w, hw, .step hr (.stop hp)⟩
  | spawn => exact ⟨w, hw, .step hr .spawn⟩
  | @env e =>
    rcases h.env e hw with hw' | ⟨e', hw'⟩
    · exact ⟨w, hw', hr⟩
    · exact ⟨_, hw', .step hr .env⟩

/-- What is reached on the backend represents what the program reaches, with the
same activities and the same history. -/
theorem Refines.reachable (h : B.Refines S rep) (h₀ : rep w₀ d₀) {c : Net R D Pc} (hc : (B.lts S d₀).Reachable c) :
    ∃ w, rep w c.world ∧ (S.lts ⟨w₀, [], []⟩).Reachable ⟨w, c.procs, c.log⟩ := by
  induction hc with
  | init hi =>
    cases hi
    exact ⟨w₀, h₀, .init rfl⟩
  | step _ hs ih =>
    obtain ⟨w, hw, hr⟩ := ih
    exact h.step hw hs hr

/-- What the program reaches is reached on the backend. -/
theorem Refines.realized (h : B.Refines S rep) (h₀ : rep w₀ d₀) {c : Net R W Pc}
    (hc : (S.lts ⟨w₀, [], []⟩).Reachable c) :
    ∃ d, rep c.world d ∧ (B.lts S d₀).Reachable ⟨d, c.procs, c.log⟩ := by
  induction hc with
  | init hi =>
    cases hi
    exact ⟨d₀, h₀, .init rfl⟩
  | step _ hs ih =>
    obtain ⟨d, hd, hr⟩ := ih
    cases hs with
    | @run i inp p cmd ok err hp hv =>
      obtain ⟨d', he, hd'⟩ := h.exec cmd inp _ ⟨p, ok, err, hv⟩ d hd
      exact ⟨d', hd', .step hr (.run hp hv he)⟩
    | reject hp hv hr' => exact ⟨d, hd, .step hr (.reject hp hv hr')⟩
    | stop hp => exact ⟨d, hd, .step hr (.stop hp)⟩
    | spawn => exact ⟨d, hd, .step hr .spawn⟩
    | @env e =>
      rcases h.env' e hd with hd' | ⟨e', hd'⟩
      · exact ⟨d, hd', hr⟩
      · exact ⟨_, hd', .step hr (.env (e := e'))⟩

end
end Backend
end NestPlayground.Core
