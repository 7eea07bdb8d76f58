import NestPlayground.Core.Coroutine

/-!
# One activity

The calls of a single activity, taken out of the interleaving. A `Path` is a
list of answers to its calls, whatever they are; every activity of a net has
followed one, and the history holds its replies (`follows_reachable`). A `Run`
is a path whose replies are those of the world, with nobody else at work but
`rely`. A `Straight` activity makes the same calls whatever it is answered, so
what a run of it does to the world is what these calls do (`Straight.run`,
`Executed.observe`).
-/
namespace NestPlayground.Core

/-- What a call comes to. -/
inductive Answer {C : Type} (R : C → Type) where
  | reply (c : C) (r : R c)
  | rejection (c : C)

/-- The answers that are replies, as pairs. -/
def Answer.reply? {C : Type} {R : C → Type} : Answer R → Option (Sigma R)
  | .reply c r => some ⟨c, r⟩
  | .rejection _ => none

/-- Where an `async` function goes on: nowhere once it has ended. -/
def Next.view {C : Type} {R : C → Type} {Pc α : Type} (view : Pc → Action R (Next Pc α)) :
    Next Pc α → Action R (Next Pc α)
  | .goto p => view p
  | .ret _ => .halt
  | .throw => .halt

section Path
variable {C : Type} {R : C → Type} {X : Type} {view : X → Action R X}

/-- The answers `es` lead from `x` to `y`. -/
inductive Path (view : X → Action R X) (x : X) : List (Answer R) → X → Prop where
  | nil : Path view x [] x
  | reply {es y c ok err} (r : R c) (h : Path view x es y) (hv : view y = .call c ok err) :
      Path view x (es ++ [.reply c r]) (ok r)
  | rejection {es y c ok err} (h : Path view x es y) (hv : view y = .call c ok err) :
      Path view x (es ++ [.rejection c]) err

theorem Path.keeps {x y : X} {es : List (Answer R)} {P : X → Prop} (h : Path view x es y) (h₀ : P x)
    (hP : ∀ y, P y → (view y).Spec (fun _ => True) (fun _ _ z => P z) fun _ z => P z) : P y := by
  induction h with
  | nil => exact h₀
  | reply r _ hv ih =>
    have hs := hP _ ih
    rw [hv] at hs
    exact hs.2.1 r
  | rejection _ hv ih =>
    have hs := hP _ ih
    rw [hv] at hs
    exact hs.2.2

/-- The path of an outer activity that only passes on the calls of an inner one is the inner one's. -/
theorem Path.of_map {Y : Type} {view' : Y → Action R Y} {f : Y → X} (hf : ∀ y, view (f y) = (view' y).map f)
    {x : Y} {es : List (Answer R)} {z : X} (h : Path view (f x) es z) : ∃ y, z = f y ∧ Path view' x es y := by
  induction h with
  | nil => exact ⟨x, rfl, .nil⟩
  | reply r _ hv ih =>
    obtain ⟨y, rfl, hy⟩ := ih
    rw [hf] at hv
    cases hw : view' y with
    | call c ok err =>
      rw [hw] at hv
      cases hv
      exact ⟨_, rfl, hy.reply r hw⟩
    | halt =>
      rw [hw] at hv
      cases hv
  | rejection _ hv ih =>
    obtain ⟨y, rfl, hy⟩ := ih
    rw [hf] at hv
    cases hw : view' y with
    | call c ok err =>
      rw [hw] at hv
      cases hv
      exact ⟨_, rfl, hy.rejection hw⟩
    | halt =>
      rw [hw] at hv
      cases hv

end Path

namespace Program
variable {C : Type} {R : C → Type} {W Inp E T Pc : Type}

/-- A step condition on the executed calls only. -/
def OnCalls (S : Program R W Inp E T Pc) (ok : Net R W Pc → C → Inp → Prop) (c : Net R W Pc) : Label Inp E T → Prop
  | .run i inp => ∀ p cmd k err, c.procs[i]? = some p → S.view p = .call cmd k err → ok c cmd inp
  | _ => True

theorem OnCalls.run {S : Program R W Inp E T Pc} {ok : Net R W Pc → C → Inp → Prop} {c : Net R W Pc} {i : Nat}
    {inp : Inp} {p : Pc} {cmd : C} {k : R cmd → Pc} {err : Pc} (hp : c.procs[i]? = some p)
    (hv : S.view p = .call cmd k err) (h : ok c cmd inp) : S.OnCalls ok c (.run i inp) := by
  intro p' cmd' k' err' hp' hv'
  cases hp.symm.trans hp'
  cases hv.symm.trans hv'
  exact h

/-- The calls of activity `i` in the history, oldest first. -/
def callsOf (i : Nat) (log : List (Entry R)) : List (Sigma R) :=
  ((log.filter (·.pid = i)).map fun e => ⟨e.cmd, e.reply⟩).reverse

@[simp] theorem callsOf_self (i : Nat) (c : C) (r : R c) (log : List (Entry R)) :
    callsOf i (⟨i, c, r⟩ :: log) = callsOf i log ++ [⟨c, r⟩] := by
  simp [callsOf]

theorem callsOf_other {i k : Nat} (h : k ≠ i) (c : C) (r : R c) (log : List (Entry R)) :
    callsOf i (⟨k, c, r⟩ :: log) = callsOf i log := by
  simp [callsOf, h]

/-- The activity `p` has followed a path of its task, or was stopped on one. -/
def Follows (S : Program R W Inp E T Pc) (log : List (Entry R)) (i : Nat) (p : Pc) : Prop :=
  ∃ t es q, Path S.view (S.start t) es q ∧ es.filterMap Answer.reply? = callsOf i log ∧ (p = q ∨ p = S.dead)

theorem Follows.reply {S : Program R W Inp E T Pc} (hdead : S.view S.dead = .halt) {log : List (Entry R)} {i : Nat}
    {p : Pc} {c : C} {ok : R c → Pc} {err : Pc} (h : S.Follows log i p) (hv : S.view p = .call c ok err) (r : R c) :
    S.Follows (⟨i, c, r⟩ :: log) i (ok r) := by
  obtain ⟨t, es, q, hp, hes, rfl | rfl⟩ := h
  · refine ⟨t, _, _, hp.reply r hv, ?_, .inl rfl⟩
    rw [List.filterMap_append, hes, callsOf_self]
    rfl
  · rw [hdead] at hv
    cases hv

theorem Follows.rejection {S : Program R W Inp E T Pc} (hdead : S.view S.dead = .halt) {log : List (Entry R)} {i : Nat}
    {p : Pc} {c : C} {ok : R c → Pc} {err : Pc} (h : S.Follows log i p) (hv : S.view p = .call c ok err) :
    S.Follows log i err := by
  obtain ⟨t, es, q, hp, hes, rfl | rfl⟩ := h
  · refine ⟨t, _, _, hp.rejection hv, ?_, .inl rfl⟩
    rw [List.filterMap_append, hes]
    exact List.append_nil _
  · rw [hdead] at hv
    cases hv

/-- Every activity of a net has followed a path, and the history holds its replies. -/
theorem follows_reachable {S : Program R W Inp E T Pc} (hdead : S.view S.dead = .halt) {c₀ : Net R W Pc}
    (h₀ : c₀.procs = [] ∧ c₀.log = []) {H : Net R W Pc → Label Inp E T → Prop} {c : Net R W Pc}
    (h : ((S.lts c₀).restrict H).Reachable c) :
    (∀ e ∈ c.log, e.pid < c.procs.length) ∧ ∀ (i : Nat) p, c.procs[i]? = some p → S.Follows c.log i p := by
  induction h with
  | init hc =>
    subst hc
    rw [h₀.1, h₀.2]
    exact ⟨by simp, by simp⟩
  | @step c l c' _ hs ih =>
    obtain ⟨hpid, hfollows⟩ := ih
    obtain ⟨hs, -⟩ := hs
    cases hs with
    | @run i inp p cmd ok err hp hv =>
      refine ⟨fun e he => ?_, forall_set (fun k q hk hq => ?_) ((hfollows i p hp).reply hdead hv _)⟩
      · simp only [ran, List.length_set]
        rcases List.mem_cons.mp he with rfl | he
        · exact (List.getElem?_eq_some_iff.mp hp).1
        · exact hpid e he
      · obtain ⟨t, es, x, hx, hes, hq'⟩ := hfollows k q hq
        exact ⟨t, es, x, hx, by rw [hes]; exact (callsOf_other hk.symm _ _ _).symm, hq'⟩
    | @reject i p cmd ok err hp hv hr =>
      refine ⟨by simpa using hpid, forall_set (fun k q _ hq => hfollows k q hq) ((hfollows i p hp).rejection hdead hv)⟩
    | @stop i p hp =>
      refine ⟨by simpa using hpid, forall_set (fun k q _ hq => hfollows k q hq) ?_⟩
      obtain ⟨t, es, q, hx, hes, -⟩ := hfollows i p hp
      exact ⟨t, es, q, hx, hes, .inr rfl⟩
    | @spawn t =>
      refine ⟨fun e he => ?_, forall_append hfollows ?_⟩
      · have := hpid e he
        simp only [List.length_append]
        omega
      · -- the new activity has made no call
        refine ⟨t, [], _, .nil, ?_, .inl rfl⟩
        rw [callsOf, List.filter_eq_nil_iff.mpr fun e he => ?_]
        · rfl
        · have := hpid e he
          simp only [decide_eq_true_eq]
          omega
    | env => exact ⟨hpid, hfollows⟩

end Program

/-! ## Alone with the world -/

section Run
variable {C : Type} {R : C → Type} {W Inp : Type} {X : Type}

/-- The run of one activity: its calls are executed in the world or rejected,
and between them the world may change by `rely`. -/
inductive Run (exec : (c : C) → Inp → W → W × R c) (rely : W → W → Prop) (view : X → Action R X) (w : W) (x : X) :
    List (Answer R) → W → X → Prop where
  | nil : Run exec rely view w x [] w x
  | rely {es w₁ w₂ y} (h : Run exec rely view w x es w₁ y) (hw : rely w₁ w₂) : Run exec rely view w x es w₂ y
  | call {es w₁ y c ok err} (inp : Inp) (h : Run exec rely view w x es w₁ y) (hv : view y = .call c ok err) :
      Run exec rely view w x (es ++ [.reply c (exec c inp w₁).2]) (exec c inp w₁).1 (ok (exec c inp w₁).2)
  | rejection {es w₁ y c ok err} (h : Run exec rely view w x es w₁ y) (hv : view y = .call c ok err) :
      Run exec rely view w x (es ++ [.rejection c]) w₁ err

variable {exec : (c : C) → Inp → W → W × R c} {rely : W → W → Prop} {view : X → Action R X} {w w' : W} {x y : X}
  {es : List (Answer R)}

/-- An activity that has made no call is where it started. -/
theorem Run.eq_of_nil (h : Run exec rely view w x es w' y) (hes : es = []) : y = x := by
  induction h with
  | nil => rfl
  | rely _ _ ih => exact ih hes
  | call => simp at hes
  | rejection => simp at hes

/-- A run whose calls bring it nearer to an end can be continued to one, and
no call of the rest need be rejected. -/
theorem Run.exists_halt (left : W → X → Nat) (inp : Inp)
    (hcall : ∀ w x, view x = .halt ∨ ∃ c ok err, view x = .call c ok err ∧
      left (exec c inp w).1 (ok (exec c inp w).2) < left w x)
    (h : Run exec rely view w x es w' y) : ∃ es' w'' z, Run exec rely view w x (es ++ es') w'' z ∧
      (∀ c, Answer.rejection c ∉ es') ∧ view z = .halt := by
  generalize hn : left w' y = n
  induction n using Nat.strong_induction_on generalizing es w' y with
  | _ n ih =>
    rcases hcall w' y with hhalt | ⟨c, ok, err, hv, hlt⟩
    · exact ⟨[], w', y, by rwa [List.append_nil], fun _ => List.not_mem_nil, hhalt⟩
    · obtain ⟨es', w'', z, hrun, hreplies, hz⟩ := ih _ (hn ▸ hlt) (h.call inp hv) rfl
      refine ⟨_, w'', z, by rwa [List.append_assoc] at hrun, fun c' hmem => ?_, hz⟩
      rcases List.mem_cons.mp hmem with hreply | hrest
      · cases hreply
      · exact hreplies c' hrest

/-- The run without interference in which the calls are executed on these inputs, or reject. -/
def solo (exec : (c : C) → Inp → W → W × R c) (view : X → Action R X) :
    List (Answer R) × W × X → List (Option Inp) → Option (List (Answer R) × W × X)
  | r, [] => some r
  | (es, w, x), o :: os =>
    match view x, o with
    | .halt, _ => none
    | .call c ok _, some inp =>
      solo exec view (es ++ [.reply c (exec c inp w).2], (exec c inp w).1, ok (exec c inp w).2) os
    | .call c _ err, none => solo exec view (es ++ [.rejection c], w, err) os

theorem solo_sound (os : List (Option Inp)) : ∀ {r r' : List (Answer R) × W × X},
    Run exec rely view w x r.1 r.2.1 r.2.2 → solo exec view r os = some r' →
      Run exec rely view w x r'.1 r'.2.1 r'.2.2 := by
  induction os with
  | nil =>
    intro r r' hr h
    cases h
    exact hr
  | cons o os ih =>
    rintro ⟨es, w₁, y⟩ r' hr h
    rw [solo.eq_def] at h
    simp only at h
    cases hv : view y with
    | halt => rw [hv] at h; cases h
    | call c ok err =>
      rw [hv] at h
      cases o with
      | some inp => exact ih (hr.call inp hv) h
      | none => exact ih (hr.rejection hv) h

/-- A run that can be replayed to a state with `P`. -/
theorem exists_of_solo {os : List (Option Inp)} {P : List (Answer R) × W × X → Bool}
    (h : (solo exec view ([], w, x) os).any P = true) :
    ∃ es w' y, Run exec rely view w x es w' y ∧ P (es, w', y) = true := by
  obtain ⟨⟨es, w', y⟩, hs, hP⟩ := (Option.any_eq_true _ _).mp h
  exact ⟨es, w', y, solo_sound os .nil hs, hP⟩

end Run

/-! ## The effects of one activity -/

section Effects
variable {C : Type} {R : C → Type} {W Inp : Type} {X : Type}

/-- An executed call with the world it found and the world it left. -/
structure Effect (C W : Type) where
  cmd : C
  before : W
  after : W

/-- Execution that notes its effects. -/
def recording (exec : (c : C) → Inp → W → W × R c) (c : C) (inp : Inp) (w : W × List (Effect C W)) :
    (W × List (Effect C W)) × R c :=
  (((exec c inp w.1).1, w.2 ++ [⟨c, w.1, (exec c inp w.1).1⟩]), (exec c inp w.1).2)

/-- What others do is not noted. -/
def besides (rely : W → W → Prop) (w w' : W × List (Effect C W)) : Prop := rely w.1 w'.1 ∧ w'.2 = w.2

end Effects

/-! ## Straight-line activities -/

section Straight
variable {C : Type} {R : C → Type} {W Inp : Type} {Pc α : Type}

/-- `x` has the calls `script` left to make, whatever they reply; a rejection ends it. -/
inductive Straight (view : Pc → Action R (Next Pc α)) : List C → Next Pc α → Prop where
  | ret {a} : Straight view [] (.ret a)
  | call {c cs p ok} (hv : view p = .call c ok .throw) (h : ∀ r, Straight view cs (ok r)) :
      Straight view (c :: cs) (.goto p)

/-- The calls are executed in order, and between them the world may change by `rely`. -/
inductive Executed (exec : (c : C) → Inp → W → W × R c) (rely : W → W → Prop) (w : W) : List C → W → Prop where
  | nil : Executed exec rely w [] w
  | rely {cs w₁ w₂} (h : Executed exec rely w cs w₁) (hw : rely w₁ w₂) : Executed exec rely w cs w₂
  | call {cs w₁} (c : C) (inp : Inp) (h : Executed exec rely w cs w₁) :
      Executed exec rely w (cs ++ [c]) (exec c inp w₁).1

variable {exec : (c : C) → Inp → W → W × R c} {rely : W → W → Prop} {view : Pc → Action R (Next Pc α)}
  {script : List C} {w w' : W} {x y : Next Pc α} {es : List (Answer R)}

/-- The calls that were executed. -/
def repliedTo (es : List (Answer R)) : List C := (es.filterMap Answer.reply?).map Sigma.fst

@[simp] theorem repliedTo_reply (es : List (Answer R)) (c : C) (r : R c) :
    repliedTo (es ++ [.reply c r]) = repliedTo es ++ [c] := by
  simp [repliedTo, Answer.reply?]

@[simp] theorem repliedTo_rejection (es : List (Answer R)) (c : C) :
    repliedTo (es ++ [.rejection c] : List (Answer R)) = repliedTo es := by
  simp [repliedTo, Answer.reply?]

/-- A straight-line activity has executed its first calls; it has stopped short
of the others only by a rejection. -/
theorem Straight.run (h : Straight view script x) (hrun : Run exec rely (Next.view view) w x es w' y) :
    Executed exec rely w (repliedTo es) w' ∧
      ((∃ rest, script = repliedTo es ++ rest ∧ Straight view rest y) ∨
        y = .throw ∧ ∃ c rest, script = repliedTo es ++ c :: rest) := by
  induction hrun with
  | nil => exact ⟨.nil, .inl ⟨script, rfl, h⟩⟩
  | rely _ hw ih => exact ⟨ih.1.rely hw, ih.2⟩
  | call inp _ hv ih =>
    rw [repliedTo_reply]
    obtain ⟨hex, ⟨rest, hs, hstraight⟩ | ⟨rfl, -⟩⟩ := ih
    · refine ⟨hex.call _ inp, .inl ?_⟩
      cases hstraight with
      | ret => cases hv
      | call hv' hnext =>
        cases hv'.symm.trans hv
        exact ⟨_, by rw [hs, List.append_assoc]; rfl, hnext _⟩
    · cases hv
  | rejection _ hv ih =>
    rw [repliedTo_rejection]
    obtain ⟨hex, ⟨rest, hs, hstraight⟩ | ⟨rfl, -⟩⟩ := ih
    · refine ⟨hex, .inr ?_⟩
      cases hstraight with
      | ret => cases hv
      | call hv' hnext =>
        cases hv'.symm.trans hv
        exact ⟨rfl, _, _, hs⟩
    · cases hv

/-- A straight-line activity that has returned has executed its script. -/
theorem Straight.executed (h : Straight view script x) {a : α}
    (hrun : Run exec rely (Next.view view) w x es w' (.ret a)) :
    Executed exec rely w script w' ∧ repliedTo es = script := by
  obtain ⟨hex, ⟨rest, hs, hstraight⟩ | ⟨hy, -⟩⟩ := h.run hrun
  · cases hstraight
    rw [List.append_nil] at hs
    exact ⟨hs ▸ hex, hs.symm⟩
  · cases hy

/-- Nothing hinders a straight-line activity from executing all its calls. -/
theorem Run.straight (inp : Inp) (hrun : Run exec rely (Next.view view) w y es w' x) (h : Straight view script x) :
    ∃ es' w'' a, Run exec rely (Next.view view) w y es' w'' (.ret a) ∧ repliedTo es' = repliedTo es ++ script := by
  induction h generalizing es w' with
  | ret => exact ⟨_, _, _, hrun, (List.append_nil _).symm⟩
  | call hv _ ih =>
    obtain ⟨es', w'', a, hrun', hes⟩ := ih _ (hrun.call inp hv)
    exact ⟨es', w'', a, hrun', by rw [hes, repliedTo_reply, List.append_assoc]; rfl⟩

/-- Each of them may be the one that rejects. -/
theorem Run.straight_rejection (inp : Inp) {done rest : List C} {c : C}
    (hrun : Run exec rely (Next.view view) w y es w' x) (h : Straight view (done ++ c :: rest) x) :
    ∃ es' w'', Run exec rely (Next.view view) w y es' w'' .throw ∧ repliedTo es' = repliedTo es ++ done := by
  induction done generalizing es w' x with
  | nil =>
    cases h with
    | call hv hnext => exact ⟨_, _, hrun.rejection hv, by rw [repliedTo_rejection, List.append_nil]⟩
  | cons d done ih =>
    cases h with
    | call hv hnext =>
      obtain ⟨es', w'', hrun', hes⟩ := ih (hrun.call inp hv) (hnext _)
      exact ⟨es', w'', hrun', by rw [hes, repliedTo_reply, List.append_assoc]; rfl⟩

/-- What each call does to an observation, all of them do one after the other. -/
theorem Executed.observe {A : Type} {f : W → A} {eff : A → C → A} {cs : List C} (h : Executed exec rely w cs w')
    (hexec : ∀ c ∈ cs, ∀ inp w, f (exec c inp w).1 = eff (f w) c) (hrely : ∀ w w', rely w w' → f w' = f w) :
    f w' = cs.foldl eff (f w) := by
  induction h with
  | nil => rfl
  | rely _ hw ih => rw [hrely _ _ hw, ih hexec]
  | call c inp _ ih =>
    rw [List.foldl_append, ← ih fun c hc => hexec c (List.mem_append_left _ hc)]
    exact hexec c (List.mem_append_right _ (List.mem_singleton_self c)) inp _

end Straight
end NestPlayground.Core
