import Mathlib.Data.List.Basic
import Mathlib.Data.List.Nodup

/-!
# Waiting in line

A line of distinct waiters. `join x` sends `x` to the end (from wherever it
was), `serve again` takes the first waiter, who may queue up again at once.
A waiter only moves forward, unless it joins again itself; so whoever is in a
line of at most `n` and joins again only from the last place is served within
`n` serves (`served_of_waits`).
-/
namespace NestPlayground.Core.Line
variable {α : Type} [DecidableEq α]

inductive Move (α : Type) where
  | join (x : α)
  | serve (again : Bool)

def Move.run : Move α → List α → List α
  | .join x, l => l.erase x ++ [x]
  | .serve _, [] => []
  | .serve again, x :: l => if again then l ++ [x] else l

def Move.isServe : Move α → Bool
  | .join _ => false
  | .serve _ => true

/-- `g` stays in line throughout and joins again only when it is last. -/
def Waits (g : α) : List α → List (Move α) → Prop
  | l, [] => g ∈ l
  | l, m :: ms => g ∈ l ∧ (m = .join g → l.getLast? = some g) ∧ Waits g (m.run l) ms

/-- Some serve finds `g` at the head. -/
def Served (g : α) : List α → List (Move α) → Prop
  | _, [] => False
  | l, m :: ms => (m.isServe = true ∧ l.head? = some g) ∨ Served g (m.run l) ms

theorem nodup_run {l : List α} (h : l.Nodup) (m : Move α) : (m.run l).Nodup := by
  cases m with
  | join x =>
    exact List.nodup_append.mpr ⟨h.erase x, by simp, by
      rintro a ha b hb rfl
      exact h.not_mem_erase (List.mem_singleton.mp hb ▸ ha)⟩
  | serve again =>
    cases l with
    | nil => exact List.nodup_nil
    | cons x l =>
      obtain ⟨hx, hl⟩ := List.nodup_cons.mp h
      simp only [Move.run]
      split
      · exact List.nodup_append.mpr ⟨hl, by simp, by
          rintro a ha b hb rfl
          exact hx (List.mem_singleton.mp hb ▸ ha)⟩
      · exact hl

/-- The place in the line does not get worse when somebody joins. -/
theorem idxOf_join_le {l : List α} {g x : α} (hg : g ∈ l) (hx : x = g → l.getLast? = some g)
    (hn : l.Nodup) : ((Move.join x).run l).idxOf g ≤ l.idxOf g := by
  simp only [Move.run]
  by_cases hxg : x = g
  · subst hxg
    obtain ⟨l', rfl⟩ := List.getLast?_eq_some_iff.mp (hx rfl)
    have hnot : x ∉ l' := fun hm => (List.nodup_append.mp hn).2.2 x hm x (by simp) rfl
    rw [List.erase_append_right _ hnot]
    simp
  · have hm : g ∈ l.erase x := (List.mem_erase_of_ne (Ne.symm hxg)).mpr hg
    rw [List.idxOf_append_of_mem hm]
    clear hx hn
    induction l with
    | nil => cases hg
    | cons y l ih =>
      by_cases hy : y = x
      · subst hy
        rw [List.erase_cons_head, List.idxOf_cons_ne _ hxg]
        exact Nat.le_succ _
      · rw [List.erase_cons_tail (by simpa using hy)] at hm ⊢
        by_cases hyg : y = g
        · subst hyg
          simp
        · rw [List.idxOf_cons_ne _ hyg, List.idxOf_cons_ne _ hyg]
          have hg' : g ∈ l := List.mem_of_ne_of_mem (Ne.symm hyg) hg
          have hm' : g ∈ l.erase x := List.mem_of_ne_of_mem (Ne.symm hyg) hm
          exact Nat.succ_le_succ (ih hg' hm')

/-- A serve of somebody else brings the waiter one place forward. -/
theorem idxOf_serve_lt {l : List α} {g : α} {again : Bool} (hg : g ∈ l) (hh : l.head? ≠ some g) :
    ((Move.serve again).run l).idxOf g < l.idxOf g := by
  cases l with
  | nil => cases hg
  | cons x l =>
    have hxg : x ≠ g := fun he => hh (by simp [he])
    have hgl : g ∈ l := List.mem_of_ne_of_mem (Ne.symm hxg) hg
    rw [List.idxOf_cons_ne _ hxg]
    simp only [Move.run]
    split
    · rw [List.idxOf_append_of_mem hgl]
      exact Nat.lt_succ_self _
    · exact Nat.lt_succ_self _

theorem served_of_idxOf {g : α} :
    ∀ {ms : List (Move α)} {l : List α}, l.Nodup → Waits g l ms → l.idxOf g < ms.countP Move.isServe →
      Served g l ms := by
  intro ms
  induction ms with
  | nil => intro l _ _ h; cases h
  | cons m ms ih =>
    intro l hn hw h
    obtain ⟨hg, hj, hw⟩ := hw
    cases m with
    | join x =>
      have hle := idxOf_join_le hg (fun hx => hj (hx ▸ rfl)) hn
      rw [List.countP_cons_of_neg (by simp [Move.isServe])] at h
      exact .inr (ih (nodup_run hn _) hw (Nat.lt_of_le_of_lt hle h))
    | serve again =>
      by_cases hh : l.head? = some g
      · exact .inl ⟨rfl, hh⟩
      · have hlt : ((Move.serve again).run l).idxOf g < l.idxOf g := idxOf_serve_lt hg hh
        rw [List.countP_cons_of_pos (by rfl)] at h
        exact .inr (ih (nodup_run hn _) hw (by omega))

/-- Round robin: within as many serves as the line is long, it is `g`'s turn. -/
theorem served_of_waits {g : α} {n : Nat} {ms : List (Move α)} {l : List α} (hn : l.Nodup)
    (hw : Waits g l ms) (hl : l.length ≤ n) (hs : n ≤ ms.countP Move.isServe) : Served g l ms := by
  refine served_of_idxOf hn hw ?_
  have hg : g ∈ l := by
    cases ms with
    | nil => exact hw
    | cons m ms => exact hw.1
  have := List.idxOf_lt_length_iff.mpr hg
  omega

end NestPlayground.Core.Line
