import Mathlib.Data.List.Sort
import Mathlib.Data.List.Nodup
import Mathlib.Order.Lattice

/-!
# Sorted sets

A set of members with a score each, kept in ascending `(score, member)` order.
The order and the uniqueness of members are fields, so every value of the type
is a well-formed sorted set. `zadd` writes a score (moving a member that is
already there), `zrem` deletes, `rangeByScore` lists the members up to a score
in order, `top` is the entry ranked last.
-/
namespace NestPlayground.Core

/-- Ascending by score, ties by member. -/
def before {α σ : Type} [LinearOrder α] [LinearOrder σ] (a b : σ × α) : Prop :=
  a.1 < b.1 ∨ a.1 = b.1 ∧ a.2 ≤ b.2

structure ZSet (α σ : Type) [LinearOrder α] [LinearOrder σ] where
  entries : List (σ × α)
  sorted : entries.Pairwise before
  nodup : (entries.map Prod.snd).Nodup

section Order
variable {α σ : Type} [LinearOrder α] [LinearOrder σ]

instance : DecidableRel (before (α := α) (σ := σ)) := fun a b =>
  inferInstanceAs (Decidable (a.1 < b.1 ∨ a.1 = b.1 ∧ a.2 ≤ b.2))

theorem before_trans {a b c : σ × α} (hab : before a b) (hbc : before b c) : before a c := by
  rcases hab with hab | ⟨hab, hab'⟩ <;> rcases hbc with hbc | ⟨hbc, hbc'⟩
  · exact Or.inl (hab.trans hbc)
  · exact Or.inl (hbc ▸ hab)
  · exact Or.inl (hab ▸ hbc)
  · exact Or.inr ⟨hab.trans hbc, hab'.trans hbc'⟩

theorem before_total (a b : σ × α) : before a b ∨ before b a := by
  rcases lt_trichotomy a.1 b.1 with h | h | h
  · exact Or.inl (Or.inl h)
  · rcases le_total a.2 b.2 with h' | h'
    · exact Or.inl (Or.inr ⟨h, h'⟩)
    · exact Or.inr (Or.inr ⟨h.symm, h'⟩)
  · exact Or.inr (Or.inl h)

theorem before_antisymm {a b : σ × α} (hab : before a b) (hba : before b a) : a = b := by
  rcases hab with hab | ⟨hab, hab'⟩ <;> rcases hba with hba | ⟨hba, hba'⟩
  · exact absurd hba hab.asymm
  · exact absurd hba hab.ne'
  · exact absurd hab hba.ne'
  · exact Prod.ext hab (le_antisymm hab' hba')

instance : Std.Total (before (α := α) (σ := σ)) := ⟨before_total⟩
instance : IsTrans (σ × α) before := ⟨fun _ _ _ => before_trans⟩

end Order

namespace ZSet
variable {α σ : Type} [LinearOrder α] [LinearOrder σ]

/-- Members in rank order. -/
def members (z : ZSet α σ) : List α := z.entries.map Prod.snd

instance : Membership α (ZSet α σ) := ⟨fun z m => m ∈ z.members⟩

instance (z : ZSet α σ) (m : α) : Decidable (m ∈ z) := inferInstanceAs (Decidable (m ∈ z.members))

theorem ext {z z' : ZSet α σ} (h : z.entries = z'.entries) : z = z' := by
  cases z
  cases z'
  cases h
  rfl

theorem mem_def {z : ZSet α σ} {m : α} : m ∈ z ↔ m ∈ z.members := Iff.rfl

def empty : ZSet α σ := ⟨[], List.Pairwise.nil, List.nodup_nil⟩

def card (z : ZSet α σ) : Nat := z.entries.length

def score (z : ZSet α σ) (m : α) : Option σ := (z.entries.find? (·.2 = m)).map Prod.fst

/-- The entry ranked last: highest score, ties by greatest member. -/
def top (z : ZSet α σ) : Option (σ × α) := z.entries.getLast?

def zrem (z : ZSet α σ) (m : α) : ZSet α σ where
  entries := z.entries.filter (·.2 ≠ m)
  sorted := z.sorted.filter _
  nodup := z.nodup.sublist (List.filter_sublist.map Prod.snd)

theorem notMem_zrem_self (z : ZSet α σ) (m : α) : m ∉ (z.zrem m).entries.map Prod.snd := by
  simp [zrem]

def zadd (z : ZSet α σ) (s : σ) (m : α) : ZSet α σ where
  entries := (z.zrem m).entries.orderedInsert before (s, m)
  sorted := (z.zrem m).sorted.orderedInsert _ _
  nodup := by
    refine (((List.perm_orderedInsert before (s, m) (z.zrem m).entries).map Prod.snd).nodup_iff).mpr ?_
    exact List.nodup_cons.mpr ⟨notMem_zrem_self z m, (z.zrem m).nodup⟩

/-- The first `limit` members with a score of at most `max`, in rank order. -/
def rangeByScore (z : ZSet α σ) (max : σ) (limit : Nat) : List α :=
  ((z.entries.filter (·.1 ≤ max)).take limit).map Prod.snd

/-! ## Membership and counting -/

@[simp] theorem notMem_empty (m : α) : m ∉ (empty : ZSet α σ) := List.not_mem_nil

@[simp] theorem mem_zrem {z : ZSet α σ} {m x : α} : x ∈ z.zrem m ↔ x ∈ z ∧ x ≠ m := by
  simp only [mem_def, members, zrem, List.mem_map, List.mem_filter, decide_eq_true_eq]
  constructor
  · rintro ⟨e, ⟨he, hne⟩, rfl⟩
    exact ⟨⟨e, he, rfl⟩, hne⟩
  · rintro ⟨⟨e, he, rfl⟩, hne⟩
    exact ⟨e, ⟨he, hne⟩, rfl⟩

theorem perm_zadd (z : ZSet α σ) (s : σ) (m : α) :
    (z.zadd s m).members.Perm (m :: (z.zrem m).members) :=
  (List.perm_orderedInsert before (s, m) (z.zrem m).entries).map Prod.snd

@[simp] theorem mem_zadd {z : ZSet α σ} {s : σ} {m x : α} : x ∈ z.zadd s m ↔ x = m ∨ x ∈ z := by
  rw [mem_def, (perm_zadd z s m).mem_iff, List.mem_cons, ← mem_def, mem_zrem]
  constructor
  · rintro (h | h)
    · exact Or.inl h
    · exact Or.inr h.1
  · rintro (h | h)
    · exact Or.inl h
    · by_cases hx : x = m
      · exact Or.inl hx
      · exact Or.inr ⟨h, hx⟩

theorem count_members (z : ZSet α σ) (x : α) : z.members.count x = if x ∈ z then 1 else 0 := by
  split
  · rename_i h
    exact List.count_eq_one_of_mem z.nodup h
  · rename_i h
    exact List.count_eq_zero_of_not_mem h

theorem mem_of_mem_rangeByScore {z : ZSet α σ} {max : σ} {limit : Nat} {m : α}
    (h : m ∈ z.rangeByScore max limit) : m ∈ z := by
  obtain ⟨e, he, rfl⟩ := List.mem_map.mp h
  exact List.mem_map_of_mem (List.mem_filter.mp (List.mem_of_mem_take he)).1

theorem nodup_rangeByScore (z : ZSet α σ) (max : σ) (limit : Nat) :
    (z.rangeByScore max limit).Nodup :=
  z.nodup.sublist (((List.take_sublist _ _).trans List.filter_sublist).map Prod.snd)

/-! ## Scores -/

theorem mem_entries_of_score {z : ZSet α σ} {s : σ} {m : α} (h : z.score m = some s) :
    (s, m) ∈ z.entries := by
  obtain ⟨e, he, rfl⟩ := Option.map_eq_some_iff.mp h
  have hm : e.2 = m := by simpa using List.find?_some he
  have := List.mem_of_find?_eq_some he
  rwa [← hm]

/-- Members are unique, so an entry determines the score. -/
theorem score_of_mem_entries {z : ZSet α σ} {s : σ} {m : α} (h : (s, m) ∈ z.entries) :
    z.score m = some s := by
  have hex : ∃ e, z.entries.find? (·.2 = m) = some e := by
    cases hf : z.entries.find? (·.2 = m) with
    | some e => exact ⟨e, rfl⟩
    | none =>
      have := List.find?_eq_none.mp hf _ h
      simp at this
  obtain ⟨e, he⟩ := hex
  have hem := List.mem_of_find?_eq_some he
  have hm : e.2 = m := by simpa using List.find?_some he
  have heq : e = (s, m) := List.inj_on_of_nodup_map z.nodup hem h hm
  simp [score, he, heq]

theorem score_eq_some_iff {z : ZSet α σ} {s : σ} {m : α} :
    z.score m = some s ↔ (s, m) ∈ z.entries :=
  ⟨mem_entries_of_score, score_of_mem_entries⟩

theorem mem_entries_zadd {z : ZSet α σ} {s : σ} {m : α} {e : σ × α} :
    e ∈ (z.zadd s m).entries ↔ e = (s, m) ∨ (e ∈ z.entries ∧ e.2 ≠ m) := by
  simp [zadd, zrem]

theorem mem_entries_zrem {z : ZSet α σ} {m : α} {e : σ × α} :
    e ∈ (z.zrem m).entries ↔ e ∈ z.entries ∧ e.2 ≠ m := by
  simp [zrem]

@[simp] theorem score_zadd_self (z : ZSet α σ) (s : σ) (m : α) : (z.zadd s m).score m = some s :=
  score_of_mem_entries (mem_entries_zadd.mpr (Or.inl rfl))

theorem score_congr {z z' : ZSet α σ} {x : α}
    (h : ∀ s, (s, x) ∈ z.entries ↔ (s, x) ∈ z'.entries) : z.score x = z'.score x := by
  refine Option.ext fun s => ?_
  rw [score_eq_some_iff, score_eq_some_iff, h]

theorem score_zadd_ne (z : ZSet α σ) (s : σ) {m x : α} (h : x ≠ m) :
    (z.zadd s m).score x = z.score x :=
  score_congr fun t => by simp [mem_entries_zadd, h]

theorem score_zrem_ne (z : ZSet α σ) {m x : α} (h : x ≠ m) : (z.zrem m).score x = z.score x :=
  score_congr fun t => by simp [mem_entries_zrem, h]

theorem score_zrem_self (z : ZSet α σ) (m : α) : (z.zrem m).score m = none := by
  cases h : (z.zrem m).score m with
  | none => rfl
  | some s => exact absurd rfl (mem_entries_zrem.mp (mem_entries_of_score h)).2

theorem mem_iff_score {z : ZSet α σ} {m : α} : m ∈ z ↔ ∃ s, z.score m = some s := by
  simp only [score_eq_some_iff, mem_def, members, List.mem_map, Prod.exists]
  constructor
  · rintro ⟨s, x, he, rfl⟩
    exact ⟨s, he⟩
  · rintro ⟨s, he⟩
    exact ⟨s, m, he, rfl⟩

@[simp] theorem zrem_of_notMem {z : ZSet α σ} {m : α} (h : m ∉ z) : z.zrem m = z := by
  have hf : z.entries.filter (·.2 ≠ m) = z.entries := by
    refine List.filter_eq_self.mpr fun e he => ?_
    simp only [decide_eq_true_eq]
    rintro rfl
    exact h (List.mem_map_of_mem he)
  cases z
  simpa [zrem] using hf

/-- Only members whose score is at most `max` are listed. -/
theorem score_le_of_mem_rangeByScore {z : ZSet α σ} {max : σ} {limit : Nat} {m : α}
    (h : m ∈ z.rangeByScore max limit) : ∃ s, z.score m = some s ∧ s ≤ max := by
  obtain ⟨e, he, rfl⟩ := List.mem_map.mp h
  obtain ⟨hmem, hle⟩ := List.mem_filter.mp (List.mem_of_mem_take he)
  exact ⟨e.1, score_of_mem_entries hmem, by simpa using hle⟩

/-! ## The last-ranked entry -/

theorem top_eq_none_iff {z : ZSet α σ} : z.top = none ↔ z.entries = [] := List.getLast?_eq_none_iff

theorem mem_of_top {z : ZSet α σ} {e : σ × α} (h : z.top = some e) : e ∈ z.entries :=
  List.mem_of_getLast? h

theorem mem_members_of_top {z : ZSet α σ} {e : σ × α} (h : z.top = some e) : e.2 ∈ z :=
  List.mem_map_of_mem (mem_of_top h)

/-- Removing the last-ranked member drops the last entry. -/
theorem entries_of_top {z : ZSet α σ} {e : σ × α} (h : z.top = some e) :
    z.entries = (z.zrem e.2).entries ++ [e] := by
  obtain ⟨es, hes⟩ := List.getLast?_eq_some_iff.mp h
  have hn : (es.map Prod.snd ++ [e.2]).Nodup := by
    have := z.nodup
    rwa [hes, List.map_append] at this
  have hfilter : es.filter (·.2 ≠ e.2) = es := by
    refine List.filter_eq_self.mpr fun x hx => ?_
    simp only [decide_eq_true_eq]
    intro he
    exact (List.nodup_append.mp hn).2.2 x.2 (List.mem_map_of_mem hx) e.2 (List.mem_singleton_self _) he
  simp only [zrem, hes, List.filter_append, hfilter]
  simp

/-- What stands in front of an entry ranks before it. -/
theorem before_of_split {z : ZSet α σ} {keep gone : List (σ × α)} {e : σ × α}
    (h : z.entries = keep ++ e :: gone) : (∀ x ∈ keep, before x e) ∧ ∀ x ∈ gone, before e x := by
  have hs := z.sorted
  rw [h, List.pairwise_append, List.pairwise_cons] at hs
  exact ⟨fun x hx => hs.2.2 x hx e List.mem_cons_self, hs.2.1.1⟩

theorem card_zrem_lt {z : ZSet α σ} {m : α} (h : m ∈ z) : (z.zrem m).card < z.card := by
  obtain ⟨e, he, rfl⟩ := List.mem_map.mp h
  exact List.length_filter_lt_length_iff_exists.mpr ⟨e, he, by simp⟩

/-- A score below all others puts the member first. -/
theorem entries_zadd_lowest {z : ZSet α σ} {s : σ} {m : α} (h : ∀ e ∈ z.entries, s < e.1) :
    (z.zadd s m).entries = (s, m) :: (z.zrem m).entries := by
  have h' : ∀ e ∈ (z.zrem m).entries, s < e.1 := fun e he => h e (mem_entries_zrem.mp he).1
  simp only [zadd]
  cases he : (z.zrem m).entries with
  | nil => rfl
  | cons e es =>
    have hlt : s < e.1 := h' e (he ▸ List.mem_cons_self)
    exact List.orderedInsert_cons_of_le before es (Or.inl hlt)

theorem members_zrem (z : ZSet α σ) (m : α) : (z.zrem m).members = z.members.erase m := by
  have hn : z.members.Nodup := z.nodup
  rw [hn.erase_eq_filter]
  simp only [members, zrem, List.filter_map]
  congr 1
  refine List.filter_congr fun e _ => ?_
  simp only [Function.comp, bne]
  rw [Bool.eq_iff_iff]
  simp

theorem count_zadd (z : ZSet α σ) (s : σ) (m x : α) :
    (z.zadd s m).members.count x = if x = m then 1 else z.members.count x := by
  rw [count_members, count_members]
  by_cases h : x = m
  · simp [h]
  · simp [h]

theorem count_zrem (z : ZSet α σ) (m x : α) :
    (z.zrem m).members.count x = if x = m then 0 else z.members.count x := by
  rw [count_members, count_members]
  by_cases h : x = m
  · simp [h]
  · simp [h]

theorem countP_zrem {z : ZSet α σ} {m : α} (h : m ∈ z) (p : α → Bool) :
    (z.zrem m).members.countP p + (if p m then 1 else 0) = z.members.countP p := by
  rw [members_zrem, (List.perm_cons_erase (mem_def.mp h)).countP_eq p, List.countP_cons]

theorem countP_zadd (z : ZSet α σ) (s : σ) (m : α) (p : α → Bool) :
    (z.zadd s m).members.countP p = z.members.countP p + if m ∈ z then 0 else if p m then 1 else 0 := by
  rw [(perm_zadd z s m).countP_eq p, List.countP_cons]
  by_cases h : m ∈ z
  · rw [if_pos h]
    exact countP_zrem h p
  · rw [if_neg h, zrem_of_notMem h]

theorem mem_foldl_zrem {ms : List α} {z : ZSet α σ} {x : α} : x ∈ ms.foldl zrem z ↔ x ∈ z ∧ x ∉ ms := by
  induction ms generalizing z with
  | nil => simp
  | cons m ms ih =>
    rw [List.foldl_cons, ih, mem_zrem, List.mem_cons]
    tauto

/-- Members taken out are counted where they were taken to. -/
theorem count_foldl_zrem {ms : List α} {z : ZSet α σ} (hn : ms.Nodup) (hm : ∀ m ∈ ms, m ∈ z) (x : α) :
    (ms.foldl zrem z).members.count x + ms.count x = z.members.count x := by
  simp only [count_members, mem_foldl_zrem]
  by_cases hx : x ∈ ms
  · rw [List.count_eq_one_of_mem hn hx]
    simp [hx, hm x hx]
  · rw [List.count_eq_zero_of_not_mem hx]
    simp [hx]

/-- Removing a member changes no other score. -/
theorem score_foldl_zrem {ms : List α} {z : ZSet α σ} {x : α} (h : x ∉ ms) :
    (ms.foldl zrem z).score x = z.score x := by
  induction ms generalizing z with
  | nil => rfl
  | cons m ms ih =>
    obtain ⟨hne, h⟩ := not_or.mp (mt List.mem_cons.mpr h)
    rw [List.foldl_cons, ih h, score_zrem_ne z hne]

/-! ## The entries up to a score -/

/-- The number of entries with a score of at most `max`. -/
def due (z : ZSet α σ) (max : σ) : Nat := z.entries.countP (·.1 ≤ max)

theorem due_le_card (z : ZSet α σ) (max : σ) : z.due max ≤ z.card := List.countP_le_length

/-- In a list where `p` passes to earlier elements, those with `p` come first. -/
theorem filter_eq_take {β : Type} {p : β → Bool} {l : List β} (h : l.Pairwise fun a b => p b → p a) :
    l.filter p = l.take (l.countP p) := by
  induction l with
  | nil => rfl
  | cons a l ih =>
    obtain ⟨ha, hl⟩ := List.pairwise_cons.mp h
    by_cases hp : p a
    · rw [List.filter_cons_of_pos hp, List.countP_cons_of_pos hp, List.take_succ_cons, ih hl]
    · have hnone : ∀ b ∈ a :: l, ¬ p b := by
        intro b hb
        rcases List.mem_cons.mp hb with rfl | hb
        · exact hp
        · exact fun hpb => hp (ha b hb hpb)
      rw [List.filter_eq_nil_iff.mpr hnone, List.countP_eq_zero.mpr hnone, List.take_zero]

theorem due_entries_eq (z : ZSet α σ) (max : σ) : z.entries.filter (·.1 ≤ max) = z.entries.take (z.due max) := by
  refine filter_eq_take (z.sorted.imp ?_)
  intro a b hab hb
  have hle : a.1 ≤ b.1 := by
    rcases hab with h | h
    · exact h.le
    · exact h.1.le
  simp only [decide_eq_true_eq] at hb ⊢
  exact hle.trans hb

/-- `rangeByScore` takes from the front. -/
theorem rangeByScore_eq_take (z : ZSet α σ) (max : σ) (limit : Nat) :
    z.rangeByScore max limit = (z.entries.take (min limit (z.due max))).map Prod.snd := by
  rw [rangeByScore, due_entries_eq, List.take_take]

theorem length_rangeByScore (z : ZSet α σ) (max : σ) (limit : Nat) :
    (z.rangeByScore max limit).length = min limit (z.due max) := by
  have := z.due_le_card max
  rw [rangeByScore_eq_take, List.length_map, List.length_take]
  simp only [card] at this
  omega

theorem le_of_mem_take_due {z : ZSet α σ} {max : σ} {n : Nat} (hn : n ≤ z.due max) {e : σ × α}
    (he : e ∈ z.entries.take n) : e.1 ≤ max := by
  have hmem : e ∈ z.entries.filter (·.1 ≤ max) := by
    rw [due_entries_eq]
    exact List.take_subset_take_left z.entries hn he
  simpa using (List.mem_filter.mp hmem).2

/-- Entries dropped from the front are no longer due. -/
theorem due_of_drop {z z' : ZSet α σ} {max : σ} {n : Nat} (h : z'.entries = z.entries.drop n) (hn : n ≤ z.due max) :
    z'.due max = z.due max - n := by
  have hlen : (z.entries.take n).length = n := by
    have := z.due_le_card max
    rw [List.length_take]
    simp only [card] at this
    omega
  have htake : (z.entries.take n).countP (·.1 ≤ max) = n := by
    rw [List.countP_eq_length.mpr fun e he => ?_, hlen]
    simpa using le_of_mem_take_due hn he
  have hsplit : z.due max = (z.entries.take n).countP (·.1 ≤ max) + z'.due max := by
    rw [due, due, h, ← List.countP_append, List.take_append_drop]
  omega

theorem entries_foldl_zrem (ms : List α) (z : ZSet α σ) :
    (ms.foldl zrem z).entries = z.entries.filter (·.2 ∉ ms) := by
  induction ms generalizing z with
  | nil => simp
  | cons m ms ih =>
    rw [List.foldl_cons, ih, zrem, List.filter_filter]
    refine List.filter_congr fun e _ => ?_
    rw [Bool.eq_iff_iff]
    simp [and_comm]

/-- Removing the members of the first entries drops them. -/
theorem entries_foldl_zrem_take (z : ZSet α σ) (n : Nat) :
    (((z.entries.take n).map Prod.snd).foldl zrem z).entries = z.entries.drop n := by
  have hn : ((z.entries.take n).map Prod.snd ++ (z.entries.drop n).map Prod.snd).Nodup := by
    rw [← List.map_append, List.take_append_drop]
    exact z.nodup
  obtain ⟨-, -, hdisjoint⟩ := List.nodup_append.mp hn
  have hsplit : ∀ p : σ × α → Bool, z.entries.filter p = (z.entries.take n).filter p ++ (z.entries.drop n).filter p := by
    intro p
    rw [← List.filter_append, List.take_append_drop]
  rw [entries_foldl_zrem, hsplit, List.filter_eq_nil_iff.mpr ?_, List.filter_eq_self.mpr ?_, List.nil_append]
  · intro e he
    simp only [decide_eq_true_eq]
    intro hmem
    exact hdisjoint e.2 hmem e.2 (List.mem_map_of_mem he) rfl
  · intro e he
    simp only [decide_eq_true_eq, not_not]
    exact List.mem_map_of_mem he

theorem entries_foldl_zrem_rangeByScore (z : ZSet α σ) (max : σ) (limit : Nat) :
    ((z.rangeByScore max limit).foldl zrem z).entries = z.entries.drop (min limit (z.due max)) := by
  rw [rangeByScore_eq_take, entries_foldl_zrem_take]

/-! ## Ranks -/

/-- The number of entries ranked ahead of `e`. -/
def ahead (z : ZSet α σ) (e : σ × α) : Nat := z.entries.countP fun x => before x e ∧ x ≠ e

theorem ahead_zadd_le (z : ZSet α σ) {s : σ} {m : α} {e : σ × α} (h : ¬ before (s, m) e) :
    (z.zadd s m).ahead e ≤ z.ahead e := by
  unfold ahead
  simp only [zadd]
  rw [(List.perm_orderedInsert before (s, m) (z.zrem m).entries).countP_eq, List.countP_cons_of_neg (by simp [h])]
  exact List.filter_sublist.countP_le

/-- What is dropped from the front was ahead of what stays. -/
theorem ahead_of_drop {z z' : ZSet α σ} {n : Nat} (h : z'.entries = z.entries.drop n) (hn : n ≤ z.card)
    {e : σ × α} (he : e ∈ z'.entries) : z'.ahead e + n = z.ahead e := by
  have hsorted : (z.entries.take n ++ z.entries.drop n).Pairwise before := by
    rw [List.take_append_drop]
    exact z.sorted
  have hnodup : (z.entries.take n ++ z.entries.drop n).Nodup := by
    rw [List.take_append_drop]
    exact z.nodup.of_map _
  rw [h] at he
  have hfront : (z.entries.take n).countP (fun x => before x e ∧ x ≠ e) = n := by
    rw [List.countP_eq_length.mpr fun x hx => ?_, List.length_take]
    · simp only [card] at hn
      omega
    · exact decide_eq_true ⟨(List.pairwise_append.mp hsorted).2.2 x hx e he,
        (List.nodup_append.mp hnodup).2.2 x hx e he⟩
  have hsplit : z.ahead e = (z.entries.take n).countP (fun x => before x e ∧ x ≠ e) + z'.ahead e := by
    rw [ahead, ahead, h, ← List.countP_append, List.take_append_drop]
  omega

/-- An entry that is due and not taken has a whole batch less ahead of it. -/
theorem ahead_of_not_taken {z : ZSet α σ} {s max : σ} {m : α} {limit : Nat} (he : (s, m) ∈ z.entries) (hs : s ≤ max)
    (hm : m ∉ z.rangeByScore max limit) :
    (s, m) ∈ ((z.rangeByScore max limit).foldl zrem z).entries ∧
      ((z.rangeByScore max limit).foldl zrem z).ahead (s, m) + limit = z.ahead (s, m) := by
  have htaken : (s, m) ∉ z.entries.take (min limit (z.due max)) := by
    intro h
    rw [rangeByScore_eq_take] at hm
    exact hm (List.mem_map_of_mem h)
  have hdue : (s, m) ∈ z.entries.take (z.due max) := by
    rw [← due_entries_eq]
    exact List.mem_filter.mpr ⟨he, decide_eq_true hs⟩
  have hlimit : min limit (z.due max) = limit := by
    rcases Nat.le_total limit (z.due max) with h | h
    · exact Nat.min_eq_left h
    · rw [Nat.min_eq_right h] at htaken
      exact absurd hdue htaken
  have hentries := entries_foldl_zrem_rangeByScore z max limit
  rw [hlimit] at hentries htaken
  have hstays : (s, m) ∈ ((z.rangeByScore max limit).foldl zrem z).entries := by
    rw [hentries]
    rw [← List.take_append_drop limit z.entries] at he
    exact (List.mem_append.mp he).resolve_left htaken
  have := z.due_le_card max
  exact ⟨hstays, ahead_of_drop hentries (by omega) hstays⟩

/-! ## Scores of another type -/

section
variable {τ : Type} [LinearOrder τ]

theorem before_map {f : σ → τ} (hf : StrictMono f) {a b : σ × α} :
    before (f a.1, a.2) (f b.1, b.2) ↔ before a b := by
  simp only [before, hf.lt_iff_lt, hf.injective.eq_iff]

/-- The set with every score `s` written as `f s`. -/
def mapScore (f : σ → τ) (hf : StrictMono f) (z : ZSet α σ) : ZSet α τ where
  entries := z.entries.map fun e => (f e.1, e.2)
  sorted := List.pairwise_map.mpr (z.sorted.imp (before_map hf).mpr)
  nodup := by
    rw [List.map_map]
    exact z.nodup

variable {f : σ → τ} {hf : StrictMono f} (z : ZSet α σ)

@[simp] theorem members_mapScore : (z.mapScore f hf).members = z.members := List.map_map

@[simp] theorem mem_mapScore {m : α} : m ∈ z.mapScore f hf ↔ m ∈ z := by
  rw [mem_def, members_mapScore, ← mem_def]

@[simp] theorem zrem_mapScore (m : α) : (z.mapScore f hf).zrem m = (z.zrem m).mapScore f hf :=
  ext List.filter_map

@[simp] theorem zadd_mapScore (s : σ) (m : α) : (z.mapScore f hf).zadd (f s) m = (z.zadd s m).mapScore f hf := by
  apply ext
  change List.orderedInsert before (f s, m) ((z.mapScore f hf).zrem m).entries = _
  rw [zrem_mapScore]
  exact (List.map_orderedInsert before before (fun e : σ × α => (f e.1, e.2)) (z.zrem m).entries (s, m)
    (fun _ _ => (before_map hf).symm) fun _ _ => (before_map hf).symm).symm

@[simp] theorem rangeByScore_mapScore (max : σ) (limit : Nat) :
    (z.mapScore f hf).rangeByScore (f max) limit = z.rangeByScore max limit := by
  simp only [rangeByScore, mapScore, List.filter_map, ← List.map_take, List.map_map]
  simp only [Function.comp_def, hf.le_iff_le]

end

end ZSet
end NestPlayground.Core
