import NestPlayground.L2Scripts.FairQueue

/-!
# What `dequeue.lua` takes

The loops drop groups with an empty list from the back of the sets they walk,
high level first (`Dropped`), until the last-ranked group of a level has a job.
That group is the one ranked last among the groups with a job in the highest
level that has one (`Chosen`), and apart from the dropped groups nothing but
the group itself is touched (`Takes`).
-/
namespace NestPlayground.L5.Selection
open L1

/-- The order in which the levels are walked. -/
def rank : PriorityLevel → Nat
  | .high => 0
  | .normal => 1
  | .low => 2

/-- The entry of the group to be served: in the highest level with a pending
group, the pending group ranked last. -/
structure Chosen (s : Store) (level : PriorityLevel) (e : ℚ × GroupId) : Prop where
  mem : e ∈ (s.fairQueue level).entries
  pending : s.groupJobs e.2 ≠ []
  last : ∀ x ∈ (s.fairQueue level).entries, s.groupJobs x.2 ≠ [] → Core.before x e
  highest : ∀ level', rank level' < rank level → ∀ x ∈ (s.fairQueue level').entries, s.groupJobs x.2 = []

/-- The head of the list of `e`'s group goes, and with it the groups without a
job ranked above `e`; what else is in the database stays. -/
structure Takes (rnd : Core.Rounding) (alpha : ℚ) (nowMs : Nat) (s : Store) (level : PriorityLevel)
    (e : ℚ × GroupId) (s' : Store) (hash : JobHash) : Prop where
  head : ∃ j remaining, s.groupJobs e.2 = j :: remaining ∧ hash = { s.jobs j with status := some .processing } ∧
    s'.jobs = Function.update s.jobs j hash ∧ s'.groupJobs = Function.update s.groupJobs e.2 remaining
  removed : ∀ level', ∀ x ∈ (s.fairQueue level').entries, x.2 ∉ s'.fairQueue level' →
    s'.groupJobs x.2 = [] ∧ (rank level' < rank level ∨ level' = level ∧ Core.before e x)
  kept : ∀ level' g, ¬ (level' = level ∧ g = e.2) → g ∈ s'.fairQueue level' →
    (s'.fairQueue level').score g = (s.fairQueue level').score g
  rescored : (s'.fairQueue level).score e.2 =
    if s'.groupJobs e.2 = [] then none
    else some (L2.priority rnd alpha nowMs ((s.groupMeta e.2).basePriority.getD 0) ((s.groupMeta e.2).totalJobs.getD 0)
      ((s.groupMeta e.2).doneJobs.getD 0))
  rest : s' = { s with jobs := s'.jobs, groupJobs := s'.groupJobs, fairQueue := s'.fairQueue }

/-- `t` is `s` without the entries `gone` at the ends of the sets, which are of groups without a job. -/
structure Dropped (s t : Store) (gone : PriorityLevel → List (ℚ × GroupId)) : Prop where
  rest : t = { s with fairQueue := t.fairQueue }
  split : ∀ level, (s.fairQueue level).entries = (t.fairQueue level).entries ++ gone level
  stale : ∀ level, ∀ x ∈ gone level, s.groupJobs x.2 = []

section
variable {rnd : Core.Rounding} {alpha : ℚ} {nowMs : Nat} {s t : Store} {level : PriorityLevel}
  {gone : PriorityLevel → List (ℚ × GroupId)}

theorem Dropped.refl (s : Store) : Dropped s s fun _ => [] where
  rest := rfl
  split _ := (List.append_nil _).symm
  stale _ _ hx := absurd hx List.not_mem_nil

theorem Dropped.groupJobs (h : Dropped s t gone) : t.groupJobs = s.groupJobs := by
  rw [h.rest]

/-- A pass that pops nothing drops one more. -/
theorem Dropped.pass (h : Dropped s t gone) {t' : Store}
    (hp : L2.dequeuePass rnd alpha nowMs level t = some (t', none)) :
    ∃ gone', Dropped s t' gone' ∧ ∀ l, l ≠ level → t'.fairQueue l = t.fairQueue l ∧ gone' l = gone l := by
  obtain ⟨sc, g, ht, ⟨hj, -, rfl⟩ | ⟨j, remaining, -, hr, -⟩⟩ := L2.dequeuePass_cases hp
  · refine ⟨Function.update gone level ((sc, g) :: gone level), ⟨?_, fun l => ?_, fun l x hx => ?_⟩, fun l hl => ?_⟩
    · rw [h.rest]
    · rw [h.split l]
      rcases eq_or_ne l level with rfl | hl
      · simp only [Function.update_self]
        rw [Core.ZSet.entries_of_top ht, List.append_assoc, List.singleton_append]
      · simp only [Function.update_of_ne hl]
    · rcases eq_or_ne l level with rfl | hl
      · rw [Function.update_self] at hx
        rcases List.mem_cons.mp hx with rfl | hx
        · rwa [h.groupJobs] at hj
        · exact h.stale l x hx
      · rw [Function.update_of_ne hl] at hx
        exact h.stale l x hx
    · exact ⟨Function.update_of_ne hl _ _, Function.update_of_ne hl _ _⟩
  · cases hr

/-- The passes over one level end with a pop or with the level's set empty. -/
theorem level_outcome : ∀ {fuel : Nat} {t : Store} {gone : PriorityLevel → List (ℚ × GroupId)}, Dropped s t gone →
    (t.fairQueue level).card < fuel →
    ∃ t' gone', Dropped s t' gone' ∧ (∀ l, l ≠ level → t'.fairQueue l = t.fairQueue l ∧ gone' l = gone l) ∧
      ((∃ s' hash, L2.dequeuePass rnd alpha nowMs level t' = some (s', some hash) ∧
          L2.dequeueLevel rnd alpha nowMs level fuel t = (s', some hash)) ∨
        (t'.fairQueue level).entries = [] ∧ L2.dequeueLevel rnd alpha nowMs level fuel t = (t', none)) := by
  intro fuel
  induction fuel with
  | zero =>
    intro t gone _ hc
    omega
  | succ fuel ih =>
    intro t gone h hc
    simp only [L2.dequeueLevel]
    split
    · rename_i hp
      exact ⟨t, gone, h, fun _ _ => ⟨rfl, rfl⟩, .inr ⟨L2.dequeuePass_eq_none.mp hp, rfl⟩⟩
    · rename_i s' hash hp
      exact ⟨t, gone, h, fun _ _ => ⟨rfl, rfl⟩, .inl ⟨s', hash, hp, rfl⟩⟩
    · rename_i t₁ hp
      obtain ⟨gone₁, h₁, hsame₁⟩ := h.pass hp
      have hlt := L2.dequeuePass_card hp
      obtain ⟨t', gone', h', hsame, hout⟩ := ih h₁ (by omega)
      refine ⟨t', gone', h', fun l hl => ?_, hout⟩
      obtain ⟨ha, hb⟩ := hsame l hl
      obtain ⟨hc, hd⟩ := hsame₁ l hl
      exact ⟨ha.trans hc, hb.trans hd⟩

/-- The levels in turn: those before the one that pops are empty, those after it as they were. -/
theorem go_outcome : ∀ {levels : List PriorityLevel} {t : Store} {gone : PriorityLevel → List (ℚ × GroupId)},
    Dropped s t gone → levels.Pairwise (fun l m => rank l < rank m) →
    (∀ l, l ∉ levels → (t.fairQueue l).entries = [] ∧ ∀ m ∈ levels, rank l < rank m) →
    (∀ l ∈ levels, gone l = []) →
    ∃ t' gone', Dropped s t' gone' ∧
      ((∃ level s' hash, (∀ l, rank l < rank level → (t'.fairQueue l).entries = []) ∧
          (∀ l, rank level < rank l → gone' l = []) ∧
          L2.dequeuePass rnd alpha nowMs level t' = some (s', some hash) ∧
          L2.dequeue.go rnd alpha nowMs levels t = (s', some hash)) ∨
        (∀ l, (t'.fairQueue l).entries = []) ∧ L2.dequeue.go rnd alpha nowMs levels t = (t', none)) := by
  intro levels
  induction levels with
  | nil =>
    intro t gone h _ hout _
    exact ⟨t, gone, h, .inr ⟨fun l => (hout l List.not_mem_nil).1, rfl⟩⟩
  | cons level levels ih =>
    intro t gone h hsorted hout hin
    obtain ⟨hlt, hsorted⟩ := List.pairwise_cons.mp hsorted
    obtain ⟨t₁, gone₁, h₁, hsame, hpop | ⟨hempty, he⟩⟩ :=
      @level_outcome rnd alpha nowMs s level ((t.fairQueue level).card + 1) t gone h (Nat.lt_succ_self _)
    · obtain ⟨s', hash, hp, he⟩ := hpop
      refine ⟨t₁, gone₁, h₁, .inl ⟨level, s', hash, fun l hl => ?_, fun l hl => ?_, hp, ?_⟩⟩
      · -- a level before this one is not among those left
        have hnotin : l ∉ level :: levels := by
          intro hmem
          rcases List.mem_cons.mp hmem with rfl | hmem
          · omega
          · have := hlt l hmem
            omega
        have hne : l ≠ level := fun heq => hnotin (heq ▸ List.mem_cons_self)
        rw [(hsame l hne).1]
        exact (hout l hnotin).1
      · have hne : l ≠ level := by
          rintro rfl
          omega
        rw [(hsame l hne).2]
        by_contra hgone
        by_cases hmem : l ∈ level :: levels
        · exact hgone (hin l hmem)
        · have := (hout l hmem).2 level List.mem_cons_self
          omega
      · simp only [L2.dequeue.go, he]
    · have hnotin : level ∉ levels := by
        intro hmem
        have := hlt level hmem
        omega
      have hne : ∀ l ∈ levels, l ≠ level := fun l hl heq => hnotin (heq ▸ hl)
      have hout₁ : ∀ l, l ∉ levels → (t₁.fairQueue l).entries = [] ∧ ∀ m ∈ levels, rank l < rank m := by
        intro l hl
        rcases eq_or_ne l level with rfl | hl'
        · exact ⟨hempty, hlt⟩
        · obtain ⟨h1, h2⟩ := hout l fun hmem => hl ((List.mem_cons.mp hmem).resolve_left hl')
          rw [(hsame l hl').1]
          exact ⟨h1, fun m hm => h2 m (List.mem_cons_of_mem _ hm)⟩
      have hin₁ : ∀ l ∈ levels, gone₁ l = [] := by
        intro l hl
        rw [(hsame l (hne l hl)).2]
        exact hin l (List.mem_cons_of_mem _ hl)
      obtain ⟨t', gone', h', hres⟩ := ih h₁ hsorted hout₁ hin₁
      refine ⟨t', gone', h', ?_⟩
      simpa only [L2.dequeue.go, he] using hres

theorem Dropped.score (h : Dropped s t gone) {g : GroupId} (hg : g ∈ t.fairQueue level) :
    (t.fairQueue level).score g = (s.fairQueue level).score g := by
  obtain ⟨sc, hsc⟩ := Core.ZSet.mem_iff_score.mp hg
  have hmem := h.split level ▸ List.mem_append_left (gone level) (Core.ZSet.mem_entries_of_score hsc)
  rw [hsc, Core.ZSet.score_of_mem_entries hmem]

theorem rank_inj {l m : PriorityLevel} (h : rank l = rank m) : l = m := by
  revert h
  cases l <;> cases m <;> decide

/-- One group is to be served. -/
theorem Chosen.unique {level' : PriorityLevel} {e e' : ℚ × GroupId} (h : Chosen s level e) (h' : Chosen s level' e') :
    level = level' ∧ e = e' := by
  have hl : level = level' := by
    rcases lt_trichotomy (rank level) (rank level') with hlt | heq | hlt
    · exact absurd (h'.highest level hlt e h.mem) h.pending
    · exact rank_inj heq
    · exact absurd (h.highest level' hlt e' h'.mem) h'.pending
  subst hl
  exact ⟨rfl, Core.before_antisymm (h'.last e h.mem h.pending) (h.last e' h'.mem h'.pending)⟩

/-! ## The pass that pops -/

/-- The group ranked last in what is left stands right before the dropped ones. -/
theorem Dropped.entries_of_top (h : Dropped s t gone) {sc : ℚ} {g : GroupId}
    (ht : (t.fairQueue level).top = some (sc, g)) :
    (s.fairQueue level).entries = ((t.fairQueue level).zrem g).entries ++ (sc, g) :: gone level := by
  rw [h.split level, Core.ZSet.entries_of_top ht, List.append_assoc]
  rfl

/-- If it has a job, it is the chosen one. -/
theorem Dropped.chosen (h : Dropped s t gone) (hhigh : ∀ l, rank l < rank level → (t.fairQueue l).entries = [])
    {sc : ℚ} {g : GroupId} (ht : (t.fairQueue level).top = some (sc, g)) (hpending : s.groupJobs g ≠ []) :
    Chosen s level (sc, g) := by
  have hentries := h.entries_of_top ht
  obtain ⟨hbefore, -⟩ := Core.ZSet.before_of_split hentries
  refine ⟨?_, hpending, fun x hx hxp => ?_, fun l hl x hx => ?_⟩
  · rw [hentries]
    exact List.mem_append_right _ List.mem_cons_self
  · rw [hentries] at hx
    rcases List.mem_append.mp hx with hx | hx
    · exact hbefore x hx
    rcases List.mem_cons.mp hx with rfl | hx
    · exact .inr ⟨rfl, le_rfl⟩
    · exact absurd (h.stale level x hx) hxp
  · rw [h.split l, hhigh l hl] at hx
    exact h.stale l x hx

/-- The set of the group afterwards: the group is in it as long as it has jobs. -/
theorem mem_served {z : Core.ZSet GroupId ℚ} {sc : ℚ} {g g' : GroupId} {remaining : List JobId} :
    g' ∈ (if remaining.length = 0 then z.zrem g else z.zadd sc g) ↔
      if g' = g then remaining ≠ [] else g' ∈ z := by
  rcases eq_or_ne g' g with rfl | hg
  · rw [if_pos rfl]
    split
    · rename_i hrem
      exact iff_of_false (fun hm => (Core.ZSet.mem_zrem.mp hm).2 rfl) fun hne => hne (List.length_eq_zero_iff.mp hrem)
    · rename_i hrem
      exact iff_of_true (Core.ZSet.mem_zadd.mpr (.inl rfl)) fun he => hrem (by rw [he]; rfl)
  · rw [if_neg hg]
    split
    · exact Core.ZSet.mem_zrem.trans (and_iff_left hg)
    · exact Core.ZSet.mem_zadd.trans (or_iff_right hg)

/-- The pass that pops serves the chosen group. -/
theorem Dropped.pop (h : Dropped s t gone) (hhigh : ∀ l, rank l < rank level → (t.fairQueue l).entries = [])
    (hlow : ∀ l, rank level < rank l → gone l = []) {s' : Store} {hash : JobHash}
    (hp : L2.dequeuePass rnd alpha nowMs level t = some (s', some hash)) :
    ∃ e, Chosen s level e ∧ Takes rnd alpha nowMs s level e s' hash := by
  obtain ⟨sc, g, ht, ⟨-, hr, -⟩ | ⟨j, remaining, hj, hr, hs'⟩⟩ := L2.dequeuePass_cases hp
  · cases hr
  have hmeta : t.groupMeta = s.groupMeta := by rw [h.rest]
  have hjobs : t.jobs = s.jobs := by rw [h.rest]
  have hpending : s.groupJobs g = j :: remaining := by rw [← h.groupJobs, hj]
  refine ⟨(sc, g), h.chosen hhigh ht (by rw [hpending]; exact List.cons_ne_nil _ _), ?_⟩
  have hlists : s'.groupJobs = Function.update s.groupJobs g remaining := by rw [hs', h.groupJobs]
  have hstale : ∀ l, ∀ x ∈ gone l, s'.groupJobs x.2 = [] := by
    intro l x hx
    have hempty := h.stale l x hx
    have hne : x.2 ≠ g := by
      intro heq
      rw [heq, hpending] at hempty
      cases hempty
    rw [hlists, Function.update_of_ne hne, hempty]
  have hset : ∀ l g', g' ∈ s'.fairQueue l ↔ if l = level ∧ g' = g then remaining ≠ [] else g' ∈ t.fairQueue l := by
    intro l g'
    rw [hs']
    rcases eq_or_ne l level with rfl | hl
    · simp only [Function.update_self, mem_served, true_and]
    · simp only [Function.update_of_ne hl, hl, false_and, if_false]
  refine ⟨⟨j, remaining, hpending, ?_, ?_, hlists⟩, fun l x hx hgone => ?_, fun l g' hg' hmem => ?_, ?_, ?_⟩
  · rw [← hjobs]
    exact Option.some.inj hr
  · rw [hs', Option.some.inj hr, ← hjobs]
  · -- a group is dropped with an empty list; `g` goes when it has none left
    rw [hset] at hgone
    rw [h.split l] at hx
    by_cases hx' : x ∈ gone l
    · refine ⟨hstale l x hx', ?_⟩
      rcases Nat.lt_trichotomy (rank l) (rank level) with hlt | heq | hlt
      · exact .inl hlt
      · cases rank_inj heq
        exact .inr ⟨rfl, (Core.ZSet.before_of_split (h.entries_of_top ht)).2 x hx'⟩
      · rw [hlow l hlt] at hx'
        cases hx'
    · have hleft : x.2 ∈ t.fairQueue l := List.mem_map_of_mem ((List.mem_append.mp hx).resolve_right hx')
      split at hgone
      · rename_i hserved
        obtain ⟨sc', g'⟩ := x
        obtain ⟨rfl, rfl⟩ : l = level ∧ g' = g := hserved
        have hsc : sc' = sc := Option.some.inj <|
          (Core.ZSet.score_of_mem_entries ((List.mem_append.mp hx).resolve_right hx')).symm.trans
            (Core.ZSet.score_of_mem_entries (Core.ZSet.mem_of_top ht))
        refine ⟨?_, .inr ⟨rfl, .inr ⟨hsc.symm, le_rfl⟩⟩⟩
        rw [hlists, Function.update_self]
        exact not_not.mp hgone
      · exact absurd hleft hgone
  · rw [hset, if_neg hg'] at hmem
    rw [← h.score hmem, hs']
    simp only
    rcases eq_or_ne l level with rfl | hl
    · have hgg : g' ≠ g := fun heq => hg' ⟨rfl, heq⟩
      rw [Function.update_self]
      split
      · exact Core.ZSet.score_zrem_ne _ hgg
      · exact Core.ZSet.score_zadd_ne _ _ hgg
    · rw [Function.update_of_ne hl]
  · rw [hs']
    simp only [Function.update_self, hmeta]
    by_cases hrem : remaining = []
    · rw [if_pos (by simp [hrem]), if_pos hrem, Core.ZSet.score_zrem_self]
    · rw [if_neg (by simpa using hrem), if_neg hrem, Core.ZSet.score_zadd_self]
  · rw [hs', h.rest]

/-- `dequeue.lua` serves the chosen group, or there is none and it empties the three sets. -/
theorem dequeue_outcome (rnd : Core.Rounding) (alpha : ℚ) (nowMs : Nat) (s : Store) :
    (∃ level e s' hash, L2.dequeue rnd alpha nowMs s = (s', some hash) ∧ Chosen s level e ∧
      Takes rnd alpha nowMs s level e s' hash) ∨
    (∀ level, ∀ x ∈ (s.fairQueue level).entries, s.groupJobs x.2 = []) ∧
      L2.dequeue rnd alpha nowMs s = ({ s with fairQueue := fun _ => .empty }, none) := by
  obtain ⟨t, gone, h, ⟨level, s', hash, hhigh, hlow, hp, he⟩ | ⟨hempty, he⟩⟩ :=
    @go_outcome rnd alpha nowMs s [.high, .normal, .low] s _ (Dropped.refl s) (by decide)
      (fun l hl => absurd (by cases l <;> decide) hl) fun _ _ => rfl
  · obtain ⟨e, hc, ht⟩ := h.pop hhigh hlow hp
    exact .inl ⟨level, e, s', hash, he, hc, ht⟩
  · refine .inr ⟨fun level x hx => ?_, ?_⟩
    · rw [h.split level, hempty level] at hx
      exact h.stale level x hx
    · have hq : t.fairQueue = fun _ => .empty := funext fun l => Core.ZSet.ext (hempty l)
      rw [L2.dequeue, he, h.rest, hq]

end

/-- In every state of the fair queue: a job that is returned is the head of the
list of the group ranked last among those with a job in the highest level that
has one, and beside this group only groups without a job, ranked above it, leave
the sets; the answer is null exactly when no level has a group with a job, and
then the three sets are empty and nothing else has changed. -/
theorem dequeue_selection (rnd : Core.Rounding) (alpha : ℚ) (nowMs : Nat) (s : Store) :
    (∀ hash, (L2.dequeue rnd alpha nowMs s).2 = some hash → ∃ level e, Chosen s level e ∧
      Takes rnd alpha nowMs s level e (L2.dequeue rnd alpha nowMs s).1 hash) ∧
    ((L2.dequeue rnd alpha nowMs s).2 = none ↔
      ∀ level, ∀ x ∈ (s.fairQueue level).entries, s.groupJobs x.2 = []) ∧
    ((L2.dequeue rnd alpha nowMs s).2 = none →
      (L2.dequeue rnd alpha nowMs s).1 = { s with fairQueue := fun _ => .empty }) := by
  rcases dequeue_outcome rnd alpha nowMs s with ⟨level, e, s', hash, he, hc, ht⟩ | ⟨hstale, he⟩
  · rw [he]
    refine ⟨fun hash' hh => ?_, ?_, fun hn => ?_⟩
    · cases hh
      exact ⟨level, e, hc, ht⟩
    · exact iff_of_false nofun fun hstale => hc.pending (hstale level e hc.mem)
    · cases hn
  · rw [he]
    exact ⟨nofun, iff_of_true rfl hstale, fun _ => rfl⟩

end NestPlayground.L5.Selection
