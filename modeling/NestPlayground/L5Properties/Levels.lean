import NestPlayground.L3Services.FairQueueService
import NestPlayground.L5Properties.FairQueue
import NestPlayground.L5Properties.Selection
import Mathlib.Data.Set.Card

/-!
# One group, one queue

`enqueue.lua` stores a group's level with its first request and files the group
under the level of every request. As long as a group's requests keep to the
stored level (`KeepsLevel`), each group with pending jobs is in the set of that
level and in no other (`OneQueue`); the first request with another level breaks
this. Job ids may repeat here.
-/
namespace NestPlayground.L5.Levels
open L1 FairQueue Selection

/-- Any requests, the level of each chosen by its caller. -/
def levelRuns (rnd : Core.Rounding) (alpha : ℚ) : Core.LTS Run Op where
  init c := c = ⟨.empty, [], []⟩
  step c op c' := c' = c.step rnd alpha op

/-- The requests submitted to a group, oldest first. -/
def requests (c : Run) (g : GroupId) : List BulkActionRequest := c.submitted.filter (·.jobGroupId = g)

/-- The youngest of them, as many as the group's list has jobs. -/
def waiting (c : Run) (g : GroupId) : List BulkActionRequest :=
  (requests c g).drop ((requests c g).length - (c.store.groupJobs g).length)

structure OneQueue (rnd : Core.Rounding) (alpha : ℚ) (c : Run) : Prop where
  one : ∀ g, c.store.groupJobs g ≠ [] → ∃ level, (c.store.groupMeta g).priorityLevel = some level ∧
    ∀ level', g ∈ c.store.fairQueue level' ↔ level' = level
  none : ∀ g, c.store.groupJobs g = [] → ∀ level, g ∉ c.store.fairQueue level
  stats : (L3.getQueueStats c.store).totalGroups = {g | c.store.groupJobs g ≠ []}.ncard
  order : ∀ nowMs s' hash, L2.dequeue rnd alpha nowMs c.store = (s', some hash) → ∃ g r rest,
    waiting c g = r :: rest ∧ hash.id = some r.jobId ∧
    s'.groupJobs = Function.update c.store.groupJobs g (rest.map (·.jobId)) ∧
    ∀ g', ∀ r' ∈ waiting c g', rank r.priorityLevel ≤ rank r'.priorityLevel

/-- A request does not differ from the level stored for its group. -/
def KeepsLevel (c : Run) : Op → Prop
  | .enqueue req _ => ∀ level ∈ (c.store.groupMeta req.jobGroupId).priorityLevel, level = req.priorityLevel
  | .dequeue _ => True

instance (c : Run) (op : Op) : Decidable (KeepsLevel c op) :=
  match op with
  | .enqueue _ _ => inferInstanceAs (Decidable (∀ level ∈ _, level = _))
  | .dequeue _ => inferInstanceAs (Decidable True)

structure Inv (c : Run) : Prop where
  suffix : ∀ g, c.store.groupJobs g <:+ (requests c g).map (·.jobId)
  named : ∀ r ∈ c.submitted, (c.store.jobs r.jobId).id = some r.jobId
  kept : ∀ r ∈ c.submitted, (c.store.groupMeta r.jobGroupId).priorityLevel = some r.priorityLevel
  counted : ∀ g, (c.store.groupMeta g).priorityLevel = none ↔ (c.store.groupMeta g).totalJobs.getD 0 = 0
  placed : ∀ g level, g ∈ c.store.fairQueue level ↔
    c.store.groupJobs g ≠ [] ∧ (c.store.groupMeta g).priorityLevel = some level

section
variable {rnd : Core.Rounding} {alpha : ℚ} {c : Run}

/-! ## What is pending -/

theorem mem_requests {g : GroupId} {r : BulkActionRequest} :
    r ∈ requests c g ↔ r ∈ c.submitted ∧ r.jobGroupId = g := by
  simp [requests]

theorem mem_requests_of_waiting {g : GroupId} {r : BulkActionRequest} (hr : r ∈ waiting c g) : r ∈ requests c g :=
  List.mem_of_mem_drop hr

/-- The waiting requests are those of the jobs in the list, in order. -/
theorem Inv.waiting_jobIds (h : Inv c) (g : GroupId) : (waiting c g).map (·.jobId) = c.store.groupJobs g := by
  obtain ⟨taken, ht⟩ := h.suffix g
  have hlen : (requests c g).length = taken.length + (c.store.groupJobs g).length := by
    rw [← List.length_append, ht, List.length_map]
  rw [waiting, List.map_drop, ← ht, hlen, Nat.add_sub_cancel, List.drop_left]

theorem Inv.level_of_pending (h : Inv c) {g : GroupId} (hg : c.store.groupJobs g ≠ []) :
    ∃ level, (c.store.groupMeta g).priorityLevel = some level := by
  have hne : waiting c g ≠ [] := by
    intro hw
    rw [← h.waiting_jobIds g, hw] at hg
    exact hg rfl
  obtain ⟨r, hr⟩ := List.exists_mem_of_ne_nil _ hne
  obtain ⟨hs, rfl⟩ := mem_requests.mp (mem_requests_of_waiting hr)
  exact ⟨_, h.kept r hs⟩

/-! ## The invariant -/

theorem inv_init : Inv ⟨.empty, [], []⟩ where
  suffix _ := List.suffix_rfl
  named _ hr := absurd hr List.not_mem_nil
  kept _ hr := absurd hr List.not_mem_nil
  counted _ := iff_of_true rfl rfl
  placed _ _ := iff_of_false (Core.ZSet.notMem_empty _) fun h => h.1 rfl

/-- The level stored after a request that keeps to it is the request's. -/
theorem Inv.level_enqueue (h : Inv c) {req : BulkActionRequest} {nowMs : Nat}
    (hk : KeepsLevel c (.enqueue req nowMs)) :
    ((L2.enqueue rnd alpha req nowMs c.store).1.groupMeta req.jobGroupId).priorityLevel = some req.priorityLevel := by
  simp only [L2.enqueue, Function.update_self]
  split
  · rfl
  · rename_i hn
    have hsome : (c.store.groupMeta req.jobGroupId).priorityLevel ≠ none := fun h' =>
      hn (by rw [(h.counted req.jobGroupId).mp h'])
    obtain ⟨level, hl⟩ := Option.ne_none_iff_exists'.mp hsome
    simp only [hl, hk level hl]

/-- A request that keeps to the stored level files its group under it. -/
theorem Inv.placed_enqueue (h : Inv c) {req : BulkActionRequest} {nowMs : Nat}
    (hk : KeepsLevel c (.enqueue req nowMs)) (g : GroupId) (level : PriorityLevel) :
    g ∈ (L2.enqueue rnd alpha req nowMs c.store).1.fairQueue level ↔
      (L2.enqueue rnd alpha req nowMs c.store).1.groupJobs g ≠ [] ∧
        ((L2.enqueue rnd alpha req nowMs c.store).1.groupMeta g).priorityLevel = some level := by
  rw [L2.mem_fairQueue_enqueue, h.placed g level]
  rcases eq_or_ne g req.jobGroupId with rfl | hg
  · rw [L2.groupJobs_enqueue_self, h.level_enqueue hk]
    have hstored : ∀ l, (c.store.groupMeta req.jobGroupId).priorityLevel = some l → l = req.priorityLevel := hk
    constructor
    · rintro (⟨-, rfl⟩ | ⟨-, hl⟩)
      · exact ⟨by simp, rfl⟩
      · exact ⟨by simp, by rw [hstored level hl]⟩
    · rintro ⟨-, hl⟩
      exact .inl ⟨rfl, (Option.some.inj hl).symm⟩
  · rw [L2.groupJobs_enqueue_of_ne hg, L2.groupMeta_enqueue_of_ne hg]
    exact or_iff_right fun h => hg h.1

theorem inv_enqueue (h : Inv c) {req : BulkActionRequest} {nowMs : Nat} (hk : KeepsLevel c (.enqueue req nowMs)) :
    Inv (c.step rnd alpha (.enqueue req nowMs)) := by
  have hlevel := @Inv.level_enqueue rnd alpha c h req nowMs hk
  have hmem : ∀ {r}, r ∈ (c.step rnd alpha (.enqueue req nowMs)).submitted → r ∈ c.submitted ∨ r = req := fun hr =>
    (List.mem_append.mp hr).imp_right List.mem_singleton.mp
  refine ⟨fun g => ?_, fun r hr => ?_, fun r hr => ?_, fun g => ?_, h.placed_enqueue hk⟩
  · have hs := h.suffix g
    simp only [requests, Run.step, List.filter_append, List.map_append]
    rcases eq_or_ne g req.jobGroupId with rfl | hg
    · rw [L2.groupJobs_enqueue_self]
      obtain ⟨taken, ht⟩ := hs
      refine ⟨taken, ?_⟩
      rw [← List.append_assoc, ht]
      simp [requests]
    · rw [L2.groupJobs_enqueue_of_ne hg]
      simpa [Ne.symm hg, requests] using hs
  · simp only [Run.step, L2.enqueue]
    rcases eq_or_ne r.jobId req.jobId with he | hne
    · rw [he, Function.update_self]
    · rw [Function.update_of_ne hne]
      exact h.named r ((hmem hr).resolve_right fun heq => hne (heq ▸ rfl))
  · rcases eq_or_ne r.jobGroupId req.jobGroupId with hg | hg
    · -- an older request of the group had the stored level, which is the new one's
      rcases hmem hr with hr | rfl
      · have hl := h.kept r hr
        rw [hg] at hl ⊢
        rw [← hk _ hl] at hlevel
        exact hlevel
      · exact hlevel
    · simp only [Run.step]
      rw [L2.groupMeta_enqueue_of_ne hg]
      exact h.kept r ((hmem hr).resolve_right fun heq => hg (heq ▸ rfl))
  · rcases eq_or_ne g req.jobGroupId with rfl | hg
    · refine iff_of_false (fun hn => ?_) ?_
      · rw [Run.step, hlevel] at hn
        cases hn
      · simp only [Run.step, L2.enqueue, Function.update_self]
        split <;> simp
    · simp only [Run.step]
      rw [L2.groupMeta_enqueue_of_ne hg]
      exact h.counted g

/-- Serving a group leaves every group with a job, and no other, where it was. -/
theorem placed_takes {s s' : Store} {nowMs : Nat} {level : PriorityLevel} {e : ℚ × GroupId} {hash : JobHash}
    (hp : ∀ g level, g ∈ s.fairQueue level ↔ s.groupJobs g ≠ [] ∧ (s.groupMeta g).priorityLevel = some level)
    (hc : Chosen s level e) (ht : Takes rnd alpha nowMs s level e s' hash) (g : GroupId) (level' : PriorityLevel) :
    g ∈ s'.fairQueue level' ↔ s'.groupJobs g ≠ [] ∧ (s'.groupMeta g).priorityLevel = some level' := by
  have hmeta : s'.groupMeta = s.groupMeta := by rw [ht.rest]
  obtain ⟨j, remaining, -, -, -, hlists⟩ := ht.head
  have hstored : (s.groupMeta e.2).priorityLevel = some level :=
    ((hp e.2 level).mp (List.mem_map_of_mem hc.mem)).2
  have hfrom : ¬ (level' = level ∧ g = e.2) → g ∈ s'.fairQueue level' → g ∈ s.fairQueue level' := by
    intro hne hg
    have hk := ht.kept level' g hne hg
    obtain ⟨sc, hsc⟩ := Core.ZSet.mem_iff_score.mp hg
    exact Core.ZSet.mem_iff_score.mpr ⟨sc, hk ▸ hsc⟩
  rw [hmeta]
  by_cases hge : g = e.2
  · subst hge
    rcases eq_or_ne level' level with rfl | hl
    · have hres := ht.rescored
      rw [Core.ZSet.mem_iff_score, hres]
      split
      · rename_i he
        simp [he]
      · rename_i he
        simp [he, hstored]
    · refine iff_of_false (fun hg => ?_) fun h => hl ?_
      · have := ((hp _ _).mp (hfrom (fun h => hl h.1) hg)).2
        exact hl (Option.some.inj (this.symm.trans hstored))
      · exact Option.some.inj (h.2.symm.trans hstored)
  · have hlist : s'.groupJobs g = s.groupJobs g := by rw [hlists, Function.update_of_ne hge]
    rw [hlist, ← hp g level']
    refine ⟨hfrom fun h => hge h.2, fun hg => ?_⟩
    by_contra hgone
    obtain ⟨sc, hsc⟩ := Core.ZSet.mem_iff_score.mp hg
    have hempty := (ht.removed level' (sc, g) (Core.ZSet.mem_entries_of_score hsc) hgone).1
    rw [hlist] at hempty
    exact ((hp g level').mp hg).1 hempty

theorem inv_dequeue (h : Inv c) {nowMs : Nat} : Inv (c.step rnd alpha (.dequeue nowMs)) := by
  have hreq : ∀ g, requests (c.step rnd alpha (.dequeue nowMs)) g = requests c g := fun _ => rfl
  rcases dequeue_outcome rnd alpha nowMs c.store with ⟨level, e, s', hash, he, hc, ht⟩ | ⟨hstale, he⟩
  · have hmeta : s'.groupMeta = c.store.groupMeta := by rw [ht.rest]
    obtain ⟨j, remaining, hj, hhash, hjobs, hlists⟩ := ht.head
    refine ⟨fun g => ?_, fun r hr => ?_, fun r hr => ?_, fun g => ?_, fun g level' => ?_⟩
    · rw [hreq]
      simp only [Run.step, he, hlists]
      rcases eq_or_ne g e.2 with rfl | hg
      · rw [Function.update_self]
        exact (hj ▸ List.suffix_cons j remaining).trans (h.suffix e.2)
      · rw [Function.update_of_ne hg]
        exact h.suffix g
    · have hid := h.named r hr
      simp only [Run.step, he, hjobs, hhash]
      rcases eq_or_ne r.jobId j with rfl | hne
      · rwa [Function.update_self]
      · rwa [Function.update_of_ne hne]
    · simp only [Run.step, he, hmeta]
      exact h.kept r hr
    · simp only [Run.step, he, hmeta]
      exact h.counted g
    · simp only [Run.step, he]
      exact placed_takes h.placed hc ht g level'
  · -- no group is pending, so none is stored in a set
    have hnone : ∀ g level, g ∉ c.store.fairQueue level := by
      intro g level hg
      obtain ⟨sc, hsc⟩ := Core.ZSet.mem_iff_score.mp hg
      exact ((h.placed g level).mp hg).1 (hstale level (sc, g) (Core.ZSet.mem_entries_of_score hsc))
    refine ⟨?_, ?_, ?_, ?_, fun g level => ?_⟩
    · simpa only [Run.step, he, requests] using h.suffix
    · simpa only [Run.step, he] using h.named
    · simpa only [Run.step, he] using h.kept
    · simpa only [Run.step, he] using h.counted
    · simp only [Run.step, he]
      exact iff_of_false (Core.ZSet.notMem_empty g) fun hg => hnone g level ((h.placed g level).mpr hg)

theorem inv_reachable (hr : ((levelRuns rnd alpha).restrict KeepsLevel).Reachable c) : Inv c := by
  refine Core.LTS.Inductive.reachable ⟨?_, ?_⟩ c hr
  · rintro _ rfl
    exact inv_init
  · rintro c op _ h ⟨rfl, hk⟩
    cases op with
    | enqueue req nowMs => exact inv_enqueue h hk
    | dequeue nowMs => exact inv_dequeue h

/-! ## What the invariant gives -/

/-- The members of the three sets, each pending group once. -/
theorem Inv.totalGroups (h : Inv c) :
    (L3.getQueueStats c.store).totalGroups = {g | c.store.groupJobs g ≠ []}.ncard := by
  let queue level := (c.store.fairQueue level).members
  let groups := queue .high ++ queue .normal ++ queue .low
  have hdisjoint : ∀ {l m}, l ≠ m → List.Disjoint (queue l) (queue m) := by
    intro l m hne g hl hm
    have h₁ := ((h.placed g l).mp hl).2
    have h₂ := ((h.placed g m).mp hm).2
    exact hne (Option.some.inj (h₁.symm.trans h₂))
  have hnodup : groups.Nodup := by
    refine List.Nodup.append (List.Nodup.append ?_ ?_ (hdisjoint nofun)) ?_ ?_
    · exact (c.store.fairQueue .high).nodup
    · exact (c.store.fairQueue .normal).nodup
    · exact (c.store.fairQueue .low).nodup
    · exact List.disjoint_append_left.mpr ⟨hdisjoint nofun, hdisjoint nofun⟩
  have hmem : {g | c.store.groupJobs g ≠ []} = (groups.toFinset : Set GroupId) := by
    ext g
    simp only [Set.mem_ofPred_eq, Finset.mem_coe, List.mem_toFinset, groups, List.mem_append]
    constructor
    · intro hg
      obtain ⟨level, hl⟩ := h.level_of_pending hg
      have hin : g ∈ queue level := (h.placed g level).mpr ⟨hg, hl⟩
      cases level with
      | high => exact .inl (.inl hin)
      | normal => exact .inl (.inr hin)
      | low => exact .inr hin
    · rintro ((hin | hin) | hin)
      · exact ((h.placed g .high).mp hin).1
      · exact ((h.placed g .normal).mp hin).1
      · exact ((h.placed g .low).mp hin).1
  rw [hmem, Set.ncard_coe_finset, List.toFinset_card_of_nodup hnodup]
  simp only [groups, queue, L3.getQueueStats, Core.ZSet.card, Core.ZSet.members, List.length_append, List.length_map]

/-- The served group has the stored level of the set it is taken from, and so
has every request of every group. -/
theorem Inv.highest_first (h : Inv c) {nowMs : Nat} {s' : Store} {hash : JobHash}
    (hd : L2.dequeue rnd alpha nowMs c.store = (s', some hash)) : ∃ g r rest,
      waiting c g = r :: rest ∧ hash.id = some r.jobId ∧
      s'.groupJobs = Function.update c.store.groupJobs g (rest.map (·.jobId)) ∧
      ∀ g', ∀ r' ∈ waiting c g', rank r.priorityLevel ≤ rank r'.priorityLevel := by
  rcases dequeue_outcome rnd alpha nowMs c.store with ⟨level, e, t, hash', he, hc, ht⟩ | ⟨-, he⟩
  · obtain ⟨rfl, rfl⟩ : t = s' ∧ hash' = hash := by
      rw [he] at hd
      cases hd
      exact ⟨rfl, rfl⟩
    obtain ⟨j, remaining, hj, hhash, -, hlists⟩ := ht.head
    have hw := h.waiting_jobIds e.2
    rw [hj] at hw
    obtain ⟨r, rest, hwr, hrj, hrest⟩ := List.map_eq_cons_iff.mp hw
    have hlevel : ∀ {g r}, r ∈ waiting c g → (c.store.groupMeta g).priorityLevel = some r.priorityLevel := by
      intro g r hr
      obtain ⟨hs, rfl⟩ := mem_requests.mp (mem_requests_of_waiting hr)
      exact h.kept r hs
    have hr : r ∈ waiting c e.2 := hwr ▸ List.mem_cons_self
    have hrl : r.priorityLevel = level := by
      have hplaced := ((h.placed e.2 level).mp (List.mem_map_of_mem hc.mem)).2
      exact Option.some.inj ((hlevel hr).symm.trans hplaced)
    refine ⟨e.2, r, rest, hwr, ?_, by rw [hlists, hrest], fun g' r' hr' => ?_⟩
    · rw [hhash, ← hrj]
      exact h.named r (mem_requests.mp (mem_requests_of_waiting hr)).1
    · -- a pending group of a higher level would have been chosen
      by_contra hlt
      rw [hrl] at hlt
      have hpending : c.store.groupJobs g' ≠ [] := by
        rw [← h.waiting_jobIds g']
        exact List.ne_nil_of_mem (List.mem_map_of_mem hr')
      have hin := (h.placed g' r'.priorityLevel).mpr ⟨hpending, hlevel hr'⟩
      obtain ⟨sc, hsc⟩ := Core.ZSet.mem_iff_score.mp hin
      exact hpending (hc.highest _ (by omega) (sc, g') (Core.ZSet.mem_entries_of_score hsc))
  · rw [he] at hd
    cases hd

theorem Inv.oneQueue (h : Inv c) : OneQueue rnd alpha c where
  one g hg := by
    obtain ⟨level, hl⟩ := h.level_of_pending hg
    refine ⟨level, hl, fun level' => ?_⟩
    rw [h.placed g level', hl]
    simp [hg, eq_comm]
  none g hg level hin := ((h.placed g level).mp hin).1 hg
  stats := h.totalGroups
  order _ _ _ hd := h.highest_first hd

/-- A request with another level files its group under that level. -/
theorem oneQueue_enqueue {req : BulkActionRequest} {nowMs : Nat}
    (h : OneQueue rnd alpha (c.step rnd alpha (.enqueue req nowMs))) (hinv : Inv c) :
    KeepsLevel c (.enqueue req nowMs) := by
  intro level hl
  have hpending : (c.step rnd alpha (.enqueue req nowMs)).store.groupJobs req.jobGroupId ≠ [] := by
    simp [Run.step]
  have hin : req.jobGroupId ∈ (c.step rnd alpha (.enqueue req nowMs)).store.fairQueue req.priorityLevel :=
    L2.mem_fairQueue_enqueue.mpr (.inl ⟨rfl, rfl⟩)
  obtain ⟨level', hl', hone⟩ := h.one req.jobGroupId hpending
  -- the level is already stored, so this request does not store its own
  have hkept : ((c.step rnd alpha (.enqueue req nowMs)).store.groupMeta req.jobGroupId).priorityLevel = some level := by
    have htotal : (c.store.groupMeta req.jobGroupId).totalJobs.getD 0 ≠ 0 := fun ht => by
      rw [(hinv.counted req.jobGroupId).mpr ht] at hl
      cases hl
    simp only [Run.step, L2.enqueue, Function.update_self]
    rw [if_neg (by omega)]
    exact hl
  rw [(hone req.priorityLevel).mp hin]
  exact Option.some.inj (hkept.symm.trans hl')

end

/-- In every run whose requests keep to the stored levels, in every state
reached: each group with pending jobs is in the set of its stored level and in
no other, a group without is in none, the statistics count the groups with
pending jobs, and `dequeue` returns no job while one of a higher level waits.
The first request that does not keep to the stored level ends this. -/
theorem one_group_one_queue (rnd : Core.Rounding) (alpha : ℚ) (c : Run)
    (hr : ((levelRuns rnd alpha).restrict KeepsLevel).Reachable c) :
    OneQueue rnd alpha c ∧ ∀ op, OneQueue rnd alpha (c.step rnd alpha op) ↔ KeepsLevel c op := by
  have h := inv_reachable hr
  refine ⟨h.oneQueue, fun op => ⟨fun ho => ?_, fun hk => ?_⟩⟩
  · cases op with
    | enqueue req nowMs => exact oneQueue_enqueue ho h
    | dequeue nowMs => trivial
  · exact (inv_reachable (.step hr ⟨rfl, hk⟩)).oneQueue

/-- Two groups, the second at a higher level and one of its two jobs taken. -/
def mixed : Run :=
  ((((Run.mk .empty [] []).step Core.binary64 10000 (.enqueue ⟨"a", "a1", "SEND_EMAIL", "null", 0, .low⟩ 1)).step
    Core.binary64 10000 (.enqueue ⟨"b", "b1", "SEND_EMAIL", "null", 0, .high⟩ 2)).step
    Core.binary64 10000 (.enqueue ⟨"b", "b2", "SEND_EMAIL", "null", 0, .high⟩ 3)).step Core.binary64 10000 (.dequeue 4)

/-- The next job is `b2`, of the higher level. -/
theorem one_group_one_queue_mixed :
    (L3.getQueueStats mixed.store).totalGroups = {g | mixed.store.groupJobs g ≠ []}.ncard ∧
    ∃ g r rest, waiting mixed g = r :: rest ∧ r.jobId = "b2" ∧
      ∀ g', ∀ r' ∈ waiting mixed g', rank r.priorityLevel ≤ rank r'.priorityLevel := by
  have hone := (one_group_one_queue Core.binary64 10000 mixed (.step (.step (.step (.step (.init rfl)
    ⟨rfl, by decide +kernel⟩) ⟨rfl, by decide +kernel⟩) ⟨rfl, by decide +kernel⟩) ⟨rfl, trivial⟩)).1
  have hid : (L2.dequeue Core.binary64 10000 5 mixed.store).2.map (·.id) = some (some "b2") := by decide +kernel
  obtain ⟨hash, hd, hb⟩ := Option.map_eq_some_iff.mp hid
  obtain ⟨g, r, rest, hw, hr, -, hrank⟩ := hone.order 5 _ hash (Prod.ext rfl hd)
  exact ⟨hone.stats, g, r, rest, hw, Option.some.inj (hr.symm.trans hb), hrank⟩

/-- One group, first at the normal and then at the high level: it is in two sets. -/
theorem two_levels : ¬ ∀ (alpha : ℚ) (c : Run), (levelRuns Core.binary64 alpha).Reachable c →
    OneQueue Core.binary64 alpha c := by
  intro h
  let first : Op := .enqueue ⟨"g", "j1", "SEND_EMAIL", "null", 0, .normal⟩ 1
  let second : Op := .enqueue ⟨"g", "j2", "SEND_EMAIL", "null", 0, .high⟩ 2
  have ho := h 10000 (((Run.mk .empty [] []).step Core.binary64 10000 first).step Core.binary64 10000 second)
    (.step (.step (.init rfl) rfl) rfl)
  obtain ⟨level, -, hone⟩ := ho.one "g" (by decide +kernel)
  have hnormal := (hone .normal).mp (by decide +kernel)
  have hhigh := (hone .high).mp (by decide +kernel)
  cases hnormal.trans hhigh.symm

end NestPlayground.L5.Levels
