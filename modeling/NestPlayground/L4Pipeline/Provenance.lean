import NestPlayground.L4Pipeline.Carrying

/-!
# Where a job comes from

The queues hold bare ids. `origins` follows the entries of a run: which
submission put an entry into its group's list, which entry the fetcher popped
and pushed or parked, which one the dispatcher moved and a worker took.
`Matches` says that the queues hold the ids of these entries.
-/
namespace NestPlayground.L4
open L1 L3

/-- The entries of the queues, as the submissions they are of, and the entry an
activity has taken last. -/
structure Origins where
  group : GroupId → List BulkActionRequest
  ready : List BulkActionRequest
  waiting : JobId → Option BulkActionRequest
  hand : Nat → Option BulkActionRequest

namespace Origins

def empty : Origins := ⟨fun _ => [], [], fun _ => none, fun _ => none⟩

def add (o : Origins) (req : BulkActionRequest) : Origins :=
  { o with group := Function.update o.group req.jobGroupId (o.group req.jobGroupId ++ [req]) }

/-- Activity `i` pops the list of `g`. -/
def pop (o : Origins) (i : Nat) (g : GroupId) : Origins :=
  match o.group g with
  | [] => o
  | e :: rest => { o with group := Function.update o.group g rest, hand := Function.update o.hand i (some e) }

def push (o : Origins) (i : Nat) : Origins := { o with ready := o.ready ++ (o.hand i).toList }

def park (o : Origins) (i : Nat) (j : JobId) : Origins :=
  { o with waiting := Function.update o.waiting j (o.hand i) }

def move (o : Origins) (js : List JobId) : Origins :=
  { o with
    ready := o.ready ++ js.filterMap o.waiting
    waiting := fun j => if j ∈ js then none else o.waiting j }

/-- Activity `i` takes the head of the ready queue. -/
def take (o : Origins) (i : Nat) : Origins :=
  match o.ready with
  | [] => o
  | e :: rest => { o with ready := rest, hand := Function.update o.hand i (some e) }

end Origins

/-- The groups a run has enqueued to. -/
def groupsOf (cs : List Call) : List GroupId := cs.filterMap fun k => (enqueues k.cmd).map Prod.snd

/-- The group whose list a call has changed. -/
def changed (reg : Registry) (gs : List GroupId) (k : Call) : Option GroupId :=
  gs.find? fun g => (exec reg k.cmd k.inp k.world).1.groupJobs g ≠ k.world.groupJobs g

def follow (reg : Registry) (gs : List GroupId) (k : Call) (o : Origins) : Origins :=
  match k.cmd with
  | .enqueue req => o.add req
  | .dequeue =>
    match changed reg gs k with
    | some g => o.pop k.pid g
    | none => o
  | .readyQueuePush _ =>
    if k.world.readyQueue.length < reg.config.backpressure.readyQueueMaxSize then o.push k.pid else o
  | .congestionBackoff j _ => o.park k.pid j
  | .nonReadyAdd j => o.park k.pid j
  | .moveToReady => o.move (arrivals reg k.inp k.world .moveToReady)
  | .reliableDequeue _ _ _ _ => o.take k.pid
  | _ => o

def origins (reg : Registry) : List Call → Origins
  | [] => .empty
  | k :: before => follow reg (groupsOf before) k (origins reg before)

/-- The queues hold the ids of these entries; the entries of a group's list are
submissions to this group. -/
structure Matches (o : Origins) (gs : List GroupId) (s : Store) : Prop where
  group : ∀ g, (o.group g).map (·.jobId) = s.groupJobs g
  charged : ∀ g, ∀ e ∈ o.group g, e.jobGroupId = g
  known : ∀ g, o.group g ≠ [] → g ∈ gs
  ready : o.ready.map (·.jobId) = s.readyQueue
  waiting : ∀ j, (o.waiting j).map (·.jobId) = if j ∈ s.nonReadyQueue then some j else none

/-- The job a call puts into a queue, from the hands of the caller. -/
def queues : Cmd → Option JobId
  | .readyQueuePush j => some j
  | .congestionBackoff j _ => some j
  | .nonReadyAdd j => some j
  | _ => none

/-- The calls of the dead-letter path back into the ready queue. -/
def revives : Cmd → Bool
  | .recoverOrphans | .readyAppend _ => true
  | _ => false

section
variable {reg : Registry} {o : Origins} {gs : List GroupId} {s : Store}

theorem matches_empty : Matches .empty [] .empty where
  group _ := rfl
  charged _ _ h := by cases h
  known _ h := absurd rfl h
  ready := rfl
  waiting j := by simp [Origins.empty, Store.empty]

/-- Only the four kinds of queues matter. -/
theorem Matches.frame {s' : Store} (h : Matches o gs s) (hg : s'.groupJobs = s.groupJobs)
    (hr : s'.readyQueue = s.readyQueue) (hn : s'.nonReadyQueue = s.nonReadyQueue) : Matches o gs s' where
  group g := by rw [hg]; exact h.group g
  charged := h.charged
  known := h.known
  ready := by rw [hr]; exact h.ready
  waiting j := by rw [hn]; exact h.waiting j

theorem Matches.mono {gs' : List GroupId} (h : Matches o gs s) (hsub : ∀ g ∈ gs, g ∈ gs') : Matches o gs' s :=
  { h with known := fun g hg => hsub g (h.known g hg) }

theorem Matches.add (h : Matches o gs s) (req : BulkActionRequest) {s' : Store}
    (hg : s'.groupJobs = Function.update s.groupJobs req.jobGroupId (s.groupJobs req.jobGroupId ++ [req.jobId]))
    (hr : s'.readyQueue = s.readyQueue) (hn : s'.nonReadyQueue = s.nonReadyQueue) :
    Matches (o.add req) (req.jobGroupId :: gs) s' where
  group g := by
    rw [hg]
    rcases eq_or_ne g req.jobGroupId with rfl | hne
    · simp [Origins.add, h.group]
    · simp [Origins.add, Function.update_of_ne hne, h.group]
  charged g e he := by
    rcases eq_or_ne g req.jobGroupId with rfl | hne
    · simp only [Origins.add, Function.update_self, List.mem_append, List.mem_singleton] at he
      rcases he with he | rfl
      · exact h.charged _ e he
      · rfl
    · simp only [Origins.add, Function.update_of_ne hne] at he
      exact h.charged g e he
  known g hg' := by
    rcases eq_or_ne g req.jobGroupId with rfl | hne
    · exact List.mem_cons_self
    · simp only [Origins.add, Function.update_of_ne hne] at hg'
      exact List.mem_cons_of_mem _ (h.known g hg')
  ready := hr ▸ h.ready
  waiting j := hn ▸ h.waiting j

/-- The head of a list is an entry of this group. -/
theorem Matches.head (h : Matches o gs s) {g : GroupId} {j : JobId} {rest : List JobId}
    (hj : s.groupJobs g = j :: rest) :
    ∃ e es, o.group g = e :: es ∧ e.jobId = j ∧ es.map (·.jobId) = rest := by
  have hmap := h.group g
  rw [hj] at hmap
  exact List.map_eq_cons_iff.mp hmap

theorem Matches.pop (h : Matches o gs s) (i : Nat) {g : GroupId} {e : BulkActionRequest} {es : List BulkActionRequest}
    (he : o.group g = e :: es) {s' : Store}
    (hg : s'.groupJobs = Function.update s.groupJobs g (es.map (·.jobId)))
    (hr : s'.readyQueue = s.readyQueue) (hn : s'.nonReadyQueue = s.nonReadyQueue) :
    Matches (o.pop i g) gs s' := by
  have hpop : o.pop i g =
      { o with group := Function.update o.group g es, hand := Function.update o.hand i (some e) } := by
    simp only [Origins.pop, he]
  rw [hpop]
  refine ⟨fun g' => ?_, fun g' e' he' => ?_, fun g' hg' => ?_, hr ▸ h.ready, fun j => hn ▸ h.waiting j⟩
  · rw [hg]
    rcases eq_or_ne g' g with rfl | hne
    · simp only [Function.update_self]
    · simp only [Function.update_of_ne hne, h.group]
  · rcases eq_or_ne g' g with rfl | hne
    · simp only [Function.update_self] at he'
      exact h.charged g' e' (he ▸ List.mem_cons_of_mem e he')
    · simp only [Function.update_of_ne hne] at he'
      exact h.charged g' e' he'
  · rcases eq_or_ne g' g with rfl | hne
    · exact h.known g' (he ▸ List.cons_ne_nil e es)
    · simp only [Function.update_of_ne hne] at hg'
      exact h.known g' hg'

theorem Matches.push (h : Matches o gs s) {i : Nat} {e : BulkActionRequest} (hi : o.hand i = some e) {s' : Store}
    (hg : s'.groupJobs = s.groupJobs) (hr : s'.readyQueue = s.readyQueue ++ [e.jobId])
    (hn : s'.nonReadyQueue = s.nonReadyQueue) : Matches (o.push i) gs s' where
  group g := hg ▸ h.group g
  charged := h.charged
  known := h.known
  ready := by rw [hr]; simp [Origins.push, hi, h.ready]
  waiting j := hn ▸ h.waiting j

theorem Matches.park (h : Matches o gs s) {i : Nat} {e : BulkActionRequest} (hi : o.hand i = some e) {s' : Store}
    (hg : s'.groupJobs = s.groupJobs) (hr : s'.readyQueue = s.readyQueue)
    (hn : ∀ j, j ∈ s'.nonReadyQueue ↔ j = e.jobId ∨ j ∈ s.nonReadyQueue) : Matches (o.park i e.jobId) gs s' where
  group g := hg ▸ h.group g
  charged := h.charged
  known := h.known
  ready := hr ▸ h.ready
  waiting j := by
    rcases eq_or_ne j e.jobId with rfl | hne
    · simp [Origins.park, hi, hn]
    · simp only [Origins.park, Function.update_of_ne hne, hn, hne, false_or]
      exact h.waiting j

theorem Matches.move (h : Matches o gs s) {js : List JobId} (hjs : ∀ j ∈ js, j ∈ s.nonReadyQueue) {s' : Store}
    (hg : s'.groupJobs = s.groupJobs) (hr : s'.readyQueue = s.readyQueue ++ js)
    (hn : ∀ j, j ∈ s'.nonReadyQueue ↔ j ∈ s.nonReadyQueue ∧ j ∉ js) : Matches (o.move js) gs s' where
  group g := hg ▸ h.group g
  charged := h.charged
  known := h.known
  ready := by
    have hmoved : ∀ js : List JobId, (∀ j ∈ js, j ∈ s.nonReadyQueue) →
        (js.filterMap o.waiting).map (·.jobId) = js := by
      intro js
      induction js with
      | nil => exact fun _ => rfl
      | cons j js ih =>
        intro hjs
        have hj := h.waiting j
        rw [if_pos (hjs j List.mem_cons_self)] at hj
        obtain ⟨e, he, hid⟩ := Option.map_eq_some_iff.mp hj
        rw [List.filterMap_cons_some he, List.map_cons, hid, ih fun k hk => hjs k (List.mem_cons_of_mem j hk)]
    rw [hr, Origins.move, List.map_append, h.ready, hmoved js hjs]
  waiting j := by
    by_cases hj : j ∈ js
    · simp [Origins.move, hn, hj]
    · simp only [Origins.move, hn, hj, not_false_eq_true, and_true]
      exact h.waiting j

theorem Matches.take (h : Matches o gs s) (i : Nat) {j : JobId} {rest : List JobId} (hj : s.readyQueue = j :: rest)
    {s' : Store} (hg : s'.groupJobs = s.groupJobs) (hr : s'.readyQueue = rest)
    (hn : s'.nonReadyQueue = s.nonReadyQueue) : Matches (o.take i) gs s' := by
  obtain ⟨e, es, he, -, hes⟩ := List.map_eq_cons_iff.mp (h.ready.trans hj)
  have htake : o.take i = { o with ready := es, hand := Function.update o.hand i (some e) } := by
    simp only [Origins.take, he]
  rw [htake]
  exact ⟨fun g => hg ▸ h.group g, h.charged, h.known, by rw [hr]; exact hes, fun j => hn ▸ h.waiting j⟩

theorem changed_none {k : Call} (h : (exec reg k.cmd k.inp k.world).1.groupJobs = k.world.groupJobs) :
    changed reg gs k = none := by
  unfold changed
  rw [List.find?_eq_none]
  intro g _
  simp [h]

/-- The list that was popped is the one that has changed. -/
theorem changed_pop {k : Call} {g : GroupId} {j : JobId} {rest : List JobId} (hj : k.world.groupJobs g = j :: rest)
    (h : (exec reg k.cmd k.inp k.world).1.groupJobs = Function.update k.world.groupJobs g rest) (hg : g ∈ gs) :
    changed reg gs k = some g := by
  have hself : (exec reg k.cmd k.inp k.world).1.groupJobs g ≠ k.world.groupJobs g := by
    rw [h, Function.update_self, hj]
    exact (List.cons_ne_self j rest).symm
  have hother : ∀ g', (exec reg k.cmd k.inp k.world).1.groupJobs g' ≠ k.world.groupJobs g' → g' = g := by
    intro g' hne
    by_contra hg'
    rw [h, Function.update_of_ne hg'] at hne
    exact hne rfl
  unfold changed
  cases hf : gs.find? fun g' => decide ((exec reg k.cmd k.inp k.world).1.groupJobs g' ≠ k.world.groupJobs g') with
  | none => exact absurd (decide_eq_true hself) (List.find?_eq_none.mp hf g hg)
  | some g' =>
    have := List.find?_some hf
    rw [hother g' (of_decide_eq_true this)]

/-- One call keeps the match, if a queued job is the entry in hand. -/
theorem matches_call {k : Call} {cs : List Call} (h : Matches o (groupsOf cs) k.world) (hret : revives k.cmd = false)
    (hand : ∀ j, queues k.cmd = some j → ∃ e, o.hand k.pid = some e ∧ e.jobId = j) :
    Matches (follow reg (groupsOf cs) k o) (groupsOf (k :: cs)) (exec reg k.cmd k.inp k.world).1 := by
  obtain ⟨i, cmd, inp, s⟩ := k
  have hsame : SameQueues s (exec reg cmd inp s).1 → follow reg (groupsOf cs) ⟨i, cmd, inp, s⟩ o = o →
      (∀ g ∈ groupsOf cs, g ∈ groupsOf (⟨i, cmd, inp, s⟩ :: cs)) →
      Matches (follow reg (groupsOf cs) ⟨i, cmd, inp, s⟩ o) (groupsOf (⟨i, cmd, inp, s⟩ :: cs))
        (exec reg cmd inp s).1 := by
    intro hq ho hgs
    rw [ho]
    exact (h.frame hq.groupJobs hq.ready hq.nonReady).mono hgs
  cases cmd with
  | enqueue req => exact h.add req rfl rfl rfl
  | dequeue =>
    rcases L2.dequeue_cases Core.binary64 reg.config.fairQueue.alpha inp.now s with ⟨q, he⟩ | ⟨g, j, rest, q, hj, he⟩
    · have hc := @changed_none reg (groupsOf cs) ⟨i, .dequeue, inp, s⟩ (by simp only [exec, he])
      simp only [follow, hc, exec, he]
      exact h.frame rfl rfl rfl
    · obtain ⟨e, es, hes, -, rfl⟩ := h.head hj
      have hc := @changed_pop reg (groupsOf cs) ⟨i, .dequeue, inp, s⟩ g j _ hj (by simp only [exec, he])
        (h.known g (hes ▸ List.cons_ne_nil e es))
      simp only [follow, hc, exec, he]
      exact h.pop i hes rfl rfl rfl
  | readyQueuePush j =>
    obtain ⟨e, hi, rfl⟩ := hand j rfl
    simp only [follow, exec, L2.readyQueuePush, decide_eq_true_eq]
    split
    · exact h.push hi rfl rfl rfl
    · exact h
  | congestionBackoff j g =>
    obtain ⟨e, hi, rfl⟩ := hand j rfl
    exact h.park hi rfl rfl fun j => Core.ZSet.mem_zadd
  | nonReadyAdd j =>
    obtain ⟨e, hi, rfl⟩ := hand j rfl
    exact h.park hi rfl rfl fun j => Core.ZSet.mem_zadd
  | moveToReady =>
    obtain ⟨_, _, he⟩ := @moveToReady_frame reg inp s
    rw [he]
    exact h.move (fun j => Core.ZSet.mem_of_mem_rangeByScore) rfl rfl fun j => Core.ZSet.mem_foldl_zrem
  | reliableDequeue w i' n g =>
    simp only [follow, exec, L2.reliableDequeue]
    split
    · rename_i hr
      have hnil : o.ready = [] := List.map_eq_nil_iff.mp (h.ready.trans hr)
      simp only [Origins.take, hnil]
      exact h
    · rename_i j rest hr
      exact h.take i hr rfl rfl rfl
  | extendDeadline j =>
    obtain ⟨_, _, he⟩ := @extendDeadline_frame reg inp s j
    rw [he]
    exact h.frame rfl rfl rfl
  | recoverOrphans | readyAppend => cases hret
  | reliableAck | deadLetter | dlqAppend | dlqPopHead | dlqDelete => exact h.frame rfl rfl rfl
  | _ => exact hsame (queues_frame rfl) rfl fun _ hg => hg

/-! ## The way of an entry -/

/-- The calls that take a job out of a queue. -/
def pops : Cmd → Bool
  | .dequeue | .reliableDequeue _ _ _ _ => true
  | _ => false

section
variable {k : Call} {e : BulkActionRequest}

theorem group_follow {g : GroupId} (h : e ∈ (follow reg gs k o).group g) : e ∈ o.group g ∨ k.cmd = .enqueue e := by
  obtain ⟨i, cmd, inp, s⟩ := k
  cases cmd with
  | enqueue req =>
    rcases eq_or_ne g req.jobGroupId with rfl | hne
    · simp only [follow, Origins.add, Function.update_self, List.mem_append, List.mem_singleton] at h
      rcases h with h | rfl
      · exact .inl h
      · exact .inr rfl
    · simp only [follow, Origins.add, Function.update_of_ne hne] at h
      exact .inl h
  | dequeue =>
    simp only [follow] at h
    split at h
    · rename_i g' _
      simp only [Origins.pop] at h
      split at h
      · exact .inl h
      · rename_i e' es hes
        rcases eq_or_ne g g' with rfl | hne
        · simp only [Function.update_self] at h
          exact .inl (hes ▸ List.mem_cons_of_mem e' h)
        · simp only [Function.update_of_ne hne] at h
          exact .inl h
    · exact .inl h
  | readyQueuePush j =>
    simp only [follow] at h
    split at h <;> exact .inl h
  | reliableDequeue w i' n g' =>
    simp only [follow, Origins.take] at h
    split at h <;> exact .inl h
  | _ => exact .inl h

theorem ready_follow (h : e ∈ (follow reg gs k o).ready) :
    e ∈ o.ready ∨ (∃ j, o.waiting j = some e) ∨ needs k.cmd = true ∧ o.hand k.pid = some e := by
  obtain ⟨i, cmd, inp, s⟩ := k
  cases cmd with
  | dequeue =>
    simp only [follow] at h
    split at h
    · simp only [Origins.pop] at h
      split at h <;> exact .inl h
    · exact .inl h
  | readyQueuePush j =>
    simp only [follow] at h
    split at h
    · simp only [Origins.push, List.mem_append, Option.mem_toList] at h
      rcases h with h | h
      · exact .inl h
      · exact .inr (.inr ⟨rfl, h⟩)
    · exact .inl h
  | moveToReady =>
    simp only [follow, Origins.move, List.mem_append, List.mem_filterMap] at h
    rcases h with h | ⟨j, -, h⟩
    · exact .inl h
    · exact .inr (.inl ⟨j, h⟩)
  | reliableDequeue w i' n g' =>
    simp only [follow, Origins.take] at h
    split at h
    · exact .inl h
    · rename_i e' es hes
      exact .inl (hes ▸ List.mem_cons_of_mem e' h)
  | _ => exact .inl h

theorem waiting_park {i : Nat} {j j' : JobId} (h : (o.park i j).waiting j' = some e) :
    o.waiting j' = some e ∨ o.hand i = some e := by
  rcases eq_or_ne j' j with rfl | hne
  · simp only [Origins.park, Function.update_self] at h
    exact .inr h
  · simp only [Origins.park, Function.update_of_ne hne] at h
    exact .inl h

theorem waiting_follow {j : JobId} (h : (follow reg gs k o).waiting j = some e) :
    o.waiting j = some e ∨ needs k.cmd = true ∧ o.hand k.pid = some e := by
  obtain ⟨i, cmd, inp, s⟩ := k
  cases cmd with
  | dequeue =>
    simp only [follow] at h
    split at h
    · simp only [Origins.pop] at h
      split at h <;> exact .inl h
    · exact .inl h
  | readyQueuePush j =>
    simp only [follow] at h
    split at h <;> exact .inl h
  | congestionBackoff j g => exact (waiting_park h).imp_right fun h => ⟨rfl, h⟩
  | nonReadyAdd j => exact (waiting_park h).imp_right fun h => ⟨rfl, h⟩
  | moveToReady =>
    simp only [follow, Origins.move] at h
    split at h
    · cases h
    · exact .inl h
  | reliableDequeue w i' n g' =>
    simp only [follow, Origins.take] at h
    split at h <;> exact .inl h
  | _ => exact .inl h

/-- What another activity has in hand is its own. -/
theorem hand_other {i : Nat} (hi : i ≠ k.pid) : (follow reg gs k o).hand i = o.hand i := by
  obtain ⟨i', cmd, inp, s⟩ := k
  cases cmd with
  | dequeue =>
    simp only [follow]
    split
    · simp only [Origins.pop]
      split
      · rfl
      · exact Function.update_of_ne hi _ _
    · rfl
  | readyQueuePush j =>
    simp only [follow]
    split <;> rfl
  | reliableDequeue w i'' n g =>
    simp only [follow, Origins.take]
    split
    · rfl
    · exact Function.update_of_ne hi _ _
  | _ => rfl

theorem hand_keeps (hc : pops k.cmd = false) : (follow reg gs k o).hand = o.hand := by
  obtain ⟨i', cmd, inp, s⟩ := k
  cases cmd with
  | dequeue | reliableDequeue => cases hc
  | readyQueuePush j =>
    simp only [follow]
    split <;> rfl
  | _ => rfl

/-- An entry taken is the head of a queue, and the reply tells of it. -/
theorem taken (h : Matches o gs k.world) (ht : obtains k.cmd (exec reg k.cmd k.inp k.world).2 = true) :
    ∃ e, (follow reg gs k o).hand k.pid = some e ∧ ((∃ g, e ∈ o.group g) ∨ e ∈ o.ready) ∧
      (Agrees e (k.world.jobs e.jobId) → Tells e k.cmd (exec reg k.cmd k.inp k.world).2) := by
  obtain ⟨i, cmd, inp, s⟩ := k
  cases cmd with
  | dequeue =>
    rcases L2.dequeue_cases Core.binary64 reg.config.fairQueue.alpha inp.now s with ⟨q, he⟩ | ⟨g, j, rest, q, hj, he⟩
    · simp only [exec, he] at ht
      cases ht
    · obtain ⟨e, es, hes, rfl, rfl⟩ := h.head hj
      have hc := @changed_pop reg gs ⟨i, .dequeue, inp, s⟩ g _ _ hj (by simp only [exec, he])
        (h.known g (hes ▸ List.cons_ne_nil e es))
      refine ⟨e, ?_, .inl ⟨g, hes ▸ List.mem_cons_self⟩, fun ha => ?_⟩
      · simp only [follow, hc, Origins.pop, hes, Function.update_self]
      · simp only [exec, he]
        exact ha.sameJob ⟨rfl, rfl, rfl, rfl⟩
  | reliableDequeue w i' n g =>
    simp only [exec, L2.reliableDequeue] at ht ⊢
    split at ht
    · cases ht
    · rename_i j rest hr
      obtain ⟨e, es, hes, hid, -⟩ := List.map_eq_cons_iff.mp (h.ready.trans hr)
      refine ⟨e, ?_, .inr (hes ▸ List.mem_cons_self), fun _ => ?_⟩
      · simp only [follow, Origins.take, hes, Function.update_self]
      · simp only
        exact hid.symm
  | _ => cases ht

/-- An entry in hand was there before, or was in a queue. -/
theorem hand_follow {i : Nat} (h : (follow reg gs k o).hand i = some e) :
    o.hand i = some e ∨ (∃ g, e ∈ o.group g) ∨ e ∈ o.ready := by
  obtain ⟨i', cmd, inp, s⟩ := k
  have hupdate : ∀ {e' : BulkActionRequest}, Function.update o.hand i' (some e') i = some e →
      o.hand i = some e ∨ e' = e := by
    intro e' h
    rcases eq_or_ne i i' with rfl | hne
    · rw [Function.update_self] at h
      exact .inr (Option.some.inj h)
    · rw [Function.update_of_ne hne] at h
      exact .inl h
  cases cmd with
  | dequeue =>
    simp only [follow] at h
    split at h
    · rename_i g _
      simp only [Origins.pop] at h
      split at h
      · exact .inl h
      · rename_i e' es hes
        rcases hupdate h with h | rfl
        · exact .inl h
        · exact .inr (.inl ⟨g, hes ▸ List.mem_cons_self⟩)
    · exact .inl h
  | reliableDequeue w i'' n g =>
    simp only [follow, Origins.take] at h
    split at h
    · exact .inl h
    · rename_i e' es hes
      rcases hupdate h with h | rfl
      · exact .inl h
      · exact .inr (.inr (hes ▸ List.mem_cons_self))
  | _ =>
    rw [hand_keeps rfl] at h
    exact .inl h

end

/-- Every entry is a submission of the run. -/
structure Submitted (cs : List Call) (o : Origins) : Prop where
  group : ∀ g, ∀ e ∈ o.group g, ∃ k ∈ cs, k.cmd = .enqueue e
  ready : ∀ e ∈ o.ready, ∃ k ∈ cs, k.cmd = .enqueue e
  waiting : ∀ j e, o.waiting j = some e → ∃ k ∈ cs, k.cmd = .enqueue e
  hand : ∀ i e, o.hand i = some e → ∃ k ∈ cs, k.cmd = .enqueue e

theorem submitted (reg : Registry) (cs : List Call) : Submitted cs (origins reg cs) := by
  induction cs with
  | nil => exact ⟨(by rintro _ _ ⟨⟩), (by rintro _ ⟨⟩), (by rintro _ _ ⟨⟩), (by rintro _ _ ⟨⟩)⟩
  | cons k cs ih =>
    have hcons : ∀ {e}, (∃ k ∈ cs, k.cmd = .enqueue e) → ∃ k' ∈ k :: cs, k'.cmd = .enqueue e := by
      rintro e ⟨k', hk', he⟩
      exact ⟨k', List.mem_cons_of_mem k hk', he⟩
    refine ⟨fun g e he => ?_, fun e he => ?_, fun j e he => ?_, fun i e he => ?_⟩
    · rcases group_follow he with h | h
      · exact hcons (ih.group g e h)
      · exact ⟨k, List.mem_cons_self, h⟩
    · rcases ready_follow he with h | ⟨j, h⟩ | ⟨-, h⟩
      · exact hcons (ih.ready e h)
      · exact hcons (ih.waiting j e h)
      · exact hcons (ih.hand _ e h)
    · rcases waiting_follow he with h | ⟨-, h⟩
      · exact hcons (ih.waiting j e h)
      · exact hcons (ih.hand _ e h)
    · rcases hand_follow he with h | ⟨g, h⟩ | h
      · exact hcons (ih.hand i e h)
      · exact hcons (ih.group g e h)
      · exact hcons (ih.ready e h)

/-! ## The entries that are still to be handed on -/

/-- The entry is in a queue, or in the hands of an activity that may queue it
or read its hash. -/
inductive Outstanding (o : Origins) (ps : List Proc) (e : BulkActionRequest) : Prop where
  | group {g} (h : e ∈ o.group g)
  | ready (h : e ∈ o.ready)
  | waiting {j} (h : o.waiting j = some e)
  | hand {i p} (hp : ps[i]? = some p) (hb : busy p = true) (h : o.hand i = some e)

/-- The outstanding entries of a run. -/
def outstanding (o : Origins) (gs : List GroupId) (c : State) : List BulkActionRequest :=
  gs.flatMap o.group ++ o.ready ++ c.world.nonReadyQueue.members.filterMap o.waiting ++
    (List.range c.procs.length).filterMap fun i => if (c.procs[i]?).any busy then o.hand i else none

theorem mem_outstanding {c : State} {e : BulkActionRequest} (hm : Matches o gs c.world)
    (h : Outstanding o c.procs e) : e ∈ outstanding o gs c := by
  simp only [outstanding, List.mem_append, List.mem_flatMap, List.mem_filterMap, List.mem_range]
  cases h with
  | @group g h => exact .inl (.inl (.inl ⟨g, hm.known g (List.ne_nil_of_mem h), h⟩))
  | ready h => exact .inl (.inl (.inr h))
  | @waiting j h =>
    have hj : j ∈ c.world.nonReadyQueue := by
      by_contra hn
      have := hm.waiting j
      rw [h, if_neg hn] at this
      cases this
    exact .inl (.inr ⟨j, hj, h⟩)
  | @hand i p hp hb h =>
    refine .inr ⟨i, (List.getElem?_eq_some_iff.mp hp).1, ?_⟩
    rw [hp, Option.any_some, if_pos hb]
    exact h

/-- A call hands on what is outstanding; only a submission adds to it. -/
theorem outstanding_call {k : Call} {ps : List Proc} {p p' : Proc} {e : BulkActionRequest} (hm : Matches o gs k.world)
    (hp : ps[k.pid]? = some p) (hneeds : needs k.cmd = true → busy p = true)
    (hpops : busy p = true → pops k.cmd = false)
    (hp' : busy p' = true → busy p = true ∨ obtains k.cmd (exec reg k.cmd k.inp k.world).2 = true)
    (h : Outstanding (follow reg gs k o) (ps.set k.pid p') e) : Outstanding o ps e ∨ k.cmd = .enqueue e := by
  cases h with
  | group h => exact (group_follow h).imp_left .group
  | ready h =>
    rcases ready_follow h with h | ⟨j, h⟩ | ⟨hn, h⟩
    · exact .inl (.ready h)
    · exact .inl (.waiting h)
    · exact .inl (.hand hp (hneeds hn) h)
  | waiting h =>
    rcases waiting_follow h with h | ⟨hn, h⟩
    · exact .inl (.waiting h)
    · exact .inl (.hand hp (hneeds hn) h)
  | @hand i q hq hb h =>
    refine .inl ?_
    rcases eq_or_ne i k.pid with rfl | hne
    · rw [List.getElem?_set_self (List.getElem?_eq_some_iff.mp hp).1] at hq
      cases hq
      rcases hp' hb with hb | ht
      · rw [hand_keeps (hpops hb)] at h
        exact .hand hp hb h
      · obtain ⟨e', he', hhead, -⟩ := taken hm ht
        rw [he'] at h
        cases h
        rcases hhead with ⟨g, hg⟩ | hr
        · exact .group hg
        · exact .ready hr
    · rw [List.getElem?_set_ne (Ne.symm hne)] at hq
      rw [hand_other hne] at h
      exact .hand hq hb h

end

end NestPlayground.L4
