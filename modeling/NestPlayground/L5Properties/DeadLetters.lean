import NestPlayground.Core.Traced
import NestPlayground.L4Pipeline.Frames

/-!
# Dead-letter maintenance

`removeFromDLQ` reads the queue, deletes it and appends the entries it keeps
one by one. What another activity writes in between is lost, comes back or ends
up among the old entries (`letter_lost`). `expected` is what the calls made so
far should have left: buried entries in the order of their burial, without one
entry for each removal. As long as no rewrite is disturbed (`Undisturbed`) the
queue is as expected whenever none is under way.
-/
namespace NestPlayground.L5.DeadLetters
open L1 L3 L4

/-- The removal of an entry an activity is in. -/
def removing : Proc → Option RemovePc
  | .deadLetter (.retryRemove q) => some q
  | .deadLetter (.purgeRemove q) => some q
  | .deadLetter (.cleanupRemove q _ _) => some q
  | _ => none

def underWay : RemovePc → Bool
  | .range _ => false
  | .delete _ | .append _ _ => true

/-- A removal that has read the queue and not yet written all of it. -/
def rewriting (p : Proc) : Option RemovePc := (removing p).filter underWay

/-- The entry a removal has to take out of the queue. -/
def removed : RemovePc → Option DeadLetterEntry
  | .range e => some e
  | .delete _ | .append _ _ => none

/-- The entry the next call of an activity is aimed at. `retryAll` takes the head. -/
def targeted (s : Store) : Proc → Option DeadLetterEntry
  | .deadLetter (.allPop _) => s.deadLetterQueue.head?
  | p => (removing p).bind removed

/-- The entries a call buries: a worker's one, or those of a recovery. -/
def interred (reg : Registry) (inp : Input) (s : Store) : Cmd → List DeadLetterEntry
  | .deadLetter j g n e => [⟨j, g, n, e, inp.now⟩]
  | .recoverOrphans => (exec reg .recoverOrphans inp s).1.deadLetterQueue.drop s.deadLetterQueue.length
  | _ => []

/-- The activity that makes a call. -/
def actor (c : State) : Label → Option Proc
  | .run i _ => c.procs[i]?
  | _ => none

/-- The entry a step is aimed at, and the entries it buries. -/
def aimed (c : State) (l : Label) : Option DeadLetterEntry := (actor c l).bind (targeted c.world)

def newly (reg : Registry) (c : State) : Label → List DeadLetterEntry
  | .run i inp => (nextCall reg c i).toList.flatMap (interred reg inp c.world)
  | _ => []

/-- Every entry buried in the run, in order. -/
def buried (reg : Registry) : Past → List DeadLetterEntry
  | [] => []
  | (c, l) :: past => buried reg past ++ newly reg c l

/-- The entries that were targeted. -/
def exhumed (past : Past) : List DeadLetterEntry := past.filterMap fun e => aimed e.1 e.2

def without (l : List DeadLetterEntry) : Option DeadLetterEntry → List DeadLetterEntry
  | none => l
  | some e => l.erase e

/-- The queue as it should be: each removal takes one entry out, each burial
adds at the end. -/
def expected (reg : Registry) : Past → List DeadLetterEntry
  | [] => []
  | (c, l) :: past => without (expected reg past) (aimed c l) ++ newly reg c l

/-! ## The condition -/

/-- The activity is about to write the queue, or to read it for a removal. -/
def touches (reg : Registry) (c : State) (i : Nat) : Bool :=
  (nextCall reg c i).any buries || (c.procs[i]?.bind removing).isSome

/-- The step gets in the way of a rewrite of activity `k`. -/
def disturbs (reg : Registry) (c : State) (k : Nat) : Label → Bool
  | .run i _ => i ≠ k && touches reg c i
  | .reject i => i = k
  | .stop i => i = k
  | _ => false

/-- Nobody gets in the way of a rewrite, and an entry to be removed is in the
queue once at most. -/
def Undisturbed (reg : Registry) (c : State) (l : Label) : Prop :=
  (∀ k < c.procs.length, (c.procs[k]?.bind rewriting).isSome → disturbs reg c k l = false) ∧
    ∀ q ∈ (actor c l).bind removing, ∀ e ∈ removed q, c.world.deadLetterQueue.count e ≤ 1

instance (reg : Registry) (c : State) (l : Label) : Decidable (Undisturbed reg c l) :=
  inferInstanceAs (Decidable (_ ∧ _))

/-- No rewrite is under way. -/
def Quiet (c : State) : Prop := ∀ p ∈ c.procs, rewriting p = none

instance (c : State) : Decidable (Quiet c) := inferInstanceAs (Decidable (∀ p ∈ c.procs, rewriting p = none))

/-- Maintenance has lost nothing and removed what it was to remove. -/
structure Kept (reg : Registry) (t : Core.Traced State Label) : Prop where
  queue : t.state.world.deadLetterQueue = expected reg t.past
  order : t.state.world.deadLetterQueue.Sublist (buried reg t.past)
  untargeted : ∀ e, e ∉ exhumed t.past →
    t.state.world.deadLetterQueue.count e = (buried reg t.past).count e
  targeted : ∀ e ∈ exhumed t.past, t.state.world.deadLetterQueue.count e < (buried reg t.past).count e
  /-- a removal takes one entry -/
  once : ∀ e, (buried reg t.past).count e ≤ t.state.world.deadLetterQueue.count e + (exhumed t.past).count e

/-! ## What is expected -/

section
variable {reg : Registry} {c : State} {l : Label} {past : Past}

theorem without_sublist (xs : List DeadLetterEntry) (o : Option DeadLetterEntry) : (without xs o).Sublist xs := by
  cases o with
  | none => exact List.Sublist.refl _
  | some e => exact List.erase_sublist

theorem expected_sublist (reg : Registry) (past : Past) : (expected reg past).Sublist (buried reg past) := by
  induction past with
  | nil => exact List.Sublist.refl _
  | cons x past ih => exact ((without_sublist _ _).trans ih).append (List.Sublist.refl _)

theorem count_without (xs : List DeadLetterEntry) (o : Option DeadLetterEntry) (e : DeadLetterEntry) :
    xs.count e ≤ (without xs o).count e + o.toList.count e := by
  cases o with
  | none => simp [without]
  | some a =>
    simp only [without, Option.toList_some, List.count_erase, List.count_singleton]
    split <;> omega

theorem exhumed_cons : exhumed ((c, l) :: past) = (aimed c l).toList ++ exhumed past := by
  cases h : aimed c l <;> simp [exhumed, h]

theorem count_expected (reg : Registry) (past : Past) (e : DeadLetterEntry) :
    (buried reg past).count e ≤ (expected reg past).count e + (exhumed past).count e := by
  induction past with
  | nil => exact Nat.le_refl _
  | cons x past ih =>
    obtain ⟨c, l⟩ := x
    have := count_without (expected reg past) (aimed c l) e
    simp only [buried, expected, exhumed_cons, List.count_append]
    omega

end
/-! ## What a call does to the queue -/

/-- The rewrite that has these entries left to append. -/
def remaining : List DeadLetterEntry → Option RemovePc
  | [] => none
  | e :: rest => some (.append e rest)

/-- The calls maintenance writes the queue with. -/
def maintains : Cmd → Bool
  | .dlqAppend _ | .dlqPopHead | .dlqDelete => true
  | _ => false

/-- One call of the activity `p`, which goes on as `p'`. -/
inductive Digging (reg : Registry) (inp : Input) (s : Store) : Cmd → Proc → Proc → Prop where
  | other {cmd p p'} (ht : targeted s p = none) (hr : rewriting p = none) (hr' : rewriting p' = none)
      (hq : (exec reg cmd inp s).1.deadLetterQueue = s.deadLetterQueue ++ interred reg inp s cmd) :
      Digging reg inp s cmd p p'
  | pop {n p'} (hr' : rewriting p' = none) : Digging reg inp s .dlqPopHead (.deadLetter (.allPop n)) p'
  | read {e p p'} (hr : removing p = some (.range e))
      (hr' : rewriting p' = some (.delete (s.deadLetterQueue.filter (· ≠ e)))) : Digging reg inp s .dlqRange p p'
  | delete {kept p p'} (hr : rewriting p = some (.delete kept)) (hr' : rewriting p' = remaining kept) :
      Digging reg inp s .dlqDelete p p'
  | append {e rest p p'} (hr : rewriting p = some (.append e rest)) (hr' : rewriting p' = remaining rest) :
      Digging reg inp s (.dlqAppend e) p p'

section
variable {reg : Registry} {inp : Input} {s : Store} {cmd : Cmd}

theorem queue_interred (h : maintains cmd = false) :
    (exec reg cmd inp s).1.deadLetterQueue = s.deadLetterQueue ++ interred reg inp s cmd := by
  cases cmd with
  | deadLetter j g n e => rfl
  | recoverOrphans =>
    obtain ⟨dead, jobs, he, -⟩ := L2.recoverOrphans_spec inp.now reg.config.reliableQueue.maxRetryCount
      reg.config.reliableQueue.orphanRecoveryBatchSize s
    have hq : (exec reg .recoverOrphans inp s).1.deadLetterQueue = s.deadLetterQueue ++ dead := by
      simp only [exec, he]
    simp only [interred]
    rw [hq, List.drop_left]
  | dlqAppend | dlqPopHead | dlqDelete => cases h
  | _ => exact (deadLetters_frame rfl).trans (List.append_nil _).symm

/-- Outside the dead-letter service nobody removes. -/
theorem removing_other {p : Proc} (h : p.service ≠ .deadLetter) : removing p = none := by
  cases p with
  | deadLetter p => exact absurd rfl h
  | _ => rfl

theorem targeted_of_removing {p : Proc} {q : RemovePc} (h : removing p = some q) : targeted s p = removed q := by
  unfold targeted
  split
  · cases h
  · rw [h]
    rfl

theorem targeted_of_rewriting {p : Proc} {q : RemovePc} (h : rewriting p = some q) : targeted s p = none := by
  obtain ⟨hr, hq⟩ := Option.filter_eq_some_iff.mp h
  rw [targeted_of_removing hr]
  cases q with
  | range e => cases hq
  | delete | append => rfl

theorem rewriting_of_removing {p : Proc} (h : removing p = none) : rewriting p = none := by
  rw [rewriting, h]
  rfl

/-- An await of a removal: what the maintenance makes of its outcomes is no rewrite
unless the removal itself is. -/
theorem digging_removal {q : RemovePc} {p : Proc} (hp : removing p = some q) {f : Core.Next RemovePc Unit → Proc}
    (hgoto : ∀ q', removing (f (.goto q')) = some q') (hret : rewriting (f (.ret ())) = none)
    {ok : Reply cmd → Proc} {err : Proc} (hv : q.view.map f = .call cmd ok err) :
    Digging reg inp s cmd p (ok (exec reg cmd inp s).2) := by
  have hloop : ∀ kept, rewriting (f (RemovePc.loop kept)) = remaining kept := by
    intro kept
    cases kept with
    | nil => exact hret
    | cons e rest => rw [RemovePc.loop, rewriting, hgoto]; rfl
  cases q with
  | range e =>
    cases hv
    refine .read hp ?_
    rw [rewriting, hgoto]
    rfl
  | delete kept =>
    cases hv
    refine .delete ?_ (hloop kept)
    rw [rewriting, hp]
    rfl
  | append e rest =>
    cases hv
    refine .append ?_ (hloop rest)
    rw [rewriting, hp]
    rfl

theorem digging {p : Proc} {ok : Reply cmd → Proc} {err : Proc} (hv : p.view reg = .call cmd ok err) :
    Digging reg inp s cmd p (ok (exec reg cmd inp s).2) := by
  by_cases hp : p.service = .deadLetter
  · cases p with
    | deadLetter p =>
      cases p with
      | retryRemove q | purgeRemove q =>
        rw [Proc.view, DeadLetterPc.view, Core.Action.map_map] at hv
        exact digging_removal rfl (fun _ => rfl) rfl hv
      | cleanupRemove q n rest =>
        rw [Proc.view, DeadLetterPc.view, Core.Action.map_map] at hv
        refine digging_removal rfl (fun _ => rfl) ?_ hv
        cases rest <;> rfl
      | allPop n =>
        cases hv
        refine .pop ?_
        cases (exec reg .dlqPopHead inp s).2 <;> rfl
      | retryList j | purgeList j =>
        cases hv
        refine .other rfl rfl ?_ (queue_interred rfl)
        simp only
        split <;> rfl
      | cleanupList cutoff =>
        cases hv
        refine .other rfl rfl ?_ (queue_interred rfl)
        simp only
        generalize List.filter _ _ = old
        cases old <;> rfl
      | _ =>
        cases hv
        exact .other rfl rfl rfl (queue_interred rfl)
    | _ => cases hp
  · have hsame := same_service reg p
    have hmay := mayCall_of_view hv
    rw [hv] at hsame
    have hp' : (ok (exec reg cmd inp s).2).service ≠ .deadLetter := by
      rcases hsame.2.1 (exec reg cmd inp s).2 with h | h
      · rw [h]
        exact hp
      · rw [h]
        exact Service.noConfusion
    have hr := removing_other hp
    refine .other ?_ (rewriting_of_removing hr) (rewriting_of_removing (removing_other hp')) (queue_interred ?_)
    · cases p with
      | deadLetter p => exact absurd rfl hp
      | _ => rfl
    · cases cmd with
      | dlqAppend | dlqPopHead | dlqDelete =>
        cases p with
        | deadLetter p => exact absurd rfl hp
        | _ => cases hmay
      | _ => rfl

/-- The entries an activity has read and may still aim at. -/
def held : Proc → List DeadLetterEntry
  | .deadLetter (.retryReset e) | .deadLetter (.retryPending e) | .deadLetter (.retryPush e) => [e]
  | .deadLetter (.retryRemove q) | .deadLetter (.purgeRemove q) => (removed q).toList
  | .deadLetter (.cleanupRemove q _ rest) => (removed q).toList ++ rest
  | _ => []

theorem held_other {p : Proc} (h : p.service ≠ .deadLetter) : held p = [] := by
  cases p with
  | deadLetter p => exact absurd rfl h
  | _ => rfl

theorem held_of_removing {p : Proc} {e : DeadLetterEntry} (h : removing p = some (.range e)) : e ∈ held p := by
  cases p with
  | deadLetter p =>
    cases p with
    | retryRemove | purgeRemove | cleanupRemove =>
      cases h
      simp [held, removed]
    | _ => cases h
  | _ => cases h

theorem held_cleanup (n : Nat) (rest : List DeadLetterEntry) :
    held (resume .deadLetter (DeadLetterPc.cleanupLoop n rest)) = rest := by
  cases rest <;> rfl

/-- What an activity holds it has held before, or just read. -/
theorem held_exec {p : Proc} {ok : Reply cmd → Proc} {err : Proc} (hv : p.view reg = .call cmd ok err) :
    ∀ e ∈ held (ok (exec reg cmd inp s).2), e ∈ held p ∨ e ∈ s.deadLetterQueue := by
  have hnone : ∀ {p' : Proc}, held p' = [] → ∀ e ∈ held p', e ∈ held p ∨ e ∈ s.deadLetterQueue := by
    intro p' h e he
    rw [h] at he
    cases he
  by_cases hp : p.service = .deadLetter
  · cases p with
    | deadLetter p =>
      cases p with
      | retryList j | purgeList j =>
        cases hv
        simp only [exec]
        split
        · rename_i e hfind
          intro e' he'
          cases List.mem_singleton.mp he'
          exact .inr (List.mem_of_find?_eq_some hfind)
        · exact hnone rfl
      | retryReset e | retryPending e =>
        cases hv
        exact fun e' he' => .inl he'
      | retryPush e =>
        cases hv
        exact fun e' he' => .inl he'
      | retryRemove q | purgeRemove q =>
        rw [Proc.view, DeadLetterPc.view, Core.Action.map_map] at hv
        cases q with
        | range e =>
          cases hv
          exact hnone rfl
        | delete kept =>
          cases hv
          cases kept <;> exact hnone rfl
        | append e rest =>
          cases hv
          cases rest <;> exact hnone rfl
      | allPop n =>
        cases hv
        refine hnone ?_
        cases (exec reg .dlqPopHead inp s).2 <;> rfl
      | cleanupList cutoff =>
        cases hv
        intro e he
        simp only at he
        rw [held_cleanup] at he
        exact .inr (List.mem_of_mem_filter he)
      | cleanupRemove q n rest =>
        rw [Proc.view, DeadLetterPc.view, Core.Action.map_map] at hv
        cases q with
        | range e =>
          cases hv
          exact fun e' he' => .inl (List.mem_append_right _ he')
        | delete kept =>
          cases hv
          cases kept with
          | nil =>
            intro e he
            simp only [RemovePc.loop] at he
            rw [held_cleanup] at he
            exact .inl he
          | cons e kept => exact fun e' he' => .inl he'
        | append e kept =>
          cases hv
          cases kept with
          | nil =>
            intro e he
            simp only [RemovePc.loop] at he
            rw [held_cleanup] at he
            exact .inl he
          | cons e kept => exact fun e' he' => .inl he'
      | _ =>
        cases hv
        exact hnone rfl
    | _ => cases hp
  · have hsame := same_service reg p
    rw [hv] at hsame
    refine hnone (held_other ?_)
    rcases hsame.2.1 (exec reg cmd inp s).2 with h | h
    · rw [h]
      exact hp
    · rw [h]
      exact Service.noConfusion

/-- A rejected call ends the maintenance. -/
theorem rejected {p : Proc} {ok : Reply cmd → Proc} {err : Proc} (hv : p.view reg = .call cmd ok err) :
    rewriting err = none ∧ held err = [] := by
  by_cases hp : p.service = .deadLetter
  · cases p with
    | deadLetter p =>
      cases p with
      | retryRemove q | purgeRemove q | cleanupRemove q _ _ =>
        rw [Proc.view, DeadLetterPc.view, Core.Action.map_map] at hv
        cases q <;> cases hv <;> exact ⟨rfl, rfl⟩
      | _ =>
        cases hv
        exact ⟨rfl, rfl⟩
    | _ => cases hp
  · have hsame := same_service reg p
    rw [hv] at hsame
    have herr : err.service ≠ .deadLetter := by
      rcases hsame.2.2 with h | h
      · rw [h]
        exact hp
      · rw [h]
        exact Service.noConfusion
    exact ⟨rewriting_of_removing (removing_other herr), held_other herr⟩

end

/-! ## Runs -/

def rewriterAt (c : State) (i : Nat) : Option RemovePc := c.procs[i]?.bind rewriting

/-- Nobody but activity `i` is in the middle of a rewrite. -/
def Alone (c : State) (i : Nat) : Prop := ∀ k, k ≠ i → rewriterAt c k = none

/-- The queue is as expected once the rewrite is over. -/
def Resumes (queue expected : List DeadLetterEntry) : Option RemovePc → Prop
  | none => queue = expected
  | some (.range _) => False
  | some (.delete kept) => kept = expected
  | some (.append e rest) => queue ++ e :: rest = expected

/-- The invariant. -/
structure Tended (reg : Registry) (t : Core.Traced State Label) : Prop where
  known : ∀ e ∈ t.state.world.deadLetterQueue, e ∈ buried reg t.past
  held : ∀ p ∈ t.state.procs, ∀ e ∈ held p, e ∈ buried reg t.past
  targeted : ∀ e ∈ exhumed t.past, (expected reg t.past).count e < (buried reg t.past).count e
  alone : ∃ i, Alone t.state i
  resumes : ∀ i, Alone t.state i →
    Resumes t.state.world.deadLetterQueue (expected reg t.past) (rewriterAt t.state i)

section
variable {reg : Registry} {c c' : State} {past : Past} {l : Label}

theorem resumes_remaining {queue ex : List DeadLetterEntry} {kept : List DeadLetterEntry} (h : queue ++ kept = ex) :
    Resumes queue ex (remaining kept) := by
  cases kept with
  | nil => exact (List.append_nil _).symm.trans h
  | cons e rest => exact h

/-- A step that leaves queue, rewrites and books alone. -/
theorem Tended.still (h : Tended reg ⟨c, past⟩) (haimed : aimed c l = none) (hnewly : newly reg c l = [])
    (hqueue : c'.world.deadLetterQueue = c.world.deadLetterQueue) (hr : ∀ i, rewriterAt c' i = rewriterAt c i)
    (hheld : ∀ p ∈ c'.procs, ∀ e ∈ DeadLetters.held p, e ∈ buried reg past) : Tended reg ⟨c', (c, l) :: past⟩ := by
  have hb : buried reg ((c, l) :: past) = buried reg past := by
    rw [buried, hnewly, List.append_nil]
  have he : expected reg ((c, l) :: past) = expected reg past := by
    rw [expected, hnewly, haimed, List.append_nil]
    rfl
  have hx : exhumed ((c, l) :: past) = exhumed past := by
    rw [exhumed_cons, haimed]
    rfl
  have ha : ∀ i, Alone c' i ↔ Alone c i := by
    intro i
    unfold Alone
    simp only [hr]
  constructor
  · rw [hb, hqueue]
    exact h.known
  · rw [hb]
    exact hheld
  · rw [hb, he, hx]
    exact h.targeted
  · obtain ⟨i, hi⟩ := h.alone
    exact ⟨i, (ha i).mpr hi⟩
  · intro i hi
    rw [he, hqueue, hr]
    exact h.resumes i ((ha i).mp hi)

/-- An entry that is targeted is there less often than it was buried. -/
theorem Tended.fewer (h : Tended reg ⟨c, past⟩)
    (haim : ∀ e ∈ aimed c l, ((expected reg past).erase e).count e < (buried reg past).count e) :
    ∀ e ∈ exhumed ((c, l) :: past),
      (expected reg ((c, l) :: past)).count e < (buried reg ((c, l) :: past)).count e := by
  intro e he
  rw [exhumed_cons, List.mem_append] at he
  have hle := (without_sublist (expected reg past) (aimed c l)).count_le e
  simp only [expected, buried, List.count_append]
  rcases he with he | he
  · have he := Option.mem_toList.mp he
    have := haim e he
    rw [show aimed c l = some e from he]
    simp only [without]
    omega
  · have := h.targeted e he
    simp only at this
    omega

/-- An entry that is there once is gone with its removal. -/
theorem filter_ne_eq_erase {xs : List DeadLetterEntry} {e : DeadLetterEntry} (h : xs.count e ≤ 1) :
    xs.filter (· ≠ e) = xs.erase e := by
  induction xs with
  | nil => rfl
  | cons x xs ih =>
    rcases eq_or_ne x e with rfl | hne
    · have hnot : x ∉ xs := by
        rw [List.count_cons_self] at h
        exact List.count_eq_zero.mp (by omega)
      rw [List.erase_cons_head, List.filter_cons_of_neg (by simp)]
      refine List.filter_eq_self.mpr fun y hy => ?_
      simp only [decide_eq_true_eq]
      rintro rfl
      exact hnot hy
    · rw [List.count_cons_of_ne hne] at h
      rw [List.erase_cons_tail (by simpa using hne), List.filter_cons_of_pos (by simpa using hne), ih h]

/-- The call of an activity that is alone with its rewrite, if it has one. -/
theorem resumes_run {inp : Input} {cmd : Cmd} {p p' : Proc} (h : Tended reg ⟨c, past⟩)
    (hd : Digging reg inp c.world cmd p p') (hp : p ∈ c.procs)
    (haimed : aimed c l = targeted c.world p) (hnewly : newly reg c l = interred reg inp c.world cmd)
    (hone : ∀ q ∈ removing p, ∀ e ∈ removed q, c.world.deadLetterQueue.count e ≤ 1)
    (hr : Resumes c.world.deadLetterQueue (expected reg past) (rewriting p)) :
    (∀ e ∈ (exec reg cmd inp c.world).1.deadLetterQueue, e ∈ buried reg ((c, l) :: past)) ∧
    (∀ e ∈ aimed c l, ((expected reg past).erase e).count e < (buried reg past).count e) ∧
    Resumes (exec reg cmd inp c.world).1.deadLetterQueue (expected reg ((c, l) :: past)) (rewriting p') := by
  have hknown := h.known
  have hsub := expected_sublist reg past
  simp only at hknown
  rw [buried, expected, hnewly, haimed]
  cases hd with
  | other ht hr0 hr' hq =>
    rw [hr0] at hr
    rw [ht, hr', hq]
    refine ⟨fun e he => ?_, by simp, ?_⟩
    · rw [List.mem_append] at he ⊢
      exact he.imp_left (hknown e)
    · exact congrArg (· ++ _) hr
  | pop hr' =>
    have hr : c.world.deadLetterQueue = expected reg past := hr
    rw [hr']
    simp only [targeted, interred, List.append_nil, exec]
    refine ⟨fun e he => hknown e (List.mem_of_mem_tail he), fun e he => ?_, ?_⟩
    · have hmem : e ∈ expected reg past := hr ▸ List.mem_of_mem_head? he
      have := hsub.count_le e
      have := List.count_pos_iff.mpr hmem
      rw [List.count_erase_self]
      omega
    · show c.world.deadLetterQueue.tail = without (expected reg past) c.world.deadLetterQueue.head?
      rw [← hr]
      cases c.world.deadLetterQueue with
      | nil => rfl
      | cons e rest => exact (List.erase_cons_head _ _).symm
  | @read e _ _ hrm hr' =>
    have hr0 : rewriting p = none := by
      rw [rewriting, hrm]
      rfl
    rw [hr0] at hr
    have hr : c.world.deadLetterQueue = expected reg past := hr
    have hcount := hone _ hrm e rfl
    have hmem : e ∈ buried reg past := h.held p hp e (held_of_removing hrm)
    rw [targeted_of_removing hrm, hr']
    simp only [removed, interred, List.append_nil]
    refine ⟨hknown, fun e' he' => ?_, ?_⟩
    · cases he'
      have := List.count_pos_iff.mpr hmem
      rw [← hr, List.count_erase_self]
      omega
    · show c.world.deadLetterQueue.filter (· ≠ e) = (expected reg past).erase e
      rw [← hr]
      exact filter_ne_eq_erase hcount
  | @delete kept _ _ hrw hr' =>
    rw [hrw] at hr
    have hr : kept = expected reg past := hr
    rw [targeted_of_rewriting hrw, hr']
    simp only [interred, List.append_nil]
    exact ⟨by simp [exec], by simp, resumes_remaining hr⟩
  | @append e rest _ _ hrw hr' =>
    rw [hrw] at hr
    have hr : c.world.deadLetterQueue ++ e :: rest = expected reg past := hr
    rw [targeted_of_rewriting hrw, hr']
    simp only [interred, List.append_nil]
    refine ⟨fun e' he' => ?_, by simp, resumes_remaining ?_⟩
    · refine (List.mem_append.mp he').elim (hknown e') fun he' => hsub.subset ?_
      rw [← hr, List.mem_singleton.mp he']
      simp
    · rw [← hr]
      simp [exec, without]

theorem rewriterAt_set {w : Store} {log : Log} {i : Nat} {p p' : Proc} (hp : c.procs[i]? = some p) (k : Nat) :
    rewriterAt ⟨w, c.procs.set i p', log⟩ k = if k = i then rewriting p' else rewriterAt c k := by
  unfold rewriterAt
  rcases eq_or_ne k i with rfl | hk
  · have hlt := (List.getElem?_eq_some_iff.mp hp).1
    rw [List.getElem?_set_self hlt, if_pos rfl]
    rfl
  · rw [List.getElem?_set_ne (Ne.symm hk), if_neg hk]

theorem mem_set_cases {ps : List Proc} {i : Nat} {p' q : Proc} (h : q ∈ ps.set i p') : q = p' ∨ q ∈ ps :=
  (List.mem_or_eq_of_mem_set h).symm

/-- A process that stops or whose call rejects is not in the middle of a rewrite. -/
theorem Tended.replaced (h : Tended reg ⟨c, past⟩) {i : Nat} {p p' : Proc} (hp : c.procs[i]? = some p)
    (haimed : aimed c l = none) (hnewly : newly reg c l = []) (hno : rewriterAt c i = none)
    (hr : rewriting p' = none) (hh : DeadLetters.held p' = []) :
    Tended reg ⟨{ c with procs := c.procs.set i p' }, (c, l) :: past⟩ := by
  refine h.still haimed hnewly rfl (fun k => ?_) fun q hq e he => ?_
  · rw [rewriterAt_set hp]
    split
    · rename_i hk
      rw [hr, hk, hno]
    · rfl
  · rcases mem_set_cases hq with rfl | hq
    · rw [hh] at he
      cases he
    · exact h.held q hq e he

theorem idle_of_started {p : Proc} (h : Started p) : rewriting p = none ∧ held p = [] := by
  cases h <;> exact ⟨rfl, rfl⟩

theorem tended_step (h : Tended reg ⟨c, past⟩) (hs : (pipeline reg).Step c l c') (hH : Undisturbed reg c l) :
    Tended reg ⟨c', (c, l) :: past⟩ := by
  have hidle : ∀ {k}, disturbs reg c k l = true → rewriterAt c k = none := by
    intro k hk
    by_contra hne
    have hsome := Option.isSome_iff_ne_none.mpr hne
    have hlt : k < c.procs.length := by
      by_contra hge
      rw [rewriterAt, List.getElem?_eq_none (Nat.le_of_not_lt hge)] at hsome
      cases hsome
    rw [hH.1 k hlt hsome] at hk
    cases hk
  cases hs with
  | @run i inp p cmd ok err hp hv =>
    have hv : p.view reg = .call cmd ok err := hv
    have hd := @digging reg inp c.world cmd p ok err hv
    have haimed : aimed c (.run i inp) = targeted c.world p := by simp [aimed, actor, hp]
    have hnewly : newly reg c (.run i inp) = interred reg inp c.world cmd := by
      simp [newly, nextCall_eq hp hv]
    have hheld : ∀ q ∈ c.procs.set i (ok (exec reg cmd inp c.world).2), ∀ e ∈ held q, e ∈ buried reg past := by
      intro q hq e he
      rcases mem_set_cases hq with rfl | hq
      · exact (held_exec hv e he).elim (h.held p (List.mem_of_getElem? hp) e) (h.known e)
      · exact h.held q hq e he
    have hset : ∀ k, rewriterAt ((pipeline reg).ran c i cmd inp ok) k =
        if k = i then rewriting (ok (exec reg cmd inp c.world).2) else rewriterAt c k := rewriterAt_set hp
    by_cases halone : Alone c i
    · have hone := hH.2
      rw [show actor c (.run i inp) = some p from hp, Option.bind_some] at hone
      have hrw : rewriterAt c i = rewriting p := by simp [rewriterAt, hp]
      have hr := h.resumes i halone
      rw [hrw] at hr
      obtain ⟨hknown, haim, hres⟩ := resumes_run h hd (List.mem_of_getElem? hp) haimed hnewly hone hr
      refine ⟨hknown, fun q hq e he => List.mem_append_left _ (hheld q hq e he), h.fewer haim, ⟨i, fun k hk => ?_⟩,
        fun k hk => ?_⟩
      · exact (hset k).trans ((if_neg hk).trans (halone k hk))
      · have hk' : rewriterAt ((pipeline reg).ran c i cmd inp ok) k =
            rewriting (ok (exec reg cmd inp c.world).2) := by
          rcases eq_or_ne k i with rfl | hki
          · rw [hset, if_pos rfl]
          · have hi : rewriterAt ((pipeline reg).ran c i cmd inp ok) i = none := hk i hki.symm
            rw [hset, if_pos rfl] at hi
            rw [hset, if_neg hki, halone k hki, hi]
        exact (congrArg _ hk').mpr hres
    · -- somebody else is in the middle of a rewrite, so the call is none of the queue's
      unfold Alone at halone
      push Not at halone
      obtain ⟨k, hk, hne⟩ := halone
      have htouch : touches reg c i = false := by
        by_contra ht
        exact hne (hidle (by simp [disturbs, hk.symm, eq_true_of_ne_false ht]))
      obtain ⟨hbury, hrem⟩ := Bool.or_eq_false_iff.mp htouch
      rw [nextCall_eq hp hv, Option.any_some] at hbury
      rw [hp, Option.bind_some] at hrem
      have hrem : removing p = none := by simpa using hrem
      cases hd with
      | other ht hr hr' hq =>
        have hnone : interred reg inp c.world cmd = [] := by
          cases cmd <;> first | rfl | cases hbury
        refine h.still (haimed.trans ht) (hnewly.trans hnone) (deadLetters_frame hbury) (fun k => ?_) hheld
        rw [hset]
        split
        · rename_i hki
          rw [hr', hki, rewriterAt, hp]
          exact hr.symm
        · rfl
      | pop | delete | append => cases hbury
      | read hr => rw [hrem] at hr; cases hr
  | @reject i p cmd ok err hp hv hrem =>
    obtain ⟨hr, hh⟩ := rejected hv
    exact h.replaced hp rfl rfl (hidle (by simp [disturbs])) hr hh
  | @stop i p hp => exact h.replaced hp rfl rfl (hidle (by simp [disturbs])) rfl rfl
  | @spawn task =>
    obtain ⟨hr, hh⟩ := idle_of_started (task.started reg)
    refine h.still rfl rfl rfl (fun k => ?_) fun q hq e he => ?_
    · unfold rewriterAt
      rcases Nat.lt_trichotomy k c.procs.length with hlt | rfl | hgt
      · rw [List.getElem?_append_left hlt]
      · rw [List.getElem?_concat_length, List.getElem?_eq_none (Nat.le_refl _)]
        exact hr
      · rw [List.getElem?_eq_none (by simp; omega), List.getElem?_eq_none (Nat.le_of_lt hgt)]
    · rcases List.mem_append.mp hq with hq | hq
      · exact h.held q hq e he
      · rw [List.mem_singleton.mp hq, show (pipeline reg).start task = Task.start reg task from rfl, hh] at he
        cases he
  | @env e => cases e <;> exact h.still rfl rfl rfl (fun _ => rfl) h.held

theorem tended_reachable {t : Core.Traced State Label}
    (h : ((runs reg).traced.restrict fun t l => Undisturbed reg t.state l).Reachable t) : Tended reg t := by
  induction h with
  | @init t hi =>
    obtain ⟨c, past⟩ := t
    obtain ⟨rfl, rfl⟩ : c = initialState ∧ past = [] := hi
    exact ⟨by simp [initialState, Store.empty], by simp [initialState], by simp [exhumed],
      ⟨0, fun _ _ => rfl⟩, fun _ _ => rfl⟩
  | @step t l t' _ hs ih =>
    obtain ⟨c, past⟩ := t
    obtain ⟨c', past'⟩ := t'
    obtain ⟨⟨hstep, rfl⟩, hH⟩ := hs
    exact tended_step ih hstep hH

/-- In every run in which no rewrite is disturbed and no two equal entries are
in the queue when one of them is to be removed, maintenance loses nothing. -/
theorem dead_letters_kept (reg : Registry) (t : Core.Traced State Label)
    (h : ((runs reg).traced.restrict fun t l => Undisturbed reg t.state l).Reachable t) (hq : Quiet t.state) :
    Kept reg t := by
  have ht := tended_reachable h
  have hnone : ∀ i, rewriterAt t.state i = none := by
    intro i
    unfold rewriterAt
    cases hp : t.state.procs[i]? with
    | none => rfl
    | some p => exact hq p (List.mem_of_getElem? hp)
  have hqueue : t.state.world.deadLetterQueue = expected reg t.past := by
    have := ht.resumes 0 fun k _ => hnone k
    rwa [hnone] at this
  have hsub := expected_sublist reg t.past
  refine ⟨hqueue, hqueue ▸ hsub, fun e he => ?_, fun e he => hqueue ▸ ht.targeted e he, fun e => ?_⟩
  · have := count_expected reg t.past e
    have := hsub.count_le e
    rw [List.count_eq_zero.mpr he] at *
    rw [hqueue]
    omega
  · rw [hqueue]
    exact count_expected reg t.past e

end

/-- No retries: a job that fails is dead-lettered. -/
def noRetries : Registry := { config := { workerPool := { maxRetryCount := 0 } } }

/-- The jobs `j` and `k` are submitted and fetched. -/
def twoJobs : List Label :=
  [.spawn (.submitBulkJobs ⟨"g", "SEND_EMAIL", [⟨"j", "null"⟩, ⟨"k", "null"⟩], 0, .normal⟩)] ++ runsAt 0 1 5 ++
    [.spawn .fetchCycle] ++ runsAt 1 2 10

/-- Worker `i` takes the next job and fails. -/
def failing (i now : Nat) : List Label :=
  [.spawn (.tick "worker-0" "i")] ++ runsAt i now 7 ++ [.run i { now, outcome := some (.threw "error") }] ++
    runsAt i now 5

/-- Both jobs are dead-lettered, then `j` is purged. -/
theorem dead_letters_kept_purged : ∃ t : Core.Traced State Label,
    t.state.world.deadLetterQueue.map (·.jobId) = ["k"] ∧ (exhumed t.past).map (·.jobId) = ["j"] ∧
      Kept noRetries t := by
  obtain ⟨t, hr, hP⟩ := Core.Program.exists_of_retrace (S := pipeline noRetries)
    (P := fun t : Core.Traced State Label => decide (t.state.world.deadLetterQueue.map (·.jobId) = ["k"] ∧
      (exhumed t.past).map (·.jobId) = ["j"] ∧ Quiet t.state))
    (show ((pipeline noRetries).retrace (fun t l => decide (Undisturbed noRetries t.state l)) ⟨initialState, []⟩
      (twoJobs ++ failing 2 3 ++ failing 3 4 ++ [.spawn (.purge "j")] ++ runsAt 4 5 4)).any _ = true by
        decide +kernel)
  obtain ⟨hj, hk, hq⟩ := of_decide_eq_true hP
  exact ⟨t, hj, hk, dead_letters_kept noRetries t (hr.weaken fun _ _ h => of_decide_eq_true h) hq⟩

/-- The job `k` is dead-lettered after the purge of `j` has read the queue. -/
theorem letter_lost : ¬ ∀ (reg : Registry) (t : Core.Traced State Label),
    ((runs reg).traced.restrict fun _ l => Faultless l).Reachable t → Quiet t.state → Kept reg t := by
  intro h
  obtain ⟨t, hr, hP⟩ := Core.Program.exists_of_retrace (S := pipeline noRetries)
    (P := fun t : Core.Traced State Label => decide (Quiet t.state ∧ t.state.world.deadLetterQueue = [] ∧
      ∃ e ∈ buried noRetries t.past, e ∉ exhumed t.past))
    (show ((pipeline noRetries).retrace (fun _ l => decide (Faultless l)) ⟨initialState, []⟩
      (twoJobs ++ failing 2 3 ++ [.spawn (.purge "j")] ++ runsAt 3 4 2 ++ failing 4 5 ++ runsAt 3 6 1)).any _ = true by
        decide +kernel)
  obtain ⟨hq, hnil, e, he, hne⟩ := of_decide_eq_true hP
  have hcount := (h noRetries t (hr.weaken fun _ _ h => of_decide_eq_true h) hq).untargeted e hne
  rw [hnil, List.count_nil] at hcount
  exact absurd (List.count_pos_iff.mpr he) (by omega)

end NestPlayground.L5.DeadLetters
