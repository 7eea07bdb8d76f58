import NestPlayground.L4Pipeline.Frames

/-!
# The books of a group

What the counters of a group's metadata and its job-results list say about the
history, in every run: `totalJobs` counts the enqueues, `successCount` and
`failedCount` the entries of the list by outcome, the list is what was
recorded, and `doneJobs` is at most the number of executions of `ack.lua`
(the first enqueue resets it).
-/
namespace NestPlayground.L4
open L1 L3

/-- What writes a group's status: its first enqueue, an `ack.lua` that finds
the group complete, a transition from the status the group has. -/
theorem status_cases (reg : Registry) (cmd : Cmd) (inp : Input) (s : Store) (g : GroupId) :
    ((exec reg cmd inp s).1.groupMeta g).status = (s.groupMeta g).status ∨
    (∃ req, cmd = .enqueue req ∧ req.jobGroupId = g ∧ (s.groupMeta g).totalJobs.getD 0 = 0 ∧
      ((exec reg cmd inp s).1.groupMeta g).status = some .created) ∨
    (∃ j, cmd = .ack j g ∧ (s.groupMeta g).totalJobs.getD 0 ≤ (s.groupMeta g).doneJobs.getD 0 + 1 ∧
      ((exec reg cmd inp s).1.groupMeta g).status = some .aggregating) ∨
    ∃ t, cmd = .transitionStatus g t ∧ (s.groupMeta g).status = some t.source ∧
      ((exec reg cmd inp s).1.groupMeta g).status = some t.target := by
  have hm := meta_step reg cmd inp s g
  generalize (exec reg cmd inp s).1.groupMeta g = m' at hm ⊢
  cases hm with
  | created hg h => exact .inr (.inl ⟨_, rfl, hg, h, rfl⟩)
  | acked =>
    simp only
    split
    · rename_i h
      exact .inr (.inr (.inl ⟨_, rfl, h, rfl⟩))
    · exact .inl rfl
  | moved h => exact .inr (.inr (.inr ⟨_, rfl, h, L2.setStatus_status _ _ _⟩))
  | _ => exact .inl rfl

/-- The counters of a group only grow, but for `doneJobs` at the first enqueue. -/
theorem totalJobs_mono (reg : Registry) (cmd : Cmd) (inp : Input) (s : Store) (g : GroupId) :
    (s.groupMeta g).totalJobs.getD 0 ≤ ((exec reg cmd inp s).1.groupMeta g).totalJobs.getD 0 := by
  have hm := meta_step reg cmd inp s g
  generalize (exec reg cmd inp s).1.groupMeta g = m' at hm ⊢
  cases hm with
  | created hg h => omega
  | enqueued => exact Nat.le_succ _
  | moved h => rw [(L2.setStatus_counters _ _ _).1]
  | _ => exact le_refl _

/-- The books: what the counters and the list of a group say of the history. -/
structure Books (w : Store) (log : Log) : Prop where
  total : ∀ g, (w.groupMeta g).totalJobs.getD 0 = (enqueued log).countP (·.2 = g)
  done : ∀ g, (w.groupMeta g).doneJobs.getD 0 ≤ (acked log).countP (·.2 = g)
  success : ∀ g, (w.groupMeta g).successCount.getD 0 = (w.groupJobResults g).countP (·.success)
  failed : ∀ g, (w.groupMeta g).failedCount.getD 0 = (w.groupJobResults g).countP (!·.success)
  results : ∀ g, (w.groupJobResults g).map (fun r => (r.jobId, r.groupId)) =
    ((recorded log).filter (·.2 = g)).reverse

/-- The two counters together count the results. -/
theorem Books.counts_length {w : Store} {log : Log} (h : Books w log) (g : GroupId) :
    (w.groupMeta g).successCount.getD 0 + (w.groupMeta g).failedCount.getD 0 = (w.groupJobResults g).length := by
  rw [h.success g, h.failed g, List.length_eq_countP_add_countP (fun r : JobProcessorResponse => r.success)]
  simp

/-- They count what was recorded. -/
theorem Books.results_length {w : Store} {log : Log} (h : Books w log) (g : GroupId) :
    (w.groupMeta g).successCount.getD 0 + (w.groupMeta g).failedCount.getD 0 =
      (recorded log).countP (·.2 = g) := by
  have hlen := congrArg List.length (h.results g)
  rw [List.length_map, List.length_reverse, ← List.countP_eq_length_filter] at hlen
  rw [h.counts_length g, hlen]

/-- A job has no more results in a group than were recorded for it. -/
theorem Books.results_of {w : Store} {log : Log} (h : Books w log) (g : GroupId) (j : JobId) :
    (w.groupJobResults g).countP (·.jobId = j) ≤ (recorded log).countP (·.1 = j) :=
  calc (w.groupJobResults g).countP (·.jobId = j)
      = ((w.groupJobResults g).map fun r => (r.jobId, r.groupId)).countP (·.1 = j) := by
        rw [List.countP_map]
        rfl
    _ = ((recorded log).filter (·.2 = g)).countP (·.1 = j) := by rw [h.results g, List.countP_reverse]
    _ ≤ (recorded log).countP (·.1 = j) := List.filter_sublist.countP_le

theorem books_empty : Books .empty [] where
  total _ := rfl
  done _ := Nat.le_refl 0
  success _ := rfl
  failed _ := rfl
  results _ := rfl

/-- A call that does not write a group's metadata counts nothing for the group. -/
theorem counts_other {cmd : Cmd} {g : GroupId} (h : metaOf cmd ≠ some g) :
    (enqueues cmd).toList.countP (·.2 = g) = 0 ∧ (acks cmd).toList.countP (·.2 = g) = 0 ∧
      (records cmd).toList.filter (·.2 = g) = [] := by
  have hne : ∀ {g' : GroupId}, metaOf cmd = some g' → g' ≠ g := by
    rintro g' hg rfl
    exact h hg
  cases cmd with
  | enqueue req => simp [enqueues, acks, records, hne rfl]
  | ack j g' => simp [enqueues, acks, records, hne rfl]
  | recordJobResult r => simp [enqueues, acks, records, hne rfl]
  | _ => exact ⟨rfl, rfl, rfl⟩

/-- The list of a group grows by the result recorded for it. -/
theorem results_exec (reg : Registry) (cmd : Cmd) (inp : Input) (s : Store) (g : GroupId) :
    (exec reg cmd inp s).1.groupJobResults g = s.groupJobResults g ∧ (∀ x ∈ records cmd, x.2 ≠ g) ∨
      ∃ r, cmd = .recordJobResult r ∧ r.groupId = g ∧
        (exec reg cmd inp s).1.groupJobResults g = s.groupJobResults g ++ [r] := by
  cases cmd with
  | recordJobResult r =>
    rcases eq_or_ne g r.groupId with rfl | hne
    · refine .inr ⟨r, rfl, rfl, ?_⟩
      simp only [exec, L2.recordJobResult, Function.update_self]
    · left
      simp only [exec, L2.recordJobResult, Function.update_of_ne hne, true_and]
      rintro x ⟨⟩
      exact hne.symm
  | _ =>
    rw [results_frame rfl]
    exact .inl ⟨rfl, fun x hx => (by cases hx)⟩

/-- The counter of successes and that of failures follow the list. -/
theorem outcomes_exec (reg : Registry) (cmd : Cmd) (inp : Input) (s : Store) (g : GroupId) :
    ((exec reg cmd inp s).1.groupJobResults g = s.groupJobResults g ∧
      ((exec reg cmd inp s).1.groupMeta g).successCount = (s.groupMeta g).successCount ∧
      ((exec reg cmd inp s).1.groupMeta g).failedCount = (s.groupMeta g).failedCount) ∨
    ∃ r : JobProcessorResponse, (exec reg cmd inp s).1.groupJobResults g = s.groupJobResults g ++ [r] ∧
      ((exec reg cmd inp s).1.groupMeta g).successCount.getD 0 =
        (s.groupMeta g).successCount.getD 0 + (if r.success then 1 else 0) ∧
      ((exec reg cmd inp s).1.groupMeta g).failedCount.getD 0 =
        (s.groupMeta g).failedCount.getD 0 + (if r.success then 0 else 1) := by
  have hm := meta_step reg cmd inp s g
  rcases results_exec reg cmd inp s g with ⟨hr, hno⟩ | ⟨r, rfl, hg, hr⟩
  · refine .inl ⟨hr, ?_⟩
    generalize (exec reg cmd inp s).1.groupMeta g = m' at hm ⊢
    cases hm with
    | recorded hg => exact absurd hg (hno _ rfl)
    | moved =>
      obtain ⟨-, -, hsuccess, hfailed, -⟩ := L2.setStatus_counters _ inp.now (s.groupMeta g)
      exact ⟨hsuccess, hfailed⟩
    | _ => exact ⟨rfl, rfl⟩
  · refine .inr ⟨r, hr, ?_⟩
    generalize (exec reg _ inp s).1.groupMeta g = m' at hm ⊢
    cases hm with
    | other h => exact absurd (congrArg some hg) h
    | recorded => cases hs : r.success <;> exact ⟨rfl, rfl⟩

/-- One call, whoever makes it, keeps the books. -/
theorem Books.exec (reg : Registry) {s : Store} {log : Log} (h : Books s log) (i : Nat) (cmd : Cmd)
    (inp : Input) : Books (L3.exec reg cmd inp s).1 (⟨i, cmd, (L3.exec reg cmd inp s).2⟩ :: log) where
  total g := by
    have hb := h.total g
    have hm := meta_step reg cmd inp s g
    rw [enqueued_cons, List.countP_append]
    generalize (L3.exec reg cmd inp s).1.groupMeta g = m' at hm ⊢
    cases hm with
    | other hg => simp [(counts_other hg).1, hb]
    | created hg h0 => simp [enqueues, hg, ← hb, h0]
    | enqueued hg => simp [enqueues, hg, ← hb, Nat.add_comm]
    | moved => simp [enqueues, (L2.setStatus_counters _ _ _).1, hb]
    | _ => simp [enqueues, hb]
  done g := by
    have hb := h.done g
    have hm := meta_step reg cmd inp s g
    rw [acked_cons, List.countP_append]
    generalize (L3.exec reg cmd inp s).1.groupMeta g = m' at hm ⊢
    cases hm with
    | acked =>
      simp [acks]
      omega
    | created => exact Nat.zero_le _
    | moved =>
      rw [(L2.setStatus_counters _ _ _).2.1]
      exact le_trans hb (Nat.le_add_left _ _)
    | _ => exact le_trans hb (Nat.le_add_left _ _)
  success g := by
    have hb := h.success g
    rcases outcomes_exec reg cmd inp s g with ⟨hr, hsuccess, -⟩ | ⟨r, hr, hsuccess, -⟩
    · rw [hr, hsuccess, hb]
    · rw [hr, hsuccess, hb, List.countP_append, List.countP_singleton]
  failed g := by
    have hb := h.failed g
    rcases outcomes_exec reg cmd inp s g with ⟨hr, -, hfailed⟩ | ⟨r, hr, -, hfailed⟩
    · rw [hr, hfailed, hb]
    · rw [hr, hfailed, hb, List.countP_append, List.countP_singleton]
      cases r.success <;> rfl
  results g := by
    have hb := h.results g
    rw [recorded_cons, List.filter_append]
    rcases results_exec reg cmd inp s g with ⟨hr, hno⟩ | ⟨r, rfl, hg, hr⟩
    · rw [hr, List.filter_eq_nil_iff.mpr fun x hx => by simpa using hno x (Option.mem_toList.mp hx)]
      exact hb
    · simp [hr, records, hg, hb]

theorem books (reg : Registry) : Core.Program.Ledgered (pipeline reg) (fun _ _ => True) Books where
  run := by
    intro c i inp p cmd ok err hI hp hv _
    exact hI.exec reg i cmd inp
  env := by
    intro w log e hI
    cases e <;> exact ⟨hI.total, hI.done, hI.success, hI.failed, hI.results⟩

theorem books_reachable {reg : Registry} {H : State → Label → Prop} {c : State}
    (h : ((runs reg).restrict H).Reachable c) : Books c.world c.log :=
  ((books reg).inductive books_empty).reachable c (h.weaken fun _ _ _ => trivial)

end NestPlayground.L4
