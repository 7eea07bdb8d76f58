import NestPlayground.Core.Throwing
import NestPlayground.L3Services.Transaction

/-!
# Events follow the fate of their transaction

A call of `transactionalWithEvent`, for every function, every listener and every
fate of the transaction. Until the commit nothing is raised but BEFORE_COMMIT
events (`Pending`), and from such a world the rollback branch is right. It is
also the branch of an AFTER_COMMIT event whose listener throws, when the
transaction is committed already.
-/
namespace NestPlayground.L5.TransactionEvents
open L3.Transaction Core.Throwing

variable {Event ε T : Type}

/-- No listener throws at any of the events, raised in their order. -/
def Quiet (listeners : Listeners Event ε) (history events : List Event) : Prop :=
  ∀ pre event post, events = pre ++ event :: post → listeners (history ++ pre) event = none

/-- The events raised in a phase, in order. -/
def emittedIn (phase : TransactionPhase) (w : World Event) : List Event :=
  (w.emitted.filter fun r => r.1 = phase).map Prod.snd

/-- AFTER_COMMIT events only if the transaction committed, AFTER_ROLLBACK events
only if not, each at most once and in the order of their registration, and the
promise rejects exactly if the transaction is not committed. -/
structure FollowsFate (fn : TransactionalEventFunction Event ε T) (settled : Except ε T × World Event) : Prop where
  afterCommit : emittedIn .afterCommit settled.2 ≠ [] → settled.2.committed = true
  afterRollback : emittedIn .afterRollback settled.2 ≠ [] → settled.2.committed = false
  inOrder : ∀ phase, emittedIn phase settled.2 <+: fn.registered phase
  rejects : (∃ error, settled.1 = .error error) ↔ settled.2.committed = false

section
variable {listeners : Listeners Event ε} {fn : TransactionalEventFunction Event ε T} {phase : TransactionPhase}
  {w : World Event}

/-! ## A flush -/

def emit (phase : TransactionPhase) (w : World Event) (event : Event) : World Event :=
  { w with emitted := w.emitted ++ [(phase, event)] }

theorem foldl_emit (events : List Event) :
    events.foldl (emit phase) w = { w with emitted := w.emitted ++ events.map fun event => (phase, event) } := by
  induction events generalizing w with
  | nil => simp
  | cons event events ih => simp [ih, emit]

@[simp] theorem raised_foldl_emit (events : List Event) :
    (events.foldl (emit phase) w).raised = w.raised ++ events := by
  simp [foldl_emit, World.raised, Function.comp_def]

theorem passes_emit {events : List Event} :
    Passes (fun w event => listeners w.raised event) (emit phase) w events ↔ Quiet listeners w.raised events := by
  simp only [Passes, Quiet, raised_foldl_emit]

theorem raise_eq (event : Event) : EventEmitterService.raise listeners phase event w =
    (outcome (listeners w.raised event), emit phase w event) := by
  have hget : (get : M Event ε (World Event)) w = (.ok w, w) := rfl
  have hset : (set (emit phase w event) : M Event ε PUnit) w = (.ok (), emit phase w event) := rfl
  unfold emit at hset
  rw [EventEmitterService.raise, bind_eq, hget]
  simp only
  rw [bind_eq, hset]
  simp only
  cases listeners w.raised event <;> rfl

/-- A flush raises its phase's events, up to the first whose listener throws. -/
theorem flush_spec (listeners : Listeners Event ε) (phase : TransactionPhase) (w : World Event) :
    (Quiet listeners w.raised (w.buffer phase) ∧ TransactionEventContext.flush listeners phase w =
        (.ok (), { (w.buffer phase).foldl (emit phase) w with buffer := Function.update w.buffer phase [] })) ∨
      ¬ Quiet listeners w.raised (w.buffer phase) ∧ ∃ error sent, sent <+: w.buffer phase ∧
        TransactionEventContext.flush listeners phase w = (.error error, sent.foldl (emit phase) w) := by
  have hflush : TransactionEventContext.flush listeners phase w =
      ((w.buffer phase).forM (EventEmitterService.raise listeners phase) >>= fun _ =>
        modify fun w => { w with buffer := Function.update w.buffer phase [] } : M Event ε Unit) w := rfl
  rw [hflush, bind_eq, ← @passes_emit _ _ _ phase]
  obtain ⟨hpass, hrun⟩ | ⟨hpass, error, sent, hpre, hrun⟩ := forM_spec (fun w event => raise_eq event) (w.buffer phase) w
  · refine .inl ⟨hpass, ?_⟩
    rw [hrun, foldl_emit]
    rfl
  · exact .inr ⟨hpass, error, sent, hpre, by rw [hrun]⟩

/-! ## The function -/

def register (w : World Event) (r : Event × TransactionPhase) : World Event :=
  { w with buffer := Function.update w.buffer r.2 (w.buffer r.2 ++ [r.1]) }

theorem foldl_register (raises : List (Event × TransactionPhase)) : raises.foldl register w =
    { w with buffer := fun phase => w.buffer phase ++ (raises.filter fun r => r.2 = phase).map Prod.fst } := by
  induction raises generalizing w with
  | nil => simp
  | cons r raises ih =>
    rw [List.foldl_cons, ih, World.mk.injEq]
    refine ⟨funext fun phase => ?_, rfl, rfl⟩
    by_cases hr : r.2 = phase
    · subst hr
      simp [register]
    · simp [register, hr, Function.update_of_ne (Ne.symm hr)]

theorem run_eq : fn.run w = (fn.outcome, { w with buffer := fun phase => w.buffer phase ++ fn.registered phase }) := by
  have hrun : fn.run w = ((fn.raises.forM fun r => TransactionEventContext.raise r.1 r.2) >>= fun _ =>
    MonadExcept.ofExcept fn.outcome : M Event ε T) w := rfl
  have hnone : Passes (fun (_ : World Event) _ => (none : Option ε)) register w fn.raises := fun _ _ _ _ => rfl
  rw [hrun, bind_eq]
  obtain ⟨-, hforM⟩ | ⟨hpass, -⟩ := @forM_spec ε (World Event) _ (fun r => TransactionEventContext.raise r.1 r.2)
    (fun _ _ => none) register (fun _ _ => rfl) fn.raises w
  · rw [hforM, foldl_register]
    cases fn.outcome <;> rfl
  · exact absurd hnone hpass

/-! ## The call -/

theorem emittedIn_foldl_emit (q : TransactionPhase) (events : List Event) :
    emittedIn q (events.foldl (emit phase) w) = emittedIn q w ++ if q = phase then events else [] := by
  rw [foldl_emit]
  rcases eq_or_ne q phase with rfl | hq
  · simp [emittedIn, List.filter_map, Function.comp_def]
  · simp [emittedIn, List.filter_map, Function.comp_def, hq, Ne.symm hq]

@[simp] theorem committed_foldl_emit (events : List Event) :
    (events.foldl (emit phase) w).committed = w.committed := by
  rw [foldl_emit]

/-- The transaction is not committed, and nothing was raised but BEFORE_COMMIT events. -/
structure Pending (fn : TransactionalEventFunction Event ε T) (w : World Event) : Prop where
  committed : w.committed = false
  beforeCommit : emittedIn .beforeCommit w <+: fn.registered .beforeCommit
  afterCommit : emittedIn .afterCommit w = []
  afterRollback : emittedIn .afterRollback w = []
  buffer : w.buffer .afterRollback <+: fn.registered .afterRollback

/-- What `dataSource.transaction` is called with. -/
def callback (listeners : Listeners Event ε) (fn : TransactionalEventFunction Event ε T) : M Event ε T := do
  let value ← fn.run
  TransactionEventContext.flush listeners .beforeCommit
  pure value

/-- The body of the `catch`. -/
def rollback (listeners : Listeners Event ε) (error : ε) : M Event ε T := do
  TransactionEventContext.flush listeners .afterRollback
  throw error

/-- The world in which a callback resolves. -/
def ready (fn : TransactionalEventFunction Event ε T) : World Event :=
  { (fn.registered .beforeCommit).foldl (emit .beforeCommit) World.init with
    buffer := Function.update fn.registered .beforeCommit [] }

theorem pending_sent {sent : List Event} {buffer : TransactionPhase → List Event}
    (hsent : sent <+: fn.registered .beforeCommit) (hbuffer : buffer .afterRollback <+: fn.registered .afterRollback) :
    Pending fn { sent.foldl (emit .beforeCommit) World.init with buffer := buffer } := by
  have hin (q) : emittedIn q { sent.foldl (emit .beforeCommit) World.init with buffer := buffer } =
      emittedIn q World.init ++ if q = .beforeCommit then sent else [] := emittedIn_foldl_emit q sent
  refine ⟨committed_foldl_emit sent, ?_, ?_, ?_, hbuffer⟩
  · rw [hin]
    exact hsent
  · rw [hin]
    rfl
  · rw [hin]
    rfl

theorem ready_pending (fn : TransactionalEventFunction Event ε T) : Pending fn (ready fn) :=
  pending_sent (List.prefix_refl _) (List.prefix_refl _)

theorem callback_spec (listeners : Listeners Event ε) (fn : TransactionalEventFunction Event ε T) :
    (∃ value, fn.outcome = .ok value ∧ Quiet listeners [] (fn.registered .beforeCommit) ∧
        callback listeners fn World.init = (.ok value, ready fn)) ∨
      (∀ value, fn.outcome = .ok value → ¬ Quiet listeners [] (fn.registered .beforeCommit)) ∧
        ∃ error w, callback listeners fn World.init = (.error error, w) ∧ Pending fn w := by
  have hfn : fn.run World.init = (fn.outcome, ⟨fn.registered, [], false⟩) := run_eq
  unfold callback
  rw [bind_eq, hfn]
  cases fn.outcome with
  | error error => exact .inr ⟨nofun, error, _, rfl, pending_sent List.nil_prefix (List.prefix_refl _)⟩
  | ok value =>
    simp only
    rw [bind_eq]
    obtain ⟨hq, hrun⟩ | ⟨hq, error, sent, hpre, hrun⟩ :=
      flush_spec listeners .beforeCommit ⟨fn.registered, [], false⟩
    · refine .inl ⟨value, rfl, hq, ?_⟩
      rw [hrun]
      simp only [foldl_emit, ready]
      rfl
    · refine .inr ⟨fun _ _ => hq, error, _, ?_, @pending_sent _ _ _ fn sent fn.registered hpre (List.prefix_refl _)⟩
      rw [hrun]
      simp only [foldl_emit, World.init]

/-- What is emitted in a phase depends on `emitted` alone. -/
theorem emittedIn_of_emitted {w' : World Event} {sent : List Event} (q : TransactionPhase)
    (h : w'.emitted = (sent.foldl (emit phase) w).emitted) :
    emittedIn q w' = emittedIn q w ++ if q = phase then sent else [] := by
  rw [← emittedIn_foldl_emit, emittedIn, h]
  rfl

theorem Pending.published {w' : World Event} {value : T} (h : Pending fn w)
    (hemitted : w'.emitted = ((fn.registered .afterCommit).foldl (emit .afterCommit) w).emitted)
    (hcommitted : w'.committed = true) : FollowsFate fn (.ok value, w') := by
  have hin (q) := emittedIn_of_emitted q hemitted
  refine ⟨fun _ => hcommitted, fun hne => absurd ?_ hne, fun phase => ?_, iff_of_false nofun (by simp [hcommitted])⟩
  · rw [hin, h.afterRollback]
    rfl
  · rw [hin]
    cases phase with
    | beforeCommit => simpa using h.beforeCommit
    | afterCommit => simp [h.afterCommit]
    | afterRollback => simp [h.afterRollback]

theorem Pending.rolledBack {w' : World Event} {sent : List Event} {error : ε} (h : Pending fn w)
    (hsent : sent <+: w.buffer .afterRollback) (hemitted : w'.emitted = (sent.foldl (emit .afterRollback) w).emitted)
    (hcommitted : w'.committed = w.committed) : FollowsFate fn (.error error, w') := by
  have hin (q) := emittedIn_of_emitted q hemitted
  have hfalse : w'.committed = false := hcommitted.trans h.committed
  refine ⟨fun hne => absurd ?_ hne, fun _ => hfalse, fun phase => ?_, iff_of_true ⟨error, rfl⟩ hfalse⟩
  · rw [hin, h.afterCommit]
    rfl
  · rw [hin]
    cases phase with
    | beforeCommit => simpa using h.beforeCommit
    | afterCommit => simp [h.afterCommit]
    | afterRollback => simpa [h.afterRollback] using hsent.trans h.buffer

/-- The rollback branch rejects, raises what it raises and leaves the database as it is. -/
theorem rollback_spec (listeners : Listeners Event ε) (error : ε) (w : World Event) : ∃ error' w' sent,
    (rollback listeners error : M Event ε T) w = (.error error', w') ∧ sent <+: w.buffer .afterRollback ∧
      w'.emitted = (sent.foldl (emit .afterRollback) w).emitted ∧ w'.committed = w.committed := by
  unfold rollback
  rw [bind_eq]
  obtain ⟨-, hrun⟩ | ⟨-, error', sent, hpre, hrun⟩ := flush_spec listeners .afterRollback w
  · rw [hrun]
    exact ⟨error, _, _, rfl, List.prefix_refl _, rfl, committed_foldl_emit _⟩
  · rw [hrun]
    exact ⟨error', _, sent, rfl, hpre, rfl, committed_foldl_emit _⟩

variable {transaction : M Event ε T → M Event ε T} {fate : Fate ε}

/-- The body of the `try`. -/
def attempt (transaction : M Event ε T → M Event ε T) (listeners : Listeners Event ε)
    (fn : TransactionalEventFunction Event ε T) : M Event ε T := do
  let result ← transaction (callback listeners fn)
  TransactionEventContext.flush listeners .afterCommit
  pure result

theorem call_eq : transactionalWithEvent transaction listeners fn World.init =
    let settled := (tryCatch (attempt transaction listeners fn) (rollback listeners)) World.init
    (settled.1, { settled.2 with buffer := fun _ => [] }) := by
  have hcall : transactionalWithEvent transaction listeners fn World.init =
      (tryFinally (tryCatch (attempt transaction listeners fn) (rollback listeners))
        TransactionEventContext.clear) World.init := rfl
  rw [hcall, tryFinally_eq]
  rfl

/-- A `try` that throws in a pending world is handled right. -/
theorem follows_of_pending {error : ε} (ha : attempt transaction listeners fn World.init = (.error error, w))
    (h : Pending fn w) : FollowsFate fn (transactionalWithEvent transaction listeners fn World.init) := by
  obtain ⟨error', w', sent, hrun, hsent, hemitted, hsame⟩ := @rollback_spec _ _ T listeners error w
  rw [call_eq, tryCatch_eq, ha]
  simp only [hrun]
  exact h.rolledBack hsent hemitted hsame

theorem attempt_error {error : ε} (h : transaction (callback listeners fn) World.init = (.error error, w)) :
    attempt transaction listeners fn World.init = (.error error, w) := by
  unfold attempt
  rw [bind_eq, h]

/-- Once the transaction is committed, all depends on the AFTER_COMMIT events. -/
theorem committed_iff {value : T}
    (h : transaction (callback listeners fn) World.init = (.ok value, { ready fn with committed := true })) :
    FollowsFate fn (transactionalWithEvent transaction listeners fn World.init) ↔
      Quiet listeners (fn.registered .beforeCommit) (fn.registered .afterCommit) := by
  obtain ⟨w, hw⟩ : ∃ w : World Event, w = { ready fn with committed := true } := ⟨_, rfl⟩
  have hraised : w.raised = fn.registered .beforeCommit := by
    rw [hw]
    exact raised_foldl_emit _
  have hbuffer : w.buffer .afterCommit = fn.registered .afterCommit := by
    rw [hw]
    rfl
  have hcommitted : w.committed = true := by rw [hw]
  have hemitted : w.emitted = (ready fn).emitted := by rw [hw]
  rw [← hw] at h
  rw [call_eq, tryCatch_eq, attempt, bind_eq, h]
  simp only
  rw [bind_eq]
  obtain ⟨hq, hrun⟩ | ⟨hq, error, sent, -, hrun⟩ := flush_spec listeners .afterCommit w
  · rw [hraised, hbuffer] at hq
    rw [hrun]
    refine iff_of_true ((ready_pending fn).published ?_ ?_) hq
    · show ((w.buffer .afterCommit).foldl (emit .afterCommit) w).emitted = _
      rw [hbuffer, foldl_emit, foldl_emit, hemitted]
    · exact (committed_foldl_emit _).trans hcommitted
  · rw [hraised, hbuffer] at hq
    obtain ⟨error', w', -, hrollback, -, -, hsame⟩ :=
      @rollback_spec _ _ T listeners error (sent.foldl (emit .afterCommit) w)
    rw [hrun]
    simp only [hrollback]
    refine iff_of_false (fun hfollows => ?_) hq
    have hfalse : w'.committed = false := hfollows.rejects.mp ⟨error', rfl⟩
    rw [hsame, committed_foldl_emit, hcommitted] at hfalse
    cases hfalse

end

/-- A call follows the fate of its transaction, wherever it fails, exactly if no
AFTER_COMMIT event of a committed transaction throws: one that does rejects the
promise and raises the AFTER_ROLLBACK events. -/
theorem events_follow_fate {transaction : M Event ε T → M Event ε T} {fate : Fate ε}
    (h : Transactional transaction fate) (listeners : Listeners Event ε) (fn : TransactionalEventFunction Event ε T) :
    FollowsFate fn (transactionalWithEvent transaction listeners fn World.init) ↔
      ∀ value, fn.outcome = .ok value → Quiet listeners [] (fn.registered .beforeCommit) → fate = .commits →
        Quiet listeners (fn.registered .beforeCommit) (fn.registered .afterCommit) := by
  by_cases hrefused : ∃ error, fate = .refused error
  · obtain ⟨error, rfl⟩ := hrefused
    refine iff_of_true (follows_of_pending (attempt_error (h.refused error rfl _ _)) ?_) fun _ _ _ hf => nomatch hf
    exact pending_sent List.nil_prefix List.nil_prefix
  have hnot (error) : fate ≠ .refused error := fun he => hrefused ⟨error, he⟩
  obtain ⟨value, hvalue, hq, hrun⟩ | ⟨hq, error, w, hrun, hw⟩ := callback_spec listeners fn
  · cases fate with
    | refused error => exact absurd rfl (hnot error)
    | commits =>
      rw [committed_iff (h.commits rfl _ _ _ _ hrun)]
      exact ⟨fun hafter _ _ _ _ => hafter, fun hafter => hafter value hvalue hq rfl⟩
    | commitFails error =>
      refine iff_of_true (follows_of_pending (attempt_error (h.commitFails error rfl _ _ _ _ hrun)) ?_)
        fun _ _ _ hf => nomatch hf
      exact ready_pending fn
  · exact iff_of_true (follows_of_pending (attempt_error (h.rejected hnot _ _ _ _ hrun)) hw)
      fun value hvalue hbefore => absurd hbefore (hq value hvalue)

/-- A database that does as its fate says. -/
def database (fate : Fate String) (callback : M String String Nat) : M String String Nat := fun w =>
  match fate with
  | .refused error => (.error error, w)
  | .commits | .commitFails _ =>
    match callback w, fate with
    | (.ok value, w'), .commits => (.ok value, { w' with committed := true })
    | (.ok _, w'), .commitFails error => (.error error, w')
    | (result, w'), _ => (result, w')

theorem database_transactional (fate : Fate String) : Transactional (database fate) fate := by
  constructor
  · rintro error rfl callback w
    rfl
  · rintro hnot callback w error w' h
    cases fate with
    | refused e => exact absurd rfl (hnot e)
    | commits | commitFails => simp only [database, h]
  · rintro rfl callback w value w' h
    simp only [database, h]
  · rintro error rfl callback w value w' h
    simp only [database, h]

/-- A listener that throws at `cancel`. -/
def throwsAtCancel : Listeners String String := fun _ event => if event = "cancel" then some "listener failed" else none

/-- It throws before the commit, and the rollback event is raised. -/
theorem events_follow_fate_beforeCommit :
    let settled := transactionalWithEvent (database .commits) throwsAtCancel
      ⟨[("cancel", .beforeCommit), ("created", .afterCommit), ("undone", .afterRollback)], .ok 1⟩ World.init
    FollowsFate ⟨[("cancel", .beforeCommit), ("created", .afterCommit), ("undone", .afterRollback)], .ok 1⟩ settled ∧
      settled.1 = .error "listener failed" ∧ settled.2.raised = ["cancel", "undone"] := by
  refine ⟨(events_follow_fate (database_transactional .commits) throwsAtCancel _).mpr ?_, rfl, rfl⟩
  intro value _ hbefore
  exact absurd (hbefore [] "cancel" [] rfl) (by decide)

/-- It throws after the commit: the promise rejects, and the rollback event of a
committed transaction is raised. -/
theorem throw_after_commit :
    let fn : TransactionalEventFunction String String Nat := ⟨[("cancel", .afterCommit), ("undone", .afterRollback)], .ok 1⟩
    let settled := transactionalWithEvent (database .commits) throwsAtCancel fn World.init
    Transactional (database .commits) .commits ∧ settled.2.committed = true ∧ settled.1 = .error "listener failed" ∧
      emittedIn .afterRollback settled.2 = ["undone"] ∧ ¬ FollowsFate fn settled := by
  refine ⟨database_transactional .commits, rfl, rfl, rfl, fun h => ?_⟩
  have := h.rejects.mp ⟨_, rfl⟩
  cases this

end NestPlayground.L5.TransactionEvents
