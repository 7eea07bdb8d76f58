import NestPlayground.L4Pipeline.Frames
import NestPlayground.L6Keyspace.Simulations

/-!
# The pipeline on the database

Every call simulates the call of the typed pipeline, so the two have the same
runs. What is proved of the typed store is thereby proved of the commands on
the flat keyspace.
-/
namespace NestPlayground.L6
open L1 L3 Redis

/-- `EXPIRE` with 0 deletes the key, and `PX 0` is an error. -/
structure PositiveTtls (reg : Registry) : Prop where
  rateLimitKeyTtlSec : 0 < reg.config.backpressure.rateLimitKeyTtlSec
  lockTtlMs : 0 < reg.config.watcher.lockTtlMs

/-- `LRANGE key 0 -1` would be the whole list. -/
def NonemptyRange : Cmd → Prop
  | .resultsRange _ _ count => 0 < count
  | _ => True

/-! ## Calls -/

section
variable {p : String} {s : Store}

/-- A reply of 1 or 0. -/
theorem sim_flag {m : Redis Int} {r : Store × Bool} (h : Sim p m s (r.1, if r.2 then 1 else 0)) :
    Sim p (do return decide ((← m) = 1)) s r := by
  refine h.bind (.of_eq (.pure _) ?_)
  obtain ⟨s', b⟩ := r
  cases b <;> rfl

theorem sim_flag_ne {m : Redis Int} {r : Store × Bool} (h : Sim p m s (r.1, if r.2 then 1 else 0)) :
    Sim p (do return decide ((← m) ≠ 0)) s r := by
  refine h.bind (.of_eq (.pure _) ?_)
  obtain ⟨s', b⟩ := r
  cases b <;> rfl

variable {reg : Registry}

theorem call_simulates (hreg : PositiveTtls reg) {cmd : Cmd} (hcmd : NonemptyRange cmd) (inp : Input) :
    Sim (keyPrefix reg) (call reg cmd inp) s (exec reg cmd inp s) := by
  cases cmd with
  | enqueue req => exact (sim_enqueue req _ inp.now).bind (.of_eq (.pure _) rfl)
  | dequeue =>
    refine sim_dequeue.bind (.of_eq (.pure _) (Prod.ext rfl ?_))
    cases hd : (L2.dequeue Core.binary64 reg.config.fairQueue.alpha inp.now s).2 with
    | none => exact hd.symm
    | some hash => exact (congrArg some (job_jobFields hash)).trans hd.symm
  | ack j g => exact sim_flag (sim_ack j g)
  | rateLimitCheck g =>
    refine (sim_rateLimitCheck g _ hreg.rateLimitKeyTtlSec _).bind (.of_eq (.pure _) ?_)
    rw [exec]
    generalize L2.rateLimitCheck _ _ _ g s = reply
    obtain ⟨s', allowed, -, -, -, -⟩ := reply
    cases allowed <;> rfl
  | readyQueuePush j => exact sim_flag_ne (sim_readyQueuePush j _)
  | moveToReady => exact sim_moveToReady _ _
  | congestionBackoff j g => exact (sim_congestionBackoff g _ _ _ _ j).bind (.of_eq (.pure _) rfl)
  | congestionRelease g n => exact (sim_congestionRelease g n).bind (.of_eq (.pure _) rfl)
  | recordJobResult r =>
    refine (sim_recordJobResult r inp.now).bind (.of_eq (.pure _) ?_)
    rw [exec]
    generalize L2.recordJobResult r inp.now s = reply
    obtain ⟨s', complete, -, -, -⟩ := reply
    cases complete <;> rfl
  | transitionStatus g t => exact sim_flag (sim_transitionStatus g _ _ _)
  | acquireLock k t => exact sim_flag (sim_acquireLock k t hreg.lockTtlMs)
  | releaseLock k t => exact sim_flag (sim_releaseLock k t)
  | reliableDequeue w i n g => exact sim_reliableDequeue _ w i n g _
  | reliableAck j => exact sim_flag (sim_reliableAck j)
  | recoverOrphans => exact (sim_recoverOrphans _ _ _).bind (.of_eq (.pure _) rfl)
  | extendDeadline j => exact sim_flag (sim_extendDeadline j _ _)
  | jobGetAll j => exact ((jobAt _ j).hgetall rfl).bind (.of_eq (.pure _) (Prod.ext rfl (job_jobFields _)))
  | jobGetRetryCount j => exact ((jobAt _ j).hget rfl .retryCount).bind (.of_eq (.pure _) (Prod.ext rfl (bind_nat _)))
  | jobGetGroupId j => exact ((jobAt _ j).hget rfl .groupId).bind (.of_eq (.pure _) (Prod.ext rfl (bind_text _)))
  | jobIncrRetryCount j =>
    exact ((jobAt _ j).hincr rfl (s.jobs j).retryCount
      { s.jobs j with retryCount := some ((s.jobs j).retryCount.getD 0 + 1) } rfl
      (by funext f; cases f <;> rfl)).bind (.of_eq (.pure _) rfl)
  | jobResetRetryCount j =>
    exact (jobAt _ j).hset rfl { s.jobs j with retryCount := some 0 } (by funext f; cases f <;> rfl)
  | jobSetStatus j st =>
    exact (jobAt _ j).hset rfl { s.jobs j with status := some st } (by funext f; cases f <;> rfl)
  | metaGetAll g => exact ((metaAt _ g).hgetall rfl).bind (.of_eq (.pure _) (Prod.ext rfl (groupMeta_metaFields _)))
  | metaSetRegisteredJobs g n =>
    exact (metaAt _ g).hset rfl { s.groupMeta g with registeredJobs := some n } (by funext f; cases f <;> rfl)
  | metaSetTimeoutAt g =>
    exact (metaAt _ g).hset rfl
      { s.groupMeta g with timeoutAt := some (inp.now + reg.config.watcher.groupTimeoutMs) }
      (by funext f; cases f <;> rfl)
  | resultsRange g start count =>
    exact ((jobResultsAt _ g).lrange start hcmd).bind
      (.of_eq (.pure _) (Prod.ext rfl (filterMap_item Datum.response Datum.response? (fun _ => rfl) _)))
  | resultSet g r =>
    exact (resultAt _ g).hset rfl { s.groupResult g with result := some r } (by funext f; cases f <;> rfl)
  | resultSetAggregatedAt g =>
    exact (resultAt _ g).hset rfl { s.groupResult g with aggregatedAt := some inp.now } (by funext f; cases f <;> rfl)
  | readyLength => exact (readyAt _).llen rfl
  | readyHead =>
    exact ((readyAt _).lrange 0 Nat.one_pos).bind
      (.of_eq (.pure _) (Prod.ext rfl (filterMap_item Datum.text Datum.text? (fun _ => rfl) _)))
  | readyAppend j => exact (readyAt _).rpush j
  | nonReadyAdd j => exact (nonReadyAt _).zadd j _
  | watcherAdd g => exact (watcherAt _).sadd g
  | watcherRemove g => exact (watcherAt _).srem g
  | watcherMembers => exact (watcherAt _).smembers inp.order
  | activeRemove g => exact (activeAt _).srem g
  | congestionDelete g =>
    have hcount : Sim (keyPrefix reg) (del [RedisKeyBuilder.congestionNonReadyCount (keyPrefix reg) g]) s
        ((countAt (keyPrefix reg) g).set s none, ()) := (countAt _ g).writes none fun _ _ => del_run
    exact hcount.bind (k := fun _ => del [RedisKeyBuilder.congestionStats (keyPrefix reg) g]) ((statsAt _ g).del {} rfl)
  | deadLetter j g n e => exact (deadLettersAt _).rpush ⟨j, g, n, e, inp.now⟩
  | dlqAppend e => exact (deadLettersAt _).rpush e
  | dlqRange =>
    exact (deadLettersAt _).lrangeAll.bind
      (.of_eq (.pure _) (Prod.ext rfl (filterMap_item Datum.deadLetter Datum.deadLetter? (fun _ => rfl) _)))
  | dlqPopHead =>
    exact (deadLettersAt _).lpop.bind
      (.of_eq (.pure _) (Prod.ext rfl (bind_item Datum.deadLetter Datum.deadLetter? (fun _ => rfl) _)))
  | dlqDelete => exact (deadLettersAt _).del
  | dateNow => exact .pure _
  | randomUUID => exact .pure _
  | process job => exact .pure _

end

/-! ## Which calls are made -/

section
variable (reg : Registry)

theorem aggregate_ranges (p : AggregatePc) : L4.Calls NonemptyRange (p.view reg batchSize) := by
  cases p with
  | range => exact ⟨Nat.succ_pos _, fun _ => trivial, trivial⟩
  | _ => exact ⟨trivial, fun _ => trivial, trivial⟩

theorem acquire_ranges (p : AcquirePc) : L4.Calls NonemptyRange (p.view reg) := by
  cases p <;> exact ⟨trivial, fun _ => trivial, trivial⟩

theorem finalize_ranges (p : FinalizePc) : L4.Calls NonemptyRange (p.view reg) := by
  cases p with
  | acquire g p =>
    rw [FinalizePc.view]
    exact (acquire_ranges reg p).map
  | aggregate g token p =>
    rw [FinalizePc.view]
    exact (aggregate_ranges reg p).map
  | _ => exact ⟨trivial, fun _ => trivial, trivial⟩

theorem watch_ranges (p : WatchPc) : L4.Calls NonemptyRange (p.view reg) := by
  cases p with
  | finalize p rest =>
    rw [WatchPc.view]
    exact (finalize_ranges reg p).map
  | lockedFinalize g token p rest =>
    rw [WatchPc.view]
    exact (finalize_ranges reg p).map
  | lockTransition g p rest =>
    rw [WatchPc.view]
    exact (acquire_ranges reg p).map
  | lockForce g target p rest =>
    rw [WatchPc.view]
    exact (acquire_ranges reg p).map
  | _ => exact ⟨trivial, fun _ => trivial, trivial⟩

theorem tick_ranges (p : TickPc) : L4.Calls NonemptyRange (p.view reg) := by
  cases p with
  | dequeue p => cases p <;> exact ⟨trivial, fun _ => trivial, trivial⟩
  | complete p =>
    rw [TickPc.view]
    refine L4.Calls.map ?_
    cases p with
    | finalize p =>
      rw [CompletePc.view]
      exact (finalize_ranges reg p).map
    | _ => exact ⟨trivial, fun _ => trivial, trivial⟩
  | failed p =>
    rw [TickPc.view]
    refine L4.Calls.map ?_
    cases p with
    | requeue p => cases p <;> exact ⟨trivial, fun _ => trivial, trivial⟩
    | _ => exact ⟨trivial, fun _ => trivial, trivial⟩
  | _ => exact ⟨trivial, fun _ => trivial, trivial⟩

/-- The batches of the aggregator are not empty, and nothing else reads a range. -/
theorem proc_ranges (p : L4.Proc) : L4.Calls NonemptyRange (p.view reg) := by
  cases p with
  | tick p => exact (tick_ranges reg p).map
  | recovery p =>
    refine L4.Calls.map ?_
    cases p with
    | finalize p pairs =>
      rw [RecoveryPc.view]
      exact (finalize_ranges reg p).map
    | _ => exact ⟨trivial, fun _ => trivial, trivial⟩
  | watch p => exact (watch_ranges reg p).map
  | finalize p => exact (finalize_ranges reg p).map
  | done => trivial
  | _ =>
    refine L4.Calls.mono (L4.may_call reg _) fun c hc => ?_
    cases c <;> trivial

end

/-! ## Keys that expire -/

def Slot.hasTtl : Slot → Bool
  | .lock _ | .rateLimit _ _ => true
  | _ => false

section
variable {p : String} {s : Store} {db : Database} {key : String} {cell : Cell}

theorem kept_expires {v : Value} (h : some cell = kept v) : cell.expires = false := by
  unfold kept at h
  split at h
  · cases h
  · cases h
    rfl

theorem holds_expires {c : Slot} (h : c.Holds p s (some cell)) : cell.expires = c.hasTtl := by
  cases c with
  | congestionNonReadyCount g =>
    obtain ⟨n, -, rfl⟩ := Option.map_eq_some_iff.mp (Eq.symm h)
    rfl
  | lock k =>
    obtain ⟨token, -, rfl⟩ := Option.map_eq_some_iff.mp (Eq.symm h)
    rfl
  | rateLimit g window =>
    rcases h with ⟨h, -⟩ | h
    · cases h
    · cases h
      rfl
  | _ => exact kept_expires h

/-- What is stored is stored in a slot. -/
theorem Represents.slot (h : Represents p s db) (hc : db key = some cell) :
    ∃ c : Slot, key = c.key p ∧ c.Holds p s (some cell) := by
  by_contra hno
  have hout : ∀ c : Slot, key ≠ c.key p := by
    rintro c rfl
    exact hno ⟨c, rfl, hc ▸ h.holds c⟩
  cases hc.symm.trans (h.only key hout)

/-- A key that has a TTL if it exists at all. -/
theorem Represents.expire_eq (h : Represents p s db) {c : Slot} (hc : c.hasTtl = true) :
    db.expire (c.key p) = Function.update db (c.key p) none := by
  unfold Database.expire
  cases hcell : db (c.key p) with
  | none =>
    have hsame : Function.update db (c.key p) none = db := by rw [← hcell, Function.update_eq_self]
    rw [hsame, Option.any_none, if_neg Bool.false_ne_true]
  | some cell =>
    have hholds := h.holds c
    rw [hcell] at hholds
    rw [Option.any_some, holds_expires hholds, if_pos hc]

theorem Represents.expireLock (h : Represents p s db) (k : LockKey) :
    Represents p (L4.expire (.lock k) s) (db.expire ((Slot.lock k).key p)) := by
  rw [h.expire_eq rfl]
  refine h.write (c := .lock k) ?_ ((lockAt p k).frame s none)
  exact congrArg lockCell ((lockAt p k).get_set s none).symm

theorem Represents.expireRateLimit (h : Represents p s db) (g : GroupId) (window : Nat) :
    Represents p (L4.expire (.rateLimit (rateLimitGroup p g window)) s) (db.expire (rateLimitGroup p g window)) := by
  rw [show db.expire (rateLimitGroup p g window) = _ from h.expire_eq (c := .rateLimit g window) rfl]
  exact h.writeCounter g window (.inl ⟨rfl, rfl⟩)

/-- What vanishes is a lock or a counter. -/
theorem Represents.expire (h : Represents p s db) (key : String) :
    Represents p s (db.expire key) ∨ ∃ e, Represents p (L4.expire e s) (db.expire key) := by
  by_cases hexp : (db key).any Cell.expires = true
  · obtain ⟨cell, hcell, he⟩ := (Option.any_eq_true _ _).mp hexp
    obtain ⟨c, rfl, hc⟩ := h.slot hcell
    have httl : c.hasTtl = true := (holds_expires hc).symm.trans he
    cases c with
    | lock k => exact .inr ⟨.lock k, h.expireLock k⟩
    | rateLimit g window => exact .inr ⟨.rateLimit _, h.expireRateLimit g window⟩
    | _ => cases httl
  · refine .inl ?_
    rw [Database.expire, if_neg hexp]
    exact h

/-- A lock or a counter can vanish; the name of a counter that is no group's stands for no key. -/
theorem Represents.expired (h : Represents p s db) (e : L4.Expiry) :
    Represents p (L4.expire e s) db ∨ ∃ key, Represents p (L4.expire e s) (db.expire key) := by
  cases e with
  | lock k => exact .inr ⟨_, h.expireLock k⟩
  | rateLimit key =>
    by_cases hkey : ∃ g window, key = rateLimitGroup p g window
    · obtain ⟨g, window, rfl⟩ := hkey
      exact .inr ⟨_, h.expireRateLimit g window⟩
    · refine .inl ⟨fun c => ?_, h.only⟩
      have hc := h.holds c
      cases c with
      | rateLimit g window =>
        have hne : rateLimitGroup p g window ≠ key := fun he => hkey ⟨g, window, he.symm⟩
        simpa only [Slot.Holds, L4.expire, Function.update_of_ne hne] using hc
      | _ => exact hc

end

/-! ## The refinement -/

theorem keyspace_refines {reg : Registry} (hreg : PositiveTtls reg) :
    (keyspace reg).Refines (L4.pipeline reg) (Represents (keyPrefix reg)) where
  exec cmd inp s hmade := by
    obtain ⟨p, ok, err, hv⟩ := hmade
    have hcalls := proc_ranges reg p
    rw [show p.view reg = _ from hv] at hcalls
    exact call_simulates hreg hcalls.1 inp
  env key h := h.expire key
  env' e h := h.expired e

section
variable {reg : Registry} (hreg : PositiveTtls reg)
include hreg

/-- The pipeline does on the database what it does on the typed store: the same
activities with the same replies. -/
theorem same_runs :
    (∀ c, (runs reg).Reachable c →
      ∃ s, Represents (keyPrefix reg) s c.world ∧ (L4.runs reg).Reachable ⟨s, c.procs, c.log⟩) ∧
    ∀ c, (L4.runs reg).Reachable c →
      ∃ db, Represents (keyPrefix reg) c.world db ∧ (runs reg).Reachable ⟨db, c.procs, c.log⟩ :=
  ⟨fun _ => (keyspace_refines hreg).reachable (represents_empty _),
    fun _ => (keyspace_refines hreg).realized (represents_empty _)⟩

end

theorem positiveTtls_default : PositiveTtls {} := ⟨by decide, by decide⟩

/-- A job is enqueued and fetched. -/
theorem same_runs_oneJob : ∃ c : State, (runs {}).Reachable c ∧ ("j", "g") ∈ L4.fetched c.log := by
  obtain ⟨c, hr, hP⟩ := Core.Program.exists_of_replay (S := L4.pipeline {})
    (P := fun c : L4.State => decide (("j", "g") ∈ L4.fetched c.log))
    (show ((L4.pipeline {}).replay (fun _ _ => true) L4.initialState L4.oneJob).any _ = true by decide +kernel)
  obtain ⟨db, -, hdb⟩ := (same_runs positiveTtls_default).2 c hr.unrestrict
  exact ⟨_, hdb, of_decide_eq_true hP⟩

/-- The types of Redis. -/
inductive Kind where
  | string | list | hash | set | zset
  deriving DecidableEq, Repr

def Value.kind : Value → Kind
  | .string _ => .string
  | .list _ => .list
  | .hash _ => .hash
  | .set _ => .set
  | .zset _ => .zset

def Slot.kind : Slot → Kind
  | .fairQueue _ | .nonReadyQueue | .inFlightQueue => .zset
  | .groupJobs _ | .readyQueue | .deadLetterQueue | .groupJobResults _ => .list
  | .groupMeta _ | .job _ | .congestionStats _ | .groupResult _ | .inFlightMeta _ => .hash
  | .activeGroups | .watcherActiveGroups => .set
  | .congestionNonReadyCount _ | .lock _ | .rateLimit _ _ => .string

theorem kept_value {v : Value} {cell : Cell} (h : some cell = kept v) : cell.value = v ∧ v.isEmpty = false := by
  unfold kept at h
  split at h
  · cases h
  · rename_i he
    cases h
    exact ⟨rfl, eq_false_of_ne_true he⟩

theorem holds_value {p : String} {s : Store} {c : Slot} {cell : Cell} (h : c.Holds p s (some cell)) :
    cell.value.kind = c.kind ∧ cell.value.isEmpty = false := by
  cases c with
  | congestionNonReadyCount g =>
    obtain ⟨n, -, rfl⟩ := Option.map_eq_some_iff.mp (Eq.symm h)
    exact ⟨rfl, rfl⟩
  | lock k =>
    obtain ⟨token, -, rfl⟩ := Option.map_eq_some_iff.mp (Eq.symm h)
    exact ⟨rfl, rfl⟩
  | rateLimit g window =>
    rcases h with ⟨h, -⟩ | h
    · cases h
    · cases h
      exact ⟨rfl, rfl⟩
  | _ =>
    obtain ⟨hv, he⟩ := kept_value h
    rw [hv]
    exact ⟨rfl, he⟩

/-- Every key is one that `RedisKeyBuilder` gives, with a value of its type; exactly
the locks and the rate-limit counters have a TTL. `rate-limit:global:w` is one
slot, whichever of the two functions gives it. -/
theorem stored_cells {reg : Registry} (hreg : PositiveTtls reg) {c : State} (hc : (runs reg).Reachable c) {key : String}
    {cell : Cell} (h : c.world key = some cell) :
    ∃! slot : Slot, key = slot.key (keyPrefix reg) ∧ cell.value.kind = slot.kind ∧ cell.value.isEmpty = false ∧
      cell.expires = slot.hasTtl := by
  obtain ⟨s, hs, -⟩ := (keyspace_refines hreg).reachable (represents_empty _) hc
  obtain ⟨slot, hkey, hslot⟩ := hs.slot h
  obtain ⟨hkind, hempty⟩ := holds_value hslot
  refine ⟨slot, ⟨hkey, hkind, hempty, holds_expires hslot⟩, ?_⟩
  rintro slot' ⟨hkey', -⟩
  exact Slot.key_inj.mp (hkey'.symm.trans hkey)

/-- The hash of a job that was submitted. -/
theorem stored_cells_job : ∃ (c : State) (cell : Cell), c.world "bulk-action:job:j" = some cell ∧
    ∃! slot : Slot, "bulk-action:job:j" = slot.key "bulk-action:" ∧ cell.value.kind = slot.kind ∧
      cell.value.isEmpty = false ∧ cell.expires = slot.hasTtl := by
  obtain ⟨c, hr, hP⟩ := Core.Program.exists_of_replay (S := L4.pipeline {})
    (P := fun c : L4.State => decide ((c.world.jobs "j").id = some "j"))
    (show ((L4.pipeline {}).replay (fun _ _ => true) L4.initialState L4.oneJob).any _ = true by decide +kernel)
  obtain ⟨db, hdb, hreach⟩ := (keyspace_refines positiveTtls_default).realized (represents_empty _) hr.unrestrict
  have hcell : db "bulk-action:job:j" = kept (.hash (jobFields (c.world.jobs "j"))) := hdb.holds (.job "j")
  have hfull : (Value.hash (jobFields (c.world.jobs "j"))).isEmpty ≠ true := by
    intro he
    have hid := congrFun (Hash.isEmpty_iff.mp he) .id
    rw [jobFields, of_decide_eq_true hP] at hid
    cases hid
  rw [kept, if_neg hfull] at hcell
  exact ⟨⟨db, c.procs, c.log⟩, _, hcell, stored_cells positiveTtls_default hreach hcell⟩

end NestPlayground.L6
