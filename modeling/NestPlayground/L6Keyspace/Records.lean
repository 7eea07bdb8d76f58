import NestPlayground.L6Keyspace.Database

/-!
# Records as hashes

The records of the typed store as the hashes they are in Redis (`fields`), and
the two hashes that the services read back whole (`Hash.job`,
`Hash.groupMeta`).
-/
namespace NestPlayground.L1

/-- mirrors libs/bulk-action/src/model/job/type/JobStatus.ts:1-6 -/
def JobStatus.text : JobStatus → String
  | .pending => "PENDING"
  | .processing => "PROCESSING"
  | .completed => "COMPLETED"
  | .failed => "FAILED"

def JobStatus.ofText (s : String) : Option JobStatus :=
  [JobStatus.pending, .processing, .completed, .failed].find? (·.text = s)

theorem JobStatus.ofText_text (st : JobStatus) : JobStatus.ofText st.text = some st := by
  cases st <;> decide

/-- mirrors libs/bulk-action/src/model/job-group/type/GroupStatus.ts:1-8 -/
def GroupStatus.text : GroupStatus → String
  | .created => "CREATED"
  | .dispatched => "DISPATCHED"
  | .running => "RUNNING"
  | .aggregating => "AGGREGATING"
  | .completed => "COMPLETED"
  | .failed => "FAILED"

def GroupStatus.ofText (s : String) : Option GroupStatus :=
  [GroupStatus.created, .dispatched, .running, .aggregating, .completed, .failed].find? (·.text = s)

theorem GroupStatus.ofText_text (st : GroupStatus) : GroupStatus.ofText st.text = some st := by
  cases st <;> decide

theorem GroupStatus.text_inj {st st' : GroupStatus} : st.text = st'.text ↔ st = st' := by
  constructor
  · intro h
    have := congrArg GroupStatus.ofText h
    rwa [ofText_text, ofText_text, Option.some.injEq] at this
  · rintro rfl
    rfl

def PriorityLevel.ofText (s : String) : Option PriorityLevel :=
  [PriorityLevel.high, .normal, .low].find? (·.text = s)

theorem PriorityLevel.ofText_text (level : PriorityLevel) : PriorityLevel.ofText level.text = some level := by
  cases level <;> decide

end NestPlayground.L1

namespace NestPlayground.L6
open L1

/-! ## Writing -/

def nat (n : Nat) : Datum := .int n

def jobFields (h : JobHash) : Hash
  | .id => h.id.map .text
  | .groupId => h.groupId.map .text
  | .processorType => h.processorType.map .text
  | .payload => h.payload.map .text
  | .status => h.status.map fun st => .text st.text
  | .retryCount => h.retryCount.map nat
  | .createdAt => h.createdAt.map nat
  | _ => none

def metaFields (m : GroupMeta) : Hash
  | .basePriority => m.basePriority.map .number
  | .priorityLevel => m.priorityLevel.map fun level => .text level.text
  | .totalJobs => m.totalJobs.map nat
  | .doneJobs => m.doneJobs.map nat
  | .successCount => m.successCount.map nat
  | .failedCount => m.failedCount.map nat
  | .registeredJobs => m.registeredJobs.map nat
  | .status => m.status.map fun st => .text st.text
  | .processorType => m.processorType.map .text
  | .createdAt => m.createdAt.map nat
  | .firstJobStartedAt => m.firstJobStartedAt.map nat
  | .lastUpdatedAt => m.lastUpdatedAt.map nat
  | .aggregationStartAt => m.aggregationStartAt.map nat
  | .completedAt => m.completedAt.map nat
  | .failedAt => m.failedAt.map nat
  | .timeoutAt => m.timeoutAt.map nat
  | _ => none

def inFlightFields (m : InFlightMeta) : Hash
  | .jobId => m.jobId.map .text
  | .workerId => m.workerId.map .text
  | .instanceId => m.instanceId.map .text
  | .deadline => m.deadline.map nat
  | .dequeuedAt => m.dequeuedAt.map nat
  | .retryCount => m.retryCount.map nat
  | .groupId => m.groupId.map .text
  | _ => none

def statsFields (c : CongestionStats) : Hash
  | .currentNonReadyCount => c.currentNonReadyCount.map nat
  | .lastBackoffMs => c.lastBackoffMs.map nat
  | .rateLimitSpeed => c.rateLimitSpeed.map nat
  | .lastUpdatedMs => c.lastUpdatedMs.map nat
  | _ => none

def resultFields (r : GroupResult) : Hash
  | .result => r.result.map .aggregated
  | .aggregatedAt => r.aggregatedAt.map nat
  | _ => none

/-! ## Reading -/

namespace Hash

def text? (h : Hash) (f : Field) : Option String := (h f).bind Datum.text?

def nat? (h : Hash) (f : Field) : Option Nat := (h f).bind Datum.nat?

/-- mirrors libs/bulk-action/src/fair-queue/FairQueueService.ts:132-140 -/
def job (h : Hash) : JobHash where
  id := h.text? .id
  groupId := h.text? .groupId
  processorType := h.text? .processorType
  payload := h.text? .payload
  status := (h.text? .status).bind JobStatus.ofText
  retryCount := h.nat? .retryCount
  createdAt := h.nat? .createdAt

def groupMeta (h : Hash) : GroupMeta where
  basePriority := (h .basePriority).bind Datum.number?
  priorityLevel := (h.text? .priorityLevel).bind PriorityLevel.ofText
  totalJobs := h.nat? .totalJobs
  doneJobs := h.nat? .doneJobs
  successCount := h.nat? .successCount
  failedCount := h.nat? .failedCount
  registeredJobs := h.nat? .registeredJobs
  status := (h.text? .status).bind GroupStatus.ofText
  processorType := h.text? .processorType
  createdAt := h.nat? .createdAt
  firstJobStartedAt := h.nat? .firstJobStartedAt
  lastUpdatedAt := h.nat? .lastUpdatedAt
  aggregationStartAt := h.nat? .aggregationStartAt
  completedAt := h.nat? .completedAt
  failedAt := h.nat? .failedAt
  timeoutAt := h.nat? .timeoutAt

end Hash

/-! ## Round trips -/

section
variable {α : Type} (item : α → Datum) (item? : Datum → Option α) (h : ∀ a, item? (item a) = some a)
include h

theorem bind_item (o : Option α) : (o.map item).bind item? = o := by
  cases o with
  | none => rfl
  | some a => exact h a

theorem filterMap_item (xs : List α) : (xs.map item).filterMap item? = xs := by
  rw [List.filterMap_map, show item? ∘ item = some from funext h, List.filterMap_some]

end

theorem bind_text (o : Option String) : (o.map Datum.text).bind Datum.text? = o :=
  bind_item Datum.text Datum.text? (fun _ => rfl) o

theorem bind_nat (o : Option Nat) : (o.map nat).bind Datum.nat? = o :=
  bind_item nat Datum.nat? (fun _ => rfl) o

theorem bind_number (o : Option ℚ) : (o.map Datum.number).bind Datum.number? = o :=
  bind_item Datum.number Datum.number? (fun _ => rfl) o

/-- An enumeration is read back from its text. -/
theorem bind_ofText {α : Type} {text : α → String} {ofText : String → Option α}
    (h : ∀ a, ofText (text a) = some a) (o : Option α) :
    ((o.map fun a => Datum.text (text a)).bind Datum.text?).bind ofText = o := by
  cases o with
  | none => rfl
  | some a => exact h a

@[simp] theorem job_jobFields (h : JobHash) : (jobFields h).job = h := by
  cases h
  simp only [Hash.job, Hash.text?, Hash.nat?, jobFields, bind_text, bind_nat, bind_ofText JobStatus.ofText_text]

@[simp] theorem groupMeta_metaFields (m : GroupMeta) : (metaFields m).groupMeta = m := by
  cases m
  simp only [Hash.groupMeta, Hash.text?, Hash.nat?, metaFields, bind_text, bind_nat, bind_number,
    bind_ofText PriorityLevel.ofText_text, bind_ofText GroupStatus.ofText_text]

/-- The metadata hash is missing if the record has no field. -/
theorem inFlightFields_isEmpty {m : InFlightMeta} : (inFlightFields m).isEmpty = true ↔ m = {} := by
  rw [Hash.isEmpty_iff]
  constructor
  · intro h
    have hnone : ∀ {α : Type} {o : Option α} {g : α → Datum} (f : Field), inFlightFields m f = o.map g → o = none :=
      fun f hf => Option.map_eq_none_iff.mp (hf.symm.trans (congrFun h f))
    cases m
    rw [InFlightMeta.mk.injEq]
    exact ⟨hnone .jobId rfl, hnone .workerId rfl, hnone .instanceId rfl, hnone .deadline rfl, hnone .dequeuedAt rfl,
      hnone .retryCount rfl, hnone .groupId rfl⟩
  · rintro rfl
    funext f
    cases f <;> rfl

end NestPlayground.L6
