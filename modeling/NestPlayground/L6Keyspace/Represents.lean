import NestPlayground.L5Properties.KeySpace
import NestPlayground.L6Keyspace.Calls
import Mathlib.Data.Rat.Cast.Order

/-!
# The database of a store

`Slot` lists the keys in use by what names them; different slots have different
keys (`Slot.key_inj`). `Represents` says slot by slot what a database holds for
a typed store, which keys have a TTL, and that there is no other key. A `Place`
is a slot as a part of the store, with what reading and writing it means on
both sides; its rules turn a run of a command into a `Simulates`.
-/
namespace NestPlayground.L6
open L1 L3 L5.KeySpace Redis

/-! ## Keys -/

/-- The keys in use. -/
inductive Slot where
  | fairQueue (level : PriorityLevel)
  | groupJobs (g : GroupId)
  | groupMeta (g : GroupId)
  | job (j : JobId)
  | readyQueue
  | nonReadyQueue
  | activeGroups
  | congestionNonReadyCount (g : GroupId)
  | congestionStats (g : GroupId)
  | deadLetterQueue
  | groupResult (g : GroupId)
  | groupJobResults (g : GroupId)
  | inFlightQueue
  | inFlightMeta (j : JobId)
  | watcherActiveGroups
  | lock (k : LockKey)
  | rateLimit (g : GroupId) (window : Nat)
  deriving DecidableEq

namespace Slot

/-- The global counter is the counter of the group `global`. -/
def call : Slot → KeyCall
  | fairQueue level => ⟨.fairQueue, level⟩
  | groupJobs g => ⟨.groupJobs, g⟩
  | groupMeta g => ⟨.groupMeta, g⟩
  | job j => ⟨.job, j⟩
  | readyQueue => ⟨.readyQueue, ()⟩
  | nonReadyQueue => ⟨.nonReadyQueue, ()⟩
  | activeGroups => ⟨.activeGroups, ()⟩
  | congestionNonReadyCount g => ⟨.congestionNonReadyCount, g⟩
  | congestionStats g => ⟨.congestionStats, g⟩
  | deadLetterQueue => ⟨.deadLetterQueue, ()⟩
  | groupResult g => ⟨.groupResult, g⟩
  | groupJobResults g => ⟨.groupJobResults, g⟩
  | inFlightQueue => ⟨.inFlightQueue, ()⟩
  | inFlightMeta j => ⟨.inFlightMeta, j⟩
  | watcherActiveGroups => ⟨.watcherActiveGroups, ()⟩
  | lock (.transition g) => ⟨.groupTransitionLock, g⟩
  | lock (.aggregation g) => ⟨.groupAggregationLock, g⟩
  | rateLimit g window => ⟨.rateLimitGroup, (g, window)⟩

def key (keyPrefix : String) (c : Slot) : String := c.call.key keyPrefix

/-- The slot a key function gives the key of. -/
def ofCall : KeyCall → Option Slot
  | ⟨.fairQueue, level⟩ => some (fairQueue level)
  | ⟨.groupJobs, g⟩ => some (groupJobs g)
  | ⟨.groupMeta, g⟩ => some (groupMeta g)
  | ⟨.job, j⟩ => some (job j)
  | ⟨.readyQueue, _⟩ => some readyQueue
  | ⟨.nonReadyQueue, _⟩ => some nonReadyQueue
  | ⟨.activeGroups, _⟩ => some activeGroups
  | ⟨.congestionNonReadyCount, g⟩ => some (congestionNonReadyCount g)
  | ⟨.congestionStats, g⟩ => some (congestionStats g)
  | ⟨.deadLetterQueue, _⟩ => some deadLetterQueue
  | ⟨.groupResult, g⟩ => some (groupResult g)
  | ⟨.groupJobResults, g⟩ => some (groupJobResults g)
  | ⟨.inFlightQueue, _⟩ => some inFlightQueue
  | ⟨.inFlightMeta, j⟩ => some (inFlightMeta j)
  | ⟨.watcherActiveGroups, _⟩ => some watcherActiveGroups
  | ⟨.groupTransitionLock, g⟩ => some (lock (.transition g))
  | ⟨.groupAggregationLock, g⟩ => some (lock (.aggregation g))
  | ⟨.rateLimitGroup, (g, window)⟩ => some (rateLimit g window)
  | _ => none

theorem ofCall_call (c : Slot) : ofCall c.call = some c := by
  cases c with
  | lock k => cases k <;> rfl
  | _ => rfl

theorem call_inj {c c' : Slot} (h : c.call = c'.call) : c = c' := by
  have := congrArg ofCall h
  rwa [ofCall_call, ofCall_call, Option.some.injEq] at this

/-- The global counter apart, one key means one function and one argument. -/
theorem keyCall_inj {keyPrefix : String} {c c' : KeyCall} (hc : c.1.rateLimits = true → c.1 = .rateLimitGroup)
    (hc' : c'.1.rateLimits = true → c'.1 = .rateLimitGroup) (h : c.key keyPrefix = c'.key keyPrefix) : c = c' := by
  obtain ⟨f, a⟩ := c
  obtain ⟨f', a'⟩ := c'
  by_cases hf : f = f'
  · subst hf
    exact congrArg (Sigma.mk f) (L5.KeySpace.key_inj.mp h)
  · exact absurd h (key_ne hf (fun hr => hf ((hc hr.1).trans (hc' hr.2).symm)) a a')

theorem call_rateLimits {c : Slot} (h : c.call.1.rateLimits = true) : c.call.1 = .rateLimitGroup := by
  cases c with
  | lock k => cases k <;> cases h
  | rateLimit g window => rfl
  | _ => cases h

theorem key_inj {keyPrefix : String} {c c' : Slot} : c.key keyPrefix = c'.key keyPrefix ↔ c = c' := by
  constructor
  · exact fun h => call_inj (keyCall_inj call_rateLimits call_rateLimits h)
  · rintro rfl
    rfl

end Slot

/-! ## What is under the keys -/

/-- A value without a TTL; nothing empty is kept. -/
def kept (v : Value) : Option Cell := if v.isEmpty then none else some ⟨v, false⟩

/-- A number under a key, `none` if the key is missing. -/
def countCell (n : Option Nat) : Option Cell := n.map fun n => ⟨.string (nat n), false⟩

def lockCell (owner : Option String) : Option Cell := owner.map fun token => ⟨.string (.text token), true⟩

/-- A missing counter stands for 0. -/
def CounterCell (n : Nat) (cell : Option Cell) : Prop :=
  cell = none ∧ n = 0 ∨ cell = some ⟨.string (nat n), true⟩

theorem strictMono_score : StrictMono (Nat.cast : Nat → ℚ) := Nat.strictMono_cast

/-- Due times and deadlines as scores. -/
def scores (z : Core.ZSet JobId Nat) : Core.ZSet String ℚ := z.mapScore Nat.cast strictMono_score

/-- `cell` is what the store `s` has under the key. -/
def Slot.Holds (keyPrefix : String) (s : Store) : Slot → Option Cell → Prop
  | .fairQueue level, cell => cell = kept (.zset (s.fairQueue level))
  | .groupJobs g, cell => cell = kept (.list ((s.groupJobs g).map .text))
  | .groupMeta g, cell => cell = kept (.hash (metaFields (s.groupMeta g)))
  | .job j, cell => cell = kept (.hash (jobFields (s.jobs j)))
  | .readyQueue, cell => cell = kept (.list (s.readyQueue.map .text))
  | .nonReadyQueue, cell => cell = kept (.zset (scores s.nonReadyQueue))
  | .activeGroups, cell => cell = kept (.set s.activeGroups)
  | .congestionNonReadyCount g, cell => cell = countCell (s.congestionNonReadyCount g)
  | .congestionStats g, cell => cell = kept (.hash (statsFields (s.congestionStats g)))
  | .deadLetterQueue, cell => cell = kept (.list (s.deadLetterQueue.map .deadLetter))
  | .groupResult g, cell => cell = kept (.hash (resultFields (s.groupResult g)))
  | .groupJobResults g, cell => cell = kept (.list ((s.groupJobResults g).map .response))
  | .inFlightQueue, cell => cell = kept (.zset (scores s.inFlightQueue))
  | .inFlightMeta j, cell => cell = kept (.hash (inFlightFields (s.inFlightMeta j)))
  | .watcherActiveGroups, cell => cell = kept (.set s.watcherActiveGroups)
  | .lock k, cell => cell = lockCell (s.locks k)
  | .rateLimit g window, cell => CounterCell (s.rateLimit (rateLimitGroup keyPrefix g window)) cell

/-- The database holds the store and nothing else. -/
structure Represents (keyPrefix : String) (s : Store) (db : Database) : Prop where
  holds : ∀ c : Slot, c.Holds keyPrefix s (db (c.key keyPrefix))
  only : ∀ key, (∀ c : Slot, key ≠ c.key keyPrefix) → db key = none

theorem represents_empty (keyPrefix : String) : Represents keyPrefix .empty .empty where
  holds c := by
    cases c with
    | rateLimit g window => exact .inl ⟨rfl, rfl⟩
    | _ => rfl
  only _ _ := rfl

section
variable {keyPrefix : String} {s s' : Store} {db : Database}

/-- Writing one slot. -/
theorem Represents.write (h : Represents keyPrefix s db) {c : Slot} {cell : Option Cell}
    (hself : c.Holds keyPrefix s' cell)
    (hframe : ∀ c' ≠ c, ∀ cell, c'.Holds keyPrefix s cell → c'.Holds keyPrefix s' cell) :
    Represents keyPrefix s' (Function.update db (c.key keyPrefix) cell) where
  holds c' := by
    by_cases hc : c' = c
    · rw [hc, Function.update_self]
      exact hself
    · rw [Function.update_of_ne (mt Slot.key_inj.mp hc)]
      exact hframe c' hc _ (h.holds c')
  only key hkey := by
    rw [Function.update_of_ne (hkey c)]
    exact h.only key hkey

theorem Represents.writeCounter (h : Represents keyPrefix s db) (g : GroupId) (window : Nat) {n : Nat}
    {cell : Option Cell} (hcell : CounterCell n cell) :
    Represents keyPrefix { s with rateLimit := Function.update s.rateLimit (rateLimitGroup keyPrefix g window) n }
      (Function.update db (rateLimitGroup keyPrefix g window) cell) := by
  refine h.write (c := .rateLimit g window) ?_ ?_
  · simp only [Slot.Holds, Function.update_self]
    exact hcell
  · intro c hc cell h
    cases c with
    | rateLimit g' window' =>
      have hne : rateLimitGroup keyPrefix g' window' ≠ rateLimitGroup keyPrefix g window :=
        mt (@Slot.key_inj keyPrefix (.rateLimit g' window') (.rateLimit g window)).mp hc
      simpa only [Slot.Holds, Function.update_of_ne hne] using h
    | _ => exact h

end

/-! ## Places -/

/-- A slot as a part of the store. -/
structure Place (keyPrefix : String) (α : Type) where
  slot : Slot
  get : Store → α
  set : Store → α → Store
  cell : α → Option Cell
  holds : ∀ s cell', slot.Holds keyPrefix s cell' ↔ cell' = cell (get s)
  get_set : ∀ s a, get (set s a) = a
  set_set : ∀ s a a', set (set s a) a' = set s a'
  set_get : ∀ s, set s (get s) = s
  frame : ∀ s a, ∀ c ≠ slot, ∀ cell', c.Holds keyPrefix s cell' → c.Holds keyPrefix (set s a) cell'

namespace Place
variable {keyPrefix : String} {α β : Type} {s : Store} {m : Redis β} {b : β}

def key (P : Place keyPrefix α) : String := P.slot.key keyPrefix

/-- A command that reads the place. -/
theorem reads (P : Place keyPrefix α) (hm : ∀ db, db P.key = P.cell (P.get s) → m.run db = .ok b db) :
    Core.Simulates (Represents keyPrefix) m s (s, b) :=
  fun db h => ⟨db, hm db ((P.holds s _).mp (h.holds P.slot)), h⟩

/-- A command that writes the place. -/
theorem writes (P : Place keyPrefix α) (a : α)
    (hm : ∀ db, db P.key = P.cell (P.get s) → m.run db = .ok b (Function.update db P.key (P.cell a))) :
    Core.Simulates (Represents keyPrefix) m s (P.set s a, b) := by
  intro db h
  refine ⟨_, hm db ((P.holds s _).mp (h.holds P.slot)), h.write ?_ (P.frame s a)⟩
  rw [P.holds, P.get_set]

/-- A place for each index of a family of slots. -/
def family {ι : Type} [DecidableEq ι] (slot : ι → Slot) (get : Store → ι → α) (set : Store → (ι → α) → Store)
    (cell : α → Option Cell) (holds : ∀ s i cell', (slot i).Holds keyPrefix s cell' ↔ cell' = cell (get s i))
    (get_set : ∀ s f, get (set s f) = f) (set_set : ∀ s f f', set (set s f) f' = set s f')
    (set_get : ∀ s, set s (get s) = s)
    (frame : ∀ s f c, (∀ i, c ≠ slot i) → ∀ cell', c.Holds keyPrefix s cell' → c.Holds keyPrefix (set s f) cell')
    (i : ι) : Place keyPrefix α where
  slot := slot i
  get s := get s i
  set s a := set s (Function.update (get s) i a)
  cell := cell
  holds s := holds s i
  get_set s a := by rw [get_set, Function.update_self]
  set_set s a a' := by rw [get_set, set_set, Function.update_idem]
  set_get s := by rw [Function.update_eq_self, set_get]
  frame s a c hc cell' h := by
    by_cases hs : ∃ i', c = slot i'
    · obtain ⟨i', rfl⟩ := hs
      have hne : i' ≠ i := fun he => hc (congrArg slot he)
      rw [holds] at h ⊢
      rw [get_set, Function.update_of_ne hne]
      exact h
    · exact frame s _ c (fun i' he => hs ⟨i', he⟩) cell' h

end Place

/-- A hash. -/
structure HashPlace (keyPrefix : String) (α : Type) extends Place keyPrefix α where
  fields : α → Hash
  cell_eq : ∀ a, cell a = kept (.hash (fields a))

/-- A list. -/
structure ListPlace (keyPrefix : String) (α : Type) extends Place keyPrefix (List α) where
  item : α → Datum
  cell_eq : ∀ xs, cell xs = kept (.list (xs.map item))

/-- A set of groups. -/
structure SetPlace (keyPrefix : String) extends Place keyPrefix (List GroupId) where
  cell_eq : ∀ xs, cell xs = kept (.set xs)

/-- A sorted set of jobs, scored by times. -/
structure TimedPlace (keyPrefix : String) extends Place keyPrefix (Core.ZSet JobId Nat) where
  cell_eq : ∀ z, cell z = kept (.zset (scores z))

section
variable (keyPrefix : String)

def fairQueueAt (level : PriorityLevel) : Place keyPrefix (Core.ZSet GroupId ℚ) :=
  .family .fairQueue Store.fairQueue (fun s f => { s with fairQueue := f }) (fun z => kept (.zset z))
    (fun _ _ _ => Iff.rfl) (fun _ _ => rfl) (fun _ _ _ => rfl) (fun _ => rfl)
    (fun _ _ c hc _ h => by cases c with | fairQueue i => exact absurd rfl (hc i) | _ => exact h) level

def groupJobsAt (g : GroupId) : ListPlace keyPrefix JobId where
  toPlace := .family .groupJobs Store.groupJobs (fun s f => { s with groupJobs := f })
    (fun xs => kept (.list (xs.map .text))) (fun _ _ _ => Iff.rfl) (fun _ _ => rfl) (fun _ _ _ => rfl) (fun _ => rfl)
    (fun _ _ c hc _ h => by cases c with | groupJobs i => exact absurd rfl (hc i) | _ => exact h) g
  item := .text
  cell_eq _ := rfl

def metaAt (g : GroupId) : HashPlace keyPrefix GroupMeta where
  toPlace := .family .groupMeta Store.groupMeta (fun s f => { s with groupMeta := f })
    (fun m => kept (.hash (metaFields m))) (fun _ _ _ => Iff.rfl) (fun _ _ => rfl) (fun _ _ _ => rfl) (fun _ => rfl)
    (fun _ _ c hc _ h => by cases c with | groupMeta i => exact absurd rfl (hc i) | _ => exact h) g
  fields := metaFields
  cell_eq _ := rfl

def jobAt (j : JobId) : HashPlace keyPrefix JobHash where
  toPlace := .family .job Store.jobs (fun s f => { s with jobs := f })
    (fun h => kept (.hash (jobFields h))) (fun _ _ _ => Iff.rfl) (fun _ _ => rfl) (fun _ _ _ => rfl) (fun _ => rfl)
    (fun _ _ c hc _ h => by cases c with | job i => exact absurd rfl (hc i) | _ => exact h) j
  fields := jobFields
  cell_eq _ := rfl

def countAt (g : GroupId) : Place keyPrefix (Option Nat) :=
  .family .congestionNonReadyCount Store.congestionNonReadyCount (fun s f => { s with congestionNonReadyCount := f })
    countCell (fun _ _ _ => Iff.rfl) (fun _ _ => rfl) (fun _ _ _ => rfl) (fun _ => rfl)
    (fun _ _ c hc _ h => by cases c with | congestionNonReadyCount i => exact absurd rfl (hc i) | _ => exact h) g

def statsAt (g : GroupId) : HashPlace keyPrefix CongestionStats where
  toPlace := .family .congestionStats Store.congestionStats (fun s f => { s with congestionStats := f })
    (fun c => kept (.hash (statsFields c))) (fun _ _ _ => Iff.rfl) (fun _ _ => rfl) (fun _ _ _ => rfl) (fun _ => rfl)
    (fun _ _ c hc _ h => by cases c with | congestionStats i => exact absurd rfl (hc i) | _ => exact h) g
  fields := statsFields
  cell_eq _ := rfl

def resultAt (g : GroupId) : HashPlace keyPrefix GroupResult where
  toPlace := .family .groupResult Store.groupResult (fun s f => { s with groupResult := f })
    (fun r => kept (.hash (resultFields r))) (fun _ _ _ => Iff.rfl) (fun _ _ => rfl) (fun _ _ _ => rfl) (fun _ => rfl)
    (fun _ _ c hc _ h => by cases c with | groupResult i => exact absurd rfl (hc i) | _ => exact h) g
  fields := resultFields
  cell_eq _ := rfl

def jobResultsAt (g : GroupId) : ListPlace keyPrefix JobProcessorResponse where
  toPlace := .family .groupJobResults Store.groupJobResults (fun s f => { s with groupJobResults := f })
    (fun xs => kept (.list (xs.map .response))) (fun _ _ _ => Iff.rfl) (fun _ _ => rfl) (fun _ _ _ => rfl) (fun _ => rfl)
    (fun _ _ c hc _ h => by cases c with | groupJobResults i => exact absurd rfl (hc i) | _ => exact h) g
  item := .response
  cell_eq _ := rfl

def inFlightMetaAt (j : JobId) : HashPlace keyPrefix InFlightMeta where
  toPlace := .family .inFlightMeta Store.inFlightMeta (fun s f => { s with inFlightMeta := f })
    (fun m => kept (.hash (inFlightFields m))) (fun _ _ _ => Iff.rfl) (fun _ _ => rfl) (fun _ _ _ => rfl) (fun _ => rfl)
    (fun _ _ c hc _ h => by cases c with | inFlightMeta i => exact absurd rfl (hc i) | _ => exact h) j
  fields := inFlightFields
  cell_eq _ := rfl

def lockAt (k : LockKey) : Place keyPrefix (Option String) :=
  .family .lock Store.locks (fun s f => { s with locks := f }) lockCell (fun _ _ _ => Iff.rfl) (fun _ _ => rfl)
    (fun _ _ _ => rfl) (fun _ => rfl)
    (fun _ _ c hc _ h => by cases c with | lock i => exact absurd rfl (hc i) | _ => exact h) k

def readyAt : ListPlace keyPrefix JobId where
  slot := .readyQueue
  get := Store.readyQueue
  set s xs := { s with readyQueue := xs }
  cell xs := kept (.list (xs.map .text))
  holds _ _ := Iff.rfl
  get_set _ _ := rfl
  set_set _ _ _ := rfl
  set_get _ := rfl
  frame _ _ c hc _ h := by cases c with | readyQueue => exact absurd rfl hc | _ => exact h
  item := .text
  cell_eq _ := rfl

def nonReadyAt : TimedPlace keyPrefix where
  slot := .nonReadyQueue
  get := Store.nonReadyQueue
  set s z := { s with nonReadyQueue := z }
  cell z := kept (.zset (scores z))
  holds _ _ := Iff.rfl
  get_set _ _ := rfl
  set_set _ _ _ := rfl
  set_get _ := rfl
  frame _ _ c hc _ h := by cases c with | nonReadyQueue => exact absurd rfl hc | _ => exact h
  cell_eq _ := rfl

def inFlightAt : TimedPlace keyPrefix where
  slot := .inFlightQueue
  get := Store.inFlightQueue
  set s z := { s with inFlightQueue := z }
  cell z := kept (.zset (scores z))
  holds _ _ := Iff.rfl
  get_set _ _ := rfl
  set_set _ _ _ := rfl
  set_get _ := rfl
  frame _ _ c hc _ h := by cases c with | inFlightQueue => exact absurd rfl hc | _ => exact h
  cell_eq _ := rfl

def deadLettersAt : ListPlace keyPrefix DeadLetterEntry where
  slot := .deadLetterQueue
  get := Store.deadLetterQueue
  set s xs := { s with deadLetterQueue := xs }
  cell xs := kept (.list (xs.map .deadLetter))
  holds _ _ := Iff.rfl
  get_set _ _ := rfl
  set_set _ _ _ := rfl
  set_get _ := rfl
  frame _ _ c hc _ h := by cases c with | deadLetterQueue => exact absurd rfl hc | _ => exact h
  item := .deadLetter
  cell_eq _ := rfl

def activeAt : SetPlace keyPrefix where
  slot := .activeGroups
  get := Store.activeGroups
  set s xs := { s with activeGroups := xs }
  cell xs := kept (.set xs)
  holds _ _ := Iff.rfl
  get_set _ _ := rfl
  set_set _ _ _ := rfl
  set_get _ := rfl
  frame _ _ c hc _ h := by cases c with | activeGroups => exact absurd rfl hc | _ => exact h
  cell_eq _ := rfl

def watcherAt : SetPlace keyPrefix where
  slot := .watcherActiveGroups
  get := Store.watcherActiveGroups
  set s xs := { s with watcherActiveGroups := xs }
  cell xs := kept (.set xs)
  holds _ _ := Iff.rfl
  get_set _ _ := rfl
  set_set _ _ _ := rfl
  set_get _ := rfl
  frame _ _ c hc _ h := by cases c with | watcherActiveGroups => exact absurd rfl hc | _ => exact h
  cell_eq _ := rfl

end
end NestPlayground.L6
