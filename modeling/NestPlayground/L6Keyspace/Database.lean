import NestPlayground.L1Model.Keys
import NestPlayground.L3Services.Redis

/-!
# The keyspace

Redis as the program finds it: one space of string keys, under each of them a
value of one of five types and perhaps a TTL. A command on a value of another
type is an error, a collection that becomes empty takes its key with it, and a
failed script keeps what it has written. A stored text is kept as what it is
the text of (`Datum`); a command that reads a number or an id fails on anything
else, so this model fails wherever Redis and Lua do, and in some places where
they would go on. A command replies with what some caller reads of its reply.
-/
namespace NestPlayground.L6
open L1

/-! ## Values -/

/-- The field names in use. -/
inductive Field where
  | id | groupId | processorType | payload | status | retryCount | createdAt
  | basePriority | priorityLevel | totalJobs | doneJobs | successCount | failedCount | registeredJobs
  | firstJobStartedAt | lastUpdatedAt | aggregationStartAt | completedAt | failedAt | timeoutAt
  | jobId | workerId | instanceId | deadline | dequeuedAt
  | currentNonReadyCount | lastBackoffMs | rateLimitSpeed | lastUpdatedMs
  | result | aggregatedAt
  deriving DecidableEq, Repr

namespace Field

def all : List Field :=
  [id, groupId, processorType, payload, status, retryCount, createdAt,
    basePriority, priorityLevel, totalJobs, doneJobs, successCount, failedCount, registeredJobs,
    firstJobStartedAt, lastUpdatedAt, aggregationStartAt, completedAt, failedAt, timeoutAt,
    jobId, workerId, instanceId, deadline, dequeuedAt,
    currentNonReadyCount, lastBackoffMs, rateLimitSpeed, lastUpdatedMs,
    result, aggregatedAt]

theorem mem_all (f : Field) : f ∈ all := by
  cases f <;> decide

end Field

/-- What a stored text is the text of. -/
inductive Datum where
  | text (s : String)
  | int (n : Int)
  | number (q : ℚ)
  | response (r : JobProcessorResponse)
  | deadLetter (e : DeadLetterEntry)
  | aggregated (r : AggregatedResult)
  deriving DecidableEq

namespace Datum

def text? : Datum → Option String
  | text s => some s
  | _ => none

def nat? : Datum → Option Nat
  | int n => some n.toNat
  | _ => none

def number? : Datum → Option ℚ
  | number q => some q
  | _ => none

def response? : Datum → Option JobProcessorResponse
  | response r => some r
  | _ => none

def deadLetter? : Datum → Option DeadLetterEntry
  | deadLetter e => some e
  | _ => none

end Datum

abbrev Hash := Field → Option Datum

namespace Hash

def empty : Hash := fun _ => none

def isEmpty (h : Hash) : Bool := Field.all.all fun f => (h f).isNone

def set (h : Hash) (p : Field × Datum) : Hash := Function.update h p.1 (some p.2)

theorem isEmpty_iff {h : Hash} : h.isEmpty = true ↔ h = empty := by
  simp only [isEmpty, List.all_eq_true, Option.isNone_iff_eq_none]
  exact ⟨fun hn => funext fun f => hn f f.mem_all, fun he f _ => by rw [he, empty]⟩

end Hash

inductive Value where
  | string (d : Datum)
  | list (xs : List Datum)
  | hash (h : Hash)
  | set (xs : List String)
  | zset (z : Core.ZSet String ℚ)

namespace Value

def string? : Value → Option Datum
  | string d => some d
  | _ => none

def list? : Value → Option (List Datum)
  | list xs => some xs
  | _ => none

def hash? : Value → Option Hash
  | hash h => some h
  | _ => none

def set? : Value → Option (List String)
  | set xs => some xs
  | _ => none

def zset? : Value → Option (Core.ZSet String ℚ)
  | zset z => some z
  | _ => none

def isEmpty : Value → Bool
  | string _ => false
  | list xs => xs.isEmpty
  | hash h => h.isEmpty
  | set xs => xs.isEmpty
  | zset z => z.entries.isEmpty

end Value

/-- What is stored under a key; `expires` tells that it has a TTL. -/
structure Cell where
  value : Value
  expires : Bool := false

abbrev Database := String → Option Cell

namespace Database

def empty : Database := fun _ => none

/-- A key with a TTL may vanish at any moment, no other does. -/
def expire (key : String) (db : Database) : Database :=
  if (db key).any Cell.expires then Function.update db key none else db

end Database

/-! ## Commands -/

inductive Fault where
  /-- `WRONGTYPE Operation against a key holding the wrong kind of value` -/
  | wrongType
  /-- `value is not an integer`, and arithmetic on `nil` -/
  | notANumber
  /-- a number or a document where an id is expected -/
  | notAText
  /-- `invalid expire time` -/
  | invalidExpire
  /-- a script that does not end -/
  | looping
  deriving DecidableEq, Repr

abbrev Redis := EStateM Fault Database

namespace Redis

/-- The value under a key, which the command needs to be of one type. -/
def fetch {α : Type} (kind : Value → Option α) (key : String) : Redis (Option α) := do
  match (← get) key with
  | none => return none
  | some cell =>
    match kind cell.value with
    | some a => return some a
    | none => throw .wrongType

/-- A write keeps the TTL; nothing empty is kept. -/
def put (key : String) (v : Value) : Redis Unit :=
  modify fun db =>
    Function.update db key (if v.isEmpty then none else some ⟨v, (db key).any Cell.expires⟩)

/-- A number that a command or `tonumber(… or '0')` reads. -/
def integer : Option Datum → Redis Int
  | none => return 0
  | some (.int n) => return n
  | some _ => throw .notANumber

/-- The same where fractions are stored. -/
def tonumber : Option Datum → Redis ℚ
  | none => return 0
  | some (.int n) => return n
  | some (.number q) => return q
  | some _ => throw .notANumber

def text : Datum → Redis String
  | .text s => return s
  | _ => throw .notAText

-- Strings

def getString (key : String) : Redis (Option Datum) := fetch Value.string? key

/-- `SET` drops the TTL. -/
def setString (key : String) (d : Datum) : Redis Unit :=
  modify fun db => Function.update db key (some ⟨.string d, false⟩)

/-- `SET … NX PX` -/
def setNxPx (key : String) (d : Datum) (ttlMs : Nat) : Redis Bool := do
  if ttlMs = 0 then throw .invalidExpire
  else
    match (← get) key with
    | some _ => return false
    | none =>
      modify fun db => Function.update db key (some ⟨.string d, true⟩)
      return true

/-- `INCR`, and with a negative number `DECR` and `DECRBY`. -/
def incrby (key : String) (n : Int) : Redis Int := do
  let value ← integer (← fetch Value.string? key)
  put key (.string (.int (value + n)))
  return value + n

/-- `EXPIRE` deletes the key at once if no second is left. -/
def expire (key : String) (ttlSec : Nat) : Redis Unit :=
  modify fun db =>
    Function.update db key (if ttlSec = 0 then none else (db key).map fun cell => { cell with expires := true })

def del (keys : List String) : Redis Unit := modify fun db => keys.foldl (fun db key => Function.update db key none) db

-- Hashes

def hgetall (key : String) : Redis Hash := return (← fetch Value.hash? key).getD Hash.empty

def hget (key : String) (field : Field) : Redis (Option Datum) := return (← hgetall key) field

def hset (key : String) (pairs : List (Field × Datum)) : Redis Unit := do
  put key (.hash (pairs.foldl Hash.set (← hgetall key)))

def hsetnx (key : String) (field : Field) (d : Datum) : Redis Unit := do
  let h ← hgetall key
  put key (.hash (h.set (field, (h field).getD d)))

def hincrby (key : String) (field : Field) (n : Int) : Redis Int := do
  let h ← hgetall key
  let value ← integer (h field)
  put key (.hash (h.set (field, .int (value + n))))
  return value + n

-- Lists

def elements (key : String) : Redis (List Datum) := return (← fetch Value.list? key).getD []

def llen (key : String) : Redis Nat := return (← elements key).length

def rpush (key : String) (d : Datum) : Redis Unit := do
  put key (.list ((← elements key) ++ [d]))

def lpop (key : String) : Redis (Option Datum) := do
  let xs ← elements key
  put key (.list xs.tail)
  return xs.head?

/-- A negative index counts from the end. -/
def lrange (key : String) (start stop : Int) : Redis (List Datum) := do
  let xs ← elements key
  let first := max 0 (if start < 0 then xs.length + start else start)
  let last := if stop < 0 then xs.length + stop else stop
  return (xs.drop first.toNat).take (last + 1 - first).toNat

-- Sets

def elementsOfSet (key : String) : Redis (List String) := return (← fetch Value.set? key).getD []

def scard (key : String) : Redis Nat := return (← elementsOfSet key).length

def sadd (key member : String) : Redis Unit := do
  put key (.set (Store.sadd (← elementsOfSet key) member))

def srem (key member : String) : Redis Unit := do
  put key (.set (Store.srem (← elementsOfSet key) member))

/-- `order` is the order Redis lists the set in. -/
def smembers (key : String) (order : List String) : Redis (List String) :=
  return L3.listing order (← elementsOfSet key)

-- Sorted sets

def sorted (key : String) : Redis (Core.ZSet String ℚ) := return (← fetch Value.zset? key).getD .empty

def zcard (key : String) : Redis Nat := return (← sorted key).card

def zadd (key : String) (score : ℚ) (member : String) : Redis Unit := do
  put key (.zset ((← sorted key).zadd score member))

/-- The number of members removed. -/
def zrem (key member : String) : Redis Int := do
  let z ← sorted key
  put key (.zset (z.zrem member))
  return if member ∈ z then 1 else 0

def zscore (key member : String) : Redis (Option ℚ) := return (← sorted key).score member

/-- `ZREVRANGE key 0 0 WITHSCORES` -/
def zrevrangeFirst (key : String) : Redis (Option (ℚ × String)) := return (← sorted key).top

/-- `ZRANGEBYSCORE key -inf max LIMIT 0 limit` -/
def zrangebyscore (key : String) (max : ℚ) (limit : Nat) : Redis (List String) :=
  return (← sorted key).rangeByScore max limit

end Redis
end NestPlayground.L6
