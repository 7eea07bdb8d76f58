import NestPlayground.Core.Sequential
import NestPlayground.L1Model.Keys

/-!
# Idempotency keys

`IdempotencyService` over the plain keys of Redis. Each key of a list is one
`SET … NX`, so the calls of several callers interleave key by key. A key is a
mark with a TTL: it may expire at any moment, and `reset` deletes it.
-/
namespace NestPlayground.L3.Idempotency
open L1

/-- The string keys that are set. -/
abbrev Strings := String → Option String

inductive Cmd where
  | setNX (key value : String) (ttlSec : Nat)
  | delete (key : String)
  deriving DecidableEq

@[reducible] def Reply : Cmd → Type
  | .setNX _ _ _ => Bool
  | .delete _ => Unit

/-- `true` is the reply OK.
mirrors libs/redis/src/operations/RedisString.ts:22-26 -/
def exec : (c : Cmd) → Unit → Strings → Strings × Reply c
  | .setNX key value _, _, s =>
    match s key with
    | none => (Function.update s key (some value), true)
    | some _ => (s, false)
  | .delete key, _, s => (Function.update s key none, ())

/-- What the service reads from the configuration.
mirrors libs/bulk-action/src/config/BulkActionConfig.ts:55-63 (defaults: 128), key/RedisKeyBuilder.ts:16-18 -/
structure Config where
  keyPrefix : String := "bulk-action:"
  idempotencyTtlMs : Nat := 86400000

/-- The awaits of `isProcessed`, `filterUnprocessed` (at `key`, with `keys` to
come) and `reset`.
mirrors libs/bulk-action/src/idempotency/IdempotencyService.ts:21-51 -/
inductive CallPc where
  | isProcessed (key : String)
  | filterUnprocessed (key : String) (keys result : List String)
  | reset (key : String)

inductive Returned where
  | processed (b : Bool)
  | unprocessed (keys : List String)
  | nothing
  deriving DecidableEq

/-- The one call of `isProcessed`, whose caller goes on with its answer.
mirrors libs/bulk-action/src/idempotency/IdempotencyService.ts:21-33 -/
def isProcessed {α : Type} (cfg : Config) (key : String) (ok : Bool → Core.Next CallPc α) :
    Core.Action Reply (Core.Next CallPc α) :=
  let ttlSec := (cfg.idempotencyTtlMs + 999) / 1000
  let redisKey := RedisKeyBuilder.idempotency cfg.keyPrefix key
  .call (.setNX redisKey "1" ttlSec) (fun acquired => ok (!acquired)) .throw

/-- The `for` over the keys still to come. -/
def CallPc.loop : List String → List String → Core.Next CallPc Returned
  | [], result => .ret (.unprocessed result)
  | key :: keys, result => .goto (.filterUnprocessed key keys result)

def CallPc.view (cfg : Config) : CallPc → Core.Action Reply (Core.Next CallPc Returned)
  | .isProcessed key => Idempotency.isProcessed cfg key fun processed => .ret (.processed processed)
  | .filterUnprocessed key keys result =>
    Idempotency.isProcessed cfg key fun processed => CallPc.loop keys (if processed then result else result ++ [key])
  | .reset key => .call (.delete (RedisKeyBuilder.idempotency cfg.keyPrefix key)) (fun _ => .ret .nothing) .throw

/-! ## Any number of callers -/

inductive Task where
  | isProcessed (key : String)
  | filterUnprocessed (keys : List String)
  | reset (key : String)
  deriving DecidableEq

/-- The keys a caller asks about. -/
def Task.keys : Task → List String
  | .isProcessed key => [key]
  | .filterUnprocessed keys => keys
  | .reset _ => []

def Task.start : Task → Core.Next CallPc Returned
  | .isProcessed key => .goto (.isProcessed key)
  | .filterUnprocessed keys => CallPc.loop keys []
  | .reset key => .goto (.reset key)

/-- A call that was made, and where it is. -/
structure Proc where
  task : Task
  next : Core.Next CallPc Returned

def Proc.view (cfg : Config) (p : Proc) : Core.Action Reply Proc :=
  (Core.Next.view (CallPc.view cfg) p.next).map (Proc.mk p.task)

/-- The environment lets a key expire. -/
def callers (cfg : Config) : Core.Program Reply Strings Unit String Task Proc where
  exec := exec
  remote _ := true
  view := Proc.view cfg
  start t := ⟨t, t.start⟩
  env key s := Function.update s key none
  dead := ⟨.filterUnprocessed [], .throw⟩

abbrev State := Core.Net Reply Strings Proc
abbrev Label := Core.Label Unit String Task

end NestPlayground.L3.Idempotency
