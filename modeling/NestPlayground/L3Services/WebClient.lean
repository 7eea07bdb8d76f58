import Mathlib.Algebra.Order.Floor.Semiring
import Mathlib.Data.Rat.Floor

/-!
# The web client

`RetryPolicy` with its builder, `RetryExecutor`, and the two clients behind the
interface `WebClient`, which collect the options of a request call by call.
Numbers are exact, and an option is neither `NaN` nor infinite. What an action
answers to its n-th call is an argument, so is what `Math.random` gives; sending
a request is left to `fetch` and `got`.
-/
namespace NestPlayground.L3

/-! ## Retry policies -/

/-- The options are finite numbers. (The builder accepts `NaN` and `Infinity` too.)
mirrors libs/web-client/src/retry/RetryPolicy.ts:7-28 -/
structure RetryPolicy where
  maxRetries : ℚ
  delay : ℚ
  jitter : ℚ
  multiplier : ℚ
  maxDelay : ℚ
  deriving DecidableEq

/-- mirrors libs/web-client/src/retry/RetryPolicy.ts:1-5, 34-42 -/
def RetryPolicy.withDefaults : RetryPolicy := ⟨3, 1000, 0, 0, 0⟩

/-- mirrors libs/web-client/src/retry/RetryPolicy.ts:49-54 -/
structure RetryPolicyBuilder where
  options : RetryPolicy := RetryPolicy.withDefaults
  deriving DecidableEq

/-- The setters. -/
inductive RetryPolicyBuilder.Call where
  | maxRetries (value : ℚ)
  | delay (value : ℚ)
  | jitter (value : ℚ)
  | multiplier (value : ℚ)
  | maxDelay (value : ℚ)

namespace RetryPolicyBuilder

/-- mirrors libs/web-client/src/retry/RetryPolicy.ts:56-84 -/
def call (b : RetryPolicyBuilder) : Call → RetryPolicyBuilder
  | .maxRetries value => ⟨{ b.options with maxRetries := value }⟩
  | .delay value => ⟨{ b.options with delay := value }⟩
  | .jitter value => ⟨{ b.options with jitter := value }⟩
  | .multiplier value => ⟨{ b.options with multiplier := value }⟩
  | .maxDelay value => ⟨{ b.options with maxDelay := value }⟩

/-- The options in the order of their checks. -/
def checks (b : RetryPolicyBuilder) : List (String × ℚ) :=
  [("maxRetries", b.options.maxRetries), ("delay", b.options.delay), ("jitter", b.options.jitter),
    ("multiplier", b.options.multiplier), ("maxDelay", b.options.maxDelay)]

/-- The message of the first check that fails.
mirrors libs/web-client/src/retry/RetryPolicy.ts:98-118 -/
def validate (b : RetryPolicyBuilder) : Option String :=
  (b.checks.find? fun x => x.2 < 0).map fun x => s!"{x.1} must be >= 0"

/-- mirrors libs/web-client/src/retry/RetryPolicy.ts:86-96 -/
def build (b : RetryPolicyBuilder) : Except String RetryPolicy :=
  match b.validate with
  | some message => .error message
  | none => .ok b.options

end RetryPolicyBuilder

/-- mirrors libs/web-client/src/retry/RetryPolicy.ts:44-46 -/
def RetryPolicy.withMaxRetries (maxRetries : ℚ) : Except String RetryPolicy :=
  (({} : RetryPolicyBuilder).call (.maxRetries maxRetries)).build

/-! ## Retries -/

/-- What a promise of `execute` settled with, how often the action was called,
and the sleeps in between. -/
structure Settled (ε α : Type) where
  outcome : Except (Option ε) α
  calls : Nat
  sleeps : List ℚ

namespace RetryExecutor

/-- `random` is what `Math.random` gives for this delay.
mirrors libs/web-client/src/retry/RetryExecutor.ts:26-41 -/
def calculateDelay (retryCount : Nat) (random : ℚ) (policy : RetryPolicy) : ℚ :=
  let baseDelay := if 0 < policy.multiplier then policy.delay * policy.multiplier ^ retryCount else policy.delay
  let jitter := if 0 < policy.jitter then random * policy.jitter else 0
  let totalDelay := baseDelay + jitter
  if 0 < policy.maxDelay then min totalDelay policy.maxDelay else totalDelay

theorem attempt_le {policy : RetryPolicy} {attempt : Nat} (h : (attempt : ℚ) ≤ policy.maxRetries) :
    attempt ≤ ⌊policy.maxRetries⌋₊ := Nat.le_floor h

/-- The loop from an attempt on. `action n` is what the action comes to when it is
called for the n-th time, counted from 0.
mirrors libs/web-client/src/retry/RetryExecutor.ts:4-24 -/
def attempts {ε α : Type} (action : Nat → Except ε α) (random : Nat → ℚ) (policy : RetryPolicy) (attempt : Nat)
    (lastError : Option ε) : Settled ε α :=
  if (attempt : ℚ) ≤ policy.maxRetries then
    match action attempt with
    | .ok a => ⟨.ok a, attempt + 1, []⟩
    | .error e =>
      let rest := attempts action random policy (attempt + 1) (some e)
      -- a fractional `maxRetries` lets the last attempt sleep as well
      if (attempt : ℚ) < policy.maxRetries then
        { rest with sleeps := calculateDelay attempt (random attempt) policy :: rest.sleeps }
      else rest
  else ⟨.error lastError, attempt, []⟩
  termination_by ⌊policy.maxRetries⌋₊ + 1 - attempt
  decreasing_by
    have := attempt_le ‹(attempt : ℚ) ≤ policy.maxRetries›
    omega

def execute {ε α : Type} (action : Nat → Except ε α) (random : Nat → ℚ) (policy : RetryPolicy) : Settled ε α :=
  attempts action random policy 0 none

end RetryExecutor

/-! ## The clients -/

/-- mirrors libs/web-client/src/http/MediaType.ts:1-7 -/
inductive MediaType where
  | TEXT_PLAIN | TEXT_HTMl | APPLICATION_JSON | APPLICATION_FORM_URLENCODED | MULTIPART_FORM_DATA
  deriving DecidableEq, Repr

def MediaType.value : MediaType → String
  | .TEXT_PLAIN => "text/plain"
  | .TEXT_HTMl => "text/html"
  | .APPLICATION_JSON => "application/json"
  | .APPLICATION_FORM_URLENCODED => "application/x-www-form-urlencoded"
  | .MULTIPART_FORM_DATA => "multipart/form-data"

/-- The constructor is private: these are all the bodies there are.
mirrors libs/web-client/src/http/BodyInserter.ts:3-28 -/
inductive BodyInserter (D : Type) where
  | fromJSON (json : D)
  | fromFormData (form : D)
  | fromText (text : D)
  deriving DecidableEq

def BodyInserter.mediaType {D : Type} : BodyInserter D → MediaType
  | .fromJSON _ => .APPLICATION_JSON
  | .fromFormData _ => .APPLICATION_FORM_URLENCODED
  | .fromText _ => .TEXT_PLAIN

inductive Method where
  | GET | POST | PUT | PATCH | DELETE
  deriving DecidableEq, Repr

/-- The calls of the interface before `retrieve`. `V` are header values, `D` data.
mirrors libs/web-client/src/WebClient.ts:6-28 -/
inductive ClientCall (V D : Type) where
  | method (method : Method)
  | url (url : String)
  | accept (mediaType : MediaType)
  | header (param : List (String × V))
  | body (body : BodyInserter D)
  | timeout (timeout : ℚ)
  | retry (policy : RetryPolicy)

/-- `{ ...headers, key: value }` -/
def assign {V : Type} (headers : List (String × V)) (key : String) (value : V) : List (String × V) :=
  if headers.any (·.1 = key) then headers.map fun x => if x.1 = key then (key, value) else x
  else headers ++ [(key, value)]

/-- What the two clients collect in the same way. -/
structure Options (V : Type) where
  url : Option String
  method : Method := .GET
  headers : List (String × V) := []
  timeout : ℚ
  retryPolicy : Option RetryPolicy := none

/-- `string` makes a header value of a text.
mirrors libs/web-client/src/FetchClient.ts:25-74, 93-103 and libs/web-client/src/GotClient.ts:23-62, 81-93 -/
def Options.call {V D : Type} (string : String → V) (o : Options V) : ClientCall V D → Options V
  | .method method => { o with method }
  | .url url => { o with url := some url }
  | .accept mediaType => { o with headers := assign o.headers "Content-Type" (string mediaType.value) }
  | .header param => { o with headers := param }
  | .body body => { o with headers := assign o.headers "Content-Type" (string body.mediaType.value) }
  | .timeout timeout => { o with timeout }
  | .retry policy => { o with retryPolicy := some policy }

/-- One field for the body: what `fetch` is given is serialized by the client. -/
structure FetchClient (V D : Type) where
  options : Options V
  body : Option (BodyInserter D) := none

/-- Three fields for the body: `got` serializes. -/
structure GotClient (V D : Type) where
  options : Options V
  json : Option D := none
  form : Option D := none
  body : Option D := none

/-- mirrors libs/web-client/src/FetchClient.ts:76-91 -/
def FetchClient.call {V D : Type} (string : String → V) (c : FetchClient V D) (x : ClientCall V D) :
    FetchClient V D where
  options := c.options.call string x
  body :=
    match x with
    | .body body => some body
    | _ => c.body

/-- mirrors libs/web-client/src/GotClient.ts:64-79 -/
def GotClient.call {V D : Type} (string : String → V) (c : GotClient V D) (x : ClientCall V D) : GotClient V D :=
  let options := c.options.call string x
  match x with
  | .body (.fromJSON json) => { c with options, json := some json }
  | .body (.fromFormData form) => { c with options, form := some form }
  | .body (.fromText text) => { c with options, body := some text }
  | _ => { c with options }

/-- The bodies `got` is given. It takes one at most and rejects a request with more. -/
def GotClient.bodies {V D : Type} (c : GotClient V D) : List (BodyInserter D) :=
  (c.json.map .fromJSON).toList ++ (c.form.map .fromFormData).toList ++ (c.body.map .fromText).toList

end NestPlayground.L3
