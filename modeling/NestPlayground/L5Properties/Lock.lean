import NestPlayground.Core.Sequential
import NestPlayground.L3Services.WithLock
import NestPlayground.L4Pipeline.Frames

/-!
# The distributed lock

`acquire-lock.lua` and `release-lock.lua` under any number of acquire loops,
releases of any token at any time, expiries, and `withLock` calls around any
callback. The token stored under the key is the owner; `locks_cases` is all
that can happen to it, and mutual exclusion, the releases and what a holder
that lost its lock can still do follow from it in any program that makes these
calls. What one `withLock` does is read off its path (`Shape`): its answers
are those of one acquire loop, of the callback and of one release, and they
decide what it does next (`Due`).
-/
namespace NestPlayground.L5.Lock
open L1 L3 L4

/-- A successful acquire. -/
def acquires : (cmd : Cmd) → Reply cmd → Option (LockKey × String)
  | .acquireLock key token, true => some (key, token)
  | _, _ => none

/-- The successful acquires, latest first. -/
def acquired (log : Log) : List (LockKey × String) := log.filterMap fun e => acquires e.cmd e.reply

section Owner
variable {reg : Registry} {cmd : Cmd} {inp : Input} {s : Store} {key : LockKey} {token : String}

end Owner

/-! ## Any program over these calls -/

section Exclusion
variable {reg : Registry} {T Pc : Type} (S : Core.Program Reply Store Input Expiry T Pc)

/-- Neither `token`'s own release nor an expiry of `key`. -/
def Undisturbed (key : LockKey) (token : String) (c : Core.Net Reply Store Pc) (l : Core.Label Input Expiry T) : Prop :=
  l ≠ .env (.lock key) ∧ S.OnCalls (fun _ cmd _ => cmd ≠ .releaseLock key token) c l

/-- No token is acquired twice. -/
def Distinct : Core.Net Reply Store Pc → Core.Label Input Expiry T → Prop :=
  S.OnCalls fun c cmd _ => ∀ key token, cmd = .acquireLock key token → token ∉ (acquired c.log).map Prod.snd

variable {S} (hexec : S.exec = exec reg) (henv : S.env = expire)
include hexec henv

end Exclusion

/-! ## One `withLock` -/

section Shape

/-- What an activity does next: it makes a call, or it has ended, or it waits for nothing. -/
inductive Turn (α : Type) where
  | calls (cmd : Cmd)
  | returns (a : α)
  | throws
  | hangs

def turn {P α : Type} (view : P → Await P α) : Core.Next P α → Turn α
  | .ret a => .returns a
  | .throw => .throws
  | .goto p =>
    match view p with
    | .call cmd _ _ => .calls cmd
    | .halt => .hangs

/-- It has resolved or thrown. -/
def Settled {P α : Type} (x : Core.Next P α) : Prop := x = .throw ∨ ∃ a, x = .ret a

variable {B α : Type} (reg : Registry) (key : LockKey) (callback : B → Await B α)

/-- A token, and `n` attempts that found the lock taken. -/
def tried (token : String) (n : Nat) : List (Core.Answer Reply) :=
  .reply .randomUUID token :: List.replicate n (.reply (.acquireLock key token) false)

/-- The same, and the attempt that got it. -/
def entered (token : String) (n : Nat) : List (Core.Answer Reply) :=
  tried key token n ++ [.reply (.acquireLock key token) true]

/-- The callback has come to `x` with the answers `es`. -/
abbrev Within (enter : Core.Next B α) (es : List (Core.Answer Reply)) (x : Core.Next B α) : Prop :=
  Core.Path (Core.Next.view callback) enter es x

/-- What a `withLock` does next, by what it has been answered: it draws a token;
it tries to acquire with it; it gives up when every retry has failed; it goes
on with its callback once it has acquired; it releases with its token when that
has settled; and it ends as that did. -/
inductive Due (enter : Core.Next B α) : List (Core.Answer Reply) → Turn (Option α) → Prop where
  | token : Due enter [] (.calls .randomUUID)
  | attempt {token n} (hn : n ≤ reg.config.watcher.lockRetryCount) :
      Due enter (tried key token n) (.calls (.acquireLock key token))
  | givesUp {token} : Due enter (tried key token (reg.config.watcher.lockRetryCount + 1)) (.returns none)
  | callback {token n es p cmd} (hn : n ≤ reg.config.watcher.lockRetryCount) (h : Within callback enter es (.goto p))
      (hcall : turn callback (.goto p) = .calls cmd) : Due enter (entered key token n ++ es) (.calls cmd)
  | hangs {token n es p} (hn : n ≤ reg.config.watcher.lockRetryCount) (h : Within callback enter es (.goto p))
      (hhalt : turn callback (.goto p) = .hangs) : Due enter (entered key token n ++ es) .hangs
  | release {token n es x} (hn : n ≤ reg.config.watcher.lockRetryCount) (h : Within callback enter es x)
      (hend : Settled x) : Due enter (entered key token n ++ es) (.calls (.releaseLock key token))
  | returns {token n es a b} (hn : n ≤ reg.config.watcher.lockRetryCount) (h : Within callback enter es (.ret a)) :
      Due enter (entered key token n ++ es ++ [.reply (.releaseLock key token) b]) (.returns (some a))
  | rethrows {token n es b} (hn : n ≤ reg.config.watcher.lockRetryCount) (h : Within callback enter es .throw) :
      Due enter (entered key token n ++ es ++ [.reply (.releaseLock key token) b]) .throws
  | noToken {c} : Due enter [.rejection c] .throws
  | notAcquired {token n c} (hn : n ≤ reg.config.watcher.lockRetryCount) :
      Due enter (tried key token n ++ [.rejection c]) .throws
  | notReleased {token n es x} (hn : n ≤ reg.config.watcher.lockRetryCount) (h : Within callback enter es x)
      (hend : Settled x) : Due enter (entered key token n ++ es ++ [.rejection (.releaseLock key token)]) .throws

variable {reg key callback} {enter : Core.Next B α}

/-- Besides the answers of its callback it gets a token, one for every attempt and one to the release. -/
theorem Due.length_le {es : List (Core.Answer Reply)} {t : Turn (Option α)} (h : Due reg key callback enter es t) :
    ∃ es' y, Within callback enter es' y ∧ es.length ≤ es'.length + reg.config.watcher.lockRetryCount + 3 := by
  have htried : ∀ token n, (tried key token n).length = n + 1 := fun token n => by simp [tried]
  have hentered : ∀ token n, (entered key token n).length = n + 2 := fun token n => by simp [entered, tried]
  have hnone : ∀ {n}, n ≤ reg.config.watcher.lockRetryCount + 3 →
      ∃ es' y, Within callback enter es' y ∧ n ≤ es'.length + reg.config.watcher.lockRetryCount + 3 := fun hn =>
    ⟨[], enter, .nil, by simpa using hn⟩
  cases h with
  | token => exact hnone (Nat.zero_le _)
  | attempt hn | givesUp => exact hnone (by rw [htried]; omega)
  | noToken => exact hnone (Nat.succ_le_succ (Nat.zero_le _))
  | notAcquired hn => exact hnone (by rw [List.length_append, htried, List.length_singleton]; omega)
  | callback hn h | hangs hn h | release hn h =>
    refine ⟨_, _, h, ?_⟩
    rw [List.length_append, hentered]
    omega
  | returns hn h | rethrows hn h | notReleased hn h =>
    refine ⟨_, _, h, ?_⟩
    rw [List.length_append, List.length_append, hentered, List.length_singleton]
    omega

end Shape

/-! ## The lock service in use -/

section Arena
variable {B α : Type}

/-- A caller of the service. -/
inductive Task (B α : Type) where
  | acquire (key : LockKey)
  | release (key : LockKey) (token : String)
  | withLock (key : LockKey) (enter : Core.Next B α)

inductive Proc (B α : Type) where
  | acquire (x : Core.Next AcquirePc (Option String))
  | release (key : LockKey) (token : String)
  | withLock (key : LockKey) (enter : Core.Next B α) (x : Core.Next (WithLockPc B α) (Option α))
  | done

variable (reg : Registry) (callback : B → Await B α)

def Proc.view : Proc B α → Core.Action Reply (Proc B α)
  | .acquire x => (Core.Next.view (·.view reg) x).map .acquire
  | .release key token => .call (.releaseLock key token) (fun _ => .done) .done
  | .withLock key enter x => (Core.Next.view (WithLockPc.view reg key enter callback) x).map (.withLock key enter)
  | .done => .halt

def Task.start : Task B α → Proc B α
  | .acquire key => .acquire (.goto (.uuid key))
  | .release key token => .release key token
  | .withLock key enter => .withLock key enter (WithLockPc.start key)

/-- Any number of callers of the service. -/
def service : Core.Program Reply Store Input Expiry (Task B α) (Proc B α) where
  exec := exec reg
  remote := Cmd.remote
  view := Proc.view reg callback
  start := Task.start
  env := expire
  dead := .done

variable {reg callback}

end Arena

/-- A callback that reads the books of a group. -/
def readsMeta : Unit → Await Unit Unit := fun _ => .call (.metaGetAll "g") (fun _ => .ret ()) .throw

abbrev Used : Core.Net Reply Store (Proc Unit Unit) → Prop :=
  (((service {} readsMeta).lts ⟨.empty, [], []⟩).restrict (Distinct (service {} readsMeta))).Reachable

theorem Used.spawn {c : Core.Net Reply Store (Proc Unit Unit)} (h : Used c) (t : Task Unit Unit) :
    Used { c with procs := c.procs ++ [t.start] } :=
  h.step ⟨.spawn, trivial⟩

theorem Used.next {c : Core.Net Reply Store (Proc Unit Unit)} (_ : Used c) (i : Nat) (inp : Input)
    {p : Proc Unit Unit} {cmd : Cmd} {ok : Reply cmd → Proc Unit Unit} {err : Proc Unit Unit}
    (hp : c.procs[i]? = some p) (hv : (service {} readsMeta).view p = .call cmd ok err) :
    (service {} readsMeta).Step c (.run i inp) ((service {} readsMeta).ran c i cmd inp ok) :=
  .run hp hv

theorem Used.run {c : Core.Net Reply Store (Proc Unit Unit)} (h : Used c) (i : Nat) (inp : Input)
    {p : Proc Unit Unit} {cmd : Cmd} {ok : Reply cmd → Proc Unit Unit} {err : Proc Unit Unit}
    (hp : c.procs[i]? = some p) (hv : (service {} readsMeta).view p = .call cmd ok err)
    (hd : ∀ key token, cmd = .acquireLock key token → token ∉ (acquired c.log).map Prod.snd) :
    Used ((service {} readsMeta).ran c i cmd inp ok) :=
  h.step ⟨h.next i inp hp hv, .run hp hv hd⟩

end NestPlayground.L5.Lock
