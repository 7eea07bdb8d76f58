import NestPlayground.L3Services.Idempotency

/-!
# Each idempotency key goes to one caller

Any number of `isProcessed` and `filterUnprocessed` calls on any keys, their
`SET … NX` commands interleaved in any order, without a failing command, a
reset or an expiry. The marks balance: a key that is marked was marked before
or was found unprocessed by exactly one caller, once (`Inv.balance`). A call has
sent the command for its first keys, is about to send it for the next, and has
returned when it has been through all of them (`InStep`), so that all calls can
be run to their end.
-/
namespace NestPlayground.L5.Idempotency
open L1 L3.Idempotency

/-- The calls start with the marks `s₀`. -/
def runs (cfg : Config) (s₀ : Strings) : Core.LTS State Label := (callers cfg).lts ⟨s₀, [], []⟩

def resets : Task → Bool
  | .reset _ => true
  | _ => false

/-- Every command succeeds, and no mark is deleted or expires. -/
def Undisturbed : State → Label → Prop
  | _, .run _ _ => True
  | _, .spawn t => resets t = false
  | _, .reject _ => False
  | _, .stop _ => False
  | _, .env _ => False

instance (c : State) (l : Label) : Decidable (Undisturbed c l) :=
  match l with
  | .run _ _ => isTrue trivial
  | .spawn t => inferInstanceAs (Decidable (resets t = false))
  | .reject _ | .stop _ | .env _ => isFalse id

def Marked (cfg : Config) (s : Strings) (key : String) : Prop :=
  (s (RedisKeyBuilder.idempotency cfg.keyPrefix key)).isSome = true

instance (cfg : Config) (s : Strings) (key : String) : Decidable (Marked cfg s key) :=
  inferInstanceAs (Decidable ((s (RedisKeyBuilder.idempotency cfg.keyPrefix key)).isSome = true))

/-- The keys a call has returned as unprocessed. -/
def returned (p : Proc) : List String :=
  match p.next with
  | .ret (.processed false) => p.task.keys
  | .ret (.unprocessed keys) => keys
  | _ => []

/-- How often a key was returned as unprocessed, over all calls. -/
def handedOut (key : String) (c : State) : Nat := (c.procs.map fun p => (returned p).count key).sum

def finished (p : Proc) : Bool :=
  match p.next with
  | .ret _ => true
  | _ => false

/-- `SET … NX` with the expiry of the configuration. -/
def setNX (cfg : Config) (key : String) : Cmd :=
  .setNX (RedisKeyBuilder.idempotency cfg.keyPrefix key) "1" ((cfg.idempotencyTtlMs + 999) / 1000)

/-- The commands of call `i` so far. -/
def sent (i : Nat) (log : List (Core.Entry Reply)) : List Cmd := (Core.Program.callsOf i log).map Sigma.fst

/-- The command a call waits for. -/
def waitsFor (cfg : Config) (p : Proc) : Option Cmd :=
  match p.view cfg with
  | .call cmd _ _ => some cmd
  | .halt => none

/-- A call has sent the commands for its keys up to one, waits for that of the
next key, and has returned exactly when there is none. -/
def InStep (cfg : Config) (p : Proc) (cmds : List Cmd) : Prop :=
  ∃ done rest, p.task.keys = done ++ rest ∧ cmds = done.map (setNX cfg) ∧
    waitsFor cfg p = (rest.map (setNX cfg)).head? ∧ (finished p = true ↔ rest = [])

/-! ## The invariant -/

/-- The keys a call has found unprocessed so far. -/
def found (p : Proc) : List String :=
  match p.next with
  | .goto (.filterUnprocessed _ _ result) => result
  | _ => returned p

/-- The place of a call in its keys: those it has been through are marked. -/
def Placed (cfg : Config) (s : Strings) (p : Proc) : Prop :=
  match p.next with
  | .goto (.isProcessed key) => p.task = .isProcessed key
  | .goto (.filterUnprocessed key keys result) => ∃ before, p.task = .filterUnprocessed (before ++ key :: keys) ∧
      result.Sublist before ∧ ∀ k ∈ before, Marked cfg s k
  | .goto (.reset _) => False
  | .ret (.processed _) => ∃ key, p.task = .isProcessed key ∧ Marked cfg s key
  | .ret (.unprocessed result) => ∃ keys, p.task = .filterUnprocessed keys ∧ result.Sublist keys ∧
      ∀ k ∈ keys, Marked cfg s k
  | .ret .nothing => False
  | .throw => False

def mark (cfg : Config) (s : Strings) (key : String) : Nat := if Marked cfg s key then 1 else 0

structure Inv (cfg : Config) (s₀ : Strings) (c : State) : Prop where
  balance : ∀ key, (c.procs.map fun p => (found p).count key).sum + mark cfg s₀ key = mark cfg c.world key
  placed : ∀ (i : Nat) p, c.procs[i]? = some p → Placed cfg c.world p

section
variable {cfg : Config} {s₀ s s' : Strings} {c c' : State} {p : Proc} {key : String}

theorem idempotency_inj {keyPrefix key key' : String} :
    RedisKeyBuilder.idempotency keyPrefix key = RedisKeyBuilder.idempotency keyPrefix key' ↔ key = key' := by
  simp [RedisKeyBuilder.idempotency]

/-- A mark that is set stays, and nobody acquires it. -/
theorem exec_marked {value : String} {ttlSec : Nat} (h : Marked cfg s key) :
    exec (.setNX (RedisKeyBuilder.idempotency cfg.keyPrefix key) value ttlSec) () s = (s, false) := by
  obtain ⟨v, hv⟩ := Option.isSome_iff_exists.mp h
  simp only [exec, hv]

theorem exec_unmarked {value : String} {ttlSec : Nat} (h : ¬ Marked cfg s key) :
    exec (.setNX (RedisKeyBuilder.idempotency cfg.keyPrefix key) value ttlSec) () s =
      (Function.update s (RedisKeyBuilder.idempotency cfg.keyPrefix key) (some value), true) := by
  have hnone : s (RedisKeyBuilder.idempotency cfg.keyPrefix key) = none := by
    rwa [← Option.not_isSome_iff_eq_none]
  simp only [exec, hnone]

theorem marked_update {value : String} {k : String} :
    Marked cfg (Function.update s (RedisKeyBuilder.idempotency cfg.keyPrefix key) (some value)) k ↔
      k = key ∨ Marked cfg s k := by
  unfold Marked
  rcases eq_or_ne k key with rfl | hk
  · simp
  · rw [Function.update_of_ne fun h => hk (idempotency_inj.mp h)]
    simp [hk]

theorem Placed.mono (h : Placed cfg s p) (hm : ∀ k, Marked cfg s k → Marked cfg s' k) : Placed cfg s' p := by
  unfold Placed at h ⊢
  split
  all_goals rename_i hn
  all_goals simp only [hn] at h
  · exact h
  · obtain ⟨before, ht, hs, hb⟩ := h
    exact ⟨before, ht, hs, fun k hk => hm k (hb k hk)⟩
  · obtain ⟨key, ht, hb⟩ := h
    exact ⟨key, ht, hm key hb⟩
  · obtain ⟨keys, ht, hs, hb⟩ := h
    exact ⟨keys, ht, hs, fun k hk => hm k (hb k hk)⟩

/-- The loop goes on with the keys it has been through marked. -/
theorem placed_loop {before keys result : List String} (hs : result.Sublist before)
    (hb : ∀ k ∈ before, Marked cfg s k) :
    Placed cfg s ⟨.filterUnprocessed (before ++ keys), CallPc.loop keys result⟩ ∧
      found ⟨.filterUnprocessed (before ++ keys), CallPc.loop keys result⟩ = result := by
  cases keys with
  | nil =>
    rw [List.append_nil]
    exact ⟨⟨before, rfl, hs, hb⟩, rfl⟩
  | cons key keys => exact ⟨⟨before, rfl, hs, hb⟩, rfl⟩

/-- The reply says whether the key was unmarked. -/
theorem exec_reply {value : String} {ttlSec : Nat} :
    (exec (.setNX (RedisKeyBuilder.idempotency cfg.keyPrefix key) value ttlSec) () s).2 =
      !decide (Marked cfg s key) := by
  by_cases h : Marked cfg s key
  · simp [exec_marked h, h]
  · simp [exec_unmarked h, h]

/-- The triple of every await: the command is for one key, and the caller has
found it if it is the one to mark it. -/
theorem placed_spec (h : Placed cfg s p) :
    (p.view cfg).Spec (fun _ => True)
      (fun cmd r p' => ∃ key ttlSec, cmd = .setNX (RedisKeyBuilder.idempotency cfg.keyPrefix key) "1" ttlSec ∧
        ∀ s', (exec cmd () s).2 = r → (∀ k, Marked cfg s k → Marked cfg s' k) → Marked cfg s' key →
          Placed cfg s' p' ∧ found p' = found p ++ if Marked cfg s key then [] else [key])
      fun _ _ => True := by
  obtain ⟨task, next⟩ := p
  cases next with
  | ret | throw => trivial
  | goto q =>
    cases q with
    | isProcessed key =>
      have ht : task = .isProcessed key := h
      subst ht
      refine ⟨trivial, fun r => ⟨key, _, rfl, fun s' hr hm hk => ⟨⟨key, rfl, hk⟩, ?_⟩⟩, trivial⟩
      rw [exec_reply] at hr
      subst hr
      by_cases hold : Marked cfg s key
      · simp [found, returned, hold]
      · simp [found, returned, hold, Task.keys]
    | filterUnprocessed key keys result =>
      obtain ⟨before, ht, hs, hb⟩ := h
      have ht : task = .filterUnprocessed (before ++ key :: keys) := ht
      subst ht
      refine ⟨trivial, fun r => ⟨key, _, rfl, fun s' hr hm hk => ?_⟩, trivial⟩
      rw [exec_reply] at hr
      subst hr
      have hb' : ∀ k ∈ before ++ [key], Marked cfg s' k := by
        intro k hmem
        rcases List.mem_append.mp hmem with hmem | hmem
        · exact hm k (hb k hmem)
        · rwa [List.mem_singleton.mp hmem]
      have hnew : (if Marked cfg s key then result else result ++ [key]).Sublist (before ++ [key]) := by
        split
        · exact hs.trans (List.sublist_append_left _ _)
        · exact hs.append (List.Sublist.refl _)
      have hloop := @placed_loop cfg s' _ keys _ hnew hb'
      rw [List.append_assoc, List.singleton_append] at hloop
      by_cases hold : Marked cfg s key
      · simp only [hold, if_true, decide_true, Bool.not_true, Bool.not_false, List.append_nil] at hloop ⊢
        exact hloop
      · simp only [hold, if_false, decide_false, Bool.not_false, Bool.not_true] at hloop ⊢
        exact hloop
    | reset key => exact h.elim

/-- A key is marked by its first command. -/
theorem mark_exec {ttlSec : Nat} (key k : String) :
    mark cfg (exec (.setNX (RedisKeyBuilder.idempotency cfg.keyPrefix key) "1" ttlSec) () s).1 k =
      mark cfg s k + (if Marked cfg s key then [] else [key]).count k := by
  by_cases h : Marked cfg s key
  · simp [exec_marked h, h]
  · rw [exec_unmarked h, if_neg h]
    unfold mark
    rcases eq_or_ne k key with rfl | hk
    · simp [marked_update, h]
    · simp [marked_update, hk, Ne.symm hk]

theorem marked_of_exec {ttlSec : Nat} (key : String) :
    Marked cfg (exec (.setNX (RedisKeyBuilder.idempotency cfg.keyPrefix key) "1" ttlSec) () s).1 key ∧
      ∀ k, Marked cfg s k →
        Marked cfg (exec (.setNX (RedisKeyBuilder.idempotency cfg.keyPrefix key) "1" ttlSec) () s).1 k := by
  by_cases h : Marked cfg s key
  · rw [exec_marked h]
    exact ⟨h, fun _ hk => hk⟩
  · rw [exec_unmarked h]
    exact ⟨marked_update.mpr (.inl rfl), fun _ hk => marked_update.mpr (.inr hk)⟩

/-- A call that starts has been through no key. -/
theorem placed_start {t : Task} (ht : resets t = false) : Placed cfg s ⟨t, t.start⟩ ∧ found ⟨t, t.start⟩ = [] := by
  cases t with
  | isProcessed key => exact ⟨rfl, rfl⟩
  | filterUnprocessed keys =>
    exact @placed_loop cfg s [] keys [] (List.Sublist.refl _) nofun
  | reset key => cases ht

theorem inv_step {l : Label} (h : Inv cfg s₀ c) (hs : (callers cfg).Step c l c') (hl : Undisturbed c l) :
    Inv cfg s₀ c' := by
  cases hs with
  | reject | stop | env => exact hl.elim
  | @spawn t =>
    obtain ⟨hplaced, hfound⟩ := @placed_start cfg c.world t hl
    refine ⟨fun key => ?_, Core.Program.forall_append h.placed hplaced⟩
    have hb := h.balance key
    simp only [List.map_append, List.sum_append, List.map_cons, List.map_nil, List.sum_cons, List.sum_nil]
    rw [show found ((callers cfg).start t) = [] from hfound]
    simpa using hb
  | @run i inp p cmd ok err hp hv =>
    obtain rfl : inp = () := rfl
    have hspec := placed_spec (h.placed i p hp)
    rw [show p.view cfg = .call cmd ok err from hv] at hspec
    obtain ⟨key, ttlSec, rfl, hnext⟩ := hspec.2.1 (exec cmd () c.world).2
    obtain ⟨hkey, hmono⟩ := @marked_of_exec cfg c.world ttlSec key
    obtain ⟨hplaced, hfound⟩ := hnext _ rfl hmono hkey
    refine ⟨fun k => ?_, Core.Program.forall_set (fun j q _ hq => (h.placed j q hq).mono hmono) hplaced⟩
    have hb := h.balance k
    have hsum := Core.Program.sum_map_set (fun p => (found p).count k) hp
      (ok (exec (.setNX (RedisKeyBuilder.idempotency cfg.keyPrefix key) "1" ttlSec) () c.world).2)
    have hm := @mark_exec cfg c.world ttlSec key k
    rw [hfound, List.count_append] at hsum
    simp only [Core.Program.ran, callers]
    omega

theorem inv_reachable (h : ((runs cfg s₀).restrict Undisturbed).Reachable c) : Inv cfg s₀ c := by
  have hind : ((runs cfg s₀).restrict Undisturbed).Inductive (Inv cfg s₀) := {
    init := by
      rintro _ rfl
      exact ⟨fun _ => by simp, fun i p hp => by simp at hp⟩
    step := fun c l c' hc hs => inv_step hc hs.1 hs.2 }
  exact hind.reachable c h

/-! ## The commands of a call -/

/-- The keys a call has still to go through. -/
def ahead (p : Proc) : List String :=
  match p.next with
  | .goto (.isProcessed key) => [key]
  | .goto (.filterUnprocessed key keys _) => key :: keys
  | _ => []

theorem ahead_loop (t : Task) (keys result : List String) : ahead ⟨t, CallPc.loop keys result⟩ = keys := by
  cases keys <;> rfl

/-- A call has sent the commands for the keys it has been through, or one has failed. -/
theorem sent_of_path {t : Task} (ht : resets t = false) {es : List (Core.Answer Reply)} {q : Proc}
    (h : Core.Path (Proc.view cfg) ⟨t, t.start⟩ es q) : q.next = .throw ∨ (∀ key, q.next ≠ .goto (.reset key)) ∧
      ∃ done, q.task.keys = done ++ ahead q ∧ Core.repliedTo es = done.map (setNX cfg) := by
  induction h with
  | nil =>
    cases t with
    | isProcessed key => exact .inr ⟨nofun, [], rfl, rfl⟩
    | filterUnprocessed keys =>
      refine .inr ⟨?_, [], (ahead_loop _ keys []).symm, rfl⟩
      cases keys <;> exact nofun
    | reset key => cases ht
  | @reply es q cmd ok err r _ hv ih =>
    rw [Core.repliedTo_reply]
    obtain ⟨task, next⟩ := q
    rcases ih with hthrow | ⟨hreset, done, hkeys, hsent⟩
    · obtain rfl : next = .throw := hthrow
      cases hv
    · cases next with
      | ret | throw => cases hv
      | goto x =>
        cases x with
        | isProcessed key =>
          cases hv
          exact .inr ⟨nofun, done ++ [key], by simpa [ahead] using hkeys, by rw [hsent, List.map_append]; rfl⟩
        | filterUnprocessed key keys result =>
          cases hv
          refine .inr ⟨?_, done ++ [key], ?_, by rw [hsent, List.map_append]; rfl⟩
          · cases keys <;> exact nofun
          · rw [ahead_loop, List.append_assoc]
            exact hkeys
        | reset key => exact absurd rfl (hreset key)
  | @rejection es q cmd ok err _ hv ih =>
    obtain ⟨task, next⟩ := q
    cases next with
    | ret | throw => cases hv
    | goto x => cases x <;> (cases hv; exact .inl rfl)

theorem Placed.next_ne (h : Placed cfg s p) :
    p.next ≠ .throw ∧ (∀ key, p.next ≠ .goto (.reset key)) ∧ resets p.task = false := by
  obtain ⟨task, next⟩ := p
  cases next with
  | goto x =>
    cases x with
    | isProcessed key => exact ⟨nofun, nofun, by rw [show task = .isProcessed key from h]; rfl⟩
    | filterUnprocessed key keys result =>
      obtain ⟨before, ht, -⟩ := h
      exact ⟨nofun, nofun, by rw [ht]; rfl⟩
    | reset key => exact h.elim
  | ret r =>
    cases r with
    | processed b =>
      obtain ⟨key, ht, -⟩ := h
      exact ⟨nofun, nofun, by rw [ht]; rfl⟩
    | unprocessed result =>
      obtain ⟨keys, ht, -⟩ := h
      exact ⟨nofun, nofun, by rw [ht]; rfl⟩
    | nothing => exact h.elim
  | throw => exact h.elim

/-- What is ahead of a call decides what it does next. -/
theorem Placed.of_ahead (h : Placed cfg s p) :
    waitsFor cfg p = ((ahead p).map (setNX cfg)).head? ∧ (finished p = true ↔ ahead p = []) := by
  obtain ⟨hthrow, hreset, -⟩ := h.next_ne
  obtain ⟨task, next⟩ := p
  cases next with
  | goto x =>
    cases x with
    | isProcessed key | filterUnprocessed key keys result => exact ⟨rfl, by simp [finished, ahead]⟩
    | reset key => exact absurd rfl (hreset key)
  | ret r => exact ⟨rfl, by simp [finished, ahead]⟩
  | throw => exact absurd rfl hthrow

/-- A path keeps to its task. -/
theorem task_of_path {p q : Proc} {es : List (Core.Answer Reply)} (h : Core.Path (Proc.view cfg) p es q) :
    q.task = p.task := by
  refine h.keeps (P := fun q => q.task = p.task) rfl fun q hq => ?_
  exact Core.Action.map_all _ fun _ => hq

theorem inStep_reachable (h : ((runs cfg s₀).restrict Undisturbed).Reachable c) {i : Nat} (hp : c.procs[i]? = some p) :
    InStep cfg p (sent i c.log) := by
  have hplaced := (inv_reachable h).placed i p hp
  obtain ⟨hthrow, -, hreset⟩ := hplaced.next_ne
  obtain ⟨t, es, q, hpath, hes, rfl | rfl⟩ :=
    (Core.Program.follows_reachable (S := callers cfg) rfl ⟨rfl, rfl⟩ h).2 i p hp
  · have ht : p.task = t := task_of_path hpath
    obtain ⟨-, done, hkeys, hsent⟩ := (sent_of_path (ht ▸ hreset) hpath).resolve_left hthrow
    obtain ⟨hwait, hfin⟩ := hplaced.of_ahead
    exact ⟨done, ahead p, hkeys, by rw [sent, ← hes]; exact hsent, hwait, hfin⟩
  · exact absurd rfl hthrow

/-- All calls can be run to their end. -/
theorem exists_done (h : ((runs cfg s₀).restrict Undisturbed).Reachable c) :
    ∃ c', ((runs cfg s₀).restrict Undisturbed).Steps c c' ∧ (∀ p ∈ c'.procs, finished p = true) ∧
      c'.procs.map Proc.task = c.procs.map Proc.task := by
  have hcall : ∀ p, 0 < (ahead p).length → ∃ cmd ok err, p.view cfg = .call cmd ok err ∧
      ∀ r, (ahead (ok r)).length < (ahead p).length ∧ (ok r).task = p.task := by
    rintro ⟨task, next⟩ hpos
    cases next with
    | goto x =>
      cases x with
      | isProcessed key => exact ⟨_, _, _, rfl, fun r => ⟨Nat.one_pos, rfl⟩⟩
      | filterUnprocessed key keys result =>
        refine ⟨_, _, _, rfl, fun r => ⟨?_, rfl⟩⟩
        rw [ahead_loop]
        exact Nat.lt_succ_self _
      | reset key => cases hpos
    | ret | throw => cases hpos
  obtain ⟨c', hs, hall, htags⟩ :=
    Core.Program.exists_finished (S := callers cfg) (H := Undisturbed) () (fun _ _ => trivial) hcall c
  refine ⟨c', hs, fun p hp => ?_, htags⟩
  obtain ⟨i, hi⟩ := List.mem_iff_getElem?.mp hp
  have hplaced := (inv_reachable (h.steps hs)).placed i p hi
  exact hplaced.of_ahead.2.mpr (List.length_eq_zero_iff.mp (hall p hp))

/-! ## Over all calls -/

theorem mark_le_one (s : Strings) (key : String) : mark cfg s key ≤ 1 := by
  unfold mark
  split <;> omega

/-- A call that is under way has returned nothing. -/
theorem returned_eq (p : Proc) : returned p = if finished p then found p else [] := by
  obtain ⟨task, next⟩ := p
  cases next with
  | goto q => cases q <;> rfl
  | ret r => rfl
  | throw => rfl

theorem sum_le_sum_found (c : State) (key : String) :
    handedOut key c ≤ (c.procs.map fun p => (found p).count key).sum := by
  refine List.sum_le_sum fun p _ => ?_
  rw [returned_eq]
  split
  · exact le_rfl
  · exact Nat.zero_le _

theorem handedOut_finished (hdone : ∀ p ∈ c.procs, finished p = true) (key : String) :
    handedOut key c = (c.procs.map fun p => (found p).count key).sum := by
  refine congrArg List.sum (List.map_congr_left fun p hp => ?_)
  rw [returned_eq, if_pos (hdone p hp)]

theorem Inv.handedOut_le (h : Inv cfg s₀ c) (key : String) : handedOut key c + mark cfg s₀ key ≤ 1 := by
  have := h.balance key
  have := @mark_le_one cfg c.world key
  have := sum_le_sum_found c key
  omega

/-- A finished call has marked its keys. -/
theorem Placed.marked (h : Placed cfg s p) (hdone : finished p = true) (hkey : key ∈ p.task.keys) :
    Marked cfg s key := by
  obtain ⟨task, next⟩ := p
  cases next with
  | goto | throw => cases hdone
  | ret r =>
    cases r with
    | processed b =>
      obtain ⟨key', ht, hm⟩ := h
      have ht : task = .isProcessed key' := ht
      subst ht
      rwa [List.mem_singleton.mp hkey]
    | unprocessed result =>
      obtain ⟨keys, ht, -, hm⟩ := h
      have ht : task = .filterUnprocessed keys := ht
      subst ht
      exact hm key hkey
    | nothing => exact h.elim

end

/-- In every run in which no command fails and no mark is deleted or expires:
every call sends one command for each of its keys, in order, and has returned
when it has been through them, and all calls can be run to their end; what a
`filterUnprocessed` call returns is a sublist of its keys without repetition, a
key that was marked before is returned by nobody and any other key by at most
one call, once; when all calls have returned, exactly once if somebody asked
about it. -/
theorem one_caller_per_key (cfg : Config) (s₀ : Strings) (c : State)
    (h : ((runs cfg s₀).restrict Undisturbed).Reachable c) :
    (∀ (i : Nat) p, c.procs[i]? = some p → InStep cfg p (sent i c.log)) ∧
    (∃ c', ((runs cfg s₀).restrict Undisturbed).Steps c c' ∧ (∀ p ∈ c'.procs, finished p = true) ∧
      c'.procs.map Proc.task = c.procs.map Proc.task) ∧
    (∀ p ∈ c.procs, ∀ keys result, p.task = .filterUnprocessed keys → p.next = .ret (.unprocessed result) →
      result.Sublist keys ∧ result.Nodup) ∧
    (∀ key, Marked cfg s₀ key → handedOut key c = 0) ∧
    (∀ key, handedOut key c ≤ 1) ∧
    ((∀ p ∈ c.procs, finished p = true) → ∀ key, (∃ p ∈ c.procs, key ∈ p.task.keys) → ¬ Marked cfg s₀ key →
      handedOut key c = 1) := by
  have hi := inv_reachable h
  have hplaced : ∀ p ∈ c.procs, Placed cfg c.world p := by
    intro p hp
    obtain ⟨i, hi'⟩ := List.mem_iff_getElem?.mp hp
    exact hi.placed i p hi'
  refine ⟨fun i p hp => inStep_reachable h hp, exists_done h, fun p hp keys result ht hn => ⟨?_, ?_⟩, fun key hm => ?_,
    fun key => ?_, fun hdone key hreq hm => ?_⟩
  · have h := hplaced p hp
    unfold Placed at h
    simp only [hn] at h
    obtain ⟨keys', ht', hs, -⟩ := h
    cases ht.symm.trans ht'
    exact hs
  · refine List.nodup_iff_count_le_one.mpr fun key => ?_
    have hfound : found p = result := by simp only [found, returned, hn]
    have hle := Core.Program.hold_le_sum (fun p => (found p).count key) hp
    have := hi.balance key
    have := @mark_le_one cfg c.world key
    simp only [hfound] at hle
    omega
  · have := hi.handedOut_le key
    rw [mark, if_pos hm] at this
    omega
  · have := hi.handedOut_le key
    omega
  · obtain ⟨p, hp, hkey⟩ := hreq
    have hmarked := (hplaced p hp).marked (hdone p hp) hkey
    have hb := hi.balance key
    rw [mark, mark, if_neg hm, if_pos hmarked] at hb
    rw [handedOut_finished hdone]
    exact hb

/-- Two callers with overlapping lists, key by key in turn, and `x` marked before. -/
def overlapping : List Label :=
  [.spawn (.filterUnprocessed ["a", "x", "b", "a"]), .spawn (.filterUnprocessed ["b", "a"]), .run 0 (), .run 1 (),
    .run 0 (), .run 1 (), .run 0 (), .run 0 ()]

/-- The marks before them. -/
def markedX : Strings := fun key => if key = "bulk-action:idempotency:x" then some "1" else none

/-- Both want `a` and `b`; each gets one, with one command for each key of its list. -/
theorem one_caller_per_key_overlapping :
    ∃ c, ((runs ⟨"bulk-action:", 1000⟩ markedX).restrict Undisturbed).Reachable c ∧
      c.procs.map returned = [["a"], ["b"]] ∧ handedOut "a" c = 1 ∧ handedOut "x" c = 0 ∧
      (∀ p, c.procs[1]? = some p → InStep ⟨"bulk-action:", 1000⟩ p (sent 1 c.log)) ∧
      sent 1 c.log = [.setNX "bulk-action:idempotency:b" "1" 1, .setNX "bulk-action:idempotency:a" "1" 1] := by
  obtain ⟨c, hr, hP⟩ := Core.Program.exists_of_replay (S := callers ⟨"bulk-action:", 1000⟩)
    (P := fun c : State => decide (c.procs.map returned = [["a"], ["b"]] ∧ (∀ p ∈ c.procs, finished p = true) ∧
      (∃ p ∈ c.procs, "a" ∈ p.task.keys) ∧
      sent 1 c.log = [.setNX "bulk-action:idempotency:b" "1" 1, .setNX "bulk-action:idempotency:a" "1" 1]))
    (show ((callers ⟨"bulk-action:", 1000⟩).replay (fun c l => decide (Undisturbed c l)) ⟨markedX, [], []⟩
      overlapping).any _ = true by decide +kernel)
  have hr' := Core.LTS.Reachable.weaken (K := Undisturbed) (fun _ _ h => of_decide_eq_true h) hr
  obtain ⟨hret, hdone, hreq, hsent⟩ := of_decide_eq_true hP
  obtain ⟨hstep, -, -, hmarked, -, honce⟩ := one_caller_per_key _ _ c hr'
  exact ⟨c, hr', hret, honce hdone "a" hreq (by decide +kernel), hmarked "x" (by decide +kernel),
    fun p hp => hstep 1 p hp, hsent⟩

end NestPlayground.L5.Idempotency
