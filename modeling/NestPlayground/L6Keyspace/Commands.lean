import NestPlayground.L6Keyspace.Represents

/-!
# The commands on the database of a store

What each command does to a database whose key holds a value of the right
type: it succeeds and writes this key at most (`…_run`). On the database of a
store this is a `Sim` of reading or writing the place.
-/
namespace NestPlayground.L6
open L1 Redis

section
variable {db : Database} {key : String} {v v' : Value}

theorem fetch_none {α : Type} {kind : Value → Option α} (h : db key = none) :
    (fetch kind key).run db = .ok none db := by
  simp only [fetch, EStateM.run_bind, EStateM.run_get, h, EStateM.run_pure]

theorem fetch_some {α : Type} {kind : Value → Option α} {a : α} {e : Bool} (h : db key = some ⟨v, e⟩)
    (hk : kind v = some a) : (fetch kind key).run db = .ok (some a) db := by
  simp only [fetch, EStateM.run_bind, EStateM.run_get, h, hk, EStateM.run_pure]

theorem fetch_kept {α : Type} {kind : Value → Option α} {a : α} (h : db key = kept v) (hk : kind v = some a) :
    (fetch kind key).run db = .ok (if v.isEmpty then none else some a) db := by
  unfold kept at h
  split at h
  · rename_i he
    rw [fetch_none h, if_pos he]
  · rename_i he
    rw [fetch_some h hk, if_neg he]

/-- A collection is read with its empty value for a missing key. -/
theorem collection_run {α : Type} {kind : Value → Option α} {a empty : α} (h : db key = kept v) (hk : kind v = some a)
    (he : v.isEmpty = true → a = empty) :
    EStateM.run (do return (← fetch kind key).getD empty : Redis α) db = .ok a db := by
  simp only [EStateM.run_bind, fetch_kept h hk, EStateM.run_pure]
  split
  · rename_i hv
    rw [Option.getD_none, he hv]
  · rfl

theorem put_run (h : db key = kept v) : (put key v').run db = .ok () (Function.update db key (kept v')) := by
  have he : (db key).any Cell.expires = false := by
    rw [h, kept]
    split <;> rfl
  simp only [put, EStateM.run_modify, he, kept]

theorem hgetall_run {h' : Hash} (h : db key = kept (.hash h')) : (hgetall key).run db = .ok h' db :=
  collection_run h rfl Hash.isEmpty_iff.mp

theorem elements_run {xs : List Datum} (h : db key = kept (.list xs)) : (elements key).run db = .ok xs db :=
  collection_run h rfl List.isEmpty_iff.mp

theorem elementsOfSet_run {xs : List String} (h : db key = kept (.set xs)) :
    (elementsOfSet key).run db = .ok xs db :=
  collection_run h rfl List.isEmpty_iff.mp

theorem sorted_run {z : Core.ZSet String ℚ} (h : db key = kept (.zset z)) : (sorted key).run db = .ok z db :=
  collection_run h rfl fun he => Core.ZSet.ext (List.isEmpty_iff.mp he)

/-! ## Hashes -/

section
variable {h' h'' : Hash} {pairs : List (Field × Datum)} {f : Field}

theorem hget_run (h : db key = kept (.hash h')) : (hget key f).run db = .ok (h' f) db := by
  simp only [hget, EStateM.run_bind, hgetall_run h, EStateM.run_pure]

theorem hset_run (h : db key = kept (.hash h')) (he : pairs.foldl Hash.set h' = h'') :
    (hset key pairs).run db = .ok () (Function.update db key (kept (.hash h''))) := by
  simp only [hset, EStateM.run_bind, hgetall_run h, put_run h, he]

theorem hsetnx_run {d : Datum} (h : db key = kept (.hash h')) (he : h'.set (f, (h' f).getD d) = h'') :
    (hsetnx key f d).run db = .ok () (Function.update db key (kept (.hash h''))) := by
  simp only [hsetnx, EStateM.run_bind, hgetall_run h, put_run h, he]

theorem integer_run {n : Option Nat} : (integer (n.map nat)).run db = .ok (n.getD 0 : Int) db := by
  cases n <;> rfl

theorem hincrby_run {o : Option Nat} {n : Nat} (h : db key = kept (.hash h')) (ho : h' f = o.map nat)
    (he : h'.set (f, nat (o.getD 0 + n)) = h'') :
    (hincrby key f n).run db = .ok ((o.getD 0 + n : Nat) : Int) (Function.update db key (kept (.hash h''))) := by
  simp only [hincrby, EStateM.run_bind, hgetall_run h, ho, integer_run, put_run h, ← he, EStateM.run_pure, nat]
  push_cast
  rfl

end

/-! ## Lists -/

section
variable {xs : List Datum} {d : Datum}

theorem llen_run (h : db key = kept (.list xs)) : (llen key).run db = .ok xs.length db := by
  simp only [llen, EStateM.run_bind, elements_run h, EStateM.run_pure]

theorem rpush_run (h : db key = kept (.list xs)) :
    (rpush key d).run db = .ok () (Function.update db key (kept (.list (xs ++ [d])))) := by
  simp only [rpush, EStateM.run_bind, elements_run h, put_run h]

theorem lpop_run (h : db key = kept (.list xs)) :
    (lpop key).run db = .ok xs.head? (Function.update db key (kept (.list xs.tail))) := by
  simp only [lpop, EStateM.run_bind, elements_run h, put_run h, EStateM.run_pure]

/-- A range counted from the front. -/
theorem lrange_run (h : db key = kept (.list xs)) (start : Nat) {count : Nat} (hc : 0 < count) :
    (lrange key start (start + count - 1)).run db = .ok ((xs.drop start).take count) db := by
  have hlast : ¬ (start + count - 1 : Int) < 0 := by omega
  have hcount : (start + count - 1 + 1 - start : Int) = count := by omega
  simp only [lrange, EStateM.run_bind, elements_run h, EStateM.run_pure, if_neg (Int.natCast_nonneg start).not_gt,
    if_neg hlast, max_eq_right (Int.natCast_nonneg start), hcount, Int.toNat_natCast]

/-- The whole list. -/
theorem lrange_all_run (h : db key = kept (.list xs)) : (lrange key 0 (-1)).run db = .ok xs db := by
  have hcount : ((xs.length : Int) + -1 + 1 - 0).toNat = xs.length := by omega
  simp only [lrange, EStateM.run_bind, elements_run h, EStateM.run_pure, lt_irrefl, if_false, max_self,
    Int.toNat_zero, List.drop_zero, hcount, List.take_length, show (-1 : Int) < 0 by decide, if_true]

end

/-! ## Sets -/

section
variable {xs : List String} {member : String}

theorem scard_run (h : db key = kept (.set xs)) : (scard key).run db = .ok xs.length db := by
  simp only [scard, EStateM.run_bind, elementsOfSet_run h, EStateM.run_pure]

theorem sadd_run (h : db key = kept (.set xs)) :
    (sadd key member).run db = .ok () (Function.update db key (kept (.set (Store.sadd xs member)))) := by
  simp only [sadd, EStateM.run_bind, elementsOfSet_run h, put_run h]

theorem srem_run (h : db key = kept (.set xs)) :
    (srem key member).run db = .ok () (Function.update db key (kept (.set (Store.srem xs member)))) := by
  simp only [srem, EStateM.run_bind, elementsOfSet_run h, put_run h]

theorem smembers_run {order : List String} (h : db key = kept (.set xs)) :
    (smembers key order).run db = .ok (L3.listing order xs) db := by
  simp only [smembers, EStateM.run_bind, elementsOfSet_run h, EStateM.run_pure]

end

/-! ## Sorted sets -/

section
variable {z : Core.ZSet String ℚ} {member : String}

theorem zcard_run (h : db key = kept (.zset z)) : (zcard key).run db = .ok z.card db := by
  simp only [zcard, EStateM.run_bind, sorted_run h, EStateM.run_pure]

theorem zadd_run {score : ℚ} (h : db key = kept (.zset z)) :
    (zadd key score member).run db = .ok () (Function.update db key (kept (.zset (z.zadd score member)))) := by
  simp only [zadd, EStateM.run_bind, sorted_run h, put_run h]

theorem zrem_run (h : db key = kept (.zset z)) :
    (zrem key member).run db =
      .ok (if member ∈ z then 1 else 0) (Function.update db key (kept (.zset (z.zrem member)))) := by
  simp only [zrem, EStateM.run_bind, sorted_run h, put_run h, EStateM.run_pure]

theorem zscore_run (h : db key = kept (.zset z)) : (zscore key member).run db = .ok (z.score member) db := by
  simp only [zscore, EStateM.run_bind, sorted_run h, EStateM.run_pure]

theorem zrevrangeFirst_run (h : db key = kept (.zset z)) : (zrevrangeFirst key).run db = .ok z.top db := by
  simp only [zrevrangeFirst, EStateM.run_bind, sorted_run h, EStateM.run_pure]

theorem zrangebyscore_run {max : ℚ} {limit : Nat} (h : db key = kept (.zset z)) :
    (zrangebyscore key max limit).run db = .ok (z.rangeByScore max limit) db := by
  simp only [zrangebyscore, EStateM.run_bind, sorted_run h, EStateM.run_pure]

end

/-! ## Strings -/

section
variable {o : Option Nat} {e : Bool} {n : Nat}

/-- The number under a key, `none` if the key is missing. -/
theorem incrby_run {k : Int} (h : db key = o.map fun n => ⟨.string (nat n), e⟩) :
    (incrby key k).run db =
      .ok (o.getD 0 + k) (Function.update db key (some ⟨.string (.int (o.getD 0 + k)), o.isSome && e⟩)) := by
  have hf : (fetch Value.string? key).run db = .ok (o.map nat) db := by
    cases o with
    | none => exact fetch_none h
    | some n => exact fetch_some h rfl
  have he : (db key).any Cell.expires = (o.isSome && e) := by
    rw [h]
    cases o <;> rfl
  simp only [incrby, EStateM.run_bind, hf, integer_run, put, EStateM.run_modify, EStateM.run_pure, he]
  rfl

theorem incrby_countCell (h : db key = countCell o) :
    (incrby key 1).run db =
      .ok ((o.getD 0 + 1 : Nat) : Int) (Function.update db key (countCell (some (o.getD 0 + 1)))) := by
  rw [incrby_run h, Bool.and_false]
  simp [countCell, nat]

/-- A count below 0 is set to 0. -/
theorem decrClamped_run {k : Int} (h : db key = countCell o) :
    (Scripts.decrClamped key k).run db =
      .ok (o.getD 0 - k) (Function.update db key (countCell (some (o.getD 0 - k : Int).toNat))) := by
  simp only [Scripts.decrClamped, EStateM.run_bind, incrby_run h, Bool.and_false, Scripts.onlyIf, ← sub_eq_add_neg]
  by_cases hneg : (o.getD 0 - k : Int) < 0
  · simp only [if_pos hneg, setString, EStateM.run_modify, EStateM.run_pure, Function.update_idem,
      Int.toNat_of_nonpos hneg.le]
    rfl
  · simp only [if_neg hneg, EStateM.run_pure, countCell, nat, Option.map_some, Int.toNat_of_nonneg (not_lt.mp hneg)]

theorem counterCell_iff {cell : Option Cell} :
    CounterCell n cell ↔ ∃ o : Option Nat, o.getD 0 = n ∧ cell = o.map fun n => ⟨.string (nat n), true⟩ := by
  constructor
  · rintro (⟨rfl, rfl⟩ | rfl)
    · exact ⟨none, rfl, rfl⟩
    · exact ⟨some n, rfl, rfl⟩
  · rintro ⟨_ | m, rfl, rfl⟩
    · exact .inl ⟨rfl, rfl⟩
    · exact .inr rfl

/-- A counter that is made has a TTL. -/
theorem incrExpiring_run {ttl : Nat} (ht : 0 < ttl) (h : CounterCell n (db key)) :
    (Scripts.incrExpiring key ttl).run db =
      .ok ((n + 1 : Nat) : Int) (Function.update db key (some ⟨.string (nat (n + 1)), true⟩)) := by
  obtain ⟨o, rfl, ho⟩ := counterCell_iff.mp h
  simp only [Scripts.incrExpiring, EStateM.run_bind, incrby_run ho, Scripts.onlyIf]
  by_cases h1 : (o.getD 0 + 1 : Int) = 1
  · simp only [if_pos h1, expire, EStateM.run_modify, EStateM.run_pure, Function.update_idem, Function.update_self,
      ht.ne', if_false, Option.map_some]
    rfl
  · cases o with
    | none => exact absurd rfl h1
    | some n =>
      simp only [if_neg h1, EStateM.run_pure]
      rfl

theorem decrCounter_run (h : CounterCell (n + 1) (db key)) :
    (incrby key (-1)).run db = .ok (n : Int) (Function.update db key (some ⟨.string (nat n), true⟩)) := by
  obtain ⟨o, ho, hcell⟩ := counterCell_iff.mp h
  cases o with
  | none => cases ho
  | some m =>
    obtain rfl : m = n + 1 := ho
    rw [incrby_run hcell]
    simp [nat]

theorem getString_lockCell {owner : Option String} (h : db key = lockCell owner) :
    (getString key).run db = .ok (owner.map .text) db := by
  cases owner with
  | none => exact fetch_none h
  | some token => exact fetch_some h rfl

theorem setNxPx_run {owner : Option String} {token : String} {ttl : Nat} (ht : 0 < ttl) (h : db key = lockCell owner) :
    (setNxPx key (.text token) ttl).run db =
      .ok owner.isNone (Function.update db key (lockCell (some (owner.getD token)))) := by
  cases owner with
  | none =>
    simp only [lockCell, Option.map_none] at h
    simp only [setNxPx, ht.ne', if_false, EStateM.run_bind, EStateM.run_get, h, EStateM.run_modify, EStateM.run_pure]
    rfl
  | some owner =>
    have hsame : Function.update db key (lockCell (some owner)) = db := by rw [← h, Function.update_eq_self]
    simp only [lockCell, Option.map_some] at h
    simp only [setNxPx, ht.ne', if_false, EStateM.run_bind, EStateM.run_get, h, EStateM.run_pure, Option.getD_some, hsame]
    rfl

end

theorem del_run : (del [key]).run db = .ok () (Function.update db key none) := rfl

end

/-! ## Rules -/

/-- From a database of `s` the computation ends in a database of `r.1` with the reply `r.2`. -/
abbrev Sim {α : Type} (keyPrefix : String) (m : Redis α) (s : Store) (r : Store × α) : Prop :=
  Core.Simulates (Represents keyPrefix) m s r

section
variable {p : String} {s : Store} {α : Type}

theorem sim_integer {o : Option Nat} : Sim p (integer (o.map nat)) s (s, (o.getD 0 : Int)) :=
  fun db h => ⟨db, integer_run, h⟩

theorem sim_tonumber {o : Option ℚ} : Sim p (tonumber (o.map .number)) s (s, o.getD 0) := by
  intro db h
  refine ⟨db, ?_, h⟩
  cases o <;> rfl

theorem sim_text {x : String} : Sim p (text (.text x)) s (s, x) := fun db h => ⟨db, rfl, h⟩

theorem sim_onlyIf {c : Prop} [Decidable c] {m : Redis Unit} {s' : Store} (h : c → Sim p m s (s', ()))
    (h' : ¬ c → s = s') : Sim p (Scripts.onlyIf c m) s (s', ()) := by
  unfold Scripts.onlyIf
  refine .ite h fun hc => ?_
  rw [h' hc]
  exact .pure ()

namespace HashPlace
variable (P : HashPlace p α) {a : α} {f : Field}

theorem hgetall (hs : P.get s = a) : Sim p (Redis.hgetall P.key) s (s, P.fields a) :=
  P.reads fun _ h => hgetall_run (by rw [h, P.cell_eq, hs])

theorem hget (hs : P.get s = a) (f : Field) : Sim p (Redis.hget P.key f) s (s, P.fields a f) :=
  P.reads fun _ h => hget_run (by rw [h, P.cell_eq, hs])

theorem hset {pairs : List (Field × Datum)} (hs : P.get s = a) (a' : α)
    (he : pairs.foldl Hash.set (P.fields a) = P.fields a') : Sim p (Redis.hset P.key pairs) s (P.set s a', ()) :=
  P.writes a' fun _ h => by
    rw [P.cell_eq]
    exact hset_run (by rw [h, P.cell_eq, hs]) he

theorem hsetnx {n : Nat} (hs : P.get s = a) (o : Option Nat) (a' : α) (ho : P.fields a f = o.map nat)
    (he : (P.fields a).set (f, nat (o.getD n)) = P.fields a') :
    Sim p (Redis.hsetnx P.key f (nat n)) s (P.set s a', ()) :=
  P.writes a' fun _ h => by
    rw [P.cell_eq]
    exact hsetnx_run (by rw [h, P.cell_eq, hs]) (by rw [ho, Option.getD_map, he])

theorem hincr (hs : P.get s = a) (o : Option Nat) (a' : α) (ho : P.fields a f = o.map nat)
    (he : (P.fields a).set (f, nat (o.getD 0 + 1)) = P.fields a') :
    Sim p (Redis.hincrby P.key f 1) s (P.set s a', ((o.getD 0 + 1 : Nat) : Int)) :=
  P.writes a' fun _ h => by
    rw [P.cell_eq]
    exact hincrby_run (by rw [h, P.cell_eq, hs]) ho he

theorem del (a' : α) (he : (P.fields a').isEmpty = true) : Sim p (Redis.del [P.key]) s (P.set s a', ()) :=
  P.writes a' fun _ _ => by
    rw [P.cell_eq, kept, if_pos (show (Value.hash (P.fields a')).isEmpty = true from he)]
    exact del_run

end HashPlace

namespace ListPlace
variable (P : ListPlace p α)

variable {xs : List α} {x : α}

theorem llen (hs : P.get s = xs) : Sim p (Redis.llen P.key) s (s, xs.length) :=
  P.reads fun _ h => by rw [llen_run (h.trans (P.cell_eq _)), List.length_map, hs]

theorem rpush (x : α) : Sim p (Redis.rpush P.key (P.item x)) s (P.set s (P.get s ++ [x]), ()) :=
  P.writes _ fun _ h => by rw [rpush_run (h.trans (P.cell_eq _)), P.cell_eq, List.map_append, List.map_singleton]

theorem lpop : Sim p (Redis.lpop P.key) s (P.set s (P.get s).tail, (P.get s).head?.map P.item) :=
  P.writes _ fun _ h => by rw [lpop_run (h.trans (P.cell_eq _)), P.cell_eq, List.head?_map, List.map_tail]

theorem lpop_nil (hs : P.get s = []) : Sim p (Redis.lpop P.key) s (s, none) :=
  P.lpop.of_eq (by rw [hs, List.tail_nil, ← hs, P.set_get, hs]; rfl)

theorem lpop_cons (hs : P.get s = x :: xs) : Sim p (Redis.lpop P.key) s (P.set s xs, some (P.item x)) :=
  P.lpop.of_eq (by rw [hs]; rfl)

theorem lrange (start : Nat) {count : Nat} (hc : 0 < count) :
    Sim p (Redis.lrange P.key start (start + count - 1)) s (s, (((P.get s).drop start).take count).map P.item) :=
  P.reads fun _ h => by rw [lrange_run (h.trans (P.cell_eq _)) start hc, ← List.map_drop, ← List.map_take]

theorem lrangeAll : Sim p (Redis.lrange P.key 0 (-1)) s (s, (P.get s).map P.item) :=
  P.reads fun _ h => lrange_all_run (h.trans (P.cell_eq _))

theorem del : Sim p (Redis.del [P.key]) s (P.set s [], ()) :=
  P.writes [] fun _ _ => by
    rw [P.cell_eq]
    exact del_run

end ListPlace

namespace SetPlace
variable (P : SetPlace p) (g : GroupId)

theorem scard : Sim p (Redis.scard P.key) s (s, (P.get s).length) :=
  P.reads fun _ h => scard_run (h.trans (P.cell_eq _))

theorem sadd : Sim p (Redis.sadd P.key g) s (P.set s (Store.sadd (P.get s) g), ()) :=
  P.writes _ fun _ h => by rw [sadd_run (h.trans (P.cell_eq _)), P.cell_eq]

theorem srem : Sim p (Redis.srem P.key g) s (P.set s (Store.srem (P.get s) g), ()) :=
  P.writes _ fun _ h => by rw [srem_run (h.trans (P.cell_eq _)), P.cell_eq]

theorem smembers (order : List String) : Sim p (Redis.smembers P.key order) s (s, L3.listing order (P.get s)) :=
  P.reads fun _ h => smembers_run (h.trans (P.cell_eq _))

end SetPlace

namespace TimedPlace
variable (P : TimedPlace p) (j : JobId)

theorem zadd (time : Nat) : Sim p (Redis.zadd P.key time j) s (P.set s ((P.get s).zadd time j), ()) :=
  P.writes _ fun _ h => by
    rw [zadd_run (h.trans (P.cell_eq _)), P.cell_eq, scores, scores, Core.ZSet.zadd_mapScore]

theorem zrem : Sim p (Redis.zrem P.key j) s (P.set s ((P.get s).zrem j), if j ∈ P.get s then 1 else 0) :=
  P.writes _ fun _ h => by
    rw [zrem_run (h.trans (P.cell_eq _)), P.cell_eq]
    simp only [scores, Core.ZSet.zrem_mapScore, Core.ZSet.mem_mapScore]

theorem zrangebyscore (max limit : Nat) :
    Sim p (Redis.zrangebyscore P.key max limit) s (s, (P.get s).rangeByScore max limit) :=
  P.reads fun _ h => by
    rw [zrangebyscore_run (h.trans (P.cell_eq _))]
    exact congrArg (EStateM.Result.ok · _) (Core.ZSet.rangeByScore_mapScore (P.get s) max limit)

theorem zscore : Sim p (Redis.zscore P.key j) s (s, (scores (P.get s)).score j) :=
  P.reads fun _ h => zscore_run (h.trans (P.cell_eq _))

end TimedPlace

section FairQueue
variable (level : PriorityLevel) {z : Core.ZSet GroupId ℚ} (hs : s.fairQueue level = z)
include hs

theorem sim_zcard : Sim p (zcard (RedisKeyBuilder.fairQueue p level)) s (s, z.card) :=
  (fairQueueAt p level).reads fun _ h => zcard_run (hs ▸ h)

theorem sim_zrevrangeFirst : Sim p (zrevrangeFirst (RedisKeyBuilder.fairQueue p level)) s (s, z.top) :=
  (fairQueueAt p level).reads fun _ h => zrevrangeFirst_run (hs ▸ h)

theorem sim_zadd (score : ℚ) (g : GroupId) :
    Sim p (zadd (RedisKeyBuilder.fairQueue p level) score g) s ((fairQueueAt p level).set s (z.zadd score g), ()) :=
  (fairQueueAt p level).writes _ fun _ h => zadd_run (hs ▸ h)

theorem sim_zrem (g : GroupId) :
    Sim p (zrem (RedisKeyBuilder.fairQueue p level) g) s
      ((fairQueueAt p level).set s (z.zrem g), if g ∈ z then 1 else 0) :=
  (fairQueueAt p level).writes _ fun _ h => zrem_run (hs ▸ h)

end FairQueue

theorem sim_incrCount (g : GroupId) :
    Sim p (incrby (RedisKeyBuilder.congestionNonReadyCount p g) 1) s
      ((countAt p g).set s (some ((s.congestionNonReadyCount g).getD 0 + 1)),
        (((s.congestionNonReadyCount g).getD 0 + 1 : Nat) : Int)) :=
  (countAt p g).writes _ fun _ h => incrby_countCell h

theorem sim_decrClamped (g : GroupId) (k : Int) :
    Sim p (Scripts.decrClamped (RedisKeyBuilder.congestionNonReadyCount p g) k) s
      ((countAt p g).set s (some ((s.congestionNonReadyCount g).getD 0 - k : Int).toNat),
        ((s.congestionNonReadyCount g).getD 0 - k : Int)) :=
  (countAt p g).writes _ fun _ h => decrClamped_run h

/-- A counter that exists after the command. -/
theorem sim_counter {m : Redis α} {b : α} (g : GroupId) (window n : Nat)
    (hm : ∀ db : Database, CounterCell (s.rateLimit (rateLimitGroup p g window)) (db (rateLimitGroup p g window)) →
      m.run db = .ok b (Function.update db (rateLimitGroup p g window) (some ⟨.string (nat n), true⟩))) :
    Sim p m s ({ s with rateLimit := Function.update s.rateLimit (rateLimitGroup p g window) n }, b) :=
  fun db h => ⟨_, hm db (h.holds (.rateLimit g window)), h.writeCounter g window (.inr rfl)⟩

end
end NestPlayground.L6
