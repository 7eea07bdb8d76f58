import NestPlayground.L3Services.WebClient
import Mathlib.Algebra.Order.BigOperators.Group.List
import Mathlib.Tactic.Linarith
import Mathlib.Tactic.NormNum
import Mathlib.Tactic.Positivity

/-!
# Retrying

`RetryExecutor.execute` over whatever the action comes to, call by call, with
every policy of finite options that the builder accepts. `execute_retries` is
the run of the loop: the first success if it comes in time, with a sleep before
each repetition, and else the last error after `⌊maxRetries⌋ + 1` calls and
`⌈maxRetries⌉` sleeps. `sleeps_bounded` is how long it sleeps in total.
-/
namespace NestPlayground.L5.Retrying
open L3 L3.RetryExecutor

section
variable {ε α : Type} {action : Nat → Except ε α} {random : Nat → ℚ} {p : RetryPolicy} {b : RetryPolicyBuilder}

/-! ## The builder -/

/-- No option is negative. -/
structure Valid (p : RetryPolicy) : Prop where
  maxRetries : 0 ≤ p.maxRetries
  delay : 0 ≤ p.delay
  jitter : 0 ≤ p.jitter
  multiplier : 0 ≤ p.multiplier
  maxDelay : 0 ≤ p.maxDelay

theorem valid_iff (b : RetryPolicyBuilder) : Valid b.options ↔ ∀ x ∈ b.checks, 0 ≤ x.2 := by
  simp only [RetryPolicyBuilder.checks, List.mem_cons, List.not_mem_nil, or_false, forall_eq_or_imp, forall_eq]
  constructor
  · intro h
    exact ⟨h.maxRetries, h.delay, h.jitter, h.multiplier, h.maxDelay⟩
  · intro h
    exact ⟨h.1, h.2.1, h.2.2.1, h.2.2.2.1, h.2.2.2.2⟩

/-- The builder accepts just the valid options. -/
theorem build_ok_iff : b.build = .ok p ↔ Valid b.options ∧ p = b.options := by
  unfold RetryPolicyBuilder.build RetryPolicyBuilder.validate
  rw [valid_iff]
  cases hf : b.checks.find? fun x => x.2 < 0 with
  | none =>
    rw [List.find?_eq_none] at hf
    simp only [decide_eq_true_eq, not_lt] at hf
    simp only [Option.map_none, Except.ok.injEq]
    exact ⟨fun h => ⟨hf, h.symm⟩, fun h => h.2.symm⟩
  | some x =>
    have hneg : x.2 < 0 := by simpa using List.find?_some hf
    have hmem := List.mem_of_find?_eq_some hf
    simp only [Option.map_some, reduceCtorEq, false_iff]
    exact fun h => absurd (h.1 x hmem) (not_le.mpr hneg)

/-! ## The loop -/

/-- The sleeps after the calls from `start` on, before the call `stop`. -/
def sleepsFrom (random : Nat → ℚ) (p : RetryPolicy) (start stop : Nat) : List ℚ :=
  (List.range' start (stop - start)).map fun i => calculateDelay i (random i) p

theorem sleepsFrom_self (random : Nat → ℚ) (p : RetryPolicy) {start stop : Nat} (h : stop ≤ start) :
    sleepsFrom random p start stop = [] := by
  unfold sleepsFrom
  rw [Nat.sub_eq_zero_of_le h]
  rfl

theorem sleepsFrom_succ (random : Nat → ℚ) (p : RetryPolicy) {start stop : Nat} (h : start < stop) :
    sleepsFrom random p start stop =
      calculateDelay start (random start) p :: sleepsFrom random p (start + 1) stop := by
  unfold sleepsFrom
  rw [show stop - start = stop - (start + 1) + 1 by omega, List.range'_succ, List.map_cons]

/-- The calls from `start` on, before the call `stop`, all fail. -/
def Fails (action : Nat → Except ε α) (start stop : Nat) : Prop := ∀ i, start ≤ i → i < stop → ∃ e, action i = .error e

theorem Fails.cons {start stop : Nat} {e : ε} (he : action start = .error e) (h : Fails action (start + 1) stop) :
    Fails action start stop := by
  intro i hi hlt
  rcases Nat.eq_or_lt_of_le hi with rfl | hi
  · exact ⟨e, he⟩
  · exact h i hi hlt

/-- What the loop comes to from an attempt on. -/
inductive Ends (action : Nat → Except ε α) (random : Nat → ℚ) (p : RetryPolicy) (attempt : Nat) (lastError : Option ε) :
    Settled ε α → Prop where
  | success {k a} (hk : attempt ≤ k) (hlast : k ≤ ⌊p.maxRetries⌋₊) (ha : action k = .ok a)
      (hf : Fails action attempt k) :
      Ends action random p attempt lastError ⟨.ok a, k + 1, sleepsFrom random p attempt k⟩
  | failure {e} (hf : Fails action attempt (⌊p.maxRetries⌋₊ + 1))
      (he : ∀ e', e = some e' → attempt ≤ ⌊p.maxRetries⌋₊ → action ⌊p.maxRetries⌋₊ = .error e')
      (hsome : attempt ≤ ⌊p.maxRetries⌋₊ → e ≠ none) (hnone : ⌊p.maxRetries⌋₊ < attempt → e = lastError) :
      Ends action random p attempt lastError
        ⟨.error e, ⌊p.maxRetries⌋₊ + 1, sleepsFrom random p attempt ⌈p.maxRetries⌉₊⟩

/-- One failed attempt, and the rest. -/
theorem Ends.retry {attempt : Nat} {lastError : Option ε} {e : ε} {x : Settled ε α} (hp : 0 ≤ p.maxRetries)
    (hle : attempt ≤ ⌊p.maxRetries⌋₊) (he : action attempt = .error e)
    (h : Ends action random p (attempt + 1) (some e) x) :
    Ends action random p attempt lastError
      (if (attempt : ℚ) < p.maxRetries then
        { x with sleeps := calculateDelay attempt (random attempt) p :: x.sleeps } else x) := by
  cases h with
  | @success k a hk hlast ha hf =>
    have hlt : (attempt : ℚ) < p.maxRetries :=
      lt_of_lt_of_le (Nat.cast_lt.mpr hk) ((Nat.le_floor_iff hp).mp hlast)
    rw [if_pos hlt]
    simp only
    rw [← sleepsFrom_succ random p hk]
    exact .success (Nat.le_of_succ_le hk) hlast ha (hf.cons he)
  | @failure e' hf he' hsome hnone =>
    have hcases : ∀ e'', e' = some e'' → attempt ≤ ⌊p.maxRetries⌋₊ → action ⌊p.maxRetries⌋₊ = .error e'' := by
      intro e'' hs _
      rcases Nat.eq_or_lt_of_le hle with heq | hlt
      · have := hnone (by omega)
        rw [hs] at this
        cases this
        rw [← heq]
        exact he
      · exact he' e'' hs hlt
    have hnot : attempt ≤ ⌊p.maxRetries⌋₊ → e' ≠ none := by
      intro _
      rcases Nat.eq_or_lt_of_le hle with heq | hlt
      · rw [hnone (by omega)]
        exact Option.some_ne_none e
      · exact hsome hlt
    by_cases hlt : (attempt : ℚ) < p.maxRetries
    · rw [if_pos hlt]
      simp only
      rw [← sleepsFrom_succ random p (Nat.lt_ceil.mpr hlt)]
      exact .failure (hf.cons he) hcases hnot fun h => absurd hle (Nat.not_le.mpr h)
    · have hceil : ⌈p.maxRetries⌉₊ ≤ attempt := Nat.le_of_not_lt (mt Nat.lt_ceil.mp hlt)
      rw [if_neg hlt, sleepsFrom_self random p (Nat.le_succ_of_le hceil), ← sleepsFrom_self random p hceil]
      exact .failure (hf.cons he) hcases hnot fun h => absurd hle (Nat.not_le.mpr h)

theorem ends_attempts (action : Nat → Except ε α) (random : Nat → ℚ) (hp : 0 ≤ p.maxRetries) (n : Nat) :
    ∀ attempt lastError, attempt + n = ⌊p.maxRetries⌋₊ + 1 →
      Ends action random p attempt lastError (attempts action random p attempt lastError) := by
  induction n with
  | zero =>
    intro attempt lastError h
    have hlt : ⌊p.maxRetries⌋₊ < attempt := by omega
    have hnot : ¬ (attempt : ℚ) ≤ p.maxRetries := fun h => absurd (attempt_le h) (Nat.not_le.mpr hlt)
    have hceil : ⌈p.maxRetries⌉₊ ≤ attempt := (Nat.ceil_le_floor_add_one _).trans hlt
    unfold attempts
    rw [if_neg hnot, ← sleepsFrom_self random p hceil, show attempt = ⌊p.maxRetries⌋₊ + 1 by omega]
    refine .failure (fun i hi hlt' => ?_) (fun e' _ h => ?_) (fun h => ?_) fun _ => rfl
    all_goals omega
  | succ n ih =>
    intro attempt lastError h
    have hle : attempt ≤ ⌊p.maxRetries⌋₊ := by omega
    unfold attempts
    rw [if_pos ((Nat.le_floor_iff hp).mp hle)]
    cases ha : action attempt with
    | ok a =>
      simp only
      rw [← sleepsFrom_self random p (Nat.le_refl attempt)]
      exact .success (Nat.le_refl _) hle ha fun i hi hlt => by omega
    | error e => exact (ih (attempt + 1) (some e) (by omega)).retry hp hle ha

theorem ends_execute (hv : Valid p) (action : Nat → Except ε α) (random : Nat → ℚ) :
    Ends action random p 0 none (execute action random p) :=
  ends_attempts action random hv.maxRetries (⌊p.maxRetries⌋₊ + 1) 0 none (Nat.zero_add _)

/-- For every policy the builder accepts and whatever the action comes to:
`execute` returns the first success if it is among the first `⌊maxRetries⌋ + 1`
calls, and rejects with the error of the last of them otherwise; it calls no more
often, and sleeps after every call that is repeated. With a fractional
`maxRetries` it sleeps after the last call too. -/
theorem execute_retries (b : RetryPolicyBuilder) (p : RetryPolicy) (action : Nat → Except ε α) (random : Nat → ℚ)
    (hb : b.build = .ok p) :
    (∃ k a, k ≤ ⌊p.maxRetries⌋₊ ∧ action k = .ok a ∧ Fails action 0 k ∧
      execute action random p = ⟨.ok a, k + 1, sleepsFrom random p 0 k⟩) ∨
    ∃ e, action ⌊p.maxRetries⌋₊ = .error e ∧ Fails action 0 (⌊p.maxRetries⌋₊ + 1) ∧
      execute action random p = ⟨.error (some e), ⌊p.maxRetries⌋₊ + 1, sleepsFrom random p 0 ⌈p.maxRetries⌉₊⟩ := by
  obtain ⟨hvalid, rfl⟩ := build_ok_iff.mp hb
  have h := ends_execute hvalid action random
  generalize execute action random b.options = x at h ⊢
  cases h with
  | success hk hlast ha hf => exact .inl ⟨_, _, hlast, ha, hf, rfl⟩
  | @failure e hf he hsome hnone =>
    cases e with
    | none => exact absurd rfl (hsome (Nat.zero_le _))
    | some e => exact .inr ⟨e, he e rfl (Nat.zero_le _), hf, rfl⟩

/-- One and a half retries: two calls that fail, and a sleep after each. -/
theorem execute_retries_fractional : ∃ p, RetryPolicy.withMaxRetries (3 / 2) = .ok p ∧
    execute (fun n => (.error n : Except Nat Unit)) (fun _ => 0) p =
      ⟨.error (some 1), 2, sleepsFrom (fun _ => 0) p 0 2⟩ := by
  have hbuilt : (({} : RetryPolicyBuilder).call (.maxRetries (3 / 2))).build = .ok ⟨3 / 2, 1000, 0, 0, 0⟩ := by
    decide +kernel
  have hfloor : ⌊(3 / 2 : ℚ)⌋₊ = 1 := by norm_num [Nat.floor_eq_iff]
  have hceil : ⌈(3 / 2 : ℚ)⌉₊ = 2 := by norm_num [Nat.ceil_eq_iff]
  refine ⟨_, hbuilt, ?_⟩
  rcases execute_retries _ _ (fun n => (.error n : Except Nat Unit)) (fun _ => 0) hbuilt with
    ⟨k, a, -, hok, -⟩ | ⟨e, he, -, hrun⟩
  · cases hok
  · rw [hfloor] at he hrun
    rw [hceil] at hrun
    cases he
    exact hrun

/-! ## The sleeps -/

/-- The factor from one delay to the next: a multiplier of 0 stands for 1. -/
def growth (p : RetryPolicy) : ℚ := if 0 < p.multiplier then p.multiplier else 1

def baseDelay (p : RetryPolicy) (i : Nat) : ℚ := p.delay * growth p ^ i

theorem growth_pos (p : RetryPolicy) : 0 < growth p := by
  unfold growth
  split
  · assumption
  · exact one_pos

theorem baseDelay_nonneg (hv : Valid p) (i : Nat) : 0 ≤ baseDelay p i :=
  mul_nonneg hv.delay (pow_nonneg (growth_pos p).le i)

/-- The delay before the cap. -/
theorem calculateDelay_eq (hv : Valid p) (i : Nat) (r : ℚ) :
    calculateDelay i r p =
      if 0 < p.maxDelay then min (baseDelay p i + r * p.jitter) p.maxDelay else baseDelay p i + r * p.jitter := by
  have hbase : (if 0 < p.multiplier then p.delay * p.multiplier ^ i else p.delay) = baseDelay p i := by
    unfold baseDelay growth
    split <;> simp
  have hjitter : (if 0 < p.jitter then r * p.jitter else 0) = r * p.jitter := by
    split
    · rfl
    · rename_i h
      rw [le_antisymm (not_lt.mp h) hv.jitter, mul_zero]
  unfold calculateDelay
  simp only [hbase, hjitter]

theorem calculateDelay_bounds (hv : Valid p) {r : ℚ} (h₀ : 0 ≤ r) (h₁ : r < 1) (i : Nat) :
    0 ≤ calculateDelay i r p ∧ calculateDelay i r p ≤ baseDelay p i + p.jitter ∧
      (0 < p.maxDelay → calculateDelay i r p ≤ p.maxDelay) := by
  have hbase := baseDelay_nonneg hv i
  have hlow : 0 ≤ r * p.jitter := mul_nonneg h₀ hv.jitter
  have hhigh : r * p.jitter ≤ p.jitter := mul_le_of_le_one_left hv.jitter h₁.le
  rw [calculateDelay_eq hv]
  split
  · rename_i hcap
    refine ⟨le_min (by linarith) hcap.le, (min_le_left _ _).trans (by linarith), fun _ => min_le_right _ _⟩
  · rename_i hcap
    exact ⟨by linarith, by linarith, fun h => absurd h hcap⟩

/-- Without jitter and with no multiplier below 1 the delays never shrink. -/
theorem calculateDelay_mono (hv : Valid p) (hj : p.jitter = 0) (hm : p.multiplier = 0 ∨ 1 ≤ p.multiplier)
    (r r' : ℚ) {i k : Nat} (h : i ≤ k) : calculateDelay i r p ≤ calculateDelay k r' p := by
  have hgrowth : 1 ≤ growth p := by
    unfold growth
    split
    · exact hm.resolve_left (by rename_i h; exact h.ne')
    · exact le_refl _
  have hbase : baseDelay p i ≤ baseDelay p k := mul_le_mul_of_nonneg_left (pow_le_pow_right₀ hgrowth h) hv.delay
  rw [calculateDelay_eq hv, calculateDelay_eq hv, hj, mul_zero, mul_zero, add_zero, add_zero]
  split
  · exact min_le_min_right _ hbase
  · exact hbase

/-- Whatever happened, the sleeps are the first delays, at most `⌈maxRetries⌉` of them. -/
theorem exists_sleeps (hv : Valid p) (action : Nat → Except ε α) (random : Nat → ℚ) :
    ∃ k ≤ ⌈p.maxRetries⌉₊, (execute action random p).sleeps =
      (List.range k).map fun i => calculateDelay i (random i) p := by
  have hrange : ∀ k, sleepsFrom random p 0 k = (List.range k).map fun i => calculateDelay i (random i) p := by
    intro k
    rw [sleepsFrom, Nat.sub_zero, ← List.range_eq_range']
  have h := ends_execute hv action random
  generalize execute action random p = x at h ⊢
  cases h with
  | success _ hlast _ _ => exact ⟨_, hlast.trans (Nat.floor_le_ceil _), hrange _⟩
  | failure _ _ _ _ => exact ⟨_, le_refl _, hrange _⟩

/-- For every policy the builder accepts and whatever the action comes to: no
sleep is negative or longer than `maxDelay`, where there is one; in total they
last no longer than `⌈maxRetries⌉` delays with their jitter, or `⌈maxRetries⌉` times
`maxDelay`; and without jitter they never shrink, unless the multiplier is a
proper fraction. -/
theorem sleeps_bounded (b : RetryPolicyBuilder) (p : RetryPolicy) (action : Nat → Except ε α) (random : Nat → ℚ)
    (hb : b.build = .ok p) (hr : ∀ i, 0 ≤ random i ∧ random i < 1) :
    (∀ x ∈ (execute action random p).sleeps, 0 ≤ x ∧ (0 < p.maxDelay → x ≤ p.maxDelay)) ∧
    (execute action random p).sleeps.sum ≤
      ((List.range ⌈p.maxRetries⌉₊).map fun i => baseDelay p i + p.jitter).sum ∧
    (0 < p.maxDelay → (execute action random p).sleeps.sum ≤ ⌈p.maxRetries⌉₊ * p.maxDelay) ∧
    (p.jitter = 0 → p.multiplier = 0 ∨ 1 ≤ p.multiplier → (execute action random p).sleeps.Pairwise (· ≤ ·)) := by
  have hv : Valid p := by
    obtain ⟨hv, rfl⟩ := build_ok_iff.mp hb
    exact hv
  obtain ⟨k, hk, hsleeps⟩ := exists_sleeps hv action random
  have hd := fun i => calculateDelay_bounds hv (hr i).1 (hr i).2 i
  rw [hsleeps]
  refine ⟨fun x hx => ?_, ?_, fun hcap => ?_, fun hj hm => ?_⟩
  · obtain ⟨i, -, rfl⟩ := List.mem_map.mp hx
    exact ⟨(hd i).1, (hd i).2.2⟩
  · have hbound : ∀ i, 0 ≤ baseDelay p i + p.jitter := fun i => add_nonneg (baseDelay_nonneg hv i) hv.jitter
    refine (List.sum_le_sum fun i _ => (hd i).2.1).trans ?_
    refine ((List.range_sublist.mpr hk).map _).sum_le_sum fun x hx => ?_
    obtain ⟨i, -, rfl⟩ := List.mem_map.mp hx
    exact hbound i
  · calc ((List.range k).map fun i => calculateDelay i (random i) p).sum
        ≤ ((List.range k).map fun _ => p.maxDelay).sum := List.sum_le_sum fun i _ => (hd i).2.2 hcap
      _ = k * p.maxDelay := by simp
      _ ≤ ⌈p.maxRetries⌉₊ * p.maxDelay := mul_le_mul_of_nonneg_right (by exact_mod_cast hk) hcap.le
  · rw [List.pairwise_map]
    exact List.pairwise_le_range.imp fun h => calculateDelay_mono hv hj hm _ _ h

/-- Nothing fails but the first two calls. -/
def third (n : Nat) : Except String Nat := if n < 2 then .error "fail" else .ok n

theorem sleeps_bounded_third :
    (execute third (fun _ => 0) .withDefaults).sleeps.Pairwise (· ≤ ·) :=
  (sleeps_bounded {} .withDefaults third (fun _ => 0) (by decide +kernel) fun _ => ⟨le_refl _, one_pos⟩).2.2.2 rfl
    (.inl rfl)

end
end NestPlayground.L5.Retrying
