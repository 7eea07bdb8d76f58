import NestPlayground.Core.Sequential
import NestPlayground.L3Services.Finalize

/-!
# The batches of an aggregation

`AggregatorService.aggregate` reads the job results in batches from an offset
it moves by what it has read, while results may be appended between its calls.
`collected` is what it has read so far: a prefix of the list at any time, which
it has mapped in order. When it stops reading to reduce, every result of the
start is among them. What `reduce` makes of the image is stored once and
returned.
-/
namespace NestPlayground.L5.Batches
open L1 L3

def isRead : Core.Answer Reply → Bool
  | .reply (.resultsRange _ _ _) _ => true
  | _ => false

/-- The batch in an answer. -/
def batchIn : Core.Answer Reply → List JobProcessorResponse
  | .reply (.resultsRange _ _ _) results => results
  | _ => []

def reads (es : List (Core.Answer Reply)) : Nat := es.countP isRead

/-- The batches one after the other. -/
def collected (es : List (Core.Answer Reply)) : List JobProcessorResponse := es.flatMap batchIn

def stores : Core.Answer Reply → Option (GroupId × AggregatedResult)
  | .reply (.resultSet g result) _ => some (g, result)
  | _ => none

/-- The group results stored. -/
def stored (es : List (Core.Answer Reply)) : List (GroupId × AggregatedResult) := es.filterMap stores

/-- A run of `aggregate` with `batch` for `BATCH_SIZE`; others change the store by `rely`. -/
def Aggregates (reg : Registry) (batch : Nat) (rely : Store → Store → Prop) (g : GroupId) (type : Option String)
    (s : Store) : List (Core.Answer Reply) → Store → Core.Next AggregatePc AggregatedResult → Prop :=
  Core.Run (exec reg) rely (Core.Next.view (AggregatePc.view reg batch)) s (.goto (.metaGetAll g type))

/-- Others append to the results of the group, any number at any time. -/
def Appends (g : GroupId) (rely : Store → Store → Prop) : Prop :=
  ∀ s s', rely s s' → s.groupJobResults g <+: s'.groupJobResults g

def Leaves (g : GroupId) (rely : Store → Store → Prop) : Prop :=
  ∀ s s', rely s s' → s'.groupJobResults g = s.groupJobResults g

section
variable (reg : Registry) (batch : Nat) (g : GroupId) (type : Option String) (xs : List JobProcessorResponse)

/-- Before the read after the `n`th, with the image of `xs`. -/
def AtRead (n : Nat) (x : Core.Next AggregatePc AggregatedResult) : Prop :=
  ∃ aggregator context mapped, reg.resolveAggregator type = some aggregator ∧
    xs.mapM aggregator.map = some mapped ∧ x = .goto (.range g type context mapped xs.length) ∧ xs.length = n * batch

/-- `map` has thrown on an entry of `xs`. -/
def MapThrew (x : Core.Next AggregatePc AggregatedResult) : Prop :=
  ∃ aggregator, reg.resolveAggregator type = some aggregator ∧ xs.mapM aggregator.map = none ∧ x = .throw

/-- `aggregator.reduce`, passed the image of `xs` under `aggregator.map` in
order, has answered with `result`. -/
def Reduced (result : Option AggregatedResult) : Prop :=
  ∃ aggregator context mapped, reg.resolveAggregator type = some aggregator ∧
    xs.mapM aggregator.map = some mapped ∧ aggregator.reduce mapped context = result

/-- It goes on to store the answer, or `reduce` has thrown. -/
def Reduces : Core.Next AggregatePc AggregatedResult → Prop
  | .goto (.setResult g' result) => g' = g ∧ Reduced reg type xs (some result)
  | .throw => Reduced reg type xs none
  | _ => False

/-- After a read, with `initial` present at the start. -/
inductive AfterRead (initial : List JobProcessorResponse) (n : Nat) (x : Core.Next AggregatePc AggregatedResult) :
    Prop where
  | next (h : AtRead reg batch g type xs n x)
  | threw (h : MapThrew reg type xs x)
  | reduces (hall : initial <+: xs) (h : Reduces reg g type xs x)

end

section
variable {reg : Registry} {batch : Nat} {rely : Store → Store → Prop} {g : GroupId} {type : Option String} {s w : Store}
  {es : List (Core.Answer Reply)} {x : Core.Next AggregatePc AggregatedResult}

theorem collected_append (es : List (Core.Answer Reply)) (a : Core.Answer Reply) :
    collected (es ++ [a]) = collected es ++ batchIn a := by
  simp [collected]

theorem reads_append (es : List (Core.Answer Reply)) (a : Core.Answer Reply) :
    reads (es ++ [a]) = reads es + if isRead a then 1 else 0 := by
  simp [reads, List.countP_append, List.countP_singleton]

theorem stored_append (es : List (Core.Answer Reply)) (a : Core.Answer Reply) :
    stored (es ++ [a]) = stored es ++ (stores a).toList := by
  cases h : stores a <;> simp [stored, h]

theorem reduces_reduce {aggregator : Aggregator} {context : AggregationContext} {mapped : List Mapped}
    {xs : List JobProcessorResponse} (hagg : reg.resolveAggregator type = some aggregator)
    (hmap : xs.mapM aggregator.map = some mapped) :
    Reduces reg g type xs (AggregatePc.reduce g aggregator context mapped) := by
  unfold AggregatePc.reduce
  split
  · rename_i hreduce
    exact ⟨aggregator, context, mapped, hagg, hmap, hreduce⟩
  · rename_i result hreduce
    exact ⟨rfl, aggregator, context, mapped, hagg, hmap, hreduce⟩

/-- A batch shorter than asked for is the rest of the list. -/
theorem all_read {α : Type} {xs l : List α} (h : xs <+: l) (hlt : ((l.drop xs.length).take batch).length < batch) :
    xs ++ (l.drop xs.length).take batch = l := by
  have hshort : (l.drop xs.length).length ≤ batch := by
    rw [List.length_take] at hlt
    omega
  obtain ⟨ys, rfl⟩ := h
  rw [List.drop_left] at hshort ⊢
  rw [List.take_of_length_le hshort]

/-- One read of the loop: a short batch ends it with everything read. -/
theorem afterRead {initial xs : List JobProcessorResponse} {n : Nat} {context : AggregationContext}
    {mapped : List Mapped} {aggregator : Aggregator} (hb : 1 ≤ batch)
    (hagg : reg.resolveAggregator type = some aggregator) (hmap : xs.mapM aggregator.map = some mapped)
    (hlen : xs.length = n * batch) :
    (AggregatePc.view reg batch (.range g type context mapped xs.length)).Spec (fun _ => True)
      (fun c r y => ∀ inp w, (exec reg c inp w).2 = r → initial <+: w.groupJobResults g →
        xs <+: w.groupJobResults g → (exec reg c inp w).1 = w ∧ xs ++ batchIn (.reply c r) <+: w.groupJobResults g ∧
          AfterRead reg batch g type (xs ++ batchIn (.reply c r)) initial (n + 1) y)
      fun _ y => y = .throw := by
  refine ⟨trivial, fun r inp w hr hinit hpre => ?_, rfl⟩
  have hr : ((w.groupJobResults g).drop xs.length).take batch = r := hr
  have hall : r.length < batch → initial <+: xs ++ r := by
    intro hlt
    rw [← hr] at hlt ⊢
    rwa [all_read hpre hlt]
  refine ⟨rfl, hr ▸ L2.prefix_append_batch hpre batch, ?_⟩
  simp only [hagg, batchIn]
  split
  · -- the empty batch
    rename_i hnil
    subst hnil
    exact .reduces (hall hb) (reduces_reduce hagg (by rw [List.append_nil, hmap]))
  split
  · rename_i hthrew
    refine .threw ⟨aggregator, hagg, ?_, rfl⟩
    rw [List.mapM_append, hmap, hthrew]
    rfl
  · rename_i mapped' hmap'
    have hmapped : (xs ++ r).mapM aggregator.map = some (mapped ++ mapped') := by
      rw [List.mapM_append, hmap, hmap']
      rfl
    split
    · rename_i hshort
      exact .reduces (hall hshort) (reduces_reduce hagg hmapped)
    · rename_i hfull
      have hrlen : r.length = batch := by
        have : r.length ≤ batch := hr ▸ List.length_take_le _ _
        omega
      refine .next ⟨aggregator, context, mapped ++ mapped', hagg, hmapped, ?_, ?_⟩
      · rw [List.length_append]
      · rw [List.length_append, hlen, hrlen, Nat.succ_mul]

/-- `reduce` has made `result` of the image of what was read, all of the start included. -/
def Made (reg : Registry) (type : Option String) (initial : List JobProcessorResponse) (es : List (Core.Answer Reply))
    (result : AggregatedResult) : Prop :=
  initial <+: collected es ∧ Reduced reg type (collected es) (some result)

/-- Why a run has thrown. -/
inductive Thrown (reg : Registry) (type : Option String) (initial : List JobProcessorResponse)
    (es : List (Core.Answer Reply)) : Prop where
  | rejected (c : Cmd) (h : Core.Answer.rejection c ∈ es)
  | unresolved (h : reg.resolveAggregator type = none)
  | map (h : MapThrew reg type (collected es) .throw)
  | reduce (hall : initial <+: collected es) (h : Reduced reg type (collected es) none)

/-- What is known before each call and at the end. -/
def Position (reg : Registry) (batch : Nat) (g : GroupId) (type : Option String) (initial : List JobProcessorResponse)
    (es : List (Core.Answer Reply)) : Core.Next AggregatePc AggregatedResult → Prop
  | .goto (.metaGetAll g' type') => g' = g ∧ type' = type ∧ collected es = [] ∧ reads es = 0 ∧ stored es = []
  | .goto (.range g' type' context mapped offset) =>
    AtRead reg batch g type (collected es) (reads es) (.goto (.range g' type' context mapped offset)) ∧ stored es = []
  | .goto (.setResult g' result) => g' = g ∧ Made reg type initial es result ∧ stored es = []
  | .goto (.setAggregatedAt g' result) => g' = g ∧ Made reg type initial es result ∧ stored es = [(g, result)]
  | .ret result => Made reg type initial es result ∧ stored es = [(g, result)]
  | .throw => (∀ e ∈ stored es, stored es = [(g, e.2)] ∧ Made reg type initial es e.2) ∧ Thrown reg type initial es

structure Inv (reg : Registry) (batch : Nat) (g : GroupId) (type : Option String) (initial : List JobProcessorResponse)
    (es : List (Core.Answer Reply)) (w : Store) (x : Core.Next AggregatePc AggregatedResult) : Prop where
  kept : initial <+: w.groupJobResults g
  pre : collected es <+: w.groupJobResults g
  position : Position reg batch g type initial es x
  count : reads es * batch ≤ (collected es).length + batch
  last : ∀ a ∈ es.getLast?, isRead a = true → AfterRead reg batch g type (collected es) initial (reads es) x

variable {initial : List JobProcessorResponse}

/-- What was stored is what `reduce` made. -/
theorem Position.made (h : Position reg batch g type initial es x) :
    ∀ e ∈ stored es, stored es = [(g, e.2)] ∧ Made reg type initial es e.2 := by
  intro e he
  have hone : ∀ {result}, stored es = [(g, result)] → Made reg type initial es result →
      stored es = [(g, e.2)] ∧ Made reg type initial es e.2 := by
    intro result hst hmade
    rw [hst, List.mem_singleton] at he
    subst he
    exact ⟨hst, hmade⟩
  cases x with
  | goto p =>
    cases p with
    | metaGetAll g' type' => exact absurd he (h.2.2.2.2 ▸ List.not_mem_nil)
    | range g' type' context mapped offset => exact absurd he (h.2 ▸ List.not_mem_nil)
    | setResult g' result => exact absurd he (h.2.2 ▸ List.not_mem_nil)
    | setAggregatedAt g' result => exact hone h.2.2 h.2.1
  | ret result => exact hone h.2 h.1
  | throw => exact h.1 e he

/-- An answer that is not a batch. -/
theorem Inv.quiet (h : Inv reg batch g type initial es w x) {a : Core.Answer Reply} (ha : isRead a = false)
    (hb : batchIn a = []) {w' : Store} (hw : w'.groupJobResults g = w.groupJobResults g)
    {y : Core.Next AggregatePc AggregatedResult}
    (hy : collected (es ++ [a]) = collected es → reads (es ++ [a]) = reads es →
      Position reg batch g type initial (es ++ [a]) y) :
    Inv reg batch g type initial (es ++ [a]) w' y := by
  have hc : collected (es ++ [a]) = collected es := by rw [collected_append, hb, List.append_nil]
  have hr : reads (es ++ [a]) = reads es := by simp [reads_append, ha]
  refine ⟨hw ▸ h.kept, by rw [hc, hw]; exact h.pre, hy hc hr, by rw [hc, hr]; exact h.count, fun b hlast hread => ?_⟩
  rw [List.getLast?_concat] at hlast
  cases hlast
  rw [ha] at hread
  cases hread

/-- After a read the loop goes on, or its run is over, or the result is next. -/
theorem AfterRead.position {xs : List JobProcessorResponse} {n : Nat} (h : AfterRead reg batch g type xs initial n x)
    (hc : collected es = xs) (hr : reads es = n) (hst : stored es = []) :
    Position reg batch g type initial es x := by
  have hnone : ∀ e ∈ stored es, stored es = [(g, e.2)] ∧ Made reg type initial es e.2 :=
    fun e he => absurd he (hst ▸ List.not_mem_nil)
  subst hc hr
  rcases h with h | h | ⟨hall, hreduces⟩
  · obtain ⟨_, _, _, _, _, rfl, _⟩ := id h
    exact ⟨h, hst⟩
  · obtain ⟨_, _, _, rfl⟩ := id h
    exact ⟨hnone, .map h⟩
  · cases x with
    | goto p =>
      cases p with
      | setResult g' result => exact ⟨hreduces.1, ⟨hall, hreduces.2⟩, hst⟩
      | metaGetAll | range | setAggregatedAt => exact hreduces.elim
    | ret result => exact hreduces.elim
    | throw => exact ⟨hnone, .reduce hall hreduces⟩

/-- Who comes to reduce has read all of the start. -/
theorem AfterRead.of_reduces {xs : List JobProcessorResponse} {n : Nat}
    (h : AfterRead reg batch g type xs initial n x) (hx : Reduces reg g type xs x) : initial <+: xs := by
  rcases h with ⟨_, _, _, _, _, rfl, _⟩ | ⟨aggregator', hagg', hnone, rfl⟩ | ⟨hall, -⟩
  · exact hx.elim
  · obtain ⟨aggregator, context, mapped, hagg, hmap, -⟩ := hx
    cases hagg.symm.trans hagg'
    cases hmap.symm.trans hnone
  · exact hall

theorem inv_call (hb : 1 ≤ batch) (h : Inv reg batch g type initial es w x) {c : Cmd}
    {ok : Reply c → Core.Next AggregatePc AggregatedResult} {err : Core.Next AggregatePc AggregatedResult}
    (hv : Core.Next.view (AggregatePc.view reg batch) x = .call c ok err) (inp : Input) :
    Inv reg batch g type initial (es ++ [.reply c (exec reg c inp w).2]) (exec reg c inp w).1
      (ok (exec reg c inp w).2) := by
  cases x with
  | ret | throw => cases hv
  | goto p =>
    cases p with
    | metaGetAll g' type' =>
      cases hv
      obtain ⟨rfl, rfl, hc, hr, hst⟩ := h.position
      refine h.quiet rfl rfl rfl fun hc' hr' => ?_
      rw [hc] at hc'
      rw [hr] at hr'
      have hst' : stored (es ++ [.reply (.metaGetAll g') (exec reg (.metaGetAll g') inp w).2]) = [] := by
        rw [stored_append, hst]
        rfl
      split
      · rename_i hagg
        exact ⟨fun e he => absurd he (hst' ▸ List.not_mem_nil), .unresolved hagg⟩
      · rename_i aggregator hagg
        unfold Position
        rw [hc', hr']
        exact ⟨⟨aggregator, _, [], hagg, rfl, rfl, (Nat.zero_mul batch).symm⟩, hst'⟩
    | range g' type' context' mapped' offset' =>
      obtain ⟨⟨aggregator, context, mapped, hagg, hmap, hx, hlen⟩, hst⟩ := h.position
      cases hx
      have hspec := @afterRead reg batch g type initial _ _ context' _ _ hb hagg hmap hlen
      rw [show AggregatePc.view reg batch (.range g type context' mapped' _) = .call c ok err from hv] at hspec
      obtain ⟨hw, hpre, hafter⟩ := hspec.2.1 _ inp w rfl h.kept h.pre
      cases hv
      have hr : reads (es ++ [.reply (.resultsRange g (collected es).length batch)
          (exec reg (.resultsRange g (collected es).length batch) inp w).2]) = reads es + 1 := by
        rw [reads_append]
        rfl
      have hst' : stored (es ++ [.reply (.resultsRange g (collected es).length batch)
          (exec reg (.resultsRange g (collected es).length batch) inp w).2]) = [] := by
        rw [stored_append, hst]
        rfl
      rw [← collected_append] at hpre hafter
      refine ⟨hw ▸ h.kept, hw ▸ hpre, hafter.position rfl hr hst', ?_, fun a _ _ => hr ▸ hafter⟩
      rw [hr, Nat.succ_mul, collected_append, List.length_append, hlen]
      omega
    | setResult g' r =>
      cases hv
      obtain ⟨rfl, hmade, hst⟩ := h.position
      refine h.quiet (by rfl) (by rfl) (by rfl) fun hc _ => ⟨rfl, ?_, ?_⟩
      · rwa [Made, hc]
      · rw [stored_append, hst]
        rfl
    | setAggregatedAt g' r =>
      cases hv
      obtain ⟨rfl, hmade, hst⟩ := h.position
      refine h.quiet (by rfl) (by rfl) (by rfl) fun hc _ => ⟨?_, ?_⟩
      · rwa [Made, hc]
      · rw [stored_append, hst]
        rfl

theorem inv_rejection (h : Inv reg batch g type initial es w x) {c : Cmd}
    {ok : Reply c → Core.Next AggregatePc AggregatedResult} {err : Core.Next AggregatePc AggregatedResult}
    (hv : Core.Next.view (AggregatePc.view reg batch) x = .call c ok err) :
    Inv reg batch g type initial (es ++ [.rejection c]) w err := by
  refine h.quiet rfl rfl rfl fun hc _ => ?_
  have hst : stored (es ++ [.rejection c]) = stored es := by
    rw [stored_append]
    exact List.append_nil _
  have hthrow : Position reg batch g type initial (es ++ [.rejection c]) .throw := by
    refine ⟨fun e he => ?_, .rejected c (by simp)⟩
    rw [hst] at he
    rw [hst, Made, hc]
    exact h.position.made e he
  cases x with
  | ret | throw => cases hv
  | goto p => cases p <;> (cases hv; exact hthrow)

theorem inv_run (hb : 1 ≤ batch) (hrely : Appends g rely) (h : Aggregates reg batch rely g type s es w x) :
    Inv reg batch g type (s.groupJobResults g) es w x := by
  induction h with
  | nil =>
    exact ⟨List.prefix_refl _, List.nil_prefix, ⟨rfl, rfl, rfl, rfl, rfl⟩, by simp [reads],
      fun _ ha => absurd ha (by simp)⟩
  | rely _ hw ih =>
    exact ⟨ih.kept.trans (hrely _ _ hw), ih.pre.trans (hrely _ _ hw), ih.position, ih.count, ih.last⟩
  | call inp _ hv ih => exact inv_call hb ih hv inp
  | rejection _ hv ih => exact inv_rejection ih hv

/-- With nothing appended the list stays what it was. -/
theorem results_run (hrely : Leaves g rely) (h : Aggregates reg batch rely g type s es w x) :
    w.groupJobResults g = s.groupJobResults g := by
  induction h with
  | nil => rfl
  | rely _ hw ih => rw [hrely _ _ hw, ih]
  | rejection _ _ ih => exact ih
  | @call es w x c ok err inp _ hv ih =>
    rw [← ih]
    cases x with
    | ret | throw => cases hv
    | goto p => cases p <;> cases hv <;> rfl

/-- How far a run is from its end, if nothing is appended. -/
def left (w : Store) : Core.Next AggregatePc AggregatedResult → Nat
  | .goto (.metaGetAll g _) => (w.groupJobResults g).length + 4
  | .goto (.range g _ _ _ offset) => (w.groupJobResults g).length - offset + 3
  | .goto (.setResult _ _) => 2
  | .goto (.setAggregatedAt _ _) => 1
  | .ret _ => 0
  | .throw => 0

theorem left_reduce (g : GroupId) (aggregator : Aggregator) (context : AggregationContext) (mapped : List Mapped) :
    left w (AggregatePc.reduce g aggregator context mapped) < 3 := by
  unfold AggregatePc.reduce
  split <;> simp [left]

/-- A read that does not end the loop has moved the offset towards the end of the list. -/
theorem nearer_range (hb : 1 ≤ batch) (w : Store) (g : GroupId) (type : Option String) (context : AggregationContext)
    (mapped : List Mapped) (offset : Nat) :
    (AggregatePc.view reg batch (.range g type context mapped offset)).Spec (fun _ => True)
      (fun c r y => (exec reg c {} w).2 = r →
        left (exec reg c {} w).1 y < left w (.goto (.range g type context mapped offset)))
      fun _ _ => True := by
  refine ⟨trivial, fun results hr => ?_, trivial⟩
  have hr : ((w.groupJobResults g).drop offset).take batch = results := hr
  have hreduce : ∀ aggregator mapped', left w (AggregatePc.reduce g aggregator context mapped') <
      left w (.goto (.range g type context mapped offset)) :=
    fun aggregator mapped' => (left_reduce g aggregator context mapped').trans_le (Nat.le_add_left _ _)
  change left w _ < _
  split
  · exact Nat.succ_pos _
  beta_reduce
  split
  · exact hreduce _ _
  rename_i hne
  split
  · exact Nat.succ_pos _
  split
  · exact hreduce _ _
  · -- a full batch
    have hpos := List.length_pos_iff.mpr hne
    have hlen := congrArg List.length hr
    simp only [List.length_take, List.length_drop, left] at hlen ⊢
    omega

theorem nearer (hb : 1 ≤ batch) (w : Store) (x : Core.Next AggregatePc AggregatedResult) :
    Core.Next.view (AggregatePc.view reg batch) x = .halt ∨ ∃ c ok err,
      Core.Next.view (AggregatePc.view reg batch) x = .call c ok err ∧
        left (exec reg c {} w).1 (ok (exec reg c {} w).2) < left w x := by
  cases x with
  | ret | throw => exact .inl rfl
  | goto p =>
    refine .inr ?_
    cases p with
    | metaGetAll g t =>
      refine ⟨_, _, _, rfl, ?_⟩
      simp only [exec]
      split
      · exact Nat.succ_pos _
      · simp only [left]
        omega
    | range g t context mapped offset =>
      exact ⟨_, _, _, rfl, (nearer_range hb w g t context mapped offset).2.1 _ rfl⟩
    | setResult g r => exact ⟨_, _, _, rfl, Nat.lt_succ_self _⟩
    | setAggregatedAt g r => exact ⟨_, _, _, rfl, Nat.lt_succ_self _⟩

/-- Every run can be continued, without a rejection, until it has returned or thrown. -/
theorem exists_ended (hb : 1 ≤ batch) (h : Aggregates reg batch rely g type s es w x) :
    ∃ es' w' y, Aggregates reg batch rely g type s (es ++ es') w' y ∧ (∀ c, Core.Answer.rejection c ∉ es') ∧
      (y = .throw ∨ ∃ result, y = .ret result) := by
  obtain ⟨es', w', y, hrun, hreplies, hhalt⟩ := h.exists_halt left {} (nearer hb)
  refine ⟨es', w', y, hrun, hreplies, ?_⟩
  cases y with
  | goto p => cases p <;> cases hhalt
  | ret result => exact .inr ⟨result, rfl⟩
  | throw => exact .inl rfl

end

/-- In every run of `aggregate`, with any batch size and any appends between its
calls: what it has read is a prefix of the list; after a read it reads on, or
`map` threw, or it passes the image of what it has read, all results of the
start included, to `reduce`. It stores nothing but what `reduce` made of that
image, once, and has done so when it returns it; it throws only for a reason,
and it can always be run to its end. If nothing is appended, what it has read
when it reduces is the whole list, and there are at most `n / batch + 1` reads. -/
theorem batched_aggregation (reg : Registry) (batch : Nat) (hb : 1 ≤ batch) (rely : Store → Store → Prop) (g : GroupId)
    (type : Option String) (hrely : Appends g rely) (s : Store) (es : List (Core.Answer Reply)) (w : Store)
    (x : Core.Next AggregatePc AggregatedResult) (h : Aggregates reg batch rely g type s es w x) :
    collected es <+: w.groupJobResults g ∧
    (∀ a ∈ es.getLast?, isRead a = true →
      AfterRead reg batch g type (collected es) (s.groupJobResults g) (reads es) x) ∧
    (∀ e ∈ stored es, stored es = [(g, e.2)] ∧ Made reg type (s.groupJobResults g) es e.2) ∧
    (∀ result, x = .ret result → stored es = [(g, result)]) ∧
    (x = .throw → Thrown reg type (s.groupJobResults g) es) ∧
    (∃ es' w' y, Aggregates reg batch rely g type s (es ++ es') w' y ∧ (∀ c, Core.Answer.rejection c ∉ es') ∧
      (y = .throw ∨ ∃ result, y = .ret result)) ∧
    (Leaves g rely →
      (∀ a ∈ es.getLast?, isRead a = true → Reduces reg g type (collected es) x →
        collected es = s.groupJobResults g) ∧
      (∀ e ∈ stored es, collected es = s.groupJobResults g) ∧
      reads es ≤ (s.groupJobResults g).length / batch + 1 ∧
      (AtRead reg batch g type (collected es) (reads es) x → reads es ≤ (s.groupJobResults g).length / batch)) := by
  have hinv := inv_run hb hrely h
  refine ⟨hinv.pre, hinv.last, hinv.position.made, ?_, ?_, exists_ended hb h, fun hleaves => ?_⟩
  · rintro result rfl
    exact hinv.position.2
  · rintro rfl
    exact hinv.position.2
  have hpre := hinv.pre
  rw [results_run hleaves h] at hpre
  have hle := hpre.length_le
  have hwhole : s.groupJobResults g <+: collected es → collected es = s.groupJobResults g := fun hall =>
    List.IsPrefix.eq_of_length hpre (Nat.le_antisymm hle hall.length_le)
  refine ⟨fun a ha hread hreduces => hwhole ((hinv.last a ha hread).of_reduces hreduces),
    fun e he => hwhole (hinv.position.made e he).2.1, ?_, fun hat => ?_⟩
  · have hcount := hinv.count
    rw [← Nat.add_div_right _ (by omega : 0 < batch), Nat.le_div_iff_mul_le hb]
    omega
  · obtain ⟨_, _, _, _, _, _, hlen⟩ := hat
    rw [Nat.le_div_iff_mul_le hb, ← hlen]
    exact hle

/-- Other workers record results. -/
def records (s s' : Store) : Prop := ∃ result nowMs, s' = (L2.recordJobResult result nowMs s).1

theorem appends_records (g : GroupId) : Appends g records := by
  rintro s _ ⟨result, nowMs, rfl⟩
  simp only [L2.recordJobResult]
  rcases eq_or_ne g result.groupId with rfl | hg
  · rw [Function.update_self]
    exact List.prefix_append _ _
  · simp only [Function.update_of_ne hg]
    exact List.prefix_refl _

def success (jobId : JobId) : JobProcessorResponse where
  jobId
  groupId := "g"
  success := true
  durationMs := 1

def twoRecorded : Store := (L2.recordJobResult (success "b") 2 (L2.recordJobResult (success "a") 1 .empty).1).1

/-- A full batch, a result recorded after it, and the batch with that one: the
default aggregator's result over the three is stored and returned. -/
theorem batched_aggregation_growing : ∃ es w r, Aggregates {} 2 records "g" none twoRecorded es w (.ret (.default r)) ∧
    r.averageDurationMs = 1 ∧ (collected es).map (·.jobId) = ["a", "b", "c"] ∧ stored es = [("g", .default r)] ∧
    Made {} none (twoRecorded.groupJobResults "g") es (.default r) := by
  have h₀ : Aggregates {} 2 records "g" none twoRecorded [] _ _ := .nil
  have h₁ := (h₀.call {} rfl).call {} rfl
  have h₂ := (h₁.rely ⟨success "c", 3, rfl⟩).call {} rfl
  have h₃ := (h₂.call {} rfl).call {} rfl
  have hstored := (batched_aggregation {} 2 (by decide) records "g" none (appends_records "g") _ _ _ _ h₃).2.2
  exact ⟨_, _, _, h₃, by decide +kernel, by decide +kernel, hstored.2.1 _ rfl,
    (hstored.1 _ (List.mem_of_mem_head? (by rfl))).2⟩

end NestPlayground.L5.Batches
