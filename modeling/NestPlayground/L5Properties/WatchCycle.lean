import NestPlayground.Core.Sequential
import NestPlayground.L4Pipeline.Finalizing

/-!
# One watch cycle

`watchCycle` checks the groups of the set in the order of the listing. A check
that throws, because a Redis call rejects or an aggregator throws inside
`finalizeGroup`, ends the loop: the groups listed before it have been checked,
the groups listed after it are not (`check_iff`). A group that has timed out is
failed by its check, so it stays as it is as long as a group listed before it
keeps throwing (`stalled`).
-/
namespace NestPlayground.L5.WatchCycle
open L1 L3 L4

/-- The run of a cycle; between its calls the others do whatever `rely` allows. -/
abbrev Cycle (reg : Registry) (rely : Store → Store → Prop) (s : Store) :
    List (Core.Answer Reply) → Store → Core.Next WatchPc Unit → Prop :=
  Core.Run (exec reg) rely (Core.Next.view (WatchPc.view reg)) s (.goto .members)

/-- The group whose metadata a call reads. -/
def readsOf : Cmd → Option GroupId
  | .metaGetAll g => some g
  | _ => none

def asked : Core.Answer Reply → Cmd
  | .reply cmd _ => cmd
  | .rejection cmd => cmd

/-- The groups whose metadata was asked for, in order. -/
def reads (es : List (Core.Answer Reply)) : List GroupId := es.filterMap fun e => readsOf (asked e)

/-- The check of the group has begun: its metadata was asked for. -/
def Checked (es : List (Core.Answer Reply)) (g : GroupId) : Prop := g ∈ reads es

/-- The check of the group has thrown, which ended the cycle. -/
def Threw (es : List (Core.Answer Reply)) (y : Core.Next WatchPc Unit) (g : GroupId) : Prop :=
  y = .throw ∧ (reads es).getLast? = some g

/-- A listing of the set. -/
def listed : Core.Answer Reply → Option (List GroupId)
  | .reply .watcherMembers L => some L
  | _ => none

/-- The cycle goes over the groups of `L`, in this order. -/
def Lists (es : List (Core.Answer Reply)) (L : List GroupId) : Prop := es.head?.bind listed = some L

instance (es : List (Core.Answer Reply)) (L : List GroupId) : Decidable (Lists es L) :=
  inferInstanceAs (Decidable (_ = some L))

def readingOf : Core.Answer Reply → Option Nat
  | .reply .dateNow now => some now
  | _ => none

/-- The readings of the clock. -/
def readings (es : List (Core.Answer Reply)) : List Nat := es.filterMap readingOf

/-- The cycle is over. -/
def Over (y : Core.Next WatchPc Unit) : Prop := y = .ret () ∨ y = .throw

/-- A whole cycle over the listing `L`, in which the checks of the groups in
`fails` throw. A set has no repetitions. -/
structure Failing (reg : Registry) (rely : Store → Store → Prop) (fails : GroupId → Prop) (L : List GroupId) (s : Store)
    (es : List (Core.Answer Reply)) (s' : Store) (y : Core.Next WatchPc Unit) : Prop where
  run : Cycle reg rely s es s' y
  ended : Over y
  lists : Lists es L
  nodup : L.Nodup
  fails : ∀ f, Checked es f → (fails f ↔ Threw es y f)

/-! ## The check of a group -/

/-- `finalizeGroup` of the group `g`. -/
def Finalizes (g : GroupId) : FinalizePc → Prop
  | .acquire g' _ | .metaGetAll g' _ | .toAggregating g' _ _ | .toCompleted g' _ | .release g' _ _ => g' = g
  | .aggregate g' _ a => g' = g ∧ aggregated a = g

/-- Inside the check of `g`, with `rest` to come. -/
def Checking (g : GroupId) (rest : List GroupId) : WatchPc → Prop
  | .members | .checkGroup _ _ => False
  | .removeTerminal g' r | .checkTimeout g' _ _ r | .transition g' _ r | .staleClock g' _ r => g' = g ∧ r = rest
  | .finalize q r => Finalizes g q ∧ r = rest
  | .lockTransition g' _ r | .lockedMeta g' _ r | .unlockTransition g' _ _ r => g' = g ∧ r = rest
  | .lockedFinalize g' _ q r => g' = g ∧ Finalizes g q ∧ r = rest
  | .force g' _ r | .lockForce g' _ _ r | .forceMeta g' _ _ r | .lockedForce g' _ _ r => g' = g ∧ r = rest
  | .unlockForce g' _ _ r => g' = g ∧ r = rest

/-- What an await of the check leads to: it goes on, is over, or has thrown. -/
inductive Stays (g : GroupId) (rest : List GroupId) : Core.Next WatchPc Unit → Prop where
  | goes {p} (h : Checking g rest p) : Stays g rest (.goto p)
  | ends : Stays g rest (WatchPc.next rest)
  | throws : Stays g rest .throw

/-- The calls of the check of `g` read and write no other group's metadata. -/
def Own (g : GroupId) (cmd : Cmd) : Prop := (∀ g' ∈ readsOf cmd, g' = g) ∧ ∀ g' ∈ metaOf cmd, g' = g

abbrev CheckSpec (g : GroupId) (rest : List GroupId) (a : Await WatchPc Unit) : Prop :=
  a.Spec (Own g) (fun _ _ x => Stays g rest x) fun _ x => Stays g rest x

section
variable {reg : Registry} {g : GroupId} {rest : List GroupId}

theorem Own.of_none {cmd : Cmd} (hr : readsOf cmd = none) (hm : metaOf cmd = none) : Own g cmd := by
  refine ⟨fun g' h => ?_, fun g' h => ?_⟩
  · rw [hr] at h
    cases h
  · rw [hm] at h
    cases h

theorem own_read (g : GroupId) : Own g (.metaGetAll g) := ⟨fun _ h => (Option.some.inj h).symm, fun _ h => (by cases h)⟩

theorem own_transition (g : GroupId) (t : Transition) : Own g (.transitionStatus g t) :=
  ⟨fun _ h => (by cases h), fun _ h => (Option.some.inj h).symm⟩

theorem own_acquire (p : AcquirePc) : Calls (Own g) (p.view reg) := by
  cases p <;> exact ⟨.of_none rfl rfl, fun _ => trivial, trivial⟩

/-- `finalizeGroup` keeps to its group. -/
theorem own_finalize {q : FinalizePc} (hq : Finalizes g q) :
    FinalizeSpec reg (Own g) (fun _ _ q' => Finalizes g q') (fun _ q' => Finalizes g q') q := by
  cases q with
  | acquire g' p =>
    exact finalize_acquire (.of_none rfl rfl) (fun _ _ => .of_none rfl rfl) (fun _ _ _ => hq) fun _ _ _ => hq
  | metaGetAll g' token =>
    obtain rfl : g' = g := hq
    refine ⟨own_read g', fun m => ?_, rfl⟩
    simp only
    split
    · exact ⟨rfl, rfl⟩
    · exact rfl
    · exact rfl
  | toAggregating g' token type =>
    obtain rfl : g' = g := hq
    refine ⟨own_transition g' _, fun b => ?_, rfl⟩
    cases b with
    | false => exact rfl
    | true => exact ⟨rfl, rfl⟩
  | aggregate g' token a =>
    obtain ⟨rfl, ha⟩ := hq
    rw [FinalizeSpec, FinalizePc.view]
    refine ((aggregated_spec reg batchSize a).mono (fun cmd h => ?_) (fun _ _ _ hx => hx) fun _ _ hx => hx).map
      (fun _ _ x hx => ?_) fun _ x hx => ?_
    · rw [ha] at h
      cases cmd with
      | metaGetAll g'' =>
        cases (show g'' = g' from h)
        exact own_read _
      | resultsRange | resultSet | resultSetAggregatedAt => exact .of_none rfl rfl
      | _ => exact absurd h id
    · cases x with
      | goto a' => exact ⟨rfl, Eq.trans hx ha⟩
      | ret | throw => exact rfl
    · cases x with
      | goto a' => exact ⟨rfl, Eq.trans hx ha⟩
      | ret | throw => exact rfl
  | toCompleted g' token =>
    obtain rfl : g' = g := hq
    exact ⟨own_transition g' _, fun _ => rfl, rfl⟩
  | release g' token result =>
    obtain rfl : g' = g := hq
    exact finalize_release (.of_none rfl rfl)

theorem stays_force (status target : GroupStatus) : Stays g rest (WatchPc.forceTransition g status target rest) := by
  unfold WatchPc.forceTransition
  split
  · exact .ends
  · split
    · split
      · exact .goes ⟨rfl, rfl⟩
      · exact .goes ⟨rfl, rfl⟩
    · exact .ends

theorem stays_tryTransition (source target : GroupStatus) :
    Stays g rest (WatchPc.tryTransition g source target rest) := by
  unfold WatchPc.tryTransition
  split
  · exact .goes ⟨rfl, rfl⟩
  · exact .ends

theorem stays_check (m : GroupMeta) (status : GroupStatus) : Stays g rest (WatchPc.check g m status rest) := by
  cases status with
  | created | dispatched =>
    simp only [WatchPc.check]
    split
    · exact stays_tryTransition _ _
    · exact .ends
  | running =>
    simp only [WatchPc.check]
    split
    · exact .goes ⟨rfl, rfl⟩
    · exact .ends
  | aggregating =>
    simp only [WatchPc.check]
    split
    · exact .goes ⟨rfl, rfl⟩
    · exact .goes ⟨rfl, rfl⟩
  | completed | failed => exact .ends

/-- An await of a lock. -/
theorem stays_acquire {p : AcquirePc} {f : Core.Next AcquirePc (Option String) → Core.Next WatchPc Unit}
    (hf : ∀ x, Stays g rest (f x)) : CheckSpec g rest ((p.view reg).map f) :=
  Core.Action.Spec.map (own_acquire p) (fun _ _ x _ => hf x) fun _ x _ => hf x

/-- An await of `finalizeGroup`. -/
theorem stays_finalize {q : FinalizePc} (hq : Finalizes g q) {f : Core.Next FinalizePc Bool → Core.Next WatchPc Unit}
    (hgoto : ∀ q', Finalizes g q' → Stays g rest (f (.goto q'))) (hret : ∀ b, Stays g rest (f (.ret b)))
    (hthrow : Stays g rest (f .throw)) : CheckSpec g rest ((q.view reg).map f) := by
  have hall : ∀ x : Core.Next FinalizePc Bool, x.All (Finalizes g) → Stays g rest (f x) := by
    intro x hx
    cases x with
    | goto q' => exact hgoto q' hx
    | ret b => exact hret b
    | throw => exact hthrow
  exact Core.Action.Spec.map (own_finalize hq) (fun _ _ x hx => hall x hx) fun _ x hx => hall x hx

theorem stays_unlock (threw : Bool) : Stays g rest (if threw then .throw else WatchPc.next rest) := by
  cases threw
  · exact .ends
  · exact .throws

/-- A check keeps to its group until it is over. -/
theorem check_spec {p : WatchPc} (h : Checking g rest p) : CheckSpec g rest (p.view reg) := by
  cases p with
  | members | checkGroup => exact absurd h id
  | removeTerminal g' r =>
    obtain ⟨rfl, rfl⟩ := h
    exact ⟨.of_none rfl rfl, fun _ => .ends, .throws⟩
  | checkTimeout g' m status r =>
    obtain ⟨rfl, rfl⟩ := h
    refine ⟨.of_none rfl rfl, fun now => ?_, .throws⟩
    simp only
    split
    · exact stays_force _ _
    · exact stays_check _ _
  | transition g' t r | force g' t r =>
    obtain ⟨rfl, rfl⟩ := h
    exact ⟨own_transition g' t, fun _ => .ends, .throws⟩
  | staleClock g' startAt r =>
    obtain ⟨rfl, rfl⟩ := h
    refine ⟨.of_none rfl rfl, fun now => ?_, .throws⟩
    simp only
    split
    · exact .goes ⟨rfl, rfl⟩
    · exact .ends
  | finalize q r =>
    obtain ⟨hq, rfl⟩ := h
    rw [WatchPc.view]
    exact stays_finalize hq (fun q' hq' => .goes ⟨hq', rfl⟩) (fun _ => .ends) .throws
  | lockTransition g' p r =>
    obtain ⟨rfl, rfl⟩ := h
    rw [WatchPc.view]
    refine stays_acquire fun x => ?_
    cases x with
    | goto p => exact .goes ⟨rfl, rfl⟩
    | ret token =>
      cases token with
      | none => exact .ends
      | some token => exact .goes ⟨rfl, rfl⟩
    | throw => exact .throws
  | lockedMeta g' token r =>
    obtain ⟨rfl, rfl⟩ := h
    refine ⟨own_read g', fun m => ?_, .goes ⟨rfl, rfl⟩⟩
    simp only
    split
    · exact .goes ⟨rfl, rfl, rfl⟩
    · exact .goes ⟨rfl, rfl⟩
  | lockedFinalize g' token q r =>
    obtain ⟨rfl, hq, rfl⟩ := h
    rw [WatchPc.view]
    exact stays_finalize hq (fun q' hq' => .goes ⟨rfl, hq', rfl⟩) (fun _ => .goes ⟨rfl, rfl⟩) (.goes ⟨rfl, rfl⟩)
  | unlockTransition g' token threw r | unlockForce g' token threw r =>
    obtain ⟨rfl, rfl⟩ := h
    exact ⟨.of_none rfl rfl, fun _ => stays_unlock threw, .throws⟩
  | lockForce g' target p r =>
    obtain ⟨rfl, rfl⟩ := h
    rw [WatchPc.view]
    refine stays_acquire fun x => ?_
    cases x with
    | goto p => exact .goes ⟨rfl, rfl⟩
    | ret token =>
      cases token with
      | none => exact .ends
      | some token => exact .goes ⟨rfl, rfl⟩
    | throw => exact .throws
  | forceMeta g' target token r =>
    obtain ⟨rfl, rfl⟩ := h
    refine ⟨own_read g', fun m => ?_, .goes ⟨rfl, rfl⟩⟩
    simp only
    split
    · exact .goes ⟨rfl, rfl⟩
    · split
      · exact .goes ⟨rfl, rfl⟩
      · split
        · exact .goes ⟨rfl, rfl⟩
        · exact .goes ⟨rfl, rfl⟩
  | lockedForce g' t token r =>
    obtain ⟨rfl, rfl⟩ := h
    exact ⟨own_transition g' t, fun _ => .goes ⟨rfl, rfl⟩, .goes ⟨rfl, rfl⟩⟩

/-- A check starts by reading the metadata. -/
theorem checkGroup_spec (reg : Registry) (g : GroupId) (rest : List GroupId) :
    CheckSpec g rest ((WatchPc.checkGroup g rest).view reg) := by
  refine ⟨own_read g, fun m => ?_, .throws⟩
  simp only
  split
  · exact .ends
  · split
    · exact .goes ⟨rfl, rfl⟩
    · exact .goes ⟨rfl, rfl⟩

end

/-! ## The cycle -/

/-- How far the cycle over the listing `L` has come, when `rs` was read. -/
inductive Progress (L rs : List GroupId) : Core.Next WatchPc Unit → Prop where
  | before {done g rest} (hL : L = done ++ g :: rest) (hr : ∀ x, x ∈ rs ↔ x ∈ done) :
      Progress L rs (.goto (.checkGroup g rest))
  | inside {done g rest p} (hL : L = done ++ g :: rest) (hr : ∀ x, x ∈ rs ↔ x ∈ done ++ [g])
      (hlast : rs.getLast? = some g) (hp : Checking g rest p) : Progress L rs (.goto p)
  | thrown {done g rest} (hL : L = done ++ g :: rest) (hr : ∀ x, x ∈ rs ↔ x ∈ done ++ [g])
      (hlast : rs.getLast? = some g) : Progress L rs .throw
  | finished (hr : ∀ x, x ∈ rs ↔ x ∈ L) : Progress L rs (.ret ())

section
variable {reg : Registry} {rely : Store → Store → Prop} {s s' : Store} {es : List (Core.Answer Reply)}
  {y : Core.Next WatchPc Unit} {L rs done rest : List GroupId} {g : GroupId}

theorem progress_next (hL : L = done ++ rest) (hr : ∀ x, x ∈ rs ↔ x ∈ done) :
    Progress L rs (WatchPc.next rest) := by
  cases rest with
  | nil =>
    rw [List.append_nil] at hL
    exact .finished (hL ▸ hr)
  | cons g rest => exact .before hL hr

theorem progress_stays {x : Core.Next WatchPc Unit} (h : Stays g rest x) (hL : L = done ++ g :: rest)
    (hr : ∀ x, x ∈ rs ↔ x ∈ done ++ [g]) (hlast : rs.getLast? = some g) : Progress L rs x := by
  cases h with
  | goes hp => exact .inside hL hr hlast hp
  | ends => exact progress_next (by rw [hL, List.append_assoc]; rfl) hr
  | throws => exact .thrown hL hr hlast

theorem reads_append (es : List (Core.Answer Reply)) (e : Core.Answer Reply) :
    reads (es ++ [e]) = reads es ++ (readsOf (asked e)).toList := by
  unfold reads
  rw [List.filterMap_append]
  cases h : readsOf (asked e) <;> simp [h]

/-- One answer takes the cycle on. -/
theorem progress_answer {cmd : Cmd} {ok : Reply cmd → Core.Next WatchPc Unit} {err x : Core.Next WatchPc Unit}
    (h : Progress L rs y) (hv : Core.Next.view (WatchPc.view reg) y = .call cmd ok err)
    (hx : (∃ r, x = ok r) ∨ x = err) : Progress L (rs ++ (readsOf cmd).toList) x := by
  cases h with
  | @before done g rest hL hr =>
    have hspec := checkGroup_spec reg g rest
    cases hv
    have hr' : ∀ x, x ∈ rs ++ [g] ↔ x ∈ done ++ [g] := by
      intro x
      simp only [List.mem_append, hr]
    have hlast : (rs ++ [g]).getLast? = some g := by simp
    refine progress_stays ?_ hL hr' hlast
    rcases hx with ⟨m, rfl⟩ | rfl
    · exact hspec.2.1 m
    · exact hspec.2.2
  | @inside done g rest p hL hr hlast hp =>
    have hspec := @check_spec reg g rest p hp
    rw [show p.view reg = .call cmd ok err from hv] at hspec
    have hr' : ∀ x, x ∈ rs ++ (readsOf cmd).toList ↔ x ∈ done ++ [g] := by
      intro x
      rw [List.mem_append, hr, Option.mem_toList]
      refine ⟨fun h => h.elim id fun h => ?_, .inl⟩
      rw [hspec.1.1 x h]
      simp
    have hlast' : (rs ++ (readsOf cmd).toList).getLast? = some g := by
      cases hc : readsOf cmd with
      | none => simpa using hlast
      | some g' => simp [hspec.1.1 g' hc]
    refine progress_stays ?_ hL hr' hlast'
    rcases hx with ⟨r, rfl⟩ | rfl
    · exact hspec.2.1 r
    · exact hspec.2.2
  | thrown => cases hv
  | finished => cases hv

theorem Lists.of_append {e : Core.Answer Reply} (h : Lists (es ++ [e]) L) (hne : es ≠ []) : Lists es L := by
  rwa [Lists, List.head?_append_of_ne_nil _ hne] at h

theorem progress (h : Cycle reg rely s es s' y) (hL : Lists es L) : Progress L (reads es) y := by
  induction h with
  | nil => cases hL
  | rely _ _ ih => exact ih hL
  | @call es w₁ y cmd ok err inp hrun hv ih =>
    rcases eq_or_ne es [] with rfl | hne
    · -- the first call is the listing
      obtain rfl := hrun.eq_of_nil rfl
      cases hv
      cases hL
      exact progress_next rfl fun _ => Iff.rfl
    · rw [reads_append]
      exact progress_answer (ih (hL.of_append hne)) hv (.inl ⟨_, rfl⟩)
  | @rejection es w₁ y cmd ok err hrun hv ih =>
    rcases eq_or_ne es [] with rfl | hne
    · cases hL
    · rw [reads_append]
      exact progress_answer (ih (hL.of_append hne)) hv (.inr rfl)

/-- In a listing without repetitions a member has one place. -/
theorem place_unique {pre pre' post post' : List GroupId} (hn : L.Nodup) (h : L = pre ++ g :: post)
    (h' : L = pre' ++ g :: post') : pre = pre' := by
  subst h
  have hpre : g ∉ pre := fun hg => (List.nodup_append.mp hn).2.2 g hg g (by simp) rfl
  have hpost : g ∉ post := (List.nodup_cons.mp (List.nodup_append.mp hn).2.1).1
  exact ((List.append_cons_inj_of_notMem hpre hpost).mp h').1

/-- When the cycle is over, a group whose check does not throw was checked
exactly when no group listed before it threw. -/
theorem checked_iff {fails : GroupId → Prop} {pre post : List GroupId} (h : Progress L rs y) (hover : Over y)
    (hn : L.Nodup) (hfails : ∀ f ∈ rs, fails f ↔ y = .throw ∧ rs.getLast? = some f) (hL : L = pre ++ g :: post)
    (hg : ¬ fails g) : g ∈ rs ↔ ∀ f ∈ pre, ¬ fails f := by
  cases h with
  | before | inside => rcases hover with h | h <;> cases h
  | finished hr =>
    refine ⟨fun _ f hf hfail => ?_, fun _ => (hr g).mpr (by simp [hL])⟩
    have := ((hfails f ((hr f).mpr (by simp [hL, hf]))).mp hfail).1
    cases this
  | @thrown done b rest hL' hr hlast =>
    have hfail : fails b := (hfails b ((hr b).mpr (by simp))).mpr ⟨rfl, hlast⟩
    have hne : g ≠ b := by
      rintro rfl
      exact hg hfail
    constructor
    · intro hgr f hf hff
      have hgd : g ∈ done := by
        have := (hr g).mp hgr
        simpa [hne] using this
      -- what is listed before `g` is listed before `b`, the only one that threw
      obtain ⟨d₁, d₂, rfl⟩ := List.append_of_mem hgd
      have hpre : pre = d₁ := place_unique hn hL (by rw [hL', List.append_assoc]; rfl)
      subst hpre
      have hb := ((hfails f ((hr f).mpr (by simp [hf]))).mp hff).2
      rw [hlast] at hb
      cases hb
      have hn' := hL' ▸ hn
      exact (List.nodup_append.mp hn').2.2 b (by simp [hf]) b (by simp) rfl
    · intro hpre
      have hb : b ∈ pre ++ g :: post := by simp [← hL, hL']
      have hpost : b ∈ post := by
        rcases List.mem_append.mp hb with hb | hb
        · exact absurd hfail (hpre b hb)
        · exact (List.mem_cons.mp hb).resolve_left hne.symm
      obtain ⟨p₁, p₂, rfl⟩ := List.append_of_mem hpost
      have hdone : pre ++ g :: p₁ = done := place_unique hn (by rw [hL, List.append_assoc]; rfl) hL'
      refine (hr g).mpr ?_
      simp [← hdone]

end

/-! ## A group that has timed out -/

/-- The timeout lies before `t₀`. -/
def Passed (t₀ : Nat) (m : GroupMeta) : Prop := 0 < m.timeoutAt.getD 0 ∧ m.timeoutAt.getD 0 < t₀

def Overdue (g : GroupId) (st : GroupStatus) (t₀ : Nat) (s : Store) : Prop :=
  (s.groupMeta g).status = some st ∧ Passed t₀ (s.groupMeta g)

/-- The others leave the group's status alone and do not put its timeout off. -/
def Spares (rely : Store → Store → Prop) (g : GroupId) (t₀ : Nat) : Prop :=
  ∀ s s', rely s s' → (s'.groupMeta g).status = (s.groupMeta g).status ∧
    (Passed t₀ (s.groupMeta g) → Passed t₀ (s'.groupMeta g))

/-- What becomes of an overdue group. -/
inductive Fate (g : GroupId) (st : GroupStatus) (t₀ : Nat) (s : Store) (rs : List GroupId) :
    Core.Next WatchPc Unit → Prop where
  | waiting {y} (hrs : g ∉ rs) (ho : Overdue g st t₀ s) : Fate g st t₀ s rs y
  | timing {m rest} (hrs : g ∈ rs) (hp : Passed t₀ m) (ho : Overdue g st t₀ s) :
      Fate g st t₀ s rs (.goto (.checkTimeout g m st rest))
  | forcing {t rest} (hrs : g ∈ rs) (hs : t.source = st) (ht : t.target = .failed) (ho : Overdue g st t₀ s) :
      Fate g st t₀ s rs (.goto (.force g t rest))
  | failed {y} (hrs : g ∈ rs) (hf : (s.groupMeta g).status = some .failed)
      (hcur : ∀ p rest, y = .goto p → ¬ Checking g rest p) : Fate g st t₀ s rs y
  | threw (hlast : rs.getLast? = some g) : Fate g st t₀ s rs .throw

section
variable {reg : Registry} {rely : Store → Store → Prop} {s s' : Store} {es : List (Core.Answer Reply)}
  {y : Core.Next WatchPc Unit} {L rs rest : List GroupId} {g g' : GroupId} {st : GroupStatus} {t₀ : Nat}

theorem finalizes_unique {q : FinalizePc} (h : Finalizes g q) (h' : Finalizes g' q) : g = g' := by
  cases q with
  | aggregate => exact h.1.symm.trans h'.1
  | _ => exact Eq.trans (Eq.symm h) h'

theorem checking_unique {p : WatchPc} {rest' : List GroupId} (h : Checking g rest p) (h' : Checking g' rest' p) :
    g = g' := by
  cases p with
  | members | checkGroup => exact absurd h id
  | finalize => exact finalizes_unique h.1 h'.1
  | _ => exact h.1.symm.trans h'.1

theorem not_checking {x : Core.Next WatchPc Unit} (h : Stays g' rest x) (hne : g' ≠ g) :
    ∀ p r, x = .goto p → ¬ Checking g r p := by
  intro p r hx hp
  cases h with
  | goes hp' =>
    cases hx
    exact hne (checking_unique hp' hp)
  | ends =>
    cases rest with
    | nil => cases hx
    | cons =>
      cases hx
      exact hp
  | throws => cases hx

/-- The first calls of a timed-out group's check lead to the write. -/
theorem forced (hst : st = .created ∨ st = .dispatched ∨ st = .running) : ∃ t : Transition, t.source = st ∧
    t.target = .failed ∧ WatchPc.forceTransition g st .failed rest = .goto (.force g t rest) := by
  rcases hst with rfl | rfl | rfl
  · exact ⟨⟨.created, .failed, rfl⟩, rfl, rfl, rfl⟩
  · exact ⟨⟨.dispatched, .failed, rfl⟩, rfl, rfl, rfl⟩
  · exact ⟨⟨.running, .failed, rfl⟩, rfl, rfl, rfl⟩

/-- The call of another group's check. -/
theorem other_call {cmd : Cmd} {inp : Input} (h : Own g' cmd) (hne : g' ≠ g) :
    (exec reg cmd inp s).1.groupMeta g = s.groupMeta g :=
  groupMeta_frame fun hm => hne (h.2 g hm).symm

theorem fate_other {cmd : Cmd} {p : WatchPc} {x : Core.Next WatchPc Unit} (h : Fate g st t₀ s rs (.goto p))
    (hp : ∀ r, ¬ Checking g r p) (hown : Own g' cmd) (hne : g' ≠ g) (hstay : Stays g' rest x)
    (hs : s'.groupMeta g = s.groupMeta g) : Fate g st t₀ s' (rs ++ (readsOf cmd).toList) x := by
  cases h with
  | waiting hrs ho =>
    refine .waiting (fun hmem => ?_) (by rwa [Overdue, hs])
    rcases List.mem_append.mp hmem with hmem | hmem
    · exact hrs hmem
    · exact hne (hown.1 g (Option.mem_toList.mp hmem)).symm
  | timing | forcing => exact absurd ⟨rfl, rfl⟩ (hp _)
  | failed hrs hf => exact .failed (List.mem_append_left _ hrs) (by rwa [hs]) (not_checking hstay hne)

/-- The group that is checked next, or is being checked. -/
theorem Progress.current {p : WatchPc} (h : Progress L rs (.goto p)) :
    ∃ done b rest, L = done ++ b :: rest ∧ CheckSpec b rest (p.view reg) ∧
      ((p = .checkGroup b rest ∧ ∀ x, x ∈ rs ↔ x ∈ done) ∨ Checking b rest p ∧ rs.getLast? = some b) := by
  cases h with
  | @before done b rest hL hr => exact ⟨done, b, rest, hL, checkGroup_spec reg b rest, .inl ⟨rfl, hr⟩⟩
  | @inside done b rest _ hL hr hlast hp =>
    exact ⟨done, b, rest, hL, check_spec hp, .inr ⟨hp, hlast⟩⟩

theorem fate_reply {cmd : Cmd} {ok : Reply cmd → Core.Next WatchPc Unit} {err : Core.Next WatchPc Unit} {inp : Input}
    (h : Fate g st t₀ s rs y) (hprog : Progress L rs y) (hn : L.Nodup)
    (hst : st = .created ∨ st = .dispatched ∨ st = .running)
    (hv : Core.Next.view (WatchPc.view reg) y = .call cmd ok err) (hnow : cmd = .dateNow → t₀ ≤ inp.now) :
    Fate g st t₀ (exec reg cmd inp s).1 (rs ++ (readsOf cmd).toList) (ok (exec reg cmd inp s).2) := by
  cases y with
  | ret | throw => cases hv
  | goto p =>
    have hv : p.view reg = .call cmd ok err := hv
    obtain ⟨done, b, rest, hL, hspec, hb⟩ := @hprog.current reg
    rw [hv] at hspec
    by_cases hbg : b = g
    · subst hbg
      rcases hb with ⟨rfl, hr⟩ | ⟨hp, hlast⟩
      · -- the check of the group begins
        have hdone : b ∉ done := fun hd => (List.nodup_append.mp (hL ▸ hn)).2.2 b hd b (by simp) rfl
        cases h with
        | waiting hrs ho =>
          cases hv
          have hterm : isTerminal st = false := by rcases hst with rfl | rfl | rfl <;> rfl
          simp only [exec, ho.1, hterm, Bool.false_eq_true, if_false]
          exact .timing (by simp [readsOf]) ho.2 ho
        | failed hrs => exact absurd ((hr b).mp hrs) hdone
      · cases h with
        | waiting hrs => exact absurd (List.mem_of_getLast? hlast) hrs
        | @timing m rest' hrs hpassed ho =>
          cases hv
          obtain ⟨t, hs, ht, hforce⟩ := @forced rest' b st hst
          have hlate : 0 < m.timeoutAt.getD 0 ∧ m.timeoutAt.getD 0 < inp.now :=
            ⟨hpassed.1, Nat.lt_of_lt_of_le hpassed.2 (hnow rfl)⟩
          refine (congrArg (Fate b st t₀ s _) ((if_pos hlate).trans hforce)).mpr ?_
          exact .forcing (by simpa [readsOf] using hrs) hs ht ho
        | @forcing t rest' hrs hs ht ho =>
          cases hv
          have hset : ((exec reg (.transitionStatus b t) inp s).1.groupMeta b).status = some .failed := by
            simp only [exec, L2.transitionStatus, if_pos (ho.1.trans (congrArg some hs.symm)), Store.modMeta,
              Function.update_self, L2.setStatus_status, ht]
          refine .failed (by simpa [readsOf] using hrs) hset fun p r hx hc => ?_
          cases rest' with
          | nil => cases hx
          | cons =>
            cases hx
            exact hc
        | failed _ _ hcur => exact absurd hp (hcur p rest rfl)
    · have hcur : ∀ r, ¬ Checking g r p := by
        intro r hp
        rcases hb with ⟨rfl, -⟩ | ⟨hp', -⟩
        · exact hp
        · exact hbg (checking_unique hp' hp)
      exact fate_other h hcur hspec.1 hbg (hspec.2.1 _) (other_call hspec.1 hbg)

theorem fate_rejection {cmd : Cmd} {ok : Reply cmd → Core.Next WatchPc Unit} {err : Core.Next WatchPc Unit}
    (h : Fate g st t₀ s rs y) (hprog : Progress L rs y) (hn : L.Nodup)
    (hv : Core.Next.view (WatchPc.view reg) y = .call cmd ok err) :
    Fate g st t₀ s (rs ++ (readsOf cmd).toList) err := by
  cases y with
  | ret | throw => cases hv
  | goto p =>
    have hv : p.view reg = .call cmd ok err := hv
    obtain ⟨done, b, rest, hL, hspec, hb⟩ := @hprog.current reg
    rw [hv] at hspec
    by_cases hbg : b = g
    · subst hbg
      rcases hb with ⟨rfl, hr⟩ | ⟨hp, hlast⟩
      · have hdone : b ∉ done := fun hd => (List.nodup_append.mp (hL ▸ hn)).2.2 b hd b (by simp) rfl
        cases h with
        | waiting =>
          cases hv
          exact .threw (by simp [readsOf])
        | failed hrs => exact absurd ((hr b).mp hrs) hdone
      · cases h with
        | waiting hrs => exact absurd (List.mem_of_getLast? hlast) hrs
        | timing | forcing =>
          cases hv
          exact .threw (by simpa [readsOf] using hlast)
        | failed _ _ hcur => exact absurd hp (hcur p rest rfl)
    · have hcur : ∀ r, ¬ Checking g r p := by
        intro r hp
        rcases hb with ⟨rfl, -⟩ | ⟨hp', -⟩
        · exact hp
        · exact hbg (checking_unique hp' hp)
      exact fate_other h hcur hspec.1 hbg hspec.2.2 rfl

theorem fate_rely (h : Fate g st t₀ s rs y) (hspares : Spares rely g t₀) (hs : rely s s') : Fate g st t₀ s' rs y := by
  obtain ⟨hstatus, hpassed⟩ := hspares s s' hs
  have hkeep : Overdue g st t₀ s → Overdue g st t₀ s' := fun ho => ⟨hstatus.trans ho.1, hpassed ho.2⟩
  cases h with
  | waiting hrs ho => exact .waiting hrs (hkeep ho)
  | timing hrs hp ho => exact .timing hrs hp (hkeep ho)
  | forcing hrs hsource ht ho => exact .forcing hrs hsource ht (hkeep ho)
  | failed hrs hf hcur => exact .failed hrs (hstatus.trans hf) hcur
  | threw hlast => exact .threw hlast

theorem fate (h : Cycle reg rely s es s' y) (hspares : Spares rely g t₀)
    (hst : st = .created ∨ st = .dispatched ∨ st = .running) (hL : es ≠ [] → Lists es L) (hn : L.Nodup)
    (hclock : ∀ now ∈ readings es, t₀ ≤ now) (ho : Overdue g st t₀ s) : Fate g st t₀ s' (reads es) y := by
  have hmono : ∀ {es : List (Core.Answer Reply)} {e}, (∀ now ∈ readings (es ++ [e]), t₀ ≤ now) →
      ∀ now ∈ readings es, t₀ ≤ now := by
    intro es e h now hnow
    refine h now ?_
    rw [readings, List.filterMap_append]
    exact List.mem_append_left _ hnow
  induction h with
  | nil => exact .waiting (by simp [reads]) ho
  | rely _ hw ih => exact fate_rely (ih hL hclock) hspares hw
  | @call es w₁ y cmd ok err inp hrun hv ih =>
    have hL := hL (by simp)
    rw [reads_append]
    rcases eq_or_ne es [] with rfl | hne
    · obtain rfl := hrun.eq_of_nil rfl
      cases hv
      cases ih (by simp) (hmono hclock) with
      | waiting hrs ho => exact .waiting List.not_mem_nil ho
      | failed hrs => cases hrs
    · have hnow : cmd = .dateNow → t₀ ≤ inp.now := by
        rintro rfl
        exact hclock inp.now (by simp [readings, readingOf, exec])
      have hL := hL.of_append hne
      exact fate_reply (ih (fun _ => hL) (hmono hclock)) (progress hrun hL) hn hst hv hnow
  | @rejection es w₁ y cmd ok err hrun hv ih =>
    have hL := hL (by simp)
    rcases eq_or_ne es [] with rfl | hne
    · cases hL
    · have hL := hL.of_append hne
      rw [reads_append]
      exact fate_rejection (ih (fun _ => hL) (hmono hclock)) (progress hrun hL) hn hv

/-- In every cycle in which the checks of the groups in `fails` throw: a group
whose own check does not throw is checked exactly when no group in `fails` is
listed before it. If it is CREATED, DISPATCHED or RUNNING and has timed out, and
nobody else meddles, it is FAILED at the end exactly then. -/
theorem bad_groups_stall (reg : Registry) (rely : Store → Store → Prop) (fails : GroupId → Prop) (L : List GroupId)
    (s s' : Store) (es : List (Core.Answer Reply)) (y : Core.Next WatchPc Unit)
    (h : Failing reg rely fails L s es s' y) (pre post : List GroupId) (g : GroupId) (hL : L = pre ++ g :: post)
    (hg : ¬ fails g) :
    (Checked es g ↔ ∀ f ∈ pre, ¬ fails f) ∧
    ∀ st t₀, (st = .created ∨ st = .dispatched ∨ st = .running) → Overdue g st t₀ s → Spares rely g t₀ →
      (∀ now ∈ readings es, t₀ ≤ now) → ((s'.groupMeta g).status = some .failed ↔ ∀ f ∈ pre, ¬ fails f) := by
  have hchecked := checked_iff (progress h.run h.lists) h.ended h.nodup h.fails hL hg
  refine ⟨hchecked, fun st t₀ hst ho hspares hclock => ?_⟩
  rw [← hchecked]
  cases fate h.run hspares hst (fun _ => h.lists) h.nodup hclock ho with
  | waiting hrs ho =>
    refine ⟨fun hf => ?_, fun hmem => absurd hmem hrs⟩
    rw [ho.1] at hf
    rcases hst with rfl | rfl | rfl <;> cases hf
  | timing | forcing => rcases h.ended with h | h <;> cases h
  | failed hrs hf => exact ⟨fun _ => hrs, fun _ => hf⟩
  | threw hlast => exact absurd ((h.fails g (List.mem_of_getLast? hlast)).mpr ⟨rfl, hlast⟩) hg

end

/-- The groups of the set have timed out. -/
def timedOut (set : List GroupId) : Store :=
  { Store.empty with
    watcherActiveGroups := set
    groupMeta := fun _ => { status := some .running, timeoutAt := some 1 } }

def thrown : Core.Next WatchPc Unit → Bool
  | .throw => true
  | _ => false

/-- A cycle without interference that ends when the read of the group `bad` rejects. -/
theorem failing_of_solo (bad : GroupId) {L : List GroupId} {s : Store} {os : List (Option Input)}
    {P : List (Core.Answer Reply) → Bool} (hn : L.Nodup)
    (h : (Core.solo (exec {}) (Core.Next.view (WatchPc.view {})) ([], s, .goto .members) os).any
      (fun r => decide (thrown r.2.2 = true ∧ Lists r.1 L ∧ (reads r.1).getLast? = some bad ∧ P r.1 = true)) = true) :
    ∃ es s' y, Failing {} (fun _ _ => False) (· = bad) L s es s' y ∧ P es = true := by
  obtain ⟨es, s', y, hrun, hP⟩ := Core.exists_of_solo h
  obtain ⟨hy, hL, hlast, hP⟩ := of_decide_eq_true hP
  obtain rfl : y = .throw := by
    cases y <;> first | rfl | cases hy
  refine ⟨es, s', .throw, ⟨hrun, .inr rfl, hL, hn, fun f _ => ?_⟩, hP⟩
  rw [Threw, hlast]
  exact ⟨fun h => ⟨rfl, congrArg some h.symm⟩, fun h => (Option.some.inj h.2).symm⟩

/-- The read of `bad`, listed last, rejects. -/
theorem bad_groups_stall_last : ∃ es s' y,
    Failing {} (fun _ _ => False) (· = "bad") ["g", "bad"] (timedOut ["g", "bad"]) es s' y ∧
      Checked es "g" ∧ (s'.groupMeta "g").status = some .failed := by
  obtain ⟨es, s', y, hf, hclock⟩ := failing_of_solo "bad"
    (P := fun es => decide (∀ now ∈ readings es, 5 ≤ now)) (show ["g", "bad"].Nodup by decide)
    (show (Core.solo (exec {}) (Core.Next.view (WatchPc.view {})) ([], timedOut ["g", "bad"], .goto .members)
      [some {}, some {}, some { now := 5 }, some { now := 5 }, none]).any _ = true by decide +kernel)
  obtain ⟨hchecked, hfailed⟩ := bad_groups_stall {} _ _ _ _ _ _ _ hf [] ["bad"] "g" rfl (by decide)
  exact ⟨es, s', y, hf, hchecked.mpr (by simp), (hfailed .running 5 (by simp) ⟨rfl, by decide, by decide⟩
    (fun _ _ h => h.elim) (of_decide_eq_true hclock)).mpr (by simp)⟩

/-- It is listed first. -/
theorem bad_group_first : ¬ ∀ (reg : Registry) (rely : Store → Store → Prop) (fails : GroupId → Prop)
    (L : List GroupId) (s s' : Store) (es : List (Core.Answer Reply)) (y : Core.Next WatchPc Unit),
    Failing reg rely fails L s es s' y → ∀ g ∈ L, ¬ fails g → Checked es g := by
  intro h
  obtain ⟨es, s', y, hf, hg⟩ := failing_of_solo "bad"
    (P := fun es => decide ("g" ∉ reads es)) (show ["bad", "g"].Nodup by decide)
    (show (Core.solo (exec {}) (Core.Next.view (WatchPc.view {})) ([], timedOut ["bad", "g"], .goto .members)
      [some {}, none]).any _ = true by decide +kernel)
  exact of_decide_eq_true hg (h _ _ _ _ _ _ _ _ hf "g" (by decide) (by decide))

end NestPlayground.L5.WatchCycle
