import NestPlayground.L3Services.CongestionStats

/-!
# The congestion history

After any snapshots, a group's list is its snapshots trimmed once. Both the
trim and the read pass a length as a negative start, so a length of 0 means all.
-/
namespace NestPlayground.L5.History
open L1 L3.CongestionStats

/-- The snapshots of some groups, one after another. -/
def snapshotAll (statsRetentionMs : ℚ≥0) (calls : List (GroupId × CongestionSnapshot)) : Stats :=
  calls.foldl (fun s call => snapshotCongestion statsRetentionMs call.1 call.2 s) .empty

section
variable {statsRetentionMs : ℚ≥0}

theorem maxHistoryLength_ne_zero : maxHistoryLength statsRetentionMs ≠ 0 ↔ 1000 ≤ statsRetentionMs := by
  unfold maxHistoryLength
  rw [← not_lt, Ne, Nat.floor_eq_zero, div_lt_one (by norm_num)]

theorem snapshotCongestion_history {g groupId : GroupId} {snapshot : CongestionSnapshot} {s : Stats} :
    (snapshotCongestion statsRetentionMs groupId snapshot s).history g =
      if groupId = g then
        Core.slice (s.history g ++ [snapshot]) (-(maxHistoryLength statsRetentionMs : Int)) (-1)
      else s.history g := by
  unfold snapshotCongestion
  split_ifs with h
  · subst h
    exact Function.update_self ..
  · exact Function.update_of_ne (Ne.symm h) ..

/-- One trim of all the snapshots gives the list. -/
theorem history_snapshotAll (g : GroupId) (calls : List (GroupId × CongestionSnapshot)) :
    (snapshotAll statsRetentionMs calls).history g =
      Core.slice (ofGroup g calls) (-(maxHistoryLength statsRetentionMs : Int)) (-1) := by
  induction calls using List.reverseRecOn with
  | nil => simp [snapshotAll, Stats.empty, ofGroup, Core.slice]
  | append_singleton calls call ih =>
    have hlast : snapshotAll statsRetentionMs (calls ++ [call]) =
        snapshotCongestion statsRetentionMs call.1 call.2 (snapshotAll statsRetentionMs calls) :=
      List.foldl_concat ..
    rw [hlast, snapshotCongestion_history, ofGroup_concat]
    split_ifs with h
    · rw [ih, Core.slice_slice_append]
    · exact ih

end

/-- The last `limit` snapshots of those retained are what is returned, for a
limit and a retention length of at least 1 each. -/
theorem getCongestionHistory_suffix_iff (statsRetentionMs : ℚ≥0) (calls : List (GroupId × CongestionSnapshot))
    (g : GroupId) (limit : Nat) :
    getCongestionHistory g limit (snapshotAll statsRetentionMs calls) =
        (ofGroup g calls).rtake (min (min limit ⌊statsRetentionMs / 1000⌋₊) (ofGroup g calls).length) ↔
      ofGroup g calls = [] ∨ (1 ≤ limit ∧ 1000 ≤ statsRetentionMs) := by
  unfold getCongestionHistory
  rw [history_snapshotAll, ← maxHistoryLength_ne_zero, Nat.one_le_iff_ne_zero]
  exact Core.slice_slice_eq_rtake_iff (ofGroup g calls) (maxHistoryLength statsRetentionMs) limit

/-- With limit 0 the read starts at -0, the front of the list. -/
theorem getCongestionHistory_not_suffix :
    ¬ ∀ (statsRetentionMs : ℚ≥0) (calls : List (GroupId × CongestionSnapshot)) (g : GroupId) (limit : Nat),
      getCongestionHistory g limit (snapshotAll statsRetentionMs calls) =
        (ofGroup g calls).rtake (min (min limit ⌊statsRetentionMs / 1000⌋₊) (ofGroup g calls).length) := by
  intro h
  have hlimit := h 3600000 [("orders", ⟨4, 2, 1000, 0⟩)] "orders" 0
  have hread : getCongestionHistory "orders" 0 (snapshotAll 3600000 [("orders", ⟨4, 2, 1000, 0⟩)]) =
      [⟨4, 2, 1000, 0⟩] := by decide +kernel
  rw [hread, Nat.zero_min, Nat.zero_min, List.rtake_zero] at hlimit
  exact List.cons_ne_nil _ _ hlimit

end NestPlayground.L5.History
