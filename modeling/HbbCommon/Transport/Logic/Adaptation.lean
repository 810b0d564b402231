import HbbCommon.Transport.Adaptation
import Mathlib

/-!
# Bounds of the bandwidth adapter

Every target lies within the limits, whatever the history: the clamp comes last, and the
other rates are minima of a limit. The estimate bounds the video bitrate through the
budget. A budget that rounds to zero is taken for no estimate; that happens at an estimate
of 1 kbps and at no other estimate.
-/

namespace HbbCommon.Transport.BandwidthAdapter

open HbbCommon.Base

variable {F : Type} [LT F] [LE F] [DecidableLT F] [DecidableLE F] [∀ n, OfNat F n]

/-! ## One update -/

theorem clamp_mem (x : Nat) {lo hi : Nat} (h : lo ≤ hi) : lo ≤ clamp x lo hi h ∧ clamp x lo hi h ≤ hi := by
  unfold clamp
  split
  · exact ⟨le_rfl, h⟩
  · split <;> omega

theorem clamp_le_max (x : Nat) {lo hi : Nat} (h : lo ≤ hi) : clamp x lo hi h ≤ max lo x := by
  unfold clamp
  split
  · exact Nat.le_max_left _ _
  · split <;> omega

/-- The limits of a target; the frame rate and the audio and file rates have no lower one. -/
structure WithinLimits (l : AdaptationLimits) (t : MediaTarget) : Prop where
  minimum_le : l.minimumVideoBitrateKbps ≤ t.videoBitrateKbps
  le_maximum : t.videoBitrateKbps ≤ l.maximumVideoBitrateKbps
  fps : t.maxFps ≤ l.maximumFps
  audio : t.audioBitrateKbps ≤ l.maximumAudioBitrateKbps
  file : t.fileBitrateKbps ≤ l.maximumFileBitrateKbps

theorem withinLimits_new {limits : AdaptationLimits} {a : BandwidthAdapter}
    (h : new limits = .ok a) : a.limits = limits ∧ WithinLimits limits a.target := by
  unfold new at h
  split at h
  · cases h
  · rename_i hvalid
    cases h
    exact ⟨rfl,
      { minimum_le := AdaptationLimits.minimum_le (Bool.eq_false_iff.mpr hvalid)
        le_maximum := le_rfl
        fps := le_rfl
        audio := le_rfl
        file := le_rfl }⟩

@[simp] theorem limits_update (a : BandwidthAdapter) (m : AdaptationMetrics F) :
    (a.update m).1.limits = a.limits := rfl

@[simp] theorem target_update (a : BandwidthAdapter) (m : AdaptationMetrics F) :
    (a.update m).1.target = (a.update m).2 := rfl

/-- A target is within the limits whatever the target before was. -/
theorem withinLimits_update (a : BandwidthAdapter) (m : AdaptationMetrics F) :
    WithinLimits a.limits (a.update m).2 := by
  have hclamp := clamp_mem (budgetedBitrate m a.target.videoBitrateKbps)
    (AdaptationLimits.minimum_le a.accepted)
  refine ⟨hclamp.1, hclamp.2, ?_, ?_, Nat.min_le_right _ _⟩
  · show (if severe m then min a.limits.maximumFps 20
      else if constrained m then min a.limits.maximumFps 30 else a.limits.maximumFps) ≤ _
    split
    · exact Nat.min_le_left _ _
    · split
      · exact Nat.min_le_left _ _
      · exact le_rfl
  · show (if severe m then min a.limits.maximumAudioBitrateKbps 48
      else a.limits.maximumAudioBitrateKbps) ≤ _
    split
    · exact Nat.min_le_left _ _
    · exact le_rfl

/-! ## The estimate -/

theorem bandwidthBudget_le (m : AdaptationMetrics F) :
    100 * bandwidthBudget m ≤ bandwidthShare m * m.estimatedBandwidthKbps := by
  have hsat : satMul32 m.estimatedBandwidthKbps (bandwidthShare m) ≤
      bandwidthShare m * m.estimatedBandwidthKbps := by
    rw [Nat.mul_comm (bandwidthShare m)]
    exact Nat.min_le_left _ _
  unfold bandwidthBudget
  omega

/-- The budget of an estimate rounds to zero at 0 and 1 only. -/
theorem bandwidthBudget_pos {m : AdaptationMetrics F} (hzero : m.estimatedBandwidthKbps ≠ 0)
    (hone : m.estimatedBandwidthKbps ≠ 1) : bandwidthBudget m > 0 := by
  have hshare : 65 ≤ bandwidthShare m := by
    unfold bandwidthShare
    split <;> decide
  have hproduct : 2 * 65 ≤ m.estimatedBandwidthKbps * bandwidthShare m :=
    Nat.mul_le_mul (by omega) hshare
  have hsat : 100 ≤ satMul32 m.estimatedBandwidthKbps (bandwidthShare m) :=
    Nat.le_min.mpr ⟨by omega, by decide⟩
  exact Nat.div_pos hsat (by decide)

/-- The video bitrate is bounded by the share of the estimate, or is the minimum. -/
theorem videoBitrate_le (a : BandwidthAdapter) {m : AdaptationMetrics F}
    (hzero : m.estimatedBandwidthKbps ≠ 0) (hone : m.estimatedBandwidthKbps ≠ 1) :
    100 * (a.update m).2.videoBitrateKbps ≤
      max (100 * a.limits.minimumVideoBitrateKbps)
        (bandwidthShare m * m.estimatedBandwidthKbps) := by
  have hbudget : budgetedBitrate m a.target.videoBitrateKbps ≤ bandwidthBudget m := by
    unfold budgetedBitrate
    rw [if_pos (bandwidthBudget_pos hzero hone)]
    exact Nat.min_le_right _ _
  have hclamp : (a.update m).2.videoBitrateKbps ≤
      max a.limits.minimumVideoBitrateKbps (budgetedBitrate m a.target.videoBitrateKbps) :=
    clamp_le_max _ (AdaptationLimits.minimum_le a.accepted)
  have hle := bandwidthBudget_le m
  omega

/-! ## Runs -/

theorem after_append_singleton (a : BandwidthAdapter) (updates : List (AdaptationMetrics F))
    (m : AdaptationMetrics F) : a.after (updates ++ [m]) = ((a.after updates).update m).1 := by
  unfold after
  rw [List.foldl_append]
  rfl

theorem limits_after (a : BandwidthAdapter) (updates : List (AdaptationMetrics F)) :
    (a.after updates).limits = a.limits := by
  induction updates using List.reverseRecOn with
  | nil => rfl
  | append_singleton updates m ih => rw [after_append_singleton, limits_update, ih]

theorem withinLimits_after {limits : AdaptationLimits} {start : BandwidthAdapter}
    (hnew : new limits = .ok start) (updates : List (AdaptationMetrics F)) :
    WithinLimits limits (start.after updates).target := by
  obtain ⟨rfl, hstart⟩ := withinLimits_new hnew
  induction updates using List.reverseRecOn with
  | nil => exact hstart
  | append_singleton updates m _ =>
      rw [after_append_singleton, target_update, ← limits_after start updates]
      exact withinLimits_update _ m

/-- In every run of updates in which no estimate is 1 kbps, the target is within the limits,
and the video bitrate is at most the share of the estimate of the last update, or the
minimum. -/
theorem bandwidth_bounds {limits : AdaptationLimits} {start : BandwidthAdapter}
    (hnew : new limits = .ok start) (updates : List (AdaptationMetrics F))
    (hone : ∀ m ∈ updates, m.estimatedBandwidthKbps ≠ 1) :
    WithinLimits limits (start.after updates).target ∧
      ∀ m, updates.getLast? = some m → m.estimatedBandwidthKbps ≠ 0 →
        100 * (start.after updates).target.videoBitrateKbps ≤
          max (100 * limits.minimumVideoBitrateKbps)
            ((if constrained m then 65 else 80) * m.estimatedBandwidthKbps) := by
  refine ⟨withinLimits_after hnew updates, fun m hlast hzero => ?_⟩
  obtain ⟨before, rfl⟩ := List.getLast?_eq_some_iff.mp hlast
  have hm : m ∈ before ++ [m] := by simp
  have hlimits : (start.after before).limits = limits :=
    (limits_after start before).trans (withinLimits_new hnew).1
  have hle := videoBitrate_le (start.after before) hzero (hone m hm)
  rw [hlimits] at hle
  rwa [after_append_singleton, target_update]

/-- Healthy measurements with an estimate. -/
def healthy (estimatedBandwidthKbps : Nat) : AdaptationMetrics Nat :=
  { quicRttMs := 10, packetLossPercent := 0, datagramDropPercent := 0,
    frameCompletionPercent := 100, decoderQueueDepth := 0, inputLatencyMs := 5,
    sendQueueBytes := 0, estimatedBandwidthKbps }

def sampleLimits : AdaptationLimits :=
  { minimumVideoBitrateKbps := 500, maximumVideoBitrateKbps := 50000, maximumFps := 60,
    maximumAudioBitrateKbps := 96, maximumFileBitrateKbps := 20000 }

theorem bandwidth_bounds_sample :
    ∃ start, new sampleLimits = .ok start ∧
      100 * (start.after [healthy 10000]).target.videoBitrateKbps ≤ 800000 :=
  ⟨_, rfl, (bandwidth_bounds (show new sampleLimits = .ok _ from rfl) [healthy 10000] (by decide)).2
    (healthy 10000) rfl (by decide)⟩

/-- At an estimate of 1 kbps the budget rounds to zero and the video keeps its maximum. -/
theorem estimate_of_one_is_ignored :
    ¬ ∀ (limits : AdaptationLimits) (start : BandwidthAdapter), new limits = .ok start →
      ∀ (updates : List (AdaptationMetrics Nat)) (m : AdaptationMetrics Nat),
        updates.getLast? = some m → m.estimatedBandwidthKbps ≠ 0 →
        100 * (start.after updates).target.videoBitrateKbps ≤
          max (100 * limits.minimumVideoBitrateKbps)
            ((if constrained m then 65 else 80) * m.estimatedBandwidthKbps) := by
  intro h
  have hone := h sampleLimits _ rfl [healthy 1] (healthy 1) rfl (by decide)
  revert hone
  decide

end HbbCommon.Transport.BandwidthAdapter
