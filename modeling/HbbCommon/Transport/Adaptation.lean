import HbbCommon.Base.Machine

/-!
# Bandwidth adaptation

`BandwidthAdapter` carries a media target from call to call. An update sorts the
measurements into severe, constrained and healthy, scales the video bitrate down or up,
caps it by a share of the estimated bandwidth and clamps it to the limits; the other
rates follow from the flags and the estimate alone.

The floating-point measurements are of a type `F` of which only the comparisons with
the thresholds are used. The estimate zero stands for no estimate.
-/

namespace HbbCommon.Transport

open HbbCommon.Base

/-- Saturating unsigned 32-bit multiplication. -/
def satMul32 (a b : Nat) : Nat := min (a * b) u32Max

/-- Saturating unsigned 16-bit multiplication. -/
def satMul16 (a b : Nat) : Nat := min (a * b) (2 ^ 16 - 1)

/-- `Ord::clamp`, with what it asserts about its bounds. -/
def clamp (x lo hi : Nat) (_ : lo ≤ hi) : Nat :=
  if x < lo then lo else if x > hi then hi else x

structure AdaptationMetrics (F : Type) where
  quicRttMs : F
  packetLossPercent : F
  datagramDropPercent : F
  frameCompletionPercent : F
  decoderQueueDepth : Nat
  inputLatencyMs : F
  sendQueueBytes : Nat
  estimatedBandwidthKbps : Nat

structure MediaTarget where
  videoBitrateKbps : Nat
  maxFps : Nat
  resolutionScalePercent : Nat
  keyframeIntervalFrames : Nat
  audioBitrateKbps : Nat
  fileBitrateKbps : Nat
  deriving DecidableEq, Repr

structure AdaptationLimits where
  minimumVideoBitrateKbps : Nat
  maximumVideoBitrateKbps : Nat
  maximumFps : Nat
  maximumAudioBitrateKbps : Nat
  maximumFileBitrateKbps : Nat
  deriving DecidableEq, Repr

/-- The test of `BandwidthAdapter::new`. -/
def AdaptationLimits.isInvalid (l : AdaptationLimits) : Bool :=
  l.minimumVideoBitrateKbps == 0 ||
    decide (l.maximumVideoBitrateKbps < l.minimumVideoBitrateKbps) ||
    l.maximumFps == 0 || l.maximumAudioBitrateKbps == 0

inductive AdaptationError
  | invalidLimits
  deriving DecidableEq, Repr

structure BandwidthAdapter where
  limits : AdaptationLimits
  target : MediaTarget
  accepted : limits.isInvalid = false

theorem AdaptationLimits.minimum_le {l : AdaptationLimits} (h : l.isInvalid = false) :
    l.minimumVideoBitrateKbps ≤ l.maximumVideoBitrateKbps := by
  unfold AdaptationLimits.isInvalid at h
  simp only [Bool.or_eq_false_iff, decide_eq_false_iff_not] at h
  omega

namespace BandwidthAdapter

def new (limits : AdaptationLimits) : Except AdaptationError BandwidthAdapter :=
  if h : limits.isInvalid = true then .error .invalidLimits
  else
    .ok
      { limits
        target :=
          { videoBitrateKbps := limits.maximumVideoBitrateKbps
            maxFps := limits.maximumFps
            resolutionScalePercent := 100
            keyframeIntervalFrames := max (satMul16 limits.maximumFps 2) 1
            audioBitrateKbps := limits.maximumAudioBitrateKbps
            fileBitrateKbps := limits.maximumFileBitrateKbps }
        accepted := Bool.eq_false_iff.mpr h }

section Update

variable {F : Type} [LT F] [LE F] [DecidableLT F] [DecidableLE F] [∀ n, OfNat F n]

def severe (m : AdaptationMetrics F) : Bool :=
  decide (m.packetLossPercent ≥ 8) || decide (m.datagramDropPercent ≥ 10) ||
    decide (m.frameCompletionPercent < 80) || decide (m.decoderQueueDepth ≥ 6) ||
    decide (m.quicRttMs ≥ 200)

def constrained (m : AdaptationMetrics F) : Bool :=
  severe m || decide (m.packetLossPercent ≥ 3) || decide (m.datagramDropPercent ≥ 5) ||
    decide (m.frameCompletionPercent < 92) || decide (m.decoderQueueDepth ≥ 3) ||
    decide (m.inputLatencyMs ≥ 120) || decide (m.sendQueueBytes ≥ 2 * 1024 * 1024)

/-- The share of the estimate that the video may take, in percent. -/
def bandwidthShare (m : AdaptationMetrics F) : Nat := if constrained m then 65 else 80

def bandwidthBudget (m : AdaptationMetrics F) : Nat :=
  satMul32 m.estimatedBandwidthKbps (bandwidthShare m) / 100

/-- The video bitrate scaled down or up, before the budget and the limits. -/
def scaledBitrate (m : AdaptationMetrics F) (bitrate : Nat) : Nat :=
  if constrained m then satMul32 bitrate (if severe m then 65 else 82) / 100
  else satAdd32 bitrate (max (bitrate / 20) 100)

/-- The scaled bitrate under the budget; a budget of zero is no budget. -/
def budgetedBitrate (m : AdaptationMetrics F) (bitrate : Nat) : Nat :=
  if bandwidthBudget m > 0 then min (scaledBitrate m bitrate) (bandwidthBudget m)
  else scaledBitrate m bitrate

def update (a : BandwidthAdapter) (m : AdaptationMetrics F) : BandwidthAdapter × MediaTarget :=
  let maxFps :=
    if severe m then min a.limits.maximumFps 20
    else if constrained m then min a.limits.maximumFps 30
    else a.limits.maximumFps
  let target : MediaTarget :=
    { videoBitrateKbps :=
        clamp (budgetedBitrate m a.target.videoBitrateKbps) a.limits.minimumVideoBitrateKbps
          a.limits.maximumVideoBitrateKbps (AdaptationLimits.minimum_le a.accepted)
      maxFps
      resolutionScalePercent := if severe m then 50 else if constrained m then 75 else 100
      keyframeIntervalFrames :=
        if m.datagramDropPercent ≥ 5 then max maxFps 1 else max (satMul16 maxFps 2) 1
      audioBitrateKbps :=
        if severe m then min a.limits.maximumAudioBitrateKbps 48
        else a.limits.maximumAudioBitrateKbps
      fileBitrateKbps :=
        min (satMul32 m.estimatedBandwidthKbps (if constrained m then 5 else 20) / 100)
          a.limits.maximumFileBitrateKbps }
  ({ a with target }, target)

/-- The updates one after another. -/
def after (a : BandwidthAdapter) (updates : List (AdaptationMetrics F)) : BandwidthAdapter :=
  updates.foldl (fun a m => (a.update m).1) a

end Update

end BandwidthAdapter

end HbbCommon.Transport
