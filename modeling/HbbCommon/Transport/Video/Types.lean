import HbbCommon.Base.OrdMap
import HbbCommon.Base.Machine

/-!
# Video data model

The values the QUIC video path passes around: stream and track keys, source
information, encoded frames and their transport metadata. Identifiers and
timestamps are naturals, displays integers, times nanoseconds. Payload bytes
are kept because their length is charged against every budget.
-/

namespace HbbCommon.Transport

open HbbCommon.Base

abbrev Bytes := List UInt8

/-- A point in time or a length of time, in nanoseconds. -/
abbrev Time := Nat

def millis (n : Nat) : Time := n * 1000000

def secs (n : Nat) : Time := n * 1000000000

inductive VideoCodec
  | h264
  | h265
  | vp8
  | vp9
  | av1
  | raw
  deriving DecidableEq, Repr

/-- Codecs whose decoder state is corrupted by one missing reference. -/
def VideoCodec.isReferenceSensitive : VideoCodec → Bool
  | .h264 | .h265 | .av1 => true
  | .vp8 | .vp9 | .raw => false

/-- One capture-service stream of one display. -/
structure VideoStreamKey where
  display : Int
  streamId : Nat
  deriving DecidableEq, Repr

/-- Stream keys are ordered by display, then by stream id. -/
instance : LinearOrder VideoStreamKey :=
  LinearOrder.lift' (fun k => toLex (k.display, k.streamId)) (by
    intro a b h
    obtain ⟨hd, hs⟩ := Prod.mk.injEq .. ▸ toLex.injective h
    cases a; cases b; cases hd; cases hs; rfl)

/-- The key a sender track is stored under. -/
inductive VideoOutboundTrackKey
  | latest (key : Nat)
  | source (key : VideoStreamKey)
  | unscoped
  deriving DecidableEq, Repr

/-- The position of a track key in the declaration order of its variants. -/
def VideoOutboundTrackKey.rank : VideoOutboundTrackKey → Nat ×ₗ Int ×ₗ Nat
  | .latest key => toLex (0, toLex (0, key))
  | .source key => toLex (1, toLex (key.display, key.streamId))
  | .unscoped => toLex (2, toLex (0, 0))

theorem VideoOutboundTrackKey.rank_injective :
    Function.Injective VideoOutboundTrackKey.rank := by
  intro a b h
  cases a <;> cases b <;> simp [rank] at h ⊢
  · exact h
  · rename_i j k
    cases j; cases k; simp_all

instance : LinearOrder VideoOutboundTrackKey :=
  LinearOrder.lift' VideoOutboundTrackKey.rank VideoOutboundTrackKey.rank_injective

/-- What a video payload says about its own origin. -/
structure VideoSourceInfo where
  key : VideoStreamKey
  frameId : Nat
  keyframe : Bool
  codec : VideoCodec
  deriving DecidableEq, Repr

/-- Transport metadata of one encoded frame. -/
structure VideoFrameMetadata where
  frameId : Nat
  codec : VideoCodec
  flags : Nat
  presentationTimestampUs : Nat
  deriving DecidableEq, Repr

/-- `FLAG_KEYFRAME`, bit 0 of the frame flags. -/
def flagKeyframe : Nat := 1

/-! ## The decoded protobuf video frame -/

/-- The codec payload of a decoded `VideoFrame`; for the encoded codecs, the
`key` flag of each encoded frame in it. -/
inductive VideoFrameUnion
  | vp9s (keys : List Bool)
  | h264s (keys : List Bool)
  | h265s (keys : List Bool)
  | vp8s (keys : List Bool)
  | av1s (keys : List Bool)
  | rgb
  | yuv
  deriving DecidableEq, Repr

/-- A decoded `VideoFrame` message. -/
structure VideoFrame where
  union : Option VideoFrameUnion
  display : Int
  streamId : Nat
  frameId : Nat
  captureTimeMs : Nat
  deriving DecidableEq, Repr

def hasKeyframe (keys : List Bool) : Bool := keys.any id

/-- `video_metadata`: codec, keyframe flag and timestamp of a decoded frame;
fails when the frame has no codec payload. -/
def videoMetadata (frame : VideoFrame) : Option VideoFrameMetadata :=
  let classified : Option (VideoCodec × Bool) :=
    match frame.union with
    | some (.vp9s keys) => some (.vp9, hasKeyframe keys)
    | some (.h264s keys) => some (.h264, hasKeyframe keys)
    | some (.h265s keys) => some (.h265, hasKeyframe keys)
    | some (.vp8s keys) => some (.vp8, hasKeyframe keys)
    | some (.av1s keys) => some (.av1, hasKeyframe keys)
    | some .rgb => some (.raw, true)
    | some .yuv => some (.raw, true)
    | none => none
  classified.map fun (codec, keyframe) =>
    { frameId := frame.frameId
      codec := codec
      flags := if keyframe then flagKeyframe else 0
      presentationTimestampUs := min (frame.captureTimeMs * 1000) u64Max }

def VideoFrameMetadata.isKeyframe (metadata : VideoFrameMetadata) : Bool :=
  metadata.flags % 2 == flagKeyframe

/-- `video_source_info` of a payload that decodes to `frame`. -/
def videoSourceInfo (frame : VideoFrame) : Option VideoSourceInfo :=
  (videoMetadata frame).map fun metadata =>
    { key := { display := frame.display, streamId := frame.streamId }
      frameId := frame.frameId
      keyframe := metadata.isKeyframe
      codec := metadata.codec }

/-- A frame that classifies as video has source information, with the same
keyframe flag. -/
theorem videoSourceInfo_of_metadata {frame : VideoFrame} {metadata : VideoFrameMetadata}
    (h : videoMetadata frame = some metadata) :
    videoSourceInfo frame = some
      { key := { display := frame.display, streamId := frame.streamId }
        frameId := frame.frameId
        keyframe := metadata.isKeyframe
        codec := metadata.codec } := by
  simp [videoSourceInfo, h]

/-- `VideoOutboundTrackKey::resolve`. -/
def VideoOutboundTrackKey.resolve (latestKey : Option Nat)
    (sourceInfo : Option VideoSourceInfo) : VideoOutboundTrackKey :=
  match latestKey, sourceInfo with
  | some key, _ => .latest key
  | none, some info => .source info.key
  | none, none => .unscoped

/-! ## Frames on the sending side -/

/-- A frame between `enqueue` and the transport. -/
structure VideoOutbound where
  trackKey : VideoOutboundTrackKey
  metadata : VideoFrameMetadata
  sourceInfo : Option VideoSourceInfo
  payload : Bytes
  orderingEpoch : Nat
  deriving DecidableEq, Repr

def VideoOutbound.isKeyframe (item : VideoOutbound) : Bool := item.metadata.isKeyframe

/-- `should_replace_pending_video`: a newer ordering epoch always wins; within
one epoch only a keyframe may replace a pending keyframe. -/
def shouldReplacePendingVideo (pending incoming : VideoOutbound) : Bool :=
  if incoming.orderingEpoch ≠ pending.orderingEpoch then
    decide (incoming.orderingEpoch > pending.orderingEpoch)
  else
    !pending.isKeyframe || incoming.isKeyframe

/-! ## Limits -/

def maxVideoDisplays : Nat := 64

/-- `MAX_VIDEO_FRAME_BYTES` of the sender's slot. -/
def maxVideoFrameBytes : Nat := 16 * 1024 * 1024

def maxPendingVideoBytes : Nat := 64 * 1024 * 1024

def maxVideoEpochStreamStates : Nat := 8

def maxVideoStreamStates : Nat := 16

def maxPendingVideoTracks : Nat := maxVideoStreamStates

end HbbCommon.Transport
