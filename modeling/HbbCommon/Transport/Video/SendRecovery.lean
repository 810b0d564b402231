import HbbCommon.Transport.Video.Types
import HbbCommon.Transport.Video.TrackSlot

/-!
# Sender-side reference recovery (`VideoSendRecovery`)

When a frame of a track is lost before it reaches the transport, `enter` records
the loss and asks the encoder for a fresh keyframe. While a track is recorded,
`suppress_delta` swallows its deltas, and a keyframe newer than every lost or
swallowed frame ends the recovery (`keyframe_sent`).

Each function is the body of one critical section. `enter` also returns the
refresh that it puts on the local refresh channel.
-/

namespace HbbCommon.Transport

open HbbCommon.Base

/-- The fields of the protobuf `VideoReferenceRefresh` that are set here. -/
structure VideoReferenceRefresh where
  display : Int
  streamId : Nat
  receivedFrameId : Nat
  droppedFrames : Nat
  strictRecovery : Bool
  deriving DecidableEq, Repr

/-- `video_reference_refresh`: frames without a stream or frame id have no
reference feedback. -/
def videoReferenceRefresh (info : VideoSourceInfo) (droppedFrames : Nat)
    (strictRecovery : Bool) : Option VideoReferenceRefresh :=
  if info.key.display < 0 ∨ info.key.streamId = 0 ∨ info.frameId = 0 then none
  else some
    { display := info.key.display
      streamId := info.key.streamId
      receivedFrameId := info.frameId
      droppedFrames := droppedFrames
      strictRecovery := strictRecovery }

inductive LocalVideoRefresh
  | legacy
  | reference (refresh : VideoReferenceRefresh)
  deriving DecidableEq, Repr

/-- `VideoSendTrackRecoveryState`. -/
structure VideoSendTrackRecoveryState where
  awaitingKeyframe : Bool
  minimumKeyframeId : Nat
  source : Option VideoStreamKey
  deriving DecidableEq, Repr

/-- `VideoSendRecoveryState`: the tracks in recovery. -/
structure VideoSendRecoveryState where
  tracks : OrdMap VideoOutboundTrackKey VideoSendTrackRecoveryState
  deriving DecidableEq

namespace VideoSendRecoveryState

def default : VideoSendRecoveryState := { tracks := ∅ }

/-- The track is recorded as waiting for a keyframe. -/
def awaiting (r : VideoSendRecoveryState) (trackKey : VideoOutboundTrackKey) : Bool :=
  (r.tracks.get? trackKey).any (fun track => track.awaitingKeyframe)

/-- A newer stream of the display of `source` is in recovery. -/
def newerStream (r : VideoSendRecoveryState) (source : VideoStreamKey) : Bool :=
  r.tracks.entries.any (fun e => e.2.source.any (fun old =>
    decide (old.display = source.display) && decide (old.streamId > source.streamId)))

/-- The recovery states that a loss on `trackKey` keeps. -/
def keeps (trackKey : VideoOutboundTrackKey) (source : Option VideoStreamKey)
    (key : VideoOutboundTrackKey) (track : VideoSendTrackRecoveryState) : Bool :=
  decide (key = trackKey) ||
    match track.source, source with
    | some old, some new => decide (old.display ≠ new.display)
    | none, none => false
    | _, _ => true

/-- A loss is not recorded for a display outside the table, nor for a stream
that a newer one in recovery has replaced. -/
def ignores (r : VideoSendRecoveryState) (source : Option VideoStreamKey) : Bool :=
  source.any (fun source =>
    (displayIndex source.display).isNone || r.newerStream source)

/-- The refresh that the first loss of a track sends. -/
def lossRefresh (scopedReferenceRefresh : Bool) (sourceInfo : Option VideoSourceInfo) :
    Option LocalVideoRefresh :=
  if scopedReferenceRefresh then
    (sourceInfo.bind (fun info => videoReferenceRefresh info 1 false)).map .reference
  else some .legacy

/-- `VideoSendRecovery::enter`. -/
def enter (r : VideoSendRecoveryState) (scopedReferenceRefresh : Bool)
    (trackKey : VideoOutboundTrackKey) (sourceInfo : Option VideoSourceInfo)
    (droppedFrameId : Nat) : VideoSendRecoveryState × Option LocalVideoRefresh :=
  let source := sourceInfo.map (fun info => info.key)
  if r.ignores source then (r, none)
  else
    let tracks := r.tracks.filter (keeps trackKey source)
    let track := (tracks.get? trackKey).getD
      { awaitingKeyframe := false, minimumKeyframeId := 0, source := source }
    ({ tracks := tracks.insert trackKey
        { awaitingKeyframe := true
          minimumKeyframeId := max track.minimumKeyframeId droppedFrameId
          source := source } },
      if track.awaitingKeyframe then none else lossRefresh scopedReferenceRefresh sourceInfo)

/-- `VideoSendRecovery::suppress_delta`. -/
def suppressDelta (r : VideoSendRecoveryState) (trackKey : VideoOutboundTrackKey)
    (frameId : Nat) : VideoSendRecoveryState × Bool :=
  match r.tracks.get? trackKey with
  | none => (r, false)
  | some track =>
      if !track.awaitingKeyframe then (r, false)
      else
        ({ tracks := r.tracks.insert trackKey
            { track with minimumKeyframeId := max track.minimumKeyframeId frameId } }, true)

/-- `VideoSendRecovery::keyframe_sent`. -/
def keyframeSent (r : VideoSendRecoveryState) (trackKey : VideoOutboundTrackKey)
    (frameId : Nat) : VideoSendRecoveryState :=
  if (r.tracks.get? trackKey).any (fun track => decide (frameId > track.minimumKeyframeId)) then
    { tracks := r.tracks.erase trackKey }
  else r

end VideoSendRecoveryState

end HbbCommon.Transport
