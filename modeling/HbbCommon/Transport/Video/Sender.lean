import HbbCommon.Base.TSys
import HbbCommon.Transport.Video.SendRecovery

/-!
# The video sender

One producer (`enqueue_with_latest_key`) and one writer task
(`run_video_writer`) share the latest-frame slot, the recovery state and the
ordering gate. Each action below is one critical section of one of them, so a
run is an interleaving of the two tasks with the peer's acknowledgements.

The log holds, newest first, what an observer of the sender sees: frames
enqueued, frames handed to the transport, refreshes asked for, ordering messages
queued, received and acknowledged, and frames that passed the ordering gate.

Metrics, logging and the error texts of closed connections are left out.
-/

namespace HbbCommon.Transport

open HbbCommon.Base

/-! ## The ordering gate -/

/-- `VideoOrderingGate`. -/
structure VideoOrderingGate where
  requestedEpoch : Nat
  acknowledgedEpoch : Nat
  deriving DecidableEq, Repr

namespace VideoOrderingGate

def new : VideoOrderingGate := { requestedEpoch := 0, acknowledgedEpoch := 0 }

/-- `next_epoch`; `none` when the epochs are exhausted. -/
def nextEpoch (g : VideoOrderingGate) : Option (VideoOrderingGate × Nat) :=
  if g.requestedEpoch < u64Max then
    some ({ g with requestedEpoch := g.requestedEpoch + 1 }, g.requestedEpoch + 1)
  else none

def currentEpoch (g : VideoOrderingGate) : Nat := g.requestedEpoch

def acknowledge (g : VideoOrderingGate) (epoch : Nat) : VideoOrderingGate :=
  { g with acknowledgedEpoch := max g.acknowledgedEpoch epoch }

def cancelEpoch (g : VideoOrderingGate) (epoch : Nat) : VideoOrderingGate := g.acknowledge epoch

def isOpen (g : VideoOrderingGate) (epoch : Nat) : Bool := decide (g.acknowledgedEpoch ≥ epoch)

end VideoOrderingGate

/-! ## State -/

/-- `apply_video_reference_epoch`: with the keyframe barrier, a delta carries the
source id of its stream's last keyframe in its timestamp. -/
def applyVideoReferenceEpoch (item : VideoOutbound)
    (referenceEpochs : OrdMap VideoStreamKey Nat) (keyframeBarrier : Bool) :
    VideoOutbound × OrdMap VideoStreamKey Nat × Option Nat :=
  if !keyframeBarrier then (item, referenceEpochs, none)
  else
    match item.sourceInfo with
    | none => (item, referenceEpochs, none)
    | some info =>
        if item.isKeyframe then
          (item,
            (referenceEpochs.filter (fun key _ =>
              decide (key.display ≠ info.key.display) || decide (key = info.key))).insert
              info.key info.frameId,
            some info.frameId)
        else
          let epoch := (referenceEpochs.get? info.key).getD 0
          ({ item with metadata := { item.metadata with presentationTimestampUs := epoch } },
            referenceEpochs, some epoch)

/-- What the log keeps of a frame. -/
structure FrameTag where
  trackKey : VideoOutboundTrackKey
  frameId : Nat
  keyframe : Bool
  source : Option VideoStreamKey
  deriving DecidableEq, Repr

def VideoOutbound.tag (item : VideoOutbound) : FrameTag :=
  { trackKey := item.trackKey
    frameId := item.metadata.frameId
    keyframe := item.isKeyframe
    source := item.sourceInfo.map (fun info => info.key) }

inductive SenderEvent
  | ordered (epoch : Nat)
  | received (epoch : Nat)
  | acknowledged (epoch : Nat)
  | enqueued (frame : FrameTag)
  | passed (item : VideoOutbound)
  | handed (frame : FrameTag)
  | refresh (refresh : LocalVideoRefresh)
  deriving DecidableEq, Repr

/-- The producer: outside a call, about to offer a frame to the slot, or about to
record that the slot refused it. -/
inductive Producer
  | idle
  | offering (item : VideoOutbound)
  | refused (item : VideoOutbound)
  deriving DecidableEq, Repr

/-- The writer task, by the frame it holds and what it does next. -/
inductive Writer
  | idle
  | gated (item : VideoOutbound)
  | waiting (item : VideoOutbound)
  | merging (item newer : VideoOutbound)
  | passed (item : VideoOutbound)
  | sending (item : VideoOutbound)
  | rejected (item : VideoOutbound)
  | sent (item : VideoOutbound)
  | stopped
  deriving DecidableEq, Repr

structure SenderConfig where
  maxTracks : Nat
  reliableKeyframes : Bool
  keyframeBarrier : Bool
  scopedReferenceRefresh : Bool
  deriving DecidableEq, Repr

structure Sender where
  slot : TrackLatestState
  recovery : VideoSendRecoveryState
  gate : VideoOrderingGate
  nextTransportFrameId : Nat
  producer : Producer
  writer : Writer
  referenceEpochs : OrdMap VideoStreamKey Nat
  log : List SenderEvent
  deriving DecidableEq

/-! ## Actions -/

/-- How the transport answers a hand-over. -/
inductive SendOutcome
  | sent
  | rejectedNoSpace
  | rejectedClosing
  | failed
  deriving DecidableEq, Repr

inductive SenderAction
  /-- enqueue an ordering message that the control queue accepts or refuses -/
  | order (accepted : Bool)
  /-- start to enqueue a video message -/
  | enqueue (latestKey : Option Nat) (frame : VideoFrame) (payload : Bytes)
  | offer
  | recordRefused
  | take (closing : Bool)
  | gate
  | wake
  | takeTrack
  | merge
  | check
  | send (outcome : SendOutcome)
  | recordRejected
  | keyframeSent
  | close
  | peerReceive (epoch : Nat)
  | peerAcknowledge (epoch : Nat)
  deriving DecidableEq, Repr

namespace Sender

def new : Sender :=
  { slot := .new, recovery := .default, gate := .new, nextTransportFrameId := 1
    producer := .idle, writer := .idle, referenceEpochs := ∅, log := [] }

/-- Record a loss and log the refresh it asks for. -/
def enter (c : SenderConfig) (s : Sender) (item : VideoOutbound) : Sender :=
  let (recovery, refresh) := s.recovery.enter c.scopedReferenceRefresh item.trackKey
    item.sourceInfo item.metadata.frameId
  { s with recovery := recovery, log := refresh.toList.map .refresh ++ s.log }

/-- The ordering branch of `enqueue_with_latest_key`. -/
def order (s : Sender) (accepted : Bool) : Option Sender :=
  match s.producer with
  | .idle => do
      let (gate, epoch) ← s.gate.nextEpoch
      if accepted then return { s with gate := gate, log := .ordered epoch :: s.log }
      else return { s with gate := gate.cancelEpoch epoch }
  | _ => none

/-- The video branch of `enqueue_with_latest_key`, up to the slot. -/
def enqueue (s : Sender) (latestKey : Option Nat) (frame : VideoFrame) (payload : Bytes) :
    Option Sender :=
  match s.producer with
  | .idle => do
      let metadata ← videoMetadata frame
      if s.nextTransportFrameId < u64Max then
        let sourceInfo := videoSourceInfo frame
        let item : VideoOutbound :=
          { trackKey := .resolve latestKey sourceInfo
            metadata := { metadata with frameId := s.nextTransportFrameId }
            sourceInfo := sourceInfo
            payload := payload
            orderingEpoch := s.gate.currentEpoch }
        let s := { s with nextTransportFrameId := s.nextTransportFrameId + 1 }
        let (recovery, suppressed) := s.recovery.suppressDelta item.trackKey item.metadata.frameId
        if !item.isKeyframe && suppressed then
          return { s with recovery := recovery, log := .enqueued item.tag :: s.log }
        else return { s with producer := .offering item }
      else none
  | _ => none

/-- Offer the frame to the slot; `on_replace` runs inside. -/
def offer (c : SenderConfig) (s : Sender) : Option Sender :=
  match s.producer with
  | .offering item => do
      let (slot, outcome) ← s.slot.replaceWhenWith (slotMaxTracks c.maxTracks) item.trackKey item
        shouldReplacePendingVideo
      let s := { s with slot := slot, log := .enqueued item.tag :: s.log }
      match outcome with
      | .refused => return { s with producer := .refused item }
      | .inserted => return { s with producer := .idle }
      | .replaced _ =>
          if item.isKeyframe then return { s with producer := .idle }
          else return { s.enter c item with producer := .idle }
  | _ => none

def recordRefused (c : SenderConfig) (s : Sender) : Option Sender :=
  match s.producer with
  | .refused item => some { s.enter c item with producer := .idle }
  | _ => none

/-- The writer takes the next frame, and drops it when the session is closing. -/
def take (s : Sender) (closing : Bool) : Option Sender :=
  match s.writer with
  | .idle => do
      let (slot, got) ← s.slot.take
      let item ← got
      if closing then
        return { s with
          slot := slot, writer := .stopped, gate := s.gate.cancelEpoch item.orderingEpoch }
      else return { s with slot := slot, writer := .gated item }
  | _ => none

/-- The head of the ordering wait. -/
def checkGate (s : Sender) : Option Sender :=
  match s.writer with
  | .gated item =>
      if s.gate.isOpen item.orderingEpoch then
        some { s with writer := .passed item, log := .passed item :: s.log }
      else some { s with writer := .waiting item }
  | _ => none

/-- The wait for the gate returns. -/
def wake (s : Sender) : Option Sender :=
  match s.writer with
  | .waiting item => some { s with writer := .gated item }
  | _ => none

/-- A newer frame of the same track arrives during the ordering wait. -/
def takeTrack (s : Sender) : Option Sender :=
  match s.writer with
  | .waiting item => do
      let (slot, got) ← s.slot.takeTrack item.trackKey
      let newer ← got
      return { s with slot := slot, writer := .merging item newer }
  | _ => none

def merge (c : SenderConfig) (s : Sender) : Option Sender :=
  match s.writer with
  | .merging item newer =>
      if shouldReplacePendingVideo item newer then
        if newer.isKeyframe then some { s with writer := .gated newer }
        else some { s.enter c newer with writer := .gated newer }
      else some { s.enter c newer with writer := .gated item }
  | _ => none

/-- The suppression check after the gate, and the reference epoch. -/
def check (c : SenderConfig) (s : Sender) : Option Sender :=
  match s.writer with
  | .passed item =>
      let (recovery, suppressed) := s.recovery.suppressDelta item.trackKey item.metadata.frameId
      if !item.isKeyframe && suppressed then
        some { s with recovery := recovery, writer := .idle }
      else
        let (item, referenceEpochs, _) :=
          applyVideoReferenceEpoch item s.referenceEpochs c.keyframeBarrier
        some { s with referenceEpochs := referenceEpochs, writer := .sending item }
  | _ => none

/-- Hand the frame to the reliable channel or to the datagram sender. -/
def send (c : SenderConfig) (s : Sender) (outcome : SendOutcome) : Option Sender :=
  match s.writer with
  | .sending item =>
      let reliable := item.isKeyframe && c.reliableKeyframes
      match outcome with
      | .sent =>
          some { s with
            writer := if item.isKeyframe then .sent item else .idle
            log := .handed item.tag :: s.log }
      | .rejectedNoSpace => if reliable then none else some { s with writer := .rejected item }
      | .rejectedClosing =>
          if reliable then none
          else some { s with
            writer := .stopped, gate := s.gate.cancelEpoch item.orderingEpoch }
      | .failed => some { s with writer := .stopped }
  | _ => none

def recordRejected (c : SenderConfig) (s : Sender) : Option Sender :=
  match s.writer with
  | .rejected item => some { s.enter c item with writer := .idle }
  | _ => none

def keyframeSent (s : Sender) : Option Sender :=
  match s.writer with
  | .sent item => some { s with
      recovery := s.recovery.keyframeSent item.trackKey item.metadata.frameId
      writer := .idle }
  | _ => none

/-- The connection closes while the writer waits. -/
def close (s : Sender) : Option Sender :=
  match s.writer with
  | .idle => some { s with writer := .stopped }
  | .waiting item => some { s with
      writer := .stopped, gate := s.gate.cancelEpoch item.orderingEpoch }
  | _ => none

/-- The peer receives an ordering message that was queued. -/
def peerReceive (s : Sender) (epoch : Nat) : Option Sender :=
  if .ordered epoch ∈ s.log then some { s with log := .received epoch :: s.log } else none

/-- The acknowledgement of an ordering message that the peer received arrives;
one that names no requested epoch ends the session instead. -/
def peerAcknowledge (s : Sender) (epoch : Nat) : Option Sender :=
  if .received epoch ∈ s.log ∧ epoch ≠ 0 ∧ epoch ≤ s.gate.currentEpoch then
    some { s with gate := s.gate.acknowledge epoch, log := .acknowledged epoch :: s.log }
  else none

def step (c : SenderConfig) (s : Sender) : SenderAction → Option Sender
  | .order accepted => s.order accepted
  | .enqueue latestKey frame payload => s.enqueue latestKey frame payload
  | .offer => s.offer c
  | .recordRefused => s.recordRefused c
  | .take closing => s.take closing
  | .gate => s.checkGate
  | .wake => s.wake
  | .takeTrack => s.takeTrack
  | .merge => s.merge c
  | .check => s.check c
  | .send outcome => s.send c outcome
  | .recordRejected => s.recordRejected c
  | .keyframeSent => s.keyframeSent
  | .close => s.close
  | .peerReceive epoch => s.peerReceive epoch
  | .peerAcknowledge epoch => s.peerAcknowledge epoch

/-- The sender with its two tasks and its peer. -/
def system (c : SenderConfig) : TSys Sender SenderAction where
  init := .new
  step s a := s.step c a

end Sender

end HbbCommon.Transport
