import HbbCommon.Base.TSys
import HbbCommon.Transport.Video.Holdback
import HbbCommon.Transport.Video.ReceiveRecovery

/-!
# The video receiver

Two tasks feed one inbound queue: the datagram reader hands reassembly outcomes
to `handle_video_outcome`, and the reliable reader of the video channel hands
keyframes to the keyframe barrier. In barrier mode both do so under the delivery
lock, so one event is one step of the system.

What the model leaves to its environment is an argument of the event: the time,
the reorder window, what decoding the payload gives, and the answers of the
bounded channels (`TrySend`), one for each frame that is offered to the inbound
queue. A closed queue stays closed.
-/

namespace HbbCommon.Transport

open HbbCommon.Base

/-- The answer of a bounded channel to `try_send`. -/
inductive TrySend
  | ok
  | full
  | closed
  deriving DecidableEq, Repr

/-- The inbound queue, as the video frames that were ever pushed to it, newest
first. -/
structure Inbound where
  frames : List (VideoSourceInfo × Bytes)
  closed : Bool
  deriving DecidableEq, Repr

def Inbound.new : Inbound := { frames := [], closed := false }

/-- Offer a frame to the queue. -/
def Inbound.trySend (q : Inbound) (info : VideoSourceInfo) (payload : Bytes) (answer : TrySend) :
    Inbound × TrySend :=
  if q.closed then (q, .closed)
  else
    match answer with
    | .ok => ({ q with frames := (info, payload) :: q.frames }, .ok)
    | .full => (q, .full)
    | .closed => ({ q with closed := true }, .closed)

structure VideoPayloadDelivery where
  alive : Bool
  needsKeyframe : Bool
  strictRecovery : Bool
  deriving DecidableEq, Repr

/-- `deliver_video_payload`. -/
def deliverVideoPayload (recovery : VideoReceiveRecovery) (inbound : Inbound)
    (info : VideoSourceInfo) (payload : Bytes) (strictGapRecovery : Bool) (answer : TrySend) :
    VideoReceiveRecovery × Inbound × VideoPayloadDelivery :=
  let strictGapRecovery := strictGapRecovery || info.codec.isReferenceSensitive
  let (recovery, decision) := recovery.observe info strictGapRecovery
  match decision with
  | .accept | .acceptAfterGap =>
      let acceptedAfterGap := decide (decision = .acceptAfterGap)
      match inbound.trySend info payload answer with
      | (inbound, .ok) =>
          (recovery, inbound,
            { alive := true
              needsKeyframe := acceptedAfterGap ||
                (info.keyframe && recovery.streamAwaitingKeyframe info.key)
              strictRecovery := false })
      | (inbound, .full) =>
          (recovery.markStreamReferenceLoss info.key, inbound,
            { alive := true, needsKeyframe := true, strictRecovery := true })
      | (inbound, .closed) =>
          (recovery, inbound, { alive := false, needsKeyframe := false, strictRecovery := false })
  | .suppress =>
      (recovery, inbound,
        { alive := true, needsKeyframe := true, strictRecovery := strictGapRecovery })
  | .suppressAfterGap =>
      (recovery, inbound, { alive := true, needsKeyframe := true, strictRecovery := true })

/-- What the delivery loop carries from frame to frame. -/
structure Delivering where
  recovery : VideoReceiveRecovery
  inbound : Inbound
  outcome : VideoPayloadDelivery
  deriving DecidableEq

/-- The loop over the frames that are ready; it ends early when the inbound queue
is closed. Each frame takes one answer. -/
def deliverReady (strictGapRecovery : Bool) :
    List (VideoSourceInfo × Bytes) → List TrySend → Delivering → Delivering
  | [], _, d => d
  | (info, payload) :: ready, answers, d =>
      let (recovery, inbound, delivery) := deliverVideoPayload d.recovery d.inbound info payload
        strictGapRecovery (answers.headD .ok)
      if !delivery.alive then
        { recovery := recovery, inbound := inbound, outcome := { d.outcome with alive := false } }
      else
        deliverReady strictGapRecovery ready answers.tail
          { recovery := recovery
            inbound := inbound
            outcome :=
              { alive := true
                needsKeyframe := d.outcome.needsKeyframe || delivery.needsKeyframe
                strictRecovery := d.outcome.strictRecovery || delivery.strictRecovery } }

/-- `request_video_keyframe`: the recovery state, whether the caller goes on, and
the request that was queued on the control channel. -/
def requestVideoKeyframe (recovery : VideoReceiveRecovery) (control : TrySend)
    (scopedReferenceRefresh : Bool) (now : Time) (droppedFrames : Nat) (strictRecovery : Bool) :
    VideoReceiveRecovery × Bool × Option VideoKeyframeRequest :=
  let (recovery, request) := recovery.nextKeyframeRequestWithRecovery now scopedReferenceRefresh
    droppedFrames strictRecovery
  match request, control with
  | none, _ => (recovery, true, none)
  | some request, .ok => (recovery, true, some request)
  | some _, .full => (recovery, true, none)
  | some _, .closed => (recovery, false, none)

/-! ## Events -/

/-- A reassembled frame: what its payload says about its source (`none` when it
does not decode), the timestamp that carries its reference epoch, the payload. -/
structure ReassembledFrame where
  source : Option VideoSourceInfo
  presentationTimestampUs : Nat
  payload : Bytes
  deriving DecidableEq, Repr

/-- `VideoReassemblyOutcome`, with its frame decoded as the receiver does. -/
structure DecodedOutcome where
  frame : Option ReassembledFrame
  droppedFrames : Nat
  requestKeyframe : Bool
  deriving DecidableEq, Repr

/-- The surroundings of an event. -/
structure EventContext where
  now : Time
  reorderWindow : Time
  inboundAnswers : List TrySend
  controlAnswer : TrySend
  scopedReferenceRefresh : Bool
  deriving DecidableEq, Repr

structure Receiver where
  holdback : VideoEpochHoldback
  recovery : VideoReceiveRecovery
  inbound : Inbound
  datagramAlive : Bool
  reliableAlive : Bool
  deriving DecidableEq

namespace Receiver

def new : Receiver :=
  { holdback := .default, recovery := .default, inbound := .new
    datagramAlive := true, reliableAlive := true }

/-- The frames were lost from a stream whose codec needs every reference. -/
def strictReassemblyLoss (recovery : VideoReceiveRecovery) (droppedFrames : Nat) : Bool :=
  decide (droppedFrames > 0) &&
    recovery.latestSource.any (fun source => source.codec.isReferenceSensitive)

/-- The loss marking at the start of `handle_video_outcome`. -/
def markReassemblyLoss (recovery : VideoReceiveRecovery) (droppedFrames : Nat)
    (keyframeBarrier : Bool) : VideoReceiveRecovery :=
  if decide (droppedFrames > 0) &&
      (!keyframeBarrier || strictReassemblyLoss recovery droppedFrames) then
    recovery.markReferenceLoss
  else recovery

/-- The hold-back's part of `handle_video_outcome` in barrier mode. -/
def holdOutcome (holdback : VideoEpochHoldback) (recovery : VideoReceiveRecovery)
    (frame : Option ReassembledFrame) (now reorderWindow : Time) :
    VideoEpochHoldback × VideoReceiveRecovery × VideoHoldbackOutcome :=
  match frame with
  | some { source := some info, presentationTimestampUs, payload } =>
      let recovery := recovery.noteSourceContext info
      let (holdback, out) :=
        holdback.admitDelta info presentationTimestampUs payload now reorderWindow
      (holdback, recovery, out)
  | some { source := none, .. } => (holdback, recovery, .default)
  | none =>
      let (holdback, out) := holdback.expire now reorderWindow
      (holdback, recovery, out)

/-- Deliver what is ready and ask for a keyframe where one is needed: the common
end of both readers. The flag says whether the reader goes on. -/
def deliverAndRequest (recovery : VideoReceiveRecovery) (inbound : Inbound)
    (ready : List (VideoSourceInfo × Bytes)) (needsKeyframe strictRecovery : Bool)
    (strictGapRecovery : Bool) (droppedFrames : Nat) (ctx : EventContext) :
    VideoReceiveRecovery × Inbound × Bool :=
  let d := deliverReady strictGapRecovery ready ctx.inboundAnswers
    { recovery := recovery
      inbound := inbound
      outcome :=
        { alive := true, needsKeyframe := needsKeyframe, strictRecovery := strictRecovery } }
  if !d.outcome.alive then (d.recovery, d.inbound, false)
  else if !d.outcome.needsKeyframe then (d.recovery, d.inbound, true)
  else
    let (recovery, alive, _) := requestVideoKeyframe d.recovery ctx.controlAnswer
      ctx.scopedReferenceRefresh ctx.now droppedFrames d.outcome.strictRecovery
    (recovery, d.inbound, alive)

/-- `handle_video_outcome` with `keyframe_barrier`. -/
def handleVideoOutcome (s : Receiver) (outcome : DecodedOutcome) (ctx : EventContext) :
    Receiver :=
  let strictLoss := strictReassemblyLoss s.recovery outcome.droppedFrames
  let recovery := markReassemblyLoss s.recovery outcome.droppedFrames true
  let (holdback, recovery, out) :=
    holdOutcome s.holdback recovery outcome.frame ctx.now ctx.reorderWindow
  let recovery := if out.strictRecoveryRequired then recovery.markReferenceLoss else recovery
  let (recovery, inbound, alive) := deliverAndRequest recovery s.inbound out.ready
    (outcome.requestKeyframe || decide (outcome.droppedFrames > 0) || out.recoveryRequired)
    (strictLoss || out.strictRecoveryRequired) false outcome.droppedFrames ctx
  { s with
    holdback := holdback, recovery := recovery, inbound := inbound, datagramAlive := alive }

/-- The barrier branch of `run_reliable_reader` for a keyframe. -/
def acceptReliableKeyframe (s : Receiver) (info : VideoSourceInfo) (payload : Bytes)
    (ctx : EventContext) : Receiver :=
  let (holdback, out) := s.holdback.acceptKeyframe info payload ctx.now ctx.reorderWindow
  let recovery :=
    if out.strictRecoveryRequired then s.recovery.markReferenceLoss else s.recovery
  let (recovery, inbound, alive) := deliverAndRequest recovery s.inbound out.ready
    out.recoveryRequired out.strictRecoveryRequired false 0 ctx
  { s with
    holdback := holdback, recovery := recovery, inbound := inbound, reliableAlive := alive }

end Receiver

/-- The events of the two readers; an expiry tick is an outcome without a frame. -/
inductive ReceiverEvent
  | datagram (outcome : DecodedOutcome) (ctx : EventContext)
  | reliable (source : Option VideoSourceInfo) (payload : Bytes) (ctx : EventContext)
  deriving DecidableEq, Repr

namespace Receiver

/-- One event. The reliable reader stops at a payload that is no keyframe. -/
def step (s : Receiver) : ReceiverEvent → Option Receiver
  | .datagram outcome ctx =>
      if !s.datagramAlive then none else some (s.handleVideoOutcome outcome ctx)
  | .reliable source payload ctx =>
      if !s.reliableAlive then none
      else
        match source with
        | some info =>
            if info.keyframe then some (s.acceptReliableKeyframe info payload ctx)
            else some { s with reliableAlive := false }
        | none => some { s with reliableAlive := false }

/-- The receiver in barrier mode. -/
def system : TSys Receiver ReceiverEvent where
  init := .new
  step := step

end Receiver

end HbbCommon.Transport
