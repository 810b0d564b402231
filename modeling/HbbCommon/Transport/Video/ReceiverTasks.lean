import HbbCommon.Transport.Video.Receiver

/-!
# The video receiver without the keyframe barrier

Without the barrier the reliable reader takes no delivery lock: it pushes a
keyframe to the inbound queue and then records it with `observe`, while the
datagram reader may be anywhere inside `handle_video_outcome`. Each step here is
one access to the shared state: one critical section of the recovery mutex, or
one push to the queue. The program counters of the two tasks hold what a task
carries from one access to the next.
-/

namespace HbbCommon.Transport

open HbbCommon.Base

/-- What `handle_video_outcome` carries to its keyframe request. -/
structure OutcomeCarry where
  needsKeyframe : Bool
  strictRecovery : Bool
  droppedFrames : Nat
  deriving DecidableEq, Repr

/-- The carry after a delivery. -/
def OutcomeCarry.add (carry : OutcomeCarry) (needsKeyframe strictRecovery : Bool) : OutcomeCarry :=
  { carry with
    needsKeyframe := carry.needsKeyframe || needsKeyframe
    strictRecovery := carry.strictRecovery || strictRecovery }

/-- The datagram reader, by its next access to the shared state. -/
inductive DatagramPc
  | idle
  /-- Before the read of the latest source. -/
  | begun (outcome : DecodedOutcome)
  /-- Before `mark_reference_loss`, which a loss without the barrier always makes. -/
  | assessed (outcome : DecodedOutcome) (strictLoss : Bool)
  /-- Before `observe` of the frame, where there is one. -/
  | marked (outcome : DecodedOutcome) (strictLoss : Bool)
  /-- `observe` has accepted the frame: before `try_send`. -/
  | accepted (info : VideoSourceInfo) (payload : Bytes) (afterGap : Bool) (carry : OutcomeCarry)
  /-- The queue was full: before `mark_stream_reference_loss`. -/
  | refused (info : VideoSourceInfo) (carry : OutcomeCarry)
  /-- The frame is pushed: before the read of `stream_awaiting_keyframe`. -/
  | pushed (info : VideoSourceInfo) (afterGap : Bool) (carry : OutcomeCarry)
  /-- Before the keyframe request. -/
  | finishing (carry : OutcomeCarry)
  | stopped
  deriving DecidableEq, Repr

/-- The reliable reader of the video channel. -/
inductive ReliablePc
  | idle
  /-- Waiting for room in the inbound queue. -/
  | sending (info : VideoSourceInfo) (payload : Bytes)
  /-- The keyframe is pushed: before `observe`. -/
  | pushed (info : VideoSourceInfo)
  | stopped
  deriving DecidableEq, Repr

structure ReceiverTasks where
  recovery : VideoReceiveRecovery
  inbound : Inbound
  datagram : DatagramPc
  reliable : ReliablePc
  deriving DecidableEq

/-- The steps of the two tasks. -/
inductive TaskAction
  | receiveOutcome (outcome : DecodedOutcome)
  | assess
  | markLoss
  | observe
  | offer (answer : TrySend)
  | recordRefused
  | checkAwaiting
  | request (now : Time) (control : TrySend) (scopedReferenceRefresh : Bool)
  | receiveKeyframe (source : Option VideoSourceInfo) (payload : Bytes)
  | send (answer : TrySend)
  | observeKeyframe
  deriving DecidableEq, Repr

namespace ReceiverTasks

def new : ReceiverTasks :=
  { recovery := .default, inbound := .new, datagram := .idle, reliable := .idle }

/-- What a loss already asks for when the frame of the outcome is handled. -/
def carryOf (outcome : DecodedOutcome) (strictLoss : Bool) : OutcomeCarry :=
  { needsKeyframe := outcome.requestKeyframe || decide (outcome.droppedFrames > 0)
    strictRecovery := strictLoss
    droppedFrames := outcome.droppedFrames }

/-- The frame that an outcome brings to `deliver_video_payload`. -/
def frameOf (outcome : DecodedOutcome) : Option (VideoSourceInfo × Bytes) :=
  outcome.frame.bind (fun frame => frame.source.map (fun info => (info, frame.payload)))

/-- The `observe` of `deliver_video_payload`; without the barrier its gaps are
strict. -/
def observeFrame (s : ReceiverTasks) (info : VideoSourceInfo) (payload : Bytes)
    (carry : OutcomeCarry) : ReceiverTasks :=
  let (recovery, decision) := s.recovery.observe info true
  match decision with
  | .accept => { s with
      recovery := recovery, datagram := .accepted info payload false carry }
  | .acceptAfterGap => { s with
      recovery := recovery, datagram := .accepted info payload true carry }
  | .suppress | .suppressAfterGap => { s with
      recovery := recovery, datagram := .finishing (carry.add true true) }

/-- The `try_send` of `deliver_video_payload`. -/
def offerFrame (s : ReceiverTasks) (info : VideoSourceInfo) (payload : Bytes) (afterGap : Bool)
    (carry : OutcomeCarry) (answer : TrySend) : ReceiverTasks :=
  match s.inbound.trySend info payload answer with
  | (inbound, .ok) => { s with inbound := inbound, datagram := .pushed info afterGap carry }
  | (inbound, .full) => { s with inbound := inbound, datagram := .refused info carry }
  | (inbound, .closed) => { s with inbound := inbound, datagram := .stopped }

/-- The `send` of the reliable reader waits while the queue is full. -/
def sendKeyframe (s : ReceiverTasks) (info : VideoSourceInfo) (payload : Bytes)
    (answer : TrySend) : Option ReceiverTasks :=
  match s.inbound.trySend info payload answer with
  | (inbound, .ok) => some { s with inbound := inbound, reliable := .pushed info }
  | (_, .full) => none
  | (inbound, .closed) => some { s with inbound := inbound, reliable := .stopped }

def step (s : ReceiverTasks) (a : TaskAction) : Option ReceiverTasks :=
  match a, s.datagram, s.reliable with
  | .receiveOutcome outcome, .idle, _ => some { s with datagram := .begun outcome }
  | .assess, .begun outcome, _ =>
      some { s with
        datagram := .assessed outcome
          (Receiver.strictReassemblyLoss s.recovery outcome.droppedFrames) }
  | .markLoss, .assessed outcome strictLoss, _ =>
      some { s with
        recovery :=
          if outcome.droppedFrames > 0 then s.recovery.markReferenceLoss else s.recovery
        datagram := .marked outcome strictLoss }
  | .observe, .marked outcome strictLoss, _ =>
      match frameOf outcome with
      | none => some { s with datagram := .finishing (carryOf outcome strictLoss) }
      | some (info, payload) => some (s.observeFrame info payload (carryOf outcome strictLoss))
  | .offer answer, .accepted info payload afterGap carry, _ =>
      some (s.offerFrame info payload afterGap carry answer)
  | .recordRefused, .refused info carry, _ =>
      some { s with
        recovery := s.recovery.markStreamReferenceLoss info.key
        datagram := .finishing (carry.add true true) }
  | .checkAwaiting, .pushed info afterGap carry, _ =>
      some { s with
        datagram := .finishing (carry.add
          (afterGap || (info.keyframe && s.recovery.streamAwaitingKeyframe info.key)) false) }
  | .request now control scopedRefresh, .finishing carry, _ =>
      if carry.needsKeyframe then
        let (recovery, alive, _) := requestVideoKeyframe s.recovery control scopedRefresh now
          carry.droppedFrames carry.strictRecovery
        some { s with recovery := recovery, datagram := if alive then .idle else .stopped }
      else some { s with datagram := .idle }
  | .receiveKeyframe source payload, _, .idle =>
      match source with
      | some info =>
          if info.keyframe then some { s with reliable := .sending info payload }
          else some { s with reliable := .stopped }
      | none => some { s with reliable := .stopped }
  | .send answer, _, .sending info payload => s.sendKeyframe info payload answer
  | .observeKeyframe, _, .pushed info =>
      some { s with recovery := (s.recovery.observe info false).1, reliable := .idle }
  | _, _, _ => none

/-- The receiver without the barrier, one shared access a step. -/
def system : TSys ReceiverTasks TaskAction where
  init := .new
  step := step

end ReceiverTasks

end HbbCommon.Transport
