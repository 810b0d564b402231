import HbbCommon.Transport.Audio.Datagram
import HbbCommon.Transport.Input
import HbbCommon.Transport.Video.Fragment

/-!
# Sending datagrams

Several senders share the datagram buffer of one connection. A call encodes its
datagrams first, with the datagram size the path has at that time, and then takes
the gate of the coordinator, looks at the free space and sends or drops. The two
parts are separate definitions, `encode` and `finish`, because other senders, the
connection and the policy of the coordinator move between them.

A frame of video is sent as a whole, and only when the interactive reserve stays
free behind it; an audio or mouse datagram may use all of the buffer.
-/

namespace HbbCommon.Transport

open HbbCommon.Base

def defaultInteractiveDatagramReserveBytes : Nat := 64 * 1024

def minVideoDatagramQueueBytes : Nat := 192 * 1024

/-- `DEFAULT_VIDEO_DATAGRAM_QUEUE_TARGET`, in microseconds. -/
def defaultVideoDatagramQueueTargetUs : Nat := 120000

/-! ## The connection -/

inductive SendDatagramError
  | unsupportedByPeer
  | tooLarge
  | connectionLost
  deriving DecidableEq, Repr

/-- A datagram that the connection took, and the free space it found. -/
structure SentDatagram where
  datagram : Bytes
  space : Nat
  deriving DecidableEq, Repr

/-- What the senders see of a connection: the datagram size of the path, `none` when
the peer takes no datagrams, and the free space of the send buffer. `sent` is the
history, newest first; an entry that is longer than its space has evicted older
datagrams. -/
structure Connection where
  closed : Bool
  maxDatagramSize : Option Nat
  capacity : Nat
  space : Nat
  sent : List SentDatagram
  space_le : space ≤ capacity
  deriving DecidableEq

namespace Connection

/-- `send_datagram`. -/
def sendDatagram (c : Connection) (datagram : Bytes) : Except SendDatagramError Connection :=
  if c.closed then .error .connectionLost
  else
    match c.maxDatagramSize with
    | none => .error .unsupportedByPeer
    | some limit =>
        if datagram.length > limit then .error .tooLarge
        else .ok
          { c with
            space := c.space - datagram.length
            sent := { datagram := datagram, space := c.space } :: c.sent
            space_le := (Nat.sub_le _ _).trans c.space_le }

/-- The loop over the fragments of a frame: the connection, the datagrams it took,
and the error that ended the loop. -/
def sendAll (c : Connection) : List Bytes →
    Connection × List Bytes × Except SendDatagramError Unit
  | [] => (c, [], .ok ())
  | datagram :: rest =>
      match c.sendDatagram datagram with
      | .error error => (c, [], .error error)
      | .ok c =>
          let (c, sent, result) := c.sendAll rest
          (c, datagram :: sent, result)

/-- The connection transmits some of what it holds. -/
def drain (c : Connection) (bytes : Nat) : Connection :=
  { c with space := min (c.space + bytes) c.capacity, space_le := Nat.min_le_right _ _ }

end Connection

/-! ## The coordinator -/

/-- `sendBufferCapacity` is the largest free space seen so far. -/
structure QuicDatagramSendCoordinator where
  interactiveReserveBytes : Nat
  videoQueueTargetUs : Nat
  minVideoQueueBytes : Nat
  sendBufferCapacity : Nat
  deriving DecidableEq, Repr

namespace QuicDatagramSendCoordinator

def new (interactiveReserveBytes sendBufferCapacity : Nat) : QuicDatagramSendCoordinator :=
  { interactiveReserveBytes := interactiveReserveBytes
    videoQueueTargetUs := defaultVideoDatagramQueueTargetUs
    minVideoQueueBytes := minVideoDatagramQueueBytes
    sendBufferCapacity := sendBufferCapacity }

def setVideoQueuePolicy (c : QuicDatagramSendCoordinator) (targetUs minimumBytes : Nat) :
    QuicDatagramSendCoordinator :=
  { c with videoQueueTargetUs := max 1 (min targetUs u64Max), minVideoQueueBytes := minimumBytes }

/-- `record_space`: the queued bytes and the capacity. -/
def recordSpace (c : QuicDatagramSendCoordinator) (available : Nat) :
    QuicDatagramSendCoordinator × Nat × Nat :=
  let capacity := max c.sendBufferCapacity available
  ({ c with sendBufferCapacity := capacity }, capacity - available, capacity)

end QuicDatagramSendCoordinator

/-! ## Admission of a frame -/

inductive VideoDatagramAdmissionFailure
  | interactiveReserve
  | videoQueueBudget
  | interactiveReserveAndVideoQueueBudget
  deriving DecidableEq, Repr

def videoFrameAdmissionFailure (datagramBytes availableBytes interactiveReserveBytes queuedBytes
    videoQueueBudget : Nat) : Option VideoDatagramAdmissionFailure :=
  -- the sum is a `checked_add`
  let preservesInteractiveReserve :=
    decide (datagramBytes + interactiveReserveBytes ≤ u64Max) &&
      decide (datagramBytes + interactiveReserveBytes ≤ availableBytes)
  let staysWithinVideoQueue := decide (queuedBytes ≤ videoQueueBudget)
  match preservesInteractiveReserve, staysWithinVideoQueue with
  | true, true => none
  | false, true => some .interactiveReserve
  | true, false => some .videoQueueBudget
  | false, false => some .interactiveReserveAndVideoQueueBudget

def videoDatagramQueueDelayUs (queuedBytes congestionWindowBytes rttUs : Nat) : Nat :=
  if queuedBytes = 0 ∨ congestionWindowBytes = 0 then 0
  else min (min (queuedBytes * rttUs) (2 ^ 128 - 1) / congestionWindowBytes) u64Max

def videoDatagramQueueBudget (congestionWindowBytes rttUs sendBufferCapacity
    interactiveReserveBytes targetLatencyUs minimumVideoQueueBytes : Nat) : Nat :=
  let latencyBudget :=
    min (congestionWindowBytes * max targetLatencyUs 1) (2 ^ 128 - 1) / max rttUs 5000
  let preferredBudget := max (min latencyBudget u64Max) minimumVideoQueueBytes
  min preferredBudget (sendBufferCapacity - interactiveReserveBytes)

/-- The statistics of the path that admission reads. -/
structure PathStats where
  cwnd : Nat
  rttUs : Nat
  deriving DecidableEq, Repr

inductive VideoDatagramSendOutcome
  | sent (fragmentCount : Nat)
  | rejectedNoSpace (failure : VideoDatagramAdmissionFailure)
      (datagramBytes availableBytes queuedBytes videoQueueBudget interactiveReserveBytes
        queueDelayUs : Nat)
  deriving DecidableEq, Repr

/-! ## Senders -/

structure QuicDatagramSender where
  sessionId : SessionId
  nextVideoSequence : Nat
  nextAudioSequence : Nat
  nextMouseSequence : Nat
  negotiatedMaxDatagramSize : Nat
  deriving DecidableEq

inductive DatagramSendError
  | unsupportedByPeer
  | video (error : VideoDatagramError)
  | audio (error : AudioPacketError)
  | input (error : InputProtocolError)
  | sequenceExhausted
  | send (error : SendDatagramError)
  deriving DecidableEq, Repr

/-- The calls of a sender, with their arguments. -/
inductive SendCall
  | videoFrame (metadata : VideoFrameMetadata) (encodedFrame : Bytes)
  | audioPacket (captureTimestampUs : Nat) (codec : AudioCodec) (channels sampleRateHz : Nat)
      (encodedAudio : Bytes)
  | mouseMovement (mode : MouseMovementMode) (x y : Int32) (displayId : UInt32)
      (buttonStateMask : UInt16)
  | applicationMouseMovement (mode : MouseMovementMode) (x y : Int32) (displayId : UInt32)
      (buttonStateMask : UInt16) (applicationPayload : Bytes)
  deriving DecidableEq, Repr

/-- A call that waits for the gate. -/
inductive EncodedCall
  | video (fragments : List Bytes)
  | audio (datagram : Bytes)
  | mouse (datagram : Bytes)
  deriving DecidableEq, Repr

inductive SendReply
  | video (outcome : VideoDatagramSendOutcome)
  /-- the sequence number, or `none` for a datagram that was dropped -/
  | small (sequence : Option Nat)
  deriving DecidableEq, Repr

/-- What a call leaves behind: the datagrams that the connection took are `sent`. -/
structure Finished where
  sender : QuicDatagramSender
  coordinator : QuicDatagramSendCoordinator
  connection : Connection
  sent : List Bytes
  result : Except DatagramSendError SendReply
  deriving DecidableEq

namespace QuicDatagramSender

/-- A new sender, with `with_max_datagram_size`. -/
def new (sessionId : SessionId) (negotiatedMaxDatagramSize : Nat) : QuicDatagramSender :=
  { sessionId := sessionId, nextVideoSequence := 1, nextAudioSequence := 1, nextMouseSequence := 1
    negotiatedMaxDatagramSize := negotiatedMaxDatagramSize }

def maxDatagramSize (s : QuicDatagramSender) (connection : Connection) :
    Except DatagramSendError Nat :=
  match connection.maxDatagramSize with
  | none => .error .unsupportedByPeer
  | some current => .ok (min current s.negotiatedMaxDatagramSize)

/-- The arguments of `fragment_video_frame` in `send_video_frame`. -/
def transmission (s : QuicDatagramSender) (maxDatagramSize timestampUs : Nat)
    (metadata : VideoFrameMetadata) (encodedFrame : Bytes) : VideoTransmission :=
  { sessionId := s.sessionId, firstSequenceNumber := s.nextVideoSequence
    monotonicTimestampUs := timestampUs, metadata := metadata, frame := encodedFrame
    maxDatagramSize := maxDatagramSize }

/-- The movement of the next mouse datagram. -/
def movement (s : QuicDatagramSender) (timestampUs : Nat) (mode : MouseMovementMode) (x y : Int32)
    (displayId : UInt32) (buttonStateMask : UInt16) : MouseMovement :=
  { sequenceNumber := UInt64.ofNat s.nextMouseSequence
    monotonicTimestampUs := UInt64.ofNat timestampUs
    mode := mode, x := x, y := y, displayId := displayId, buttonStateMask := buttonStateMask }

/-- `checked_add(1)` of the sequence number of a small datagram. -/
def checkSequence (sequence : Nat) : Except DatagramSendError Unit :=
  if sequence + 1 ≤ u64Max then .ok () else .error .sequenceExhausted

/-- A call up to the gate. -/
def encode (s : QuicDatagramSender) (connection : Connection) (timestampUs : Nat) :
    SendCall → Except DatagramSendError EncodedCall
  | .videoFrame metadata encodedFrame => do
      let maxDatagramSize ← s.maxDatagramSize connection
      let fragments ← (s.transmission maxDatagramSize timestampUs metadata
        encodedFrame).fragmentVideoFrame.mapError .video
      return .video fragments
  | .audioPacket captureTimestampUs codec channels sampleRateHz encodedAudio => do
      let maxDatagramSize ← s.maxDatagramSize connection
      let datagram ← (encodeAudioDatagram s.sessionId timestampUs
        { sequenceNumber := s.nextAudioSequence, captureTimestampUs := captureTimestampUs
          codec := codec, channels := channels, sampleRateHz := sampleRateHz }
        encodedAudio maxDatagramSize).mapError .audio
      checkSequence s.nextAudioSequence
      return .audio datagram
  | .mouseMovement mode x y displayId buttonStateMask => do
      let maxDatagramSize ← s.maxDatagramSize connection
      let datagram ← (encodeMouseMovement s.sessionId
        (s.movement timestampUs mode x y displayId buttonStateMask)
        maxDatagramSize).mapError .input
      checkSequence s.nextMouseSequence
      return .mouse datagram
  | .applicationMouseMovement mode x y displayId buttonStateMask applicationPayload => do
      let maxDatagramSize ← s.maxDatagramSize connection
      let datagram ← (encodeApplicationMouseMovement s.sessionId
        (s.movement timestampUs mode x y displayId buttonStateMask) applicationPayload
        maxDatagramSize).mapError .input
      checkSequence s.nextMouseSequence
      return .mouse datagram

/-- The end of the calls that send one small datagram: `s` has the next sequence
number already. -/
def finishSmall (s : QuicDatagramSender) (coordinator : QuicDatagramSendCoordinator)
    (connection : Connection) (sequence : Nat) (datagram : Bytes) : Finished :=
  let coordinator := (coordinator.recordSpace connection.space).1
  if datagram.length > connection.space then
    { sender := s, coordinator := coordinator, connection := connection, sent := []
      result := .ok (.small none) }
  else
    match connection.sendDatagram datagram with
    | .error error =>
        { sender := s, coordinator := coordinator, connection := connection, sent := []
          result := .error (.send error) }
    | .ok connection =>
        { sender := s, coordinator := coordinator, connection := connection, sent := [datagram]
          result := .ok (.small (some sequence)) }

/-- The bytes of a frame on the wire, as the saturating sum of the source. -/
def datagramBytes (fragments : List Bytes) : Nat :=
  fragments.foldl (fun total fragment => satAdd total fragment.length) 0

/-- `send_video_frame` behind the gate. -/
def finishVideo (s : QuicDatagramSender) (coordinator : QuicDatagramSendCoordinator)
    (connection : Connection) (path : PathStats) (fragments : List Bytes) : Finished :=
  let bytes := datagramBytes fragments
  let (coordinator, queuedBytes, capacity) := coordinator.recordSpace connection.space
  let budget := videoDatagramQueueBudget path.cwnd path.rttUs capacity
    coordinator.interactiveReserveBytes coordinator.videoQueueTargetUs
    coordinator.minVideoQueueBytes
  match videoFrameAdmissionFailure bytes connection.space coordinator.interactiveReserveBytes
      queuedBytes budget with
  | some failure =>
      { sender := s, coordinator := coordinator, connection := connection, sent := []
        result := .ok (.video (.rejectedNoSpace failure bytes connection.space queuedBytes budget
          coordinator.interactiveReserveBytes
          (videoDatagramQueueDelayUs queuedBytes path.cwnd path.rttUs))) }
  | none =>
      if s.nextVideoSequence + fragments.length > u64Max then
        { sender := s, coordinator := coordinator, connection := connection, sent := []
          result := .error .sequenceExhausted }
      else
        match connection.sendAll fragments with
        | (connection, sent, .error error) =>
            { sender := s, coordinator := coordinator, connection := connection, sent := sent
              result := .error (.send error) }
        | (connection, sent, .ok ()) =>
            { sender :=
                { s with nextVideoSequence := s.nextVideoSequence + fragments.length }
              coordinator := coordinator, connection := connection, sent := sent
              result := .ok (.video (.sent fragments.length)) }

/-- A call behind the gate. -/
def finish (s : QuicDatagramSender) (coordinator : QuicDatagramSendCoordinator)
    (connection : Connection) (path : PathStats) : EncodedCall → Finished
  | .video fragments => s.finishVideo coordinator connection path fragments
  | .audio datagram =>
      finishSmall { s with nextAudioSequence := s.nextAudioSequence + 1 } coordinator connection
        s.nextAudioSequence datagram
  | .mouse datagram =>
      finishSmall { s with nextMouseSequence := s.nextMouseSequence + 1 } coordinator connection
        s.nextMouseSequence datagram

/-- A whole call, with nothing between its two parts. -/
def send (s : QuicDatagramSender) (coordinator : QuicDatagramSendCoordinator)
    (connection : Connection) (path : PathStats) (timestampUs : Nat) (call : SendCall) : Finished :=
  match s.encode connection timestampUs call with
  | .error error =>
      { sender := s, coordinator := coordinator, connection := connection, sent := []
        result := .error error }
  | .ok encoded => s.finish coordinator connection path encoded

end QuicDatagramSender

end HbbCommon.Transport
