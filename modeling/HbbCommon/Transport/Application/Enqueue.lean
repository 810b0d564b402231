import HbbCommon.Transport.Input
import HbbCommon.Transport.Reliable
import HbbCommon.Transport.Video.Sender

/-!
# Routing of application messages (`QuicApplicationStream::enqueue`)

`enqueue` decodes a protobuf message far enough to see what it is and puts it on
the reliable channel of its class, or hands it to the video slot, the audio queue
or the mouse slot. Protobuf decoding is generated code: `parse` stands for
`Message::parse_from_bytes`, and a decoded message keeps the variant of its union
with the fields that routing reads.

One writer task serves each reliable channel (`run_reliable_writer`); an error of
the channel closes the connection.
-/

namespace HbbCommon.Transport

open HbbCommon.Base

/-! ## Messages -/

/-- The union of a decoded `Misc`. -/
inductive MiscUnion
  | audioFormat (sampleRate channels : UInt32)
  | videoFeedback
  | switchDisplay
  | other
  deriving DecidableEq, Repr

/-- The union of a decoded `Message`; `other` is any variant that routing does not
name. -/
inductive MessageUnion
  | videoFrame (frame : VideoFrame)
  | audioFrame
  | mouseEvent (mask x y : Int32)
  | keyEvent
  | keyboardInput
  | pointerDeviceEvent
  | clipboard
  | multiClipboards
  | cliprdr
  | fileAction
  | fileResponse
  | testDelay
  | misc (union : Option MiscUnion)
  | other
  deriving DecidableEq, Repr

/-- A decoded `Message`. -/
abbrev Message := Option MessageUnion

inductive ApplicationClass
  | control
  | input
  | clipboard
  | file
  | diagnostics
  | video (metadata : VideoFrameMetadata) (frame : VideoFrame)
  | audio
  | mouse (mode : MouseMovementMode) (x y : Int32) (buttonStateMask : UInt16)
  deriving DecidableEq, Repr

/-- `classify_message`; `none` for a video frame without a codec payload. -/
def classifyMessage : Message → Option ApplicationClass
  | some (.videoFrame frame) => (videoMetadata frame).map (fun metadata => .video metadata frame)
  | some .audioFrame => some .audio
  | some (.mouseEvent mask x y) =>
      let buttonStateMask := UInt16.ofNat (mask.toInt / 8 % 32).toNat
      if mask.toInt % 8 = 0 then some (.mouse .absolute x y buttonStateMask)
      else if mask.toInt % 8 = 5 then some (.mouse .relative x y buttonStateMask)
      else some .input
  | some .keyEvent | some .keyboardInput | some .pointerDeviceEvent => some .input
  | some .clipboard | some .multiClipboards | some .cliprdr => some .clipboard
  | some .fileAction | some .fileResponse => some .file
  | some .testDelay => some .diagnostics
  | some (.misc (some .videoFeedback)) => some .diagnostics
  | _ => some .control

/-- `is_video_ordering_message`. -/
def isVideoOrderingMessage : Message → Bool
  | some (.misc (some .switchDisplay)) => true
  | _ => false

/-- `audio_format` with `pack_audio_format`: what a message makes of the stored
format. -/
def audioFormatOf : Message → Option Nat
  | some (.misc (some (.audioFormat sampleRate channels))) =>
      if channels = 0 ∨ channels > 8 ∨ sampleRate < 8000 then some 0
      else some (channels.toNat * 2 ^ 32 + sampleRate.toNat)
  | _ => none

/-- `unpack_audio_format`: sample rate and channels. -/
def unpackAudioFormat (value : Nat) : Option (Nat × Nat) :=
  if value = 0 then none else some (value % 2 ^ 32, value / 2 ^ 32 % 256)

/-! ## Queues -/

/-- A bounded channel between two tasks, oldest item first. -/
structure Queue (α : Type) where
  items : List α
  capacity : Nat
  closed : Bool
  deriving DecidableEq

inductive TrySendError
  | full
  | closed
  deriving DecidableEq, Repr

def Queue.trySend {α : Type} (q : Queue α) (item : α) : Except TrySendError (Queue α) :=
  if q.closed then .error .closed
  else if q.items.length ≥ q.capacity then .error .full
  else .ok { q with items := q.items ++ [item] }

theorem Queue.trySend_ok {α : Type} {q q' : Queue α} {item : α} (h : q.trySend item = .ok q') :
    q'.items = q.items ++ [item] := by
  unfold Queue.trySend at h
  split at h
  · cases h
  · split at h
    · cases h
    · cases h
      rfl

structure ReliableOutbound where
  messageType : MessageType
  payload : Bytes
  deriving DecidableEq, Repr

structure AudioOutbound where
  captureTimestampUs : Nat
  channels : Nat
  sampleRateHz : Nat
  payload : Bytes
  deriving DecidableEq, Repr

structure MouseOutbound where
  mode : MouseMovementMode
  x : Int32
  y : Int32
  buttonStateMask : UInt16
  payload : Bytes
  deriving DecidableEq, Repr

/-- The errors of `enqueue`. -/
inductive EnqueueError
  | connectionClosed
  | invalidData
  | noCodecPayload
  | epochExhausted
  | frameIdExhausted
  | queue (error : TrySendError)
  | audioWriterClosed
  deriving DecidableEq, Repr

/-- `QuicApplicationStream`, as far as `enqueue` uses it. `maxDatagram` is the
smaller of the live and the negotiated datagram size. -/
structure ApplicationStream where
  closing : Bool
  connectionClosed : Bool
  rawMode : Bool
  maxDatagram : Nat
  audioFormat : Nat
  control : Queue ReliableOutbound
  input : Queue ReliableOutbound
  clipboard : Queue ReliableOutbound
  file : Queue ReliableOutbound
  diagnostics : Queue ReliableOutbound
  audio : Queue AudioOutbound
  latestMouse : Option MouseOutbound
  sender : Sender
  deriving DecidableEq

namespace ApplicationStream

/-- The stream after the handshake, with the capacities of the source. -/
def new (maxDatagram : Nat) : ApplicationStream :=
  { closing := false, connectionClosed := false, rawMode := false, maxDatagram := maxDatagram
    audioFormat := 0
    control := { items := [], capacity := 128, closed := false }
    input := { items := [], capacity := 128, closed := false }
    clipboard := { items := [], capacity := 16, closed := false }
    file := { items := [], capacity := 32, closed := false }
    diagnostics := { items := [], capacity := 64, closed := false }
    audio := { items := [], capacity := 64, closed := false }
    latestMouse := none, sender := .new }

/-- The queues of the reliable channels. The video channel takes no messages here:
keyframes reach it through the video writer. -/
def queue (s : ApplicationStream) : ReliableChannelKind → Queue ReliableOutbound
  | .control => s.control
  | .input => s.input
  | .clipboard => s.clipboard
  | .fileTransfer => s.file
  | .diagnostics => s.diagnostics
  | .video => { items := [], capacity := 0, closed := true }

def setQueue (s : ApplicationStream) (kind : ReliableChannelKind) (q : Queue ReliableOutbound) :
    ApplicationStream :=
  match kind with
  | .control => { s with control := q }
  | .input => { s with input := q }
  | .clipboard => { s with clipboard := q }
  | .fileTransfer => { s with file := q }
  | .diagnostics => { s with diagnostics := q }
  | .video => s

/-- `reliable_sender`: the channel of a class and the type it tags messages with. -/
def reliableSender : ApplicationClass → ReliableChannelKind × MessageType
  | .input => (.input, .reliableInput)
  | .clipboard => (.clipboard, .clipboard)
  | .file => (.fileTransfer, .fileChunk)
  | .diagnostics => (.diagnostics, .diagnostics)
  | _ => (.control, .applicationControl)

/-- `try_send` on a reliable channel. -/
def trySend (s : ApplicationStream) (kind : ReliableChannelKind) (out : ReliableOutbound) :
    ApplicationStream × Except EnqueueError Unit :=
  match (s.queue kind).trySend out with
  | .ok q => (s.setQueue kind q, .ok ())
  | .error error => (s, .error (.queue error))

/-- The ordering branch: the message carries its epoch in front. -/
def enqueueOrdering (s : ApplicationStream) (payload : Bytes) :
    ApplicationStream × Except EnqueueError Unit :=
  match s.sender.gate.nextEpoch with
  | none => (s, .error .epochExhausted)
  | some (gate, epoch) =>
      let out : ReliableOutbound :=
        { messageType := .videoOrdering, payload := toBeBytes 8 epoch ++ payload }
      match s.control.trySend out with
      | .ok q =>
          ({ s with
            control := q
            sender := { s.sender with gate := gate, log := .ordered epoch :: s.sender.log } },
            .ok ())
      | .error error =>
          ({ s with sender := { s.sender with gate := gate.cancelEpoch epoch } },
            .error (.queue error))

/-- `enqueue_audio`. -/
def enqueueAudio (s : ApplicationStream) (payload : Bytes) :
    ApplicationStream × Except EnqueueError Unit :=
  match unpackAudioFormat s.audioFormat with
  | none => s.trySend .control { messageType := .applicationControl, payload := payload }
  | some (sampleRateHz, channels) =>
      if satAdd payload.length 80 > s.maxDatagram then (s, .ok ())
      else
        match s.audio.trySend
            { captureTimestampUs := 0, channels := channels, sampleRateHz := sampleRateHz
              payload := payload } with
        | .ok q => ({ s with audio := q }, .ok ())
        | .error .full => (s, .ok ())
        | .error .closed => (s, .error .audioWriterClosed)

/-- The video branch, from the transport frame id to the slot; `none` where the
slot would panic. -/
def enqueueVideo (c : SenderConfig) (s : ApplicationStream) (latestKey : Option Nat)
    (frame : VideoFrame) (payload : Bytes) :
    Option (ApplicationStream × Except EnqueueError Unit) :=
  if s.sender.nextTransportFrameId < u64Max then do
    let sender ← s.sender.enqueue latestKey frame payload
    match sender.producer with
    | .offering _ => do
        let sender ← sender.offer c
        match sender.producer with
        | .refused _ => do
            let sender ← sender.recordRefused c
            return ({ s with sender := sender }, .ok ())
        | _ => return ({ s with sender := sender }, .ok ())
    | _ => return ({ s with sender := sender }, .ok ())
  else some (s, .error .frameIdExhausted)

/-- The part of `enqueue_with_latest_key` behind the decoding of the message. -/
def dispatch (c : SenderConfig) (s : ApplicationStream) (latestKey : Option Nat)
    (message : Message) (payload : Bytes) :
    Option (ApplicationStream × Except EnqueueError Unit) :=
  let s := { s with audioFormat := (audioFormatOf message).getD s.audioFormat }
  if isVideoOrderingMessage message then some (s.enqueueOrdering payload)
  else
    match classifyMessage message with
    | none => some (s, .error .noCodecPayload)
    | some (.video _ frame) => s.enqueueVideo c latestKey frame payload
    | some .audio => some (s.enqueueAudio payload)
    | some (.mouse mode x y buttonStateMask) =>
        some ({ s with
          latestMouse := some
            { mode := mode, x := x, y := y, buttonStateMask := buttonStateMask
              payload := payload } }, .ok ())
    | some cls =>
        let (kind, messageType) := reliableSender cls
        some (s.trySend kind { messageType := messageType, payload := payload })

/-- `enqueue_with_latest_key`. -/
def enqueueWithLatestKey (parse : Bytes → Option Message) (c : SenderConfig)
    (s : ApplicationStream) (latestKey : Option Nat) (payload : Bytes) :
    Option (ApplicationStream × Except EnqueueError Unit) :=
  if s.closing then some (s, .ok ())
  else if s.connectionClosed then some (s, .error .connectionClosed)
  else if s.rawMode then
    some (s.trySend .control { messageType := .applicationRaw, payload := payload })
  else
    match parse payload with
    | none => some (s, .error .invalidData)
    | some message => s.dispatch c latestKey message payload

/-- `enqueue`. -/
def enqueue (parse : Bytes → Option Message) (c : SenderConfig) (s : ApplicationStream)
    (payload : Bytes) : Option (ApplicationStream × Except EnqueueError Unit) :=
  s.enqueueWithLatestKey parse c none payload

end ApplicationStream

/-! ## The writer of a reliable channel -/

/-- `run_reliable_writer` over the messages it receives, each with the time of its
send: the channel afterwards, and the error that closed the connection. -/
def runReliableWriter :
    ReliableChannelSender → List (ReliableOutbound × Nat) →
      ReliableChannelSender × Option ReliableSendError
  | sender, [] => (sender, none)
  | sender, (out, timestamp) :: rest =>
      match sender.send out.messageType 0 timestamp out.payload with
      | (sender, .ok _) => runReliableWriter sender rest
      | (sender, .error error) => (sender, some error)

end HbbCommon.Transport
