import HbbCommon.Transport.Application.Enqueue
import HbbCommon.Transport.Datagram

/-!
# The writers of media messages

`enqueue` hands audio, mouse and video messages to three writer tasks, through a
bounded queue, a latest-value slot and the video slot. A state holds the stream and
the item that each writer has taken and is about to encode; the video writer is part
of the stream's sender. An item leaves its writer when the call on the datagram
sender returns.
-/

namespace HbbCommon.Transport

open HbbCommon.Base

structure MediaWriters where
  stream : ApplicationStream
  audioWriter : Option AudioOutbound
  mouseWriter : Option MouseOutbound
  deriving DecidableEq

inductive MediaAction
  | enqueue (latestKey : Option Nat) (payload : Bytes)
  | takeAudio
  | audioReturned
  | takeMouse
  | mouseReturned
  /-- a step of the video writer or of its peer -/
  | video (action : SenderAction)
  deriving DecidableEq, Repr

namespace MediaWriters

def step (parse : Bytes → Option Message) (c : SenderConfig) (s : MediaWriters) :
    MediaAction → Option MediaWriters
  | .enqueue latestKey payload => do
      let (stream, _) ← s.stream.enqueueWithLatestKey parse c latestKey payload
      return { s with stream := stream }
  | .takeAudio =>
      match s.audioWriter, s.stream.audio.items with
      | none, item :: rest =>
          some { s with
            stream := { s.stream with audio := { s.stream.audio with items := rest } }
            audioWriter := some item }
      | _, _ => none
  | .audioReturned => some { s with audioWriter := none }
  | .takeMouse =>
      match s.mouseWriter, s.stream.latestMouse with
      | none, some item =>
          some { s with
            stream := { s.stream with latestMouse := none }, mouseWriter := some item }
      | _, _ => none
  | .mouseReturned => some { s with mouseWriter := none }
  | .video (.order _) => none
  | .video (.enqueue _ _ _) => none
  | .video action => do
      let sender ← s.stream.sender.step c action
      return { s with stream := { s.stream with sender := sender } }

/-- The stream with its writers, for a negotiated datagram size. -/
def system (parse : Bytes → Option Message) (c : SenderConfig) (maxDatagram : Nat) :
    TSys MediaWriters MediaAction where
  init := { stream := .new maxDatagram, audioWriter := none, mouseWriter := none }
  step := step parse c

end MediaWriters

namespace QuicDatagramSender

/-- The encoding of an audio item by `run_audio_writer`. -/
def encodeAudioItem (w : QuicDatagramSender) (connection : Connection)
    (timestampUs captureTimestampUs : Nat) (item : AudioOutbound) :
    Except DatagramSendError Bytes := do
  let size ← w.maxDatagramSize connection
  (encodeAudioDatagram w.sessionId timestampUs
    { sequenceNumber := w.nextAudioSequence, captureTimestampUs := captureTimestampUs
      codec := .opus, channels := item.channels, sampleRateHz := item.sampleRateHz }
    item.payload size).mapError .audio

/-- The encoding of a mouse item by `run_mouse_writer`. -/
def encodeMouseItem (w : QuicDatagramSender) (connection : Connection) (timestampUs : Nat)
    (item : MouseOutbound) : Except DatagramSendError Bytes := do
  let size ← w.maxDatagramSize connection
  (encodeApplicationMouseMovement w.sessionId
    (w.movement timestampUs item.mode item.x item.y 0 item.buttonStateMask) item.payload
    size).mapError .input

/-- The fragmentation of a video item by `run_video_writer`. -/
def encodeVideoItem (w : QuicDatagramSender) (connection : Connection) (timestampUs : Nat)
    (item : VideoOutbound) : Except DatagramSendError (List Bytes) := do
  let size ← w.maxDatagramSize connection
  (w.transmission size timestampUs item.metadata item.payload).fragmentVideoFrame.mapError .video

end QuicDatagramSender

end HbbCommon.Transport
