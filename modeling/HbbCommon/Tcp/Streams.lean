import HbbCommon.Tcp.WebSocket
import HbbCommon.Tcp.Logic.Streaming

/-!
# The stream transports

The `Stream` enum over its three message transports: a framed byte stream, a WebSocket and
a WebRTC data channel. `sendRaw` is a call without a timeout, run to its end; what it gives
to the network is the bytes of a frame, a binary message or a message of the data channel.
`receive` calls `next` on what has arrived until it waits or fails.
-/

namespace HbbCommon.Tcp

open HbbCommon.Base
open HbbCommon.Transport (Bytes)

inductive RecvError
  | stream (error : StreamError)
  | protocol
  | decrypt (error : DecryptError)
  /-- the message is longer than the buffer it is read into -/
  | dataChannelRead
  | dataChannelExited
  deriving DecidableEq, Repr

/-! ## A framed byte stream -/

def Sending.chunks : Sending → List Bytes
  | .writing chunks => chunks
  | _ => []

namespace FramedStream

/-- What a call of `send_bytes` has still to do, done: the write buffer is flushed and the
frame behind it is written. -/
def finish (s : FramedStream) : Sending → Except CodecError (FramedStream × Bytes)
  | .flushing bytes => (s.frameBytes bytes).map (fun sending =>
      ({ s with writeBuf := [] }, s.writeBuf ++ sending.chunks.flatten))
  | _ => .ok ({ s with writeBuf := [] }, s.writeBuf)

/-- A call of `send_raw` that is not given up, with the bytes it writes. -/
def sendWhole (box : Secretbox) (s : FramedStream) (msg : Bytes) :
    Except CodecError (FramedStream × Bytes) :=
  match s.sendRaw box msg with
  | (s, .ok sending) => s.finish sending
  | (_, .error error) => .error error

end FramedStream

/-- A round of `next` that returns a message leaves less to decode. -/
theorem FramedStream.work_next {box : Secretbox} {s s' : FramedStream} {bytes : Bytes}
    (h : s.next box false = (s', .item bytes)) :
    s'.codec.work s'.readBuf < s.codec.work s.readBuf := by
  simp only [FramedStream.next, FramedReadHalf.next, FramedStream.readHalf,
    if_neg Bool.false_ne_true] at h
  generalize hdecode : s.codec.decode s.readBuf = result at h
  obtain ⟨codec, readBuf, error | _ | frame⟩ := result
  · cases h
  · cases h
  · have hwork := BytesCodec.work_decode hdecode
    cases hkey : s.encrypt with
    | none =>
        rw [hkey] at h
        cases h
        exact hwork
    | some k =>
        rw [hkey] at h
        dsimp only at h
        generalize k.dec box frame = opened at h
        obtain ⟨k', error | msg⟩ := opened
        · cases h
        · cases h
          exact hwork

/-- `next` until it waits for more bytes or fails. -/
def FramedStream.nextAll (box : Secretbox) (s : FramedStream) :
    FramedStream × List Bytes × Option StreamError :=
  match _h : s.next box false with
  | (s', .item bytes) =>
      let (s'', later, error) := nextAll box s'
      (s'', bytes :: later, error)
  | (s', .failed error) => (s', [], some error)
  | (s', .pending) | (s', .ended) => (s', [], none)
termination_by s.codec.work s.readBuf
decreasing_by exact FramedStream.work_next _h

/-- The chunks that the socket delivers, with `next` called until it waits after each. -/
def FramedStream.receive (box : Secretbox) (s : FramedStream) :
    List Bytes → FramedStream × List Bytes × Option StreamError
  | [] => (s, [], none)
  | chunk :: chunks =>
      match { s with readBuf := s.readBuf ++ chunk }.nextAll box with
      | (s', msgs, some error) => (s', msgs, some error)
      | (s', msgs, none) =>
          let (s'', later, error) := s'.receive box chunks
          (s'', msgs ++ later, error)

/-! ## A WebSocket -/

theorem length_wsNext {box : Secretbox} {key key' : Option Encrypt} {events rest : List WsEvent}
    {bytes : Bytes} (h : wsNext box key events = (key', rest, .item bytes)) :
    rest.length < events.length := by
  induction events with
  | nil => cases h
  | cons event events ih =>
      cases event with
      | error => cases h
      | ended => cases h
      | message msg =>
          cases msg with
          | text text =>
              cases h
              exact Nat.lt_succ_self _
          | close => cases h
          | ping data => exact lt_trans (ih h) (Nat.lt_succ_self _)
          | pong data => exact lt_trans (ih h) (Nat.lt_succ_self _)
          | binary data =>
              cases key with
              | none =>
                  cases h
                  exact Nat.lt_succ_self _
              | some k =>
                  simp only [wsNext] at h
                  generalize k.dec box data = opened at h
                  obtain ⟨k', error | msg⟩ := opened
                  · cases h
                  · cases h
                    exact Nat.lt_succ_self _

theorem WsFramedStream.length_next {box : Secretbox} {s s' : WsFramedStream}
    {events rest : List WsEvent} {bytes : Bytes}
    (h : s.next box events = (s', rest, .item bytes)) : rest.length < events.length := by
  unfold WsFramedStream.next at h
  generalize hnext : wsNext box s.encrypt events = result at h
  obtain ⟨encrypt, rest', result⟩ := result
  cases h
  exact length_wsNext hnext

/-- `next` until it waits, ends or fails. -/
def WsFramedStream.receive (box : Secretbox) (s : WsFramedStream) (events : List WsEvent) :
    WsFramedStream × List Bytes × Option RecvError :=
  match _h : s.next box events with
  | (s', rest, .item bytes) =>
      let (s'', later, error) := WsFramedStream.receive box s' rest
      (s'', bytes :: later, error)
  | (s', _, .protocolError) => (s', [], some .protocol)
  | (s', _, .decryptError error) => (s', [], some (.decrypt error))
  | (s', _, .pending) | (s', _, .ended) => (s', [], none)
termination_by events.length
decreasing_by exact WsFramedStream.length_next _h

/-! ## A WebRTC data channel -/

def dataChannelBufferSize : Nat := 2 ^ 16 - 1

/-- A connected stream; `closed` when `next` has closed the peer connection. Keys are not
supported: the connection has its own encryption. -/
structure WebRTCStream where
  closed : Bool
  deriving DecidableEq, Repr

namespace WebRTCStream

def setKey (s : WebRTCStream) (_ : Key) : WebRTCStream := s

/-- The message that `send_bytes` gives to the data channel. -/
def sendRaw (_ : WebRTCStream) (msg : Bytes) : Bytes := msg

/-- `next` on a message: `read` puts it into the buffer and returns its length. -/
def next (s : WebRTCStream) (msg : Bytes) : WebRTCStream × Except RecvError Bytes :=
  if dataChannelBufferSize < msg.length then ({ s with closed := true }, .error .dataChannelRead)
  else
    let buffer := msg ++ List.replicate (dataChannelBufferSize - msg.length) 0
    let n := msg.length
    if n = 0 then ({ s with closed := true }, .error .dataChannelExited)
    else (s, .ok (buffer.take n))

/-- `next` until it waits or fails. -/
def receive (s : WebRTCStream) : List Bytes → WebRTCStream × List Bytes × Option RecvError
  | [] => (s, [], none)
  | msg :: msgs =>
      match s.next msg with
      | (s', .error error) => (s', [], some error)
      | (s', .ok bytes) =>
          let (s'', later, error) := s'.receive msgs
          (s'', bytes :: later, error)

end WebRTCStream

/-! ## The enum -/

inductive Transport
  | webRTC
  | webSocket
  | tcp
  deriving DecidableEq, Repr

inductive Stream
  | webRTC (s : WebRTCStream)
  | webSocket (s : WsFramedStream)
  | tcp (s : FramedStream)
  deriving DecidableEq

/-- What one call of `send_raw` gives to the network. -/
inductive Sent
  | webRTC (msg : Bytes)
  | webSocket (msg : WsMessage)
  | tcp (bytes : Bytes)
  deriving DecidableEq, Repr

/-- What arrives at the other end. -/
inductive Arrival
  | webRTC (msgs : List Bytes)
  | webSocket (events : List WsEvent)
  | tcp (chunks : List Bytes)
  deriving DecidableEq, Repr

namespace Stream

/-- A stream that is just connected. -/
def connected : Transport → Stream
  | .webRTC => .webRTC { closed := false }
  | .webSocket => .webSocket .new
  | .tcp => .tcp .new

def setKeyWithMode (key : Key) (mode : NonceMode) : Stream → Stream
  | .webRTC s => .webRTC (s.setKey key)
  | .webSocket s => .webSocket (s.setKeyWithMode key mode)
  | .tcp s => .tcp (s.setKeyWithMode key mode)

def sendRaw (box : Secretbox) (msg : Bytes) : Stream → Except CodecError (Stream × Sent)
  | .webRTC s => .ok (.webRTC s, .webRTC (s.sendRaw msg))
  | .webSocket s =>
      let (s, message) := s.sendRaw box msg
      .ok (.webSocket s, .webSocket message)
  | .tcp s => (s.sendWhole box msg).map (fun (s, bytes) => (.tcp s, .tcp bytes))

def sendAll (box : Secretbox) (s : Stream) : List Bytes → Except CodecError (Stream × List Sent)
  | [] => .ok (s, [])
  | msg :: msgs => do
      let (s, sent) ← s.sendRaw box msg
      let (s, later) ← s.sendAll box msgs
      pure (s, sent :: later)

/-- The values that `next` returns on what arrives, up to the first error. -/
def receive (box : Secretbox) : Stream → Arrival → List Bytes
  | .webRTC s, .webRTC msgs => (s.receive msgs).2.1
  | .webSocket s, .webSocket events => (s.receive box events).2.1
  | .tcp s, .tcp chunks => (s.receive box chunks).2.1
  | _, _ => []

end Stream

def WsMessage.isControl : WsMessage → Bool
  | .ping _ | .pong _ => true
  | _ => false

/-- What a network that loses nothing may make of what was sent: the bytes of a byte stream
cut anywhere, control messages between the messages of a WebSocket. -/
inductive Delivers : Transport → List Sent → Arrival → Prop
  | webRTC {msgs : List Bytes} : Delivers .webRTC (msgs.map .webRTC) (.webRTC msgs)
  | webSocket {msgs : List WsMessage} :
      Delivers .webSocket ((msgs.filter (fun msg => !msg.isControl)).map .webSocket)
        (.webSocket (msgs.map .message))
  | tcp {sent chunks : List Bytes} (bytes : chunks.flatten = sent.flatten) :
      Delivers .tcp (sent.map .tcp) (.tcp chunks)

end HbbCommon.Tcp
