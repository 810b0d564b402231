import HbbCommon.Transport.Application.Enqueue
import HbbCommon.Transport.Datagram

/-!
# The way of a mouse movement

From `enqueue` over the latest-value slot to the writer task (`run_mouse_writer`),
as a datagram to the peer, and through `MouseMovementReceiver` to its application.
The producer, the writer, the network and the reader move one at a time; the network
keeps the order and loses nothing, and the inbound queue of the peer has no bound.
-/

namespace HbbCommon.Transport

open HbbCommon.Base

/-- The writer task, by the movement it holds. -/
inductive MouseWriter
  | idle
  | holding (item : MouseOutbound)
  | stopped
  deriving DecidableEq, Repr

structure MousePath where
  stream : ApplicationStream
  writer : MouseWriter
  sender : QuicDatagramSender
  /-- oldest first -/
  inFlight : List Bytes
  receiver : MouseMovementReceiver
  readerStopped : Bool
  /-- what `enqueue` accepted, oldest first -/
  enqueued : List Bytes
  /-- what the application of the peer gets, oldest first -/
  delivered : List Bytes
  deriving DecidableEq

inductive MousePathAction
  | enqueue (payload : Bytes)
  | take
  /-- send the movement with the connection and the coordinator as they are then -/
  | send (timestampUs : Nat) (coordinator : QuicDatagramSendCoordinator) (connection : Connection)
      (path : PathStats)
  | deliver
  deriving DecidableEq

/-- `validate_datagram_application_message` for a mouse message. -/
def validateMouseMessage (parse : Bytes → Option Message) (payload : Bytes) : Bool :=
  match (parse payload).bind classifyMessage with
  | some (.mouse _ _ _ _) => true
  | _ => false

namespace MousePath

def new (sessionId : SessionId) (maxDatagram : Nat) : MousePath :=
  { stream := .new maxDatagram, writer := .idle, sender := .new sessionId maxDatagram
    inFlight := [], receiver := .new sessionId, readerStopped := false
    enqueued := [], delivered := [] }

/-- The call of the writer for a movement; the display is always 0. -/
def callOf (item : MouseOutbound) : SendCall :=
  .applicationMouseMovement item.mode item.x item.y 0 item.buttonStateMask item.payload

/-- The mouse arm of `run_datagram_reader`. -/
def read (parse : Bytes → Option Message) (s : MousePath) (datagram : Bytes) : Option MousePath :=
  match routeDatagram s.sender.negotiatedMaxDatagramSize s.receiver.sessionId datagram with
  | .error _ => some { s with readerStopped := true }
  | .ok .mouse => do
      match ← s.receiver.apply datagram with
      | (receiver, .ok _) => return { s with receiver := receiver }
      | (_, .error _) => return { s with readerStopped := true }
  | .ok .applicationMouse => do
      match ← s.receiver.applyApplication datagram with
      | (receiver, .ok (some (_, payload))) =>
          if validateMouseMessage parse payload then
            return { s with receiver := receiver, delivered := s.delivered ++ [payload] }
          else return { s with receiver := receiver }
      | (receiver, .ok none) => return { s with receiver := receiver }
      | (_, .error _) => return { s with readerStopped := true }
  | .ok _ => none

def step (parse : Bytes → Option Message) (c : SenderConfig) (s : MousePath) :
    MousePathAction → Option MousePath
  | .enqueue payload => do
      match ← s.stream.enqueue parse c payload with
      | (stream, .ok ()) => return { s with stream := stream, enqueued := s.enqueued ++ [payload] }
      | (stream, .error _) => return { s with stream := stream }
  | .take =>
      match s.writer, s.stream.latestMouse with
      | .idle, some item =>
          some { s with
            stream := { s.stream with latestMouse := none }, writer := .holding item }
      | _, _ => none
  | .send timestampUs coordinator connection path =>
      match s.writer with
      | .holding item =>
          let finished := s.sender.send coordinator connection path timestampUs (callOf item)
          let s := { s with sender := finished.sender, inFlight := s.inFlight ++ finished.sent }
          match finished.result with
          | .ok _ => some { s with writer := .idle }
          | .error _ => some { s with writer := .stopped }
      | _ => none
  | .deliver =>
      match s.readerStopped, s.inFlight with
      | false, datagram :: rest => { s with inFlight := rest }.read parse datagram
      | _, _ => none

/-- The path of mouse movements between two peers. -/
def system (parse : Bytes → Option Message) (c : SenderConfig) (sessionId : SessionId)
    (maxDatagram : Nat) : TSys MousePath MousePathAction where
  init := .new sessionId maxDatagram
  step := step parse c

end MousePath

end HbbCommon.Transport
