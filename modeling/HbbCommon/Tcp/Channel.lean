import HbbCommon.Base.TSys
import HbbCommon.Tcp.FramedStream

/-!
# Two framed streams on one connection

Each end is a `FramedStream` or, after `into_split`, its two halves. A call that borrows
the whole stream keeps every other call of that end out until it is done; the halves
work side by side. The connection carries the bytes of each direction in order. How many
bytes one write or one read moves is open.
-/

namespace HbbCommon.Tcp

open HbbCommon.Base
open HbbCommon.Transport (Bytes)

/-- The mode of the other end. -/
def NonceMode.peer : NonceMode → NonceMode
  | .legacy => .legacy
  | .directional .viewer => .directional .host
  | .directional .host => .directional .viewer

inductive Endpoint
  | joined (stream : FramedStream)
  | split (read : FramedReadHalf) (write : FramedWriteHalf)
  deriving DecidableEq

namespace Endpoint

def isSplit : Endpoint → Bool
  | .joined _ => false
  | .split _ _ => true

def reader : Endpoint → FramedReadHalf
  | .joined stream => stream.readHalf
  | .split read _ => read

/-- The counters the next message is sealed with. -/
def encrypt : Endpoint → Option Encrypt
  | .joined stream => stream.encrypt
  | .split _ write => write.encrypt

/-- The bytes in the write buffer. -/
def buffered : Endpoint → Bytes
  | .joined stream => stream.writeBuf
  | .split _ write => write.pending

def sendRaw (box : Secretbox) (msg : Bytes) : Endpoint → Endpoint × Sending
  | .joined stream =>
      match stream.sendRaw box msg with
      | (stream, .ok sending) => (.joined stream, sending)
      | (stream, .error _) => (.joined stream, .idle)
  | .split read write =>
      let (write, sending) := write.sendRaw box msg
      (.split read write, sending)

/-- Bytes from the socket. -/
def read (bytes : Bytes) : Endpoint → Endpoint
  | .joined stream => .joined { stream with readBuf := stream.readBuf ++ bytes }
  | .split read write => .split { read with readBuf := read.readBuf ++ bytes } write

def next (box : Secretbox) (eof : Bool) : Endpoint → Endpoint × Next
  | .joined stream =>
      let (stream, result) := stream.next box eof
      (.joined stream, result)
  | .split read write =>
      let (read, result) := read.next box eof
      (.split read write, result)

end Endpoint

structure Side where
  endpoint : Endpoint
  sending : Sending
  /-- the write direction is shut down -/
  closed : Bool
  /-- what `send_raw` was called with, oldest first -/
  sent : List Bytes
  /-- what was sealed, with its nonce -/
  sealedWith : List (Nonce × Bytes)
  /-- what `next` returned -/
  received : List Bytes
  /-- how reading ended -/
  outcome : Option (Except StreamError Unit)
  deriving DecidableEq

namespace Side

def new (key : Key) (mode : NonceMode) : Side :=
  { endpoint := .joined (FramedStream.new.setKeyWithMode key mode), sending := .idle
    closed := false, sent := [], sealedWith := [], received := [], outcome := none }

/-- The nonce of the last message, when there is a key. -/
def lastSealed (endpoint : Endpoint) (msg : Bytes) : List (Nonce × Bytes) :=
  (endpoint.encrypt.map (fun key => (key.mode.nonce key.sendSeqnum true, msg))).toList

def sendRaw (box : Secretbox) (s : Side) (msg : Bytes) : Option Side :=
  match s.closed, s.sending with
  | false, .idle =>
      let (endpoint, sending) := s.endpoint.sendRaw box msg
      some { s with
        endpoint := endpoint, sending := sending, sent := s.sent ++ [msg]
        sealedWith := s.sealedWith ++ lastSealed endpoint msg }
  | _, _ => none

/-- A write of `n` bytes to the socket. -/
def write (s : Side) (n : Nat) : Option (Side × Bytes) :=
  match s.sending, s.endpoint with
  | .idle, .joined stream | .flushing _, .joined stream =>
      if n ≤ stream.writeBuf.length then
        some ({ s with endpoint := .joined { stream with writeBuf := stream.writeBuf.drop n } },
          stream.writeBuf.take n)
      else none
  | .draining (chunk :: chunks) bytes, _ =>
      if n ≤ chunk.length then
        some ({ s with sending := .draining (chunk.drop n :: chunks) bytes }, chunk.take n)
      else none
  | .writing (chunk :: chunks), _ =>
      if n ≤ chunk.length then
        some ({ s with sending := .writing (chunk.drop n :: chunks) }, chunk.take n)
      else none
  | _, _ => none

/-- A send call goes on: to the next chunk, to the frame behind the flush, or to its
end. -/
def resume (s : Side) : Option Side :=
  match s.sending, s.endpoint with
  | .flushing bytes, .joined stream =>
      if stream.writeBuf.isEmpty then
        match stream.frameBytes bytes with
        | .ok sending => some { s with sending := sending }
        | .error _ => some { s with sending := .idle }
      else none
  | .draining ([] :: chunks) bytes, _ => some { s with sending := .draining chunks bytes }
  | .draining [] bytes, .split _ write =>
      match write.frameBytes bytes with
      | .ok sending => some { s with sending := sending }
      | .error _ => some { s with sending := .idle }
  | .writing ([] :: chunks), _ => some { s with sending := .writing chunks }
  | .writing [], _ => some { s with sending := .idle }
  | _, _ => none

/-- The endpoint can be read: no call borrows the whole stream. -/
def readable (s : Side) : Bool := s.endpoint.isSplit || s.sending == .idle

def read (s : Side) (bytes : Bytes) : Option Side :=
  if s.readable && s.outcome.isNone then some { s with endpoint := s.endpoint.read bytes }
  else none

def next (box : Secretbox) (eof : Bool) (s : Side) : Option Side :=
  if s.readable && s.outcome.isNone then
    let (endpoint, result) := s.endpoint.next box eof
    let s := { s with endpoint := endpoint }
    match result with
    | .pending => some s
    | .item bytes => some { s with received := s.received ++ [bytes] }
    | .failed error => some { s with outcome := some (.error error) }
    | .ended => some { s with outcome := some (.ok ()) }
  else none

def intoSplit (s : Side) : Option Side :=
  match s.endpoint, s.sending with
  | .joined stream, .idle =>
      let (read, write) := stream.intoSplit
      some { s with endpoint := .split read write }
  | _, _ => none

/-- The end shuts down when it has written everything. -/
def close (s : Side) : Option Side :=
  match s.sending with
  | .idle => if s.endpoint.buffered.isEmpty then some { s with closed := true } else none
  | _ => none

end Side

inductive End
  | left
  | right
  deriving DecidableEq, Repr

def End.other : End → End
  | .left => .right
  | .right => .left

inductive EndAction
  | sendRaw (msg : Bytes)
  | write (n : Nat)
  | resume
  | read (n : Nat)
  | next
  /-- `next` when the other end is shut down and everything is read -/
  | nextEof
  | intoSplit
  | close
  deriving DecidableEq, Repr

structure Channel where
  side : End → Side
  /-- the bytes an end has written and the other has not read, oldest first -/
  wire : End → Bytes

namespace Channel

/-- Both ends with the same key, in matching modes. -/
def new (key : Key) (mode : NonceMode) : Channel :=
  { side := fun
      | .left => .new key mode
      | .right => .new key mode.peer
    wire := fun _ => [] }

def setSide (s : Channel) (e : End) (side : Side) : Channel :=
  { s with side := Function.update s.side e side }

def setWire (s : Channel) (e : End) (wire : Bytes) : Channel :=
  { s with wire := Function.update s.wire e wire }

def step (box : Secretbox) (s : Channel) : End × EndAction → Option Channel
  | (e, .sendRaw msg) => ((s.side e).sendRaw box msg).map (s.setSide e)
  | (e, .write n) =>
      ((s.side e).write n).map (fun (side, bytes) =>
        (s.setSide e side).setWire e (s.wire e ++ bytes))
  | (e, .resume) => (s.side e).resume.map (s.setSide e)
  | (e, .read n) =>
      ((s.side e).read ((s.wire e.other).take n)).map (fun side =>
        (s.setSide e side).setWire e.other ((s.wire e.other).drop n))
  | (e, .next) => ((s.side e).next box false).map (s.setSide e)
  | (e, .nextEof) =>
      if (s.side e.other).closed && (s.wire e.other).isEmpty then
        ((s.side e).next box true).map (s.setSide e)
      else none
  | (e, .intoSplit) => (s.side e).intoSplit.map (s.setSide e)
  | (e, .close) => (s.side e).close.map (s.setSide e)

def system (box : Secretbox) (key : Key) (mode : NonceMode) :
    TSys Channel (End × EndAction) where
  init := .new key mode
  step := step box

end Channel

end HbbCommon.Tcp
