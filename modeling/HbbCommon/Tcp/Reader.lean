import HbbCommon.Tcp.FramedStream
import HbbCommon.Base.TSys

/-!
# Reading a stream and its split half

What stands between the decoder and the socket is the reader of `tokio_util`: it decodes
its buffer while that is marked readable and reads the socket when it is not. `Framed`
keeps the marks of its reads, `FramedRead::new` starts with none of them. The socket is the
list of what its next reads return, and whether the end of the stream is behind them.
-/

namespace HbbCommon.Tcp

open HbbCommon.Base
open HbbCommon.Transport (Bytes)

/-- A `FramedReadHalf` with the `ReadFrame` state of its stream. -/
structure FramedRead where
  half : FramedReadHalf
  isReadable : Bool
  eof : Bool
  hasErrored : Bool
  deriving DecidableEq

namespace FramedRead

/-- `FramedRead::new`, with the bytes put behind its empty buffer. -/
def new (half : FramedReadHalf) : FramedRead :=
  { half := half, isReadable := false, eof := false, hasErrored := false }

/-- One turn of `poll_next` over a readable buffer; without a result it goes on to read. -/
def decode (box : Secretbox) (r : FramedRead) : FramedRead × Option Next :=
  match r.half.next box r.eof with
  | (half, .pending) => ({ r with half := half, isReadable := false }, none)
  | (half, .ended) => ({ r with half := half, isReadable := false }, some .ended)
  | (half, .failed (.codec error)) =>
      ({ r with half := half, hasErrored := true }, some (.failed (.codec error)))
  | (half, result) => ({ r with half := half }, some result)

/-- The end of the stream is read. -/
def readEof (r : FramedRead) : FramedRead := { r with eof := true, isReadable := true }

/-- Bytes are read. -/
def readChunk (r : FramedRead) (chunk : Bytes) : FramedRead :=
  { r with
    half := { r.half with readBuf := r.half.readBuf ++ chunk }, eof := false, isReadable := true }

/-- `poll_next` from where it reads the socket. -/
def read (box : Secretbox) (closed : Bool) : FramedRead → List Bytes →
    FramedRead × List Bytes × Next
  | r, [] =>
      if closed then
        if r.eof then (r, [], .ended)
        else
          let (r, result) := r.readEof.decode box
          (r, [], result.getD .pending)
      else (r, [], .pending)
  | r, chunk :: arrived =>
      match (r.readChunk chunk).decode box with
      | (r, some result) => (r, arrived, result)
      | (r, none) => r.read box closed arrived

/-- `poll_next`. -/
def poll (box : Secretbox) (closed : Bool) (r : FramedRead) (arrived : List Bytes) :
    FramedRead × List Bytes × Next :=
  if r.hasErrored then ({ r with isReadable := false, hasErrored := false }, arrived, .ended)
  else if r.isReadable then
    match r.decode box with
    | (r, some result) => (r, arrived, result)
    | (r, none) => r.read box closed arrived
  else r.read box closed arrived

/-- The messages of `n` calls of `next`, when nothing more arrives. -/
def received (box : Secretbox) (closed : Bool) : Nat → FramedRead → List Bytes → List Bytes
  | 0, _, _ => []
  | n + 1, r, arrived =>
      match r.poll box closed arrived with
      | (r, arrived, .item bytes) => bytes :: received box closed n r arrived
      | (r, arrived, _) => received box closed n r arrived

end FramedRead

/-! ## A stream before the split -/

/-- A `FramedStream` with the state of its reads, and its socket. -/
structure Incoming where
  stream : FramedStream
  isReadable : Bool
  eof : Bool
  hasErrored : Bool
  arrived : List Bytes
  closed : Bool
  deriving DecidableEq

inductive IncomingAction
  /-- bytes that one read returns -/
  | arrive (chunk : Bytes)
  | close
  | next
  | sendRaw (msg : Bytes)
  | setKey (key : Key) (mode : NonceMode)
  | setRaw
  deriving DecidableEq, Repr

namespace FramedStream

def setRaw (s : FramedStream) : FramedStream :=
  { s with codec := s.codec.setRaw, encrypt := none }

end FramedStream

namespace Incoming

/-- The reader inside the stream. -/
def reader (s : Incoming) : FramedRead :=
  { half := s.stream.readHalf, isReadable := s.isReadable, eof := s.eof
    hasErrored := s.hasErrored }

/-- The reader that `into_split` makes. -/
def splitReader (s : Incoming) : FramedRead := .new s.stream.intoSplit.1

/-- `FramedStream::next`. -/
def next (box : Secretbox) (s : Incoming) : Incoming × Next :=
  let (r, arrived, result) := s.reader.poll box s.closed s.arrived
  ({ s with
      stream := { s.stream with
        codec := r.half.codec, readBuf := r.half.readBuf, encrypt := r.half.decrypt }
      isReadable := r.isReadable, eof := r.eof, hasErrored := r.hasErrored, arrived := arrived },
    result)

def step (box : Secretbox) (s : Incoming) : IncomingAction → Option Incoming
  | .arrive chunk =>
      if s.closed || chunk.isEmpty then none else some { s with arrived := s.arrived ++ [chunk] }
  | .close => some { s with closed := true }
  | .next => some (s.next box).1
  | .sendRaw msg => some { s with stream := (s.stream.sendRaw box msg).1 }
  | .setKey key mode => some { s with stream := s.stream.setKeyWithMode key mode }
  | .setRaw => some { s with stream := s.stream.setRaw }

def system (box : Secretbox) : TSys Incoming IncomingAction where
  init :=
    { stream := .new, isReadable := false, eof := false, hasErrored := false, arrived := []
      closed := false }
  step := step box

end Incoming

end HbbCommon.Tcp
