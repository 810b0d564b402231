import HbbCommon.Tcp.BytesCodec
import HbbCommon.Tcp.Encrypt
import HbbCommon.Transport.Video.Fragment

/-!
# Framed streams

`FramedStream` and the halves that `into_split` makes of it. A call of `send_raw` seals
the message and then writes it in one of two ways: a short frame goes into the write
buffer, a long one is written in chunks of its own after a flush. The split writer puts
the bytes it found in the write buffer in front of its first frame. How much of a buffer
a single write takes is up to the socket; `Sending` is what a call has still to do.
`next` decodes the read buffer and opens the frame.
-/

namespace HbbCommon.Tcp

open HbbCommon.Base
open HbbCommon.Transport (Bytes chunk chunkCount)

def tcpFramedWriteChunkLimit : Nat := 1200

/-- The writes of `write_wire_bytes`, one after another. -/
def writeWireBytes (bytes : Bytes) (bounded : Bool) : List Bytes :=
  if bounded then
    (List.range (chunkCount bytes tcpFramedWriteChunkLimit)).map
      (chunk bytes tcpFramedWriteChunkLimit)
  else [bytes]

/-- What a send call has still to do. -/
inductive Sending
  | idle
  /-- flush the write buffer, then frame and write `bytes` -/
  | flushing (bytes : Bytes)
  /-- write the bytes that were pending at the split, then frame and write `bytes` -/
  | draining (chunks : List Bytes) (bytes : Bytes)
  | writing (chunks : List Bytes)
  deriving DecidableEq, Repr

inductive StreamError
  | codec (error : CodecError)
  | decrypt (error : DecryptError)
  deriving DecidableEq, Repr

/-- The result of one round of `next`. -/
inductive Next
  /-- more bytes are needed -/
  | pending
  | item (bytes : Bytes)
  | failed (error : StreamError)
  | ended
  deriving DecidableEq, Repr

structure FramedReadHalf where
  codec : BytesCodec
  readBuf : Bytes
  decrypt : Option Encrypt
  deriving DecidableEq

/-- One round of `next`: a call of the decoder, at the end of the stream of `decode_eof`. -/
def FramedReadHalf.next (box : Secretbox) (eof : Bool) (r : FramedReadHalf) :
    FramedReadHalf × Next :=
  match (if eof then r.codec.decodeEof r.readBuf else r.codec.decode r.readBuf) with
  | (codec, readBuf, .error error) =>
      ({ r with codec := codec, readBuf := readBuf }, .failed (.codec error))
  | (codec, readBuf, .ok none) =>
      ({ r with codec := codec, readBuf := readBuf }, if eof then .ended else .pending)
  | (codec, readBuf, .ok (some bytes)) =>
      match r.decrypt with
      | none => ({ r with codec := codec, readBuf := readBuf }, .item bytes)
      | some key =>
          match key.dec box bytes with
          | (key, .ok bytes) =>
              ({ codec := codec, readBuf := readBuf, decrypt := some key }, .item bytes)
          | (key, .error error) =>
              ({ codec := codec, readBuf := readBuf, decrypt := some key },
                .failed (.decrypt error))

structure FramedWriteHalf where
  encrypt : Option Encrypt
  raw : Bool
  pending : Bytes
  deriving DecidableEq

namespace FramedWriteHalf

/-- The start of `send_bytes_inner`. -/
def sendBytes (w : FramedWriteHalf) (bytes : Bytes) : FramedWriteHalf × Sending :=
  if w.pending.isEmpty then (w, .draining [] bytes)
  else ({ w with pending := [] }, .draining (writeWireBytes w.pending (!w.raw)) bytes)

def sendRaw (box : Secretbox) (w : FramedWriteHalf) (msg : Bytes) : FramedWriteHalf × Sending :=
  match w.encrypt with
  | some key =>
      let (key, msg) := key.enc box msg
      { w with encrypt := some key }.sendBytes msg
  | none => w.sendBytes msg

/-- The rest of `send_bytes_inner`, when the pending bytes are written. -/
def frameBytes (w : FramedWriteHalf) (bytes : Bytes) : Except CodecError Sending :=
  (BytesCodec.encodeFrame w.raw bytes []).map (fun framed =>
    .writing (writeWireBytes framed
      (decide (bytes.length > tcpFramedWriteChunkLimit) && !w.raw)))

end FramedWriteHalf

structure FramedStream where
  codec : BytesCodec
  readBuf : Bytes
  writeBuf : Bytes
  encrypt : Option Encrypt
  deriving DecidableEq

namespace FramedStream

def new : FramedStream := { codec := .new, readBuf := [], writeBuf := [], encrypt := none }

def setKeyWithMode (s : FramedStream) (key : Key) (mode : NonceMode) : FramedStream :=
  { s with encrypt := some (.withMode key mode) }

def readHalf (s : FramedStream) : FramedReadHalf :=
  { codec := s.codec, readBuf := s.readBuf, decrypt := s.encrypt }

def intoSplit (s : FramedStream) : FramedReadHalf × FramedWriteHalf :=
  (s.readHalf, { encrypt := s.encrypt, raw := s.codec.raw, pending := s.writeBuf })

def next (box : Secretbox) (eof : Bool) (s : FramedStream) : FramedStream × Next :=
  let (r, result) := s.readHalf.next box eof
  ({ s with codec := r.codec, readBuf := r.readBuf, encrypt := r.decrypt }, result)

def shouldSendBounded (s : FramedStream) (len : Nat) : Bool :=
  decide (len > tcpFramedWriteChunkLimit) && !s.codec.raw

/-- The start of `send_bytes`: a short frame is in the write buffer, which the call then
flushes. Where that flush is given up, the rest of the buffer is left for later. -/
def sendBytes (s : FramedStream) (bytes : Bytes) : FramedStream × Except CodecError Sending :=
  if s.shouldSendBounded bytes.length then (s, .ok (.flushing bytes))
  else
    match s.codec.encode bytes s.writeBuf with
    | .ok writeBuf => ({ s with writeBuf := writeBuf }, .ok .idle)
    | .error error => (s, .error error)

def sendRaw (box : Secretbox) (s : FramedStream) (msg : Bytes) :
    FramedStream × Except CodecError Sending :=
  match s.encrypt with
  | some key =>
      let (key, msg) := key.enc box msg
      { s with encrypt := some key }.sendBytes msg
  | none => s.sendBytes msg

/-- The rest of `send_bytes_bounded`, when the write buffer is flushed. -/
def frameBytes (s : FramedStream) (bytes : Bytes) : Except CodecError Sending :=
  (BytesCodec.encodeFrame s.codec.raw bytes []).map (fun framed =>
    .writing (writeWireBytes framed true))

end FramedStream

end HbbCommon.Tcp
