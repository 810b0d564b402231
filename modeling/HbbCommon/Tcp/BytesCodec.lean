import HbbCommon.Transport.Video.Types
import HbbCommon.Base.Wire

/-!
# Frames on a byte stream

`BytesCodec` puts a header of one to four bytes in front of a payload: the length
in all but the two low bits, which say how many bytes the header has. The decoder
keeps its place between a header and the payload behind it.
-/

namespace HbbCommon.Tcp

open HbbCommon.Base
open HbbCommon.Transport (Bytes)

def defaultMaxPacketLength : Nat := 64 * 1024 * 1024

inductive DecodeState
  | head
  | data (n : Nat)
  deriving DecidableEq, Repr

structure BytesCodec where
  state : DecodeState
  raw : Bool
  maxPacketLength : Nat
  deriving DecidableEq, Repr

inductive CodecError
  | overflow
  | tooBigPacket
  /-- the stream ends inside a frame -/
  | bytesRemaining
  deriving DecidableEq, Repr

namespace BytesCodec

def new : BytesCodec := { state := .head, raw := false, maxPacketLength := defaultMaxPacketLength }

def setRaw (c : BytesCodec) : BytesCodec := { c with raw := true }

def setMaxPacketLength (c : BytesCodec) (n : Nat) : BytesCodec := { c with maxPacketLength := n }

/-- The buffer with the frame behind what it holds. -/
def encodeFrame (raw : Bool) (data buf : Bytes) : Except CodecError Bytes :=
  if raw then .ok (buf ++ data)
  else if data.length ≤ 0x3F then
    .ok (buf ++ toLeBytes 1 (data.length <<< 2) ++ data)
  else if data.length ≤ 0x3FFF then
    .ok (buf ++ toLeBytes 2 ((data.length <<< 2) % 2 ^ 16 ||| 0x1) ++ data)
  else if data.length ≤ 0x3FFFFF then
    let h := (data.length <<< 2) % 2 ^ 32 ||| 0x2
    .ok (buf ++ toLeBytes 2 (h &&& 0xFFFF) ++ toLeBytes 1 (h >>> 16) ++ data)
  else if data.length ≤ 0x3FFFFFFF then
    .ok (buf ++ toLeBytes 4 ((data.length <<< 2) % 2 ^ 32 ||| 0x3) ++ data)
  else .error .overflow

/-- `encode`, which keeps the codec. -/
def encode (c : BytesCodec) (data buf : Bytes) : Except CodecError Bytes :=
  encodeFrame c.raw data buf

/-- The length in the header at the front of `src`, and what is behind the header. The
indices are in range where they are read. -/
def decodeHead (c : BytesCodec) (src : Bytes) : Except CodecError (Option Nat × Bytes) :=
  match src with
  | [] => .ok (none, src)
  | b :: _ =>
      let headLen := (b &&& 0x3).toNat + 1
      if src.length < headLen then .ok (none, src)
      else
        let n := b.toNat
        let n := if headLen > 1 then n ||| (src.getD 1 0).toNat <<< 8 else n
        let n := if headLen > 2 then n ||| (src.getD 2 0).toNat <<< 16 else n
        let n := if headLen > 3 then n ||| (src.getD 3 0).toNat <<< 24 else n
        let n := n >>> 2
        if n > c.maxPacketLength then .error .tooBigPacket else .ok (some n, src.drop headLen)

def decodeData (n : Nat) (src : Bytes) : Option Bytes × Bytes :=
  if src.length < n then (none, src) else (some (src.take n), src.drop n)

/-- The part of `decode` behind the header. -/
def decodeBody (c : BytesCodec) (n : Nat) (src : Bytes) :
    BytesCodec × Bytes × Except CodecError (Option Bytes) :=
  match decodeData n src with
  | (some data, src) => ({ c with state := .head }, src, .ok (some data))
  | (none, src) => (c, src, .ok none)

def decode (c : BytesCodec) (src : Bytes) :
    BytesCodec × Bytes × Except CodecError (Option Bytes) :=
  if c.raw then
    if src.isEmpty then (c, src, .ok none) else (c, [], .ok (some src))
  else
    match c.state with
    | .head =>
        match c.decodeHead src with
        | .error error => (c, src, .error error)
        | .ok (none, src) => (c, src, .ok none)
        | .ok (some n, src) => { c with state := .data n }.decodeBody n src
    | .data n => c.decodeBody n src

/-- `decode_eof` as the `Decoder` trait provides it: the end of the stream inside a frame
is an error. -/
def decodeEof (c : BytesCodec) (src : Bytes) :
    BytesCodec × Bytes × Except CodecError (Option Bytes) :=
  match c.decode src with
  | (c, src, .ok none) =>
      if src.isEmpty then (c, src, .ok none) else (c, src, .error .bytesRemaining)
  | result => result

end BytesCodec

end HbbCommon.Tcp
