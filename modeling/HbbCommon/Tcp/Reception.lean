import HbbCommon.Tcp.Channel

/-!
# Reception under an adversary

One end of a session, with a key in the directional mode, and a network that delivers
whatever bytes it likes. The peer is the `Encrypt` of the other end: what it seals is
recorded with its nonce, as is what this end seals. `Genuine` is what a secretbox
promises of bytes that the network made up.
-/

namespace HbbCommon.Tcp

open HbbCommon.Base
open HbbCommon.Transport (Bytes)

/-- The nonce that the next frame is opened with. -/
def Encrypt.recvNonce (k : Encrypt) : Nonce := k.mode.nonce (k.recvSeqnum + 1) false

/-- The bytes open only if they were sealed with that nonce. -/
def Genuine (box : Secretbox) (key : Key) (log : List (Nonce × Bytes)) (bytes : Bytes)
    (nonce : Nonce) : Prop :=
  (box.openBox bytes nonce key).isSome →
    ∃ entry ∈ log, entry.1 = nonce ∧ bytes = box.sealBox entry.2 nonce key

instance (box : Secretbox) (key : Key) (log : List (Nonce × Bytes)) (bytes : Bytes)
    (nonce : Nonce) : Decidable (Genuine box key log bytes nonce) :=
  inferInstanceAs (Decidable (_ → _))

/-- What happened under one session key. -/
structure Session where
  peer : Encrypt
  /-- what the peer sealed, oldest first -/
  peerSent : List Bytes
  peerSealedWith : List (Nonce × Bytes)
  /-- what this end sealed -/
  sealedWith : List (Nonce × Bytes)
  /-- what `next` returned before its first error -/
  returned : List Bytes
  failed : Bool
  deriving DecidableEq

namespace Session

def new (key : Key) (role : SessionRole) : Session :=
  { peer := .withMode key (NonceMode.directional role).peer, peerSent := [], peerSealedWith := []
    sealedWith := [], returned := [], failed := false }

/-- Everything that was sealed with the session key. -/
def log (s : Session) : List (Nonce × Bytes) := s.sealedWith ++ s.peerSealedWith

def peerSeals (box : Secretbox) (s : Session) (msg : Bytes) : Session :=
  let (peer, _) := s.peer.enc box msg
  { s with
    peer := peer, peerSent := s.peerSent ++ [msg]
    peerSealedWith := s.peerSealedWith ++ [(peer.mode.nonce peer.sendSeqnum true, msg)] }

/-- This end seals a message: `key` holds the counters after it. -/
def seals (s : Session) (key : Option Encrypt) (msg : Bytes) : Session :=
  { s with
    sealedWith := s.sealedWith ++
      (key.map (fun key => (key.mode.nonce key.sendSeqnum true, msg))).toList }

def returns (s : Session) (msg : Bytes) : Session := { s with returned := s.returned ++ [msg] }

def fails (s : Session) : Session := { s with failed := true }

end Session

/-- The frame that a round of `next` takes off the read buffer. -/
def FramedReadHalf.nextFrame (r : FramedReadHalf) (eof : Bool) : Option Bytes :=
  match (if eof then r.codec.decodeEof r.readBuf else r.codec.decode r.readBuf) with
  | (_, _, .ok bytes) => bytes
  | (_, _, .error _) => none

inductive ReceptionAction
  | peerSeals (msg : Bytes)
  | sendRaw (msg : Bytes)
  /-- bytes of the network's choice -/
  | deliver (bytes : Bytes)
  | next (eof : Bool)
  | intoSplit
  deriving DecidableEq, Repr

/-- How far this end has written is left open: it has no part in what it reads. -/
structure Reception where
  endpoint : Endpoint
  session : Session
  deriving DecidableEq

namespace Reception

def next (box : Secretbox) (eof : Bool) (s : Reception) : Reception :=
  let (endpoint, result) := s.endpoint.next box eof
  match result with
  | .item bytes => { endpoint := endpoint, session := s.session.returns bytes }
  | .failed _ => { endpoint := endpoint, session := s.session.fails }
  | .pending | .ended => { s with endpoint := endpoint }

def step (box : Secretbox) (s : Reception) : ReceptionAction → Option Reception
  | .peerSeals msg => some { s with session := s.session.peerSeals box msg }
  | .sendRaw msg =>
      let (endpoint, _) := s.endpoint.sendRaw box msg
      some { endpoint := endpoint, session := s.session.seals endpoint.encrypt msg }
  | .deliver bytes => some { s with endpoint := s.endpoint.read bytes }
  | .next eof => if s.session.failed then none else some (s.next box eof)
  | .intoSplit =>
      match s.endpoint with
      | .joined stream =>
          let (read, write) := stream.intoSplit
          some { s with endpoint := .split read write }
      | .split _ _ => none

/-- The stream may have been used before the key was set: its codec and its buffers are
arbitrary. -/
def system (box : Secretbox) (stream : FramedStream) (key : Key) (role : SessionRole) :
    TSys Reception ReceptionAction where
  init :=
    { endpoint := .joined (stream.setKeyWithMode key (.directional role))
      session := .new key role }
  step := step box

/-- A frame that a step opens was sealed by one of the two ends. -/
def Unforged (box : Secretbox) (key : Key) (s : Reception) : ReceptionAction → Prop
  | .next eof => ∀ bytes ∈ s.endpoint.reader.nextFrame eof, ∀ k ∈ s.endpoint.reader.decrypt,
      Genuine box key s.session.log bytes k.recvNonce
  | _ => True

instance (box : Secretbox) (key : Key) (s : Reception) :
    ∀ a, Decidable (Unforged box key s a)
  | .next eof => inferInstanceAs (Decidable (∀ bytes ∈ s.endpoint.reader.nextFrame eof, _))
  | .peerSeals _ | .sendRaw _ | .deliver _ | .intoSplit => .isTrue trivial

end Reception

end HbbCommon.Tcp
