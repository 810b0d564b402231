import HbbCommon.Base.TSys
import HbbCommon.Transport.Logic.HelloBinding
import HbbCommon.Transport.Stream

/-!
# The control channel

The first stream of a connection carries a hello each way and then control messages, each end's
under increasing numbers. What a connection exports is the same at its two ends. Both ends draw
nonces and read clocks; the stream takes every write, and a write is one piece.
-/

namespace HbbCommon.Transport

open HbbCommon.Base

def flagAckRequired : Nat := 1

def flagResponse : Nat := 2

/-- The flag is set. -/
def hasFlag (flags flag : Nat) : Bool := flags / flag % 2 == 1

/-- The variants of `QuicTransportError` that the functions of the control stream give. -/
inductive ControlError
  | stream
  | protocol (error : ProtocolError)
  | authentication (message : String)
  /-- `expected {expected:?}, received {:?}` -/
  | unexpectedType (expected received : MessageType)
  /-- `message {message_type:?} is invalid after control authentication` -/
  | invalidAfterAuthentication (messageType : MessageType)
  /-- `sequence exhausted` -/
  | sequenceExhausted
  /-- `control message session identifier changed` -/
  | sessionChanged
  /-- `duplicate or out-of-order control sequence` -/
  | duplicateOrOutOfOrder
  deriving DecidableEq, Repr

def ControlError.ofStream : StreamReadError → ControlError
  | .stream => .stream
  | .protocol error => .protocol error

def ControlError.ofHello : QuicTransportError → ControlError
  | .authentication message => .authentication message

/-! ## Messages on the stream -/

/-- `write_message`: what is written. -/
def writeMessage (header : MessageHeader) (payload : Bytes) : Except ControlError Bytes :=
  (encodeMessage header payload).mapError .protocol

/-- A message under a header of its own. -/
def writeNew (messageType : MessageType) (flags : Nat) (sessionId : SessionId)
    (sequence timestamp : Nat) (payload : Bytes) : Except ControlError ParsedMessage := do
  let header ← (MessageHeader.new messageType flags sessionId sequence payload.length
    timestamp).mapError .protocol
  let _ ← writeMessage header payload
  return { header, payload }

/-- `read_handshake_message`: the type is checked before the payload is read. -/
def readHandshakeMessage (stream : Bytes) (expected : MessageType) :
    Except ControlError ParsedMessage × Bytes :=
  match readHeader stream with
  | (.error error, rest) => (.error (.ofStream error), rest)
  | (.ok (encodedHeader, header), rest) =>
      if header.messageType ≠ expected then
        (.error (.unexpectedType expected header.messageType), rest)
      else
        match readPayload rest encodedHeader header with
        | (.error error, rest) => (.error (.ofStream error), rest)
        | (.ok message, rest) => (.ok message, rest)

/-! ## The hellos -/

section

variable {σ : Type} (sign : Sign σ)

/-- The result of `parse_client_hello`, which has one for every payload. -/
def clientHelloOf (payload : Bytes) (sessionId : SessionId) (exporter : FixedBytes 32) :
    Except ControlError (FixedBytes 32 × FixedBytes 32) :=
  ((parseClientHello sign payload sessionId exporter).run.get
    (defined_parseClientHello payload sessionId exporter)).mapError .ofHello

/-- The result of `parse_server_hello`. -/
def serverHelloOf (payload : Bytes) (sessionId : SessionId)
    (exporter clientNonce clientKey : FixedBytes 32) :
    Except ControlError (FixedBytes 32 × FixedBytes 32) :=
  ((parseServerHello sign payload sessionId exporter clientNonce clientKey).run.get
    (defined_parseServerHello payload sessionId exporter clientNonce clientKey)).mapError .ofHello

end

/-- What `export_keying_material` gives for a session. -/
abbrev Exporter := SessionId → Option (FixedBytes 32)

def exportKeyingMaterial (exporter : Exporter) (sessionId : SessionId) :
    Except ControlError (FixedBytes 32) :=
  match exporter sessionId with
  | some material => .ok material
  | none => .error (.authentication "TLS exporter keying material is unavailable")

structure AuthenticatedControlChannel where
  sessionId : SessionId
  nextOutgoingSequence : Nat
  lastIncomingSequence : Nat
  peerIdentityKey : FixedBytes 32
  deriving DecidableEq

/-- The channel after the hellos. -/
def AuthenticatedControlChannel.start (sessionId : SessionId) (peerIdentityKey : FixedBytes 32) :
    AuthenticatedControlChannel :=
  { sessionId, nextOutgoingSequence := 2, lastIncomingSequence := 1, peerIdentityKey }

section

variable {σ : Type} {sign : Sign σ}

/-- `authenticate_client_inner`, up to its hello. -/
def clientHello (identity : DeviceIdentity sign) (exporter : Exporter) (sessionId : SessionId)
    (clientNonce : FixedBytes 32) (timestamp : Nat) : Except ControlError ParsedMessage := do
  let material ← exportKeyingMaterial exporter sessionId
  writeNew .clientHello flagAckRequired sessionId 1 timestamp
    (encodeClientHello identity sessionId material clientNonce)

/-- `authenticate_client_inner` behind its hello. -/
def authenticateClient (identity : DeviceIdentity sign) (exporter : Exporter)
    (expectedServerIdentityKey : Option (FixedBytes 32)) (sessionId : SessionId)
    (clientNonce : FixedBytes 32) (response : ParsedMessage) :
    Except ControlError AuthenticatedControlChannel := do
  let material ← exportKeyingMaterial exporter sessionId
  if response.header.messageType ≠ .serverHello ∨ response.header.sessionId ≠ sessionId ∨
      response.header.sequenceNumber ≠ 1 ∨ hasFlag response.header.flags flagResponse = false then
    throw (.authentication "invalid server hello header")
  else do
    let (serverKey, _) ← serverHelloOf sign response.payload sessionId material clientNonce
      identity.publicKey
    if expectedServerIdentityKey.any (fun expected => serverKey ≠ expected) then
      throw (.authentication "server device identity key is not trusted")
    else return .start sessionId serverKey

/-- A server reads the client's hello, and answers it. -/
def answerClient (identity : DeviceIdentity sign) (material : FixedBytes 32)
    (expectedClientIdentityKey : Option (FixedBytes 32)) (sessionId : SessionId)
    (serverNonce : FixedBytes 32) (timestamp : Nat) (request : ParsedMessage) :
    Except ControlError (AuthenticatedControlChannel × ParsedMessage) := do
  let (clientKey, clientNonce) ← clientHelloOf sign request.payload sessionId material
  if expectedClientIdentityKey.any (fun expected => clientKey ≠ expected) then
    throw (.authentication "client device identity key is not trusted")
  else do
    let answer ← writeNew .serverHello flagResponse sessionId 1 timestamp
      (encodeServerHello identity sessionId material clientKey clientNonce serverNonce)
    return (.start sessionId clientKey, answer)

/-- `authenticate_server_inner`, on the message that was read. -/
def authenticateServer (identity : DeviceIdentity sign) (exporter : Exporter)
    (expectedClientIdentityKey : Option (FixedBytes 32)) (sessionId : SessionId)
    (serverNonce : FixedBytes 32) (timestamp : Nat) (request : ParsedMessage) :
    Except ControlError (AuthenticatedControlChannel × ParsedMessage) := do
  let material ← exportKeyingMaterial exporter sessionId
  if request.header.messageType ≠ .clientHello ∨ request.header.sessionId ≠ sessionId ∨
      request.header.sequenceNumber ≠ 1 ∨ hasFlag request.header.flags flagAckRequired = false then
    throw (.authentication "invalid client hello header")
  else
    answerClient identity material expectedClientIdentityKey sessionId serverNonce timestamp request

/-- `authenticate_server_discover_session_inner`: the session is the one that the client
names. -/
def authenticateServerDiscoverSession (identity : DeviceIdentity sign) (exporter : Exporter)
    (expectedClientIdentityKey : Option (FixedBytes 32)) (serverNonce : FixedBytes 32)
    (timestamp : Nat) (request : ParsedMessage) :
    Except ControlError (AuthenticatedControlChannel × ParsedMessage) :=
  if request.header.messageType ≠ .clientHello ∨ request.header.sequenceNumber ≠ 1 ∨
      hasFlag request.header.flags flagAckRequired = false then
    throw (.authentication "invalid client hello header")
  else do
    let material ← exportKeyingMaterial exporter request.header.sessionId
    answerClient identity material expectedClientIdentityKey request.header.sessionId serverNonce
      timestamp request

/-- A server is given a session, or takes the client's. -/
def authenticateServerIn (given : Option SessionId) (identity : DeviceIdentity sign)
    (exporter : Exporter) (expectedClientIdentityKey : Option (FixedBytes 32))
    (serverNonce : FixedBytes 32) (timestamp : Nat) (request : ParsedMessage) :
    Except ControlError (AuthenticatedControlChannel × ParsedMessage) :=
  match given with
  | some sessionId =>
      authenticateServer identity exporter expectedClientIdentityKey sessionId serverNonce timestamp
        request
  | none =>
      authenticateServerDiscoverSession identity exporter expectedClientIdentityKey serverNonce
        timestamp request

end

/-! ## After the hellos -/

namespace AuthenticatedControlChannel

variable (c : AuthenticatedControlChannel)

def takeSequence : AuthenticatedControlChannel × Except ControlError Nat :=
  if c.nextOutgoingSequence + 1 > u64Max then (c, .error .sequenceExhausted)
  else ({ c with nextOutgoingSequence := c.nextOutgoingSequence + 1 }, .ok c.nextOutgoingSequence)

/-- A message under the next number, which is used up when the message is refused as well. -/
def writeNext (messageType : MessageType) (flags timestamp : Nat) (payload : Bytes) :
    AuthenticatedControlChannel × Except ControlError ParsedMessage :=
  match c.takeSequence with
  | (c, .error error) => (c, .error error)
  | (c, .ok sequence) =>
      (c, writeNew messageType flags c.sessionId sequence timestamp payload)

/-- `send_control`, with the message that is written; it returns its number. -/
def sendControl (messageType : MessageType) (flags timestamp : Nat) (payload : Bytes) :
    AuthenticatedControlChannel × Except ControlError ParsedMessage :=
  if messageType.channel ≠ .control ∨ messageType = .clientHello ∨ messageType = .serverHello then
    (c, .error (.invalidAfterAuthentication messageType))
  else c.writeNext messageType flags timestamp payload

/-- `read_control_message`, which is `receive_control`. -/
def readControlMessage (stream : Bytes) :
    AuthenticatedControlChannel × Except ControlError ParsedMessage × Bytes :=
  match readMessage stream with
  | (.error error, rest) => (c, .error (.ofStream error), rest)
  | (.ok message, rest) =>
      if message.header.sessionId ≠ c.sessionId then (c, .error .sessionChanged, rest)
      else if message.header.sequenceNumber ≤ c.lastIncomingSequence then
        (c, .error .duplicateOrOutOfOrder, rest)
      else ({ c with lastIncomingSequence := message.header.sequenceNumber }, .ok message, rest)

/-- `ping`, up to its request. -/
def pingRequest (nonce : FixedBytes 8) (timestamp : Nat) :
    AuthenticatedControlChannel × Except ControlError ParsedMessage :=
  c.writeNext .ping flagAckRequired timestamp nonce.val

/-- `ping`, on the message that was read. -/
def pingResponse (nonce : FixedBytes 8) (response : ParsedMessage) : Except ControlError Unit :=
  if response.header.messageType ≠ .pong ∨ hasFlag response.header.flags flagResponse = false ∨
      response.payload ≠ nonce.val then
    .error (.authentication "invalid ping response")
  else .ok ()

/-- `respond_to_ping`, on the message that was read. -/
def respondToPing (timestamp : Nat) (request : ParsedMessage) :
    AuthenticatedControlChannel × Except ControlError ParsedMessage :=
  if request.header.messageType ≠ .ping ∨ request.payload.length ≠ 8 then
    (c, .error (.authentication "expected a bounded ping request"))
  else c.writeNext .pong flagResponse timestamp request.payload

end AuthenticatedControlChannel

end HbbCommon.Transport
