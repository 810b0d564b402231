import HbbCommon.Tcp.Reception

/-!
# WebSocket streams

`WsFramedStream` and the halves that `into_split` makes of it. A message is sent as one
binary message; `next` takes messages off the socket until one of them ends the call: it
opens binary messages, hands on text messages and passes over control messages. The
stream and its read half have the same loop.
-/

namespace HbbCommon.Tcp

open HbbCommon.Base
open HbbCommon.Transport (Bytes)

/-- `tungstenite::protocol::Message`. -/
inductive WsMessage
  | text (text : String)
  | binary (data : Bytes)
  | ping (data : Bytes)
  | pong (data : Bytes)
  | close
  deriving DecidableEq, Repr

/-- What the socket yields to the loop: a message, an error, or the end. -/
inductive WsEvent
  | message (msg : WsMessage)
  | error
  | ended
  deriving DecidableEq, Repr

/-- The result of a call of `next` on what has arrived. -/
inductive WsNext
  | pending
  | item (bytes : Bytes)
  | protocolError
  | decryptError (error : DecryptError)
  | ended
  deriving DecidableEq, Repr

/-- `text.as_bytes()`. -/
def textBytes (text : String) : Bytes := text.toUTF8.toList

/-- The loop of `next`: `key` is the key of the stream or of the read half. -/
def wsNext (box : Secretbox) (key : Option Encrypt) :
    List WsEvent → Option Encrypt × List WsEvent × WsNext
  | [] => (key, [], .pending)
  | .error :: events => (key, events, .protocolError)
  | .ended :: events => (key, events, .ended)
  | .message (.binary data) :: events =>
      match key with
      | none => (none, events, .item data)
      | some key =>
          match key.dec box data with
          | (key, .ok bytes) => (some key, events, .item bytes)
          | (key, .error error) => (some key, events, .decryptError error)
  | .message (.text text) :: events => (key, events, .item (textBytes text))
  | .message .close :: events => (key, events, .ended)
  | .message (.ping _) :: events | .message (.pong _) :: events => wsNext box key events

structure WsReadHalf where
  decrypt : Option Encrypt
  deriving DecidableEq

def WsReadHalf.next (box : Secretbox) (r : WsReadHalf) (events : List WsEvent) :
    WsReadHalf × List WsEvent × WsNext :=
  let (decrypt, events, result) := wsNext box r.decrypt events
  ({ decrypt := decrypt }, events, result)

structure WsWriteHalf where
  encrypt : Option Encrypt
  deriving DecidableEq

/-- The message that `send_bytes` writes. -/
def wsSendBytes (bytes : Bytes) : WsMessage := .binary bytes

def WsWriteHalf.sendRaw (box : Secretbox) (w : WsWriteHalf) (msg : Bytes) :
    WsWriteHalf × WsMessage :=
  match w.encrypt with
  | some key =>
      let (key, msg) := key.enc box msg
      ({ encrypt := some key }, wsSendBytes msg)
  | none => (w, wsSendBytes msg)

structure WsFramedStream where
  encrypt : Option Encrypt
  deriving DecidableEq

namespace WsFramedStream

def new : WsFramedStream := { encrypt := none }

def setKeyWithMode (_ : WsFramedStream) (key : Key) (mode : NonceMode) : WsFramedStream :=
  { encrypt := some (.withMode key mode) }

def sendRaw (box : Secretbox) (s : WsFramedStream) (msg : Bytes) : WsFramedStream × WsMessage :=
  match s.encrypt with
  | some key =>
      let (key, msg) := key.enc box msg
      ({ encrypt := some key }, wsSendBytes msg)
  | none => (s, wsSendBytes msg)

def next (box : Secretbox) (s : WsFramedStream) (events : List WsEvent) :
    WsFramedStream × List WsEvent × WsNext :=
  let (encrypt, events, result) := wsNext box s.encrypt events
  ({ encrypt := encrypt }, events, result)

def intoSplit (s : WsFramedStream) : WsReadHalf × WsWriteHalf :=
  ({ decrypt := s.encrypt }, { encrypt := s.encrypt })

end WsFramedStream

inductive WsEndpoint
  | joined (stream : WsFramedStream)
  | split (read : WsReadHalf) (write : WsWriteHalf)
  deriving DecidableEq

namespace WsEndpoint

/-- The counters that messages are opened with. -/
def decrypt : WsEndpoint → Option Encrypt
  | .joined stream => stream.encrypt
  | .split read _ => read.decrypt

/-- The counters that messages are sealed with. -/
def encrypt : WsEndpoint → Option Encrypt
  | .joined stream => stream.encrypt
  | .split _ write => write.encrypt

def sendRaw (box : Secretbox) (msg : Bytes) : WsEndpoint → WsEndpoint × WsMessage
  | .joined stream =>
      let (stream, message) := stream.sendRaw box msg
      (.joined stream, message)
  | .split read write =>
      let (write, message) := write.sendRaw box msg
      (.split read write, message)

def next (box : Secretbox) (events : List WsEvent) :
    WsEndpoint → WsEndpoint × List WsEvent × WsNext
  | .joined stream =>
      let (stream, events, result) := stream.next box events
      (.joined stream, events, result)
  | .split read write =>
      let (read, events, result) := read.next box events
      (.split read write, events, result)

end WsEndpoint

/-! ## Reception under an adversary -/

inductive WsReceptionAction
  | peerSeals (msg : Bytes)
  | sendRaw (msg : Bytes)
  /-- a message of the network's choice, an error of the socket, or its end -/
  | deliver (event : WsEvent)
  | next
  | intoSplit
  deriving DecidableEq, Repr

structure WsReception where
  endpoint : WsEndpoint
  /-- what the socket has and `next` has not taken, oldest first -/
  events : List WsEvent
  session : Session
  deriving DecidableEq

namespace WsReception

def next (box : Secretbox) (s : WsReception) : WsReception :=
  let (endpoint, events, result) := s.endpoint.next box s.events
  let s := { s with endpoint := endpoint, events := events }
  match result with
  | .item bytes => { s with session := s.session.returns bytes }
  | .protocolError | .decryptError _ => { s with session := s.session.fails }
  | .pending | .ended => s

def step (box : Secretbox) (s : WsReception) : WsReceptionAction → Option WsReception
  | .peerSeals msg => some { s with session := s.session.peerSeals box msg }
  | .sendRaw msg =>
      let (endpoint, _) := s.endpoint.sendRaw box msg
      some { s with endpoint := endpoint, session := s.session.seals endpoint.encrypt msg }
  | .deliver event => some { s with events := s.events ++ [event] }
  | .next => if s.session.failed then none else some (s.next box)
  | .intoSplit =>
      match s.endpoint with
      | .joined stream =>
          let (read, write) := stream.intoSplit
          some { s with endpoint := .split read write }
      | .split _ _ => none

/-- Messages may have arrived before the key was set. -/
def system (box : Secretbox) (events : List WsEvent) (key : Key) (role : SessionRole) :
    TSys WsReception WsReceptionAction where
  init :=
    { endpoint := .joined (WsFramedStream.new.setKeyWithMode key (.directional role))
      events := events, session := .new key role }
  step := step box

/-- The event that a call of `next` ends with: the first that is not passed over. -/
def decisive : List WsEvent → Option WsEvent
  | [] => none
  | .message (.ping _) :: events | .message (.pong _) :: events => decisive events
  | event :: _ => some event

def binaryData : WsEvent → Option Bytes
  | .message (.binary data) => some data
  | _ => none

def isText : WsEvent → Bool
  | .message (.text _) => true
  | _ => false

/-- A binary message that a step opens was sealed by one of the two ends. -/
def Unforged (box : Secretbox) (key : Key) (s : WsReception) : WsReceptionAction → Prop
  | .next => ∀ data ∈ (decisive s.events).bind binaryData, ∀ k ∈ s.endpoint.decrypt,
      Genuine box key s.session.log data k.recvNonce
  | _ => True

instance (box : Secretbox) (key : Key) (s : WsReception) : ∀ a, Decidable (Unforged box key s a)
  | .next => inferInstanceAs (Decidable (∀ data ∈ (decisive s.events).bind binaryData, _))
  | .peerSeals _ | .sendRaw _ | .deliver _ | .intoSplit => .isTrue trivial

/-- A call of `next` does not end with a text message. -/
def NoText (s : WsReception) : WsReceptionAction → Prop
  | .next => (decisive s.events).any isText = false
  | _ => True

instance (s : WsReception) : ∀ a, Decidable (NoText s a)
  | .next => inferInstanceAs (Decidable (_ = false))
  | .peerSeals _ | .sendRaw _ | .deliver _ | .intoSplit => .isTrue trivial

end WsReception

end HbbCommon.Tcp
