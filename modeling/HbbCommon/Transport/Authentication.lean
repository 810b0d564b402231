import HbbCommon.Transport.Control

/-!
# Authentications at once

Any number of ends of honest devices authenticate at once, on connections that may lead to each
other or to anyone. The network gives an end any bytes to read. An end that accepts the other
knows its key; what is kept here is for whom, on which connection and with which nonces it did.
-/

namespace HbbCommon.Transport

open HbbCommon.Base

section

variable {σ : Type} (sign : Sign σ) (κ : Type)

/-- A client that said its hello. -/
structure ClientSession where
  identity : DeviceIdentity sign
  connection : κ
  sessionId : SessionId
  expected : Option (FixedBytes 32)
  nonce : FixedBytes 32

/-- A server that accepted a client, and answered. -/
structure ServerSession where
  identity : DeviceIdentity sign
  connection : κ
  sessionId : SessionId
  expected : Option (FixedBytes 32)
  nonce : FixedBytes 32
  clientKey : FixedBytes 32
  clientNonce : FixedBytes 32

structure Authentications where
  clients : List (ClientSession sign κ)
  servers : List (ServerSession sign κ)
  /-- the clients that accepted a server, by their number, with its key -/
  accepted : List (Nat × FixedBytes 32)

inductive AuthenticationAction
  | authenticateClient (client : ClientSession sign κ) (timestamp : UInt64)
  | authenticateServer (identity : DeviceIdentity sign) (connection : κ)
      (sessionId : Option SessionId) (expected : Option (FixedBytes 32)) (nonce : FixedBytes 32)
      (timestamp : UInt64) (stream : Bytes)
  | finishClient (i : Nat) (stream : Bytes)

end

section

variable {σ κ : Type} {sign : Sign σ} (exporter : κ → Exporter)

/-- A server reads a request and answers it. -/
def serverSession (identity : DeviceIdentity sign) (connection : κ) (sessionId : Option SessionId)
    (expected : Option (FixedBytes 32)) (nonce : FixedBytes 32) (timestamp : UInt64)
    (request : ParsedMessage) : Except ControlError (ServerSession sign κ) := do
  let (channel, _) ← authenticateServerIn sessionId identity (exporter connection) expected nonce
    timestamp.toNat request
  let material ← exportKeyingMaterial (exporter connection) channel.sessionId
  let (_, clientNonce) ← clientHelloOf sign request.payload channel.sessionId material
  return { identity, connection, sessionId := channel.sessionId, expected, nonce
           clientKey := channel.peerIdentityKey, clientNonce }

/-- An end that refuses leaves nothing. -/
def Authentications.step (s : Authentications sign κ) :
    AuthenticationAction sign κ → Option (Authentications sign κ)
  | .authenticateClient client timestamp =>
      match clientHello client.identity (exporter client.connection) client.sessionId client.nonce
          timestamp.toNat with
      | .ok _ => some { s with clients := s.clients ++ [client] }
      | .error _ => some s
  | .authenticateServer identity connection sessionId expected nonce timestamp stream =>
      match (readHandshakeMessage stream .clientHello).1 with
      | .error _ => some s
      | .ok request =>
          match serverSession exporter identity connection sessionId expected nonce timestamp
              request with
          | .error _ => some s
          | .ok server => some { s with servers := s.servers ++ [server] }
  | .finishClient i stream =>
      match s.clients[i]? with
      | none => none
      | some client =>
          if i ∈ s.accepted.map Prod.fst then none
          else
            match (readHandshakeMessage stream .serverHello).1 with
            | .error _ => some s
            | .ok response =>
                match authenticateClient client.identity (exporter client.connection)
                    client.expected client.sessionId client.nonce response with
                | .error _ => some s
                | .ok channel =>
                    some { s with accepted := s.accepted ++ [(i, channel.peerIdentityKey)] }

end

end HbbCommon.Transport
