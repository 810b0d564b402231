import HbbCommon.Transport.Control
import HbbCommon.Transport.Logic.ReliableFraming

/-!
# Two ends of a control channel

The client opens the stream with its hello, the server answers, and then each end calls what it
likes. What one end writes the other reads, in order; an end waits while there is nothing to read.
A ping is waited for: until its answer was read the end does nothing else.
-/

namespace HbbCommon.Transport

open HbbCommon.Base

/-- What an end is doing. -/
inductive EndPhase
  | start
  | waiting (clientNonce : FixedBytes 32)
  | ready (channel : AuthenticatedControlChannel) (ping : Option (FixedBytes 8))
  | failed (error : ControlError)

/-- An end, with what it wrote and read so far. -/
structure ControlEnd where
  phase : EndPhase
  sent : List ParsedMessage
  received : List ParsedMessage
  /-- the errors of reads behind the hellos -/
  readErrors : List ControlError
  /-- the results of its pings -/
  pings : List (Except ControlError Unit)
  /-- what is to be read -/
  stream : Bytes

def ControlEnd.new : ControlEnd :=
  { phase := .start, sent := [], received := [], readErrors := [], pings := [], stream := [] }

inductive ControlCall
  | sendControl (messageType : MessageType) (flags : UInt16) (payload : Bytes)
  | receiveControl
  | ping (nonce : FixedBytes 8)
  | pingResponse
  | respondToPing

namespace ControlEnd

variable (e : ControlEnd)

/-- A message is read when there is something to read. -/
def read (channel : AuthenticatedControlChannel) :
    Option (AuthenticatedControlChannel × Except ControlError ParsedMessage × ControlEnd) :=
  if e.stream = [] then none
  else
    match channel.readControlMessage e.stream with
    | (channel, .ok message, rest) =>
        some (channel, .ok message, { e with stream := rest, received := e.received ++ [message] })
    | (channel, .error error, rest) =>
        some (channel, .error error,
          { e with stream := rest, readErrors := e.readErrors ++ [error] })

/-- The channel and what it wrote are kept. -/
def wrote (ping : Option (FixedBytes 8))
    (result : AuthenticatedControlChannel × Except ControlError ParsedMessage) :
    ControlEnd × List ParsedMessage :=
  match result with
  | (channel, .ok message) =>
      ({ e with phase := .ready channel ping, sent := e.sent ++ [message] }, [message])
  | (channel, .error _) => ({ e with phase := .ready channel none }, [])

def call (timestamp : UInt64) (call : ControlCall) : Option (ControlEnd × List ParsedMessage) :=
  match e.phase, call with
  | .ready channel none, .sendControl messageType flags payload =>
      some (e.wrote none
        (channel.sendControl messageType flags.toNat timestamp.toNat payload))
  | .ready channel none, .receiveControl =>
      match e.read channel with
      | none => none
      | some (channel, _, e) => some ({ e with phase := .ready channel none }, [])
  | .ready channel none, .ping nonce =>
      some (e.wrote (some nonce) (channel.pingRequest nonce timestamp.toNat))
  | .ready channel (some nonce), .pingResponse =>
      match e.read channel with
      | none => none
      | some (channel, result, e) =>
          let ping := result.bind (AuthenticatedControlChannel.pingResponse nonce)
          some ({ e with phase := .ready channel none, pings := e.pings ++ [ping] }, [])
  | .ready channel none, .respondToPing =>
      match e.read channel with
      | none => none
      | some (channel, .ok request, e) =>
          some (e.wrote none (channel.respondToPing timestamp.toNat request))
      | some (channel, .error _, e) => some ({ e with phase := .ready channel none }, [])
  | _, _ => none

/-- Messages of the other end arrive. -/
def arrived (messages : List ParsedMessage) : ControlEnd :=
  { e with stream := e.stream ++ (messages.map ParsedMessage.bytes).flatten }

end ControlEnd

structure ControlPair where
  client : ControlEnd
  server : ControlEnd

/-- What the two ends were started with; a server without a session takes the client's. -/
structure ControlSetup {σ : Type} (sign : Sign σ) where
  client : DeviceIdentity sign
  server : DeviceIdentity sign
  exporter : Exporter
  sessionId : SessionId
  serverSession : Option SessionId
  expectedServer : Option (FixedBytes 32)
  expectedClient : Option (FixedBytes 32)

inductive PairAction
  | authenticateClient (nonce : FixedBytes 32) (timestamp : UInt64)
  | authenticateServer (nonce : FixedBytes 32) (timestamp : UInt64)
  | finishClient
  | client (call : ControlCall) (timestamp : UInt64)
  | server (call : ControlCall) (timestamp : UInt64)

namespace ControlSetup

variable {σ : Type} {sign : Sign σ} (setup : ControlSetup sign)

def answer (nonce : FixedBytes 32) (timestamp : UInt64) (request : ParsedMessage) :
    Except ControlError (AuthenticatedControlChannel × ParsedMessage) :=
  authenticateServerIn setup.serverSession setup.server setup.exporter setup.expectedClient nonce
    timestamp.toNat request

def startClient (nonce : FixedBytes 32) (timestamp : UInt64) (s : ControlPair) :
    Option ControlPair :=
  match s.client.phase with
  | .start =>
      match clientHello setup.client setup.exporter setup.sessionId nonce timestamp.toNat with
      | .error error => some { s with client := { s.client with phase := .failed error } }
      | .ok hello =>
          some
            { client := { s.client with phase := .waiting nonce, sent := s.client.sent ++ [hello] }
              server := s.server.arrived [hello] }
  | _ => none

/-- A server that was given a session exports before it reads. -/
def startServer (nonce : FixedBytes 32) (timestamp : UInt64) (s : ControlPair) :
    Option ControlPair :=
  match s.server.phase with
  | .start =>
      match setup.serverSession.map (exportKeyingMaterial setup.exporter) with
      | some (.error error) => some { s with server := { s.server with phase := .failed error } }
      | _ =>
          if s.server.stream = [] then none
          else
            match readHandshakeMessage s.server.stream .clientHello with
            | (.error error, rest) =>
                some { s with server := { s.server with phase := .failed error, stream := rest } }
            | (.ok request, rest) =>
                let server :=
                  { s.server with stream := rest, received := s.server.received ++ [request] }
                match setup.answer nonce timestamp request with
                | .error error => some { s with server := { server with phase := .failed error } }
                | .ok (channel, answer) =>
                    some
                      { client := s.client.arrived [answer]
                        server :=
                          { server with
                            phase := .ready channel none
                            sent := server.sent ++ [answer] } }
  | _ => none

def finishClient (s : ControlPair) : Option ControlPair :=
  match s.client.phase with
  | .waiting nonce =>
      if s.client.stream = [] then none
      else
        match readHandshakeMessage s.client.stream .serverHello with
        | (.error error, rest) =>
            some { s with client := { s.client with phase := .failed error, stream := rest } }
        | (.ok response, rest) =>
            let client :=
              { s.client with stream := rest, received := s.client.received ++ [response] }
            match authenticateClient setup.client setup.exporter setup.expectedServer
                setup.sessionId nonce response with
            | .error error => some { s with client := { client with phase := .failed error } }
            | .ok channel => some { s with client := { client with phase := .ready channel none } }
  | _ => none

def step (s : ControlPair) : PairAction → Option ControlPair
  | .authenticateClient nonce timestamp => setup.startClient nonce timestamp s
  | .authenticateServer nonce timestamp => setup.startServer nonce timestamp s
  | .finishClient => setup.finishClient s
  | .client call timestamp =>
      match s.client.call timestamp call with
      | none => none
      | some (client, messages) => some { client, server := s.server.arrived messages }
  | .server call timestamp =>
      match s.server.call timestamp call with
      | none => none
      | some (server, messages) => some { client := s.client.arrived messages, server }

/-- The runs of the two ends. -/
def pair : TSys ControlPair PairAction where
  init := { client := .new, server := .new }
  step := setup.step

end ControlSetup

end HbbCommon.Transport
