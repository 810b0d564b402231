import HbbCommon.Base.OrdMap
import HbbCommon.Base.TSys

/-!
# The registry of WebRTC sessions

`WebRTCStream::new` looks for a session of the remote offer, and when there is none it makes a
peer connection, sets its descriptions and looks again before it registers the session. Each
of the two sections holds the lock of `SESSIONS`; between them other calls and the callbacks
of other connections run.

A callback that finds its connection ended removes the session under the key of the
connection's description. Connections are numbered in the order of their creation.
-/

namespace HbbCommon.Connect

open HbbCommon.Base

/-- The fingerprint of a session description. -/
abbrev SdpKey := List Char

structure PeerConnection where
  /-- the key of the description that the clean-up reads: the local one when the connection
  was started with a local offer, the remote one otherwise -/
  key : SdpKey
  /-- this description is set, and has a fingerprint -/
  described : Bool
  /-- it became disconnected, failed or closed -/
  ended : Bool
  /-- state changes whose callback has not run -/
  pending : Nat
  /-- a callback has run -/
  cleaned : Bool
  /-- its `new` has returned -/
  returned : Bool
  deriving DecidableEq, Repr

structure WebRtcRun where
  sessions : OrdMap SdpKey Nat
  connections : OrdMap Nat PeerConnection
  created : Nat
  /-- the connections whose sessions were removed, each with the one whose callback did it -/
  removed : List (Nat × Nat)
  deriving DecidableEq

inductive WebRtcAction
  /-- the lookup of `new`: the key of the remote offer, if there is one, and the key of the
  local offer that is made otherwise -/
  | lookup (remoteOffer : Option SdpKey) (localOffer : SdpKey)
  | describe (n : Nat)
  /-- the final lookup of `new`, with the insertion -/
  | finish (n : Nat)
  /-- `new` returns an error -/
  | abort (n : Nat)
  | ends (n : Nat)
  | callback (n : Nat)
  deriving DecidableEq, Repr

namespace WebRtcRun

def new : WebRtcRun := { sessions := ∅, connections := ∅, created := 0, removed := [] }

/-- What the lookup of `new` returns: no session is looked for without a remote offer. -/
def cached (s : WebRtcRun) (remoteOffer : Option SdpKey) : Option Nat :=
  let key := remoteOffer.getD []
  if key.isEmpty then none else s.sessions.get? key

def create (s : WebRtcRun) (key : SdpKey) : WebRtcRun :=
  { s with
    connections := s.connections.insert s.created
      { key := key, described := false, ended := false, pending := 0, cleaned := false
        returned := false }
    created := s.created + 1 }

def setConnection (s : WebRtcRun) (n : Nat) (c : PeerConnection) : WebRtcRun :=
  { s with connections := s.connections.insert n c }

/-- The final section: a connection that finds another session is closed. -/
def finishConnection (s : WebRtcRun) (n : Nat) (c : PeerConnection) : WebRtcRun :=
  match s.sessions.get? c.key with
  | some _ =>
      s.setConnection n { c with ended := true, pending := c.pending + 1, returned := true }
  | none =>
      { s.setConnection n { c with returned := true } with
        sessions := s.sessions.insert c.key n }

/-- The clean-up of a callback. Without a description it removes the sessions of the
connection. -/
def cleanUp (s : WebRtcRun) (n : Nat) (c : PeerConnection) : WebRtcRun :=
  let s := s.setConnection n { c with pending := c.pending - 1, cleaned := true }
  if c.described then
    { s with
      sessions := s.sessions.erase c.key
      removed := s.removed ++ (s.sessions.get? c.key).toList.map (fun m => (m, n)) }
  else
    { s with
      sessions := s.sessions.filter (fun _ m => m != n)
      removed := s.removed ++
        (s.sessions.filter (fun _ m => m == n)).entries.map (fun entry => (entry.2, n)) }

def step (s : WebRtcRun) : WebRtcAction → Option WebRtcRun
  | .lookup remoteOffer localOffer =>
      match s.cached remoteOffer with
      | some _ => some s
      | none => some (s.create (remoteOffer.getD localOffer))
  | .describe n =>
      match s.connections.get? n with
      | some c => if c.returned then none else some (s.setConnection n { c with described := true })
      | none => none
  | .finish n =>
      match s.connections.get? n with
      | some c => if c.described && !c.returned then some (s.finishConnection n c) else none
      | none => none
  | .abort n =>
      match s.connections.get? n with
      | some c => if c.returned then none else some (s.setConnection n { c with returned := true })
      | none => none
  | .ends n =>
      match s.connections.get? n with
      | some c => some (s.setConnection n { c with ended := true, pending := c.pending + 1 })
      | none => none
  | .callback n =>
      match s.connections.get? n with
      | some c => if 0 < c.pending then some (s.cleanUp n c) else none
      | none => none

def system : TSys WebRtcRun WebRtcAction where
  init := new
  step := step

end WebRtcRun

end HbbCommon.Connect
