import HbbCommon.Base.OrdMap
import HbbCommon.Base.TSys
import HbbCommon.Transport.Video.Types

/-!
# The outbound queue of a duplex stream

`OutboundQueue` holds the messages that the writer of a stream has still to send. A reliable
message and a video frame are in the deque themselves. A replaceable message is split: its
place is in the deque, its newest content in a map under its key and the generation in which
it was first enqueued. A barrier starts a new generation, so that nothing behind it replaces
what is in front of it.

The functions here are the parts of the methods that hold the lock.
-/

namespace HbbCommon.Outbound

open HbbCommon.Base
open HbbCommon.Transport (Bytes)

structure OutboundMessage where
  bytes : Bytes
  kind : String
  encrypt : Bool
  /-- the sender that `enqueue_and_wait` waits for -/
  completion : Option Nat
  deriving DecidableEq, Repr

/-- A key and the generation it was enqueued in. -/
abbrev LatestKey := Nat ×ₗ Nat

inductive OutboundEntry
  | reliable (message : OutboundMessage)
  | latest (key : LatestKey)
  | video (display : Int) (key : Nat) (message : OutboundMessage)
  deriving DecidableEq

def maxPendingVideoTracks : Nat := 16

def maxVideoFrameBytes : Nat := 16 * 1024 * 1024

def maxPendingVideoBytes : Nat := 64 * 1024 * 1024

/-- The largest `u64`. -/
def counterMax : Nat := 2 ^ 64 - 1

structure OutboundState where
  entries : List OutboundEntry
  latest : OrdMap LatestKey OutboundMessage
  latestGeneration : Nat
  capacity : Nat
  closed : Bool
  latestReplacements : Nat
  rejectedMessages : Nat
  deriving DecidableEq

inductive EnqueueError
  | closed
  | full
  | obsoleteVideo
  | videoBudget
  deriving DecidableEq, Repr

/-- What a call did: only a new entry wakes the writer. -/
inductive EnqueueResult
  | pushed
  | replaced
  | refused (error : EnqueueError)
  deriving DecidableEq, Repr

namespace OutboundState

def new (capacity : Nat) : OutboundState :=
  { entries := [], latest := ∅, latestGeneration := 0, capacity := max capacity 1, closed := false
    latestReplacements := 0, rejectedMessages := 0 }

def reject (s : OutboundState) (error : EnqueueError) : OutboundState × EnqueueResult :=
  ({ s with rejectedMessages := min (s.rejectedMessages + 1) counterMax }, .refused error)

def pushBack (s : OutboundState) (entry : OutboundEntry) : OutboundState × EnqueueResult :=
  ({ s with entries := s.entries ++ [entry] }, .pushed)

def enqueue (s : OutboundState) (message : OutboundMessage) : OutboundState × EnqueueResult :=
  if s.closed then s.reject .closed
  else if s.entries.length ≥ s.capacity then s.reject .full
  else s.pushBack (.reliable message)

def enqueueBarrier (s : OutboundState) (message : OutboundMessage) :
    OutboundState × EnqueueResult :=
  if s.closed then s.reject .closed
  else if s.entries.length ≥ s.capacity then s.reject .full
  else { s with latestGeneration := (s.latestGeneration + 1) % 2 ^ 64 }.pushBack (.reliable message)

def generationKey (s : OutboundState) (key : Nat) : LatestKey := toLex (key, s.latestGeneration)

def enqueueLatest (s : OutboundState) (key : Nat) (message : OutboundMessage) :
    OutboundState × EnqueueResult :=
  if s.closed then s.reject .closed
  else if s.latest.contains (s.generationKey key) then
    ({ s with
        latest := s.latest.insert (s.generationKey key) message
        latestReplacements := min (s.latestReplacements + 1) counterMax }, .replaced)
  else if s.entries.length ≥ s.capacity then s.reject .full
  else
    { s with latest := s.latest.insert (s.generationKey key) message }.pushBack
      (.latest (s.generationKey key))

/-- A frame of this display with a newer stream than `key`. -/
def newerVideo (display : Int) (key : Nat) : OutboundEntry → Bool
  | .video d stream _ => decide (d = display ∧ stream > key)
  | _ => false

/-- A frame of this display with an older stream than `key`. -/
def olderVideo (display : Int) (key : Nat) : OutboundEntry → Bool
  | .video d stream _ => decide (d = display ∧ stream < key)
  | _ => false

/-- The pending frames: display, stream and number of bytes. -/
def videoEntries (s : OutboundState) : List (Int × Nat × Nat) :=
  s.entries.filterMap (fun
    | .video display key message => some (display, key, message.bytes.length)
    | _ => none)

def videoBytes (s : OutboundState) : Nat := (s.videoEntries.map (fun entry => entry.2.2)).sum

def retireVideo (s : OutboundState) (display : Int) (key : Nat) : OutboundState :=
  { s with entries := s.entries.filter (fun entry => !olderVideo display key entry) }

def enqueueVideo (s : OutboundState) (display : Int) (key : Nat) (message : OutboundMessage) :
    OutboundState × EnqueueResult :=
  if s.closed then s.reject .closed
  else if s.entries.any (newerVideo display key) then s.reject .obsoleteVideo
  else
    let s := s.retireVideo display key
    let occupied := s.videoEntries.any (fun entry => decide (entry.1 = display ∧ entry.2.1 = key))
    let tracks := s.videoEntries.length
    let bytes := message.bytes.length + s.videoBytes
    if occupied || tracks ≥ maxPendingVideoTracks || message.bytes.length > maxVideoFrameBytes ||
        bytes > maxPendingVideoBytes || s.entries.length ≥ s.capacity - 1 then
      s.reject .videoBudget
    else s.pushBack (.video display key message)

/-- What stands at a place of the deque, without its content. -/
inductive Place
  | reliable
  | latest (key : LatestKey)
  | video (display : Int) (key : Nat)
  deriving DecidableEq

def Place.olderVideo (display : Int) (key : Nat) : Place → Bool
  | .video d stream => decide (d = display ∧ stream < key)
  | _ => false

/-- The loop of `dequeue` over the deque: the message it returns, with its place. -/
def popFront (latest : OrdMap LatestKey OutboundMessage) :
    List OutboundEntry →
      List OutboundEntry × OrdMap LatestKey OutboundMessage × Option (Place × OutboundMessage)
  | [] => ([], latest, none)
  | .reliable message :: entries => (entries, latest, some (.reliable, message))
  | .video display key message :: entries => (entries, latest, some (.video display key, message))
  | .latest key :: entries =>
      match latest.get? key with
      | some message => (entries, latest.erase key, some (.latest key, message))
      | none => popFront latest entries

/-- One round of `dequeue`: `none` when there is nothing to send. -/
def dequeue (s : OutboundState) : OutboundState × Option (Place × OutboundMessage) :=
  let (entries, latest, result) := popFront s.latest s.entries
  ({ s with entries := entries, latest := latest }, result)

def close (s : OutboundState) : OutboundState := { s with closed := true }

/-- What an entry of the deque stands for. -/
def itemAt (latest : OrdMap LatestKey OutboundMessage) :
    OutboundEntry → Option (Place × OutboundMessage)
  | .reliable message => some (.reliable, message)
  | .video display key message => some (.video display key, message)
  | .latest key => (latest.get? key).map (fun message => (.latest key, message))

/-- What the places of the deque hold, in order. -/
def contents (s : OutboundState) : List (Place × OutboundMessage) :=
  s.entries.filterMap (itemAt s.latest)

end OutboundState

/-! ## Runs of calls -/

abbrev OutboundItem := OutboundState.Place × OutboundMessage

inductive OutboundCall
  | enqueue (message : OutboundMessage)
  | enqueueBarrier (message : OutboundMessage)
  | enqueueLatest (key : Nat) (message : OutboundMessage)
  | enqueueVideo (display : Int) (key : Nat) (message : OutboundMessage)
  | dequeue
  deriving DecidableEq, Repr

structure OutboundRun where
  queue : OutboundState
  /-- what was accepted, in order; `true` marks a barrier -/
  accepted : List (OutboundItem × Bool)
  dequeued : List OutboundItem
  /-- what was replaced or retired -/
  dropped : List OutboundItem
  deriving DecidableEq

namespace OutboundRun

open OutboundState (Place)

def new (capacity : Nat) : OutboundRun :=
  { queue := .new capacity, accepted := [], dequeued := [], dropped := [] }

/-- The history after a call that returned `result`: `item` is what it was given. -/
def record (s : OutboundRun) (queue : OutboundState) (result : EnqueueResult) (item : OutboundItem)
    (barrier : Bool) (dropped : List OutboundItem) : OutboundRun :=
  { s with
    queue := queue
    accepted := match result with
      | .pushed | .replaced => s.accepted ++ [(item, barrier)]
      | .refused _ => s.accepted
    dropped := s.dropped ++ dropped }

/-- What a message enqueued under `key` replaces. -/
def replacedBy (q : OutboundState) (key : Nat) : List OutboundItem :=
  if q.closed then []
  else ((q.latest.get? (q.generationKey key)).map (fun old =>
    (Place.latest (q.generationKey key), old))).toList

/-- What a frame of this stream retires. -/
def retiredBy (q : OutboundState) (display : Int) (key : Nat) : List OutboundItem :=
  if q.closed || q.entries.any (OutboundState.newerVideo display key) then []
  else q.contents.filter (fun item => item.1.olderVideo display key)

def step (s : OutboundRun) : OutboundCall → Option OutboundRun
  | .enqueue message =>
      let (queue, result) := s.queue.enqueue message
      some (s.record queue result (.reliable, message) false [])
  | .enqueueBarrier message =>
      let (queue, result) := s.queue.enqueueBarrier message
      some (s.record queue result (.reliable, message) true [])
  | .enqueueLatest key message =>
      let (queue, result) := s.queue.enqueueLatest key message
      some (s.record queue result (.latest (s.queue.generationKey key), message) false
        (replacedBy s.queue key))
  | .enqueueVideo display key message =>
      let (queue, result) := s.queue.enqueueVideo display key message
      some (s.record queue result (.video display key, message) false
        (retiredBy s.queue display key))
  | .dequeue =>
      let (queue, result) := s.queue.dequeue
      some { s with queue := queue, dequeued := s.dequeued ++ result.toList }

def system (capacity : Nat) : TSys OutboundRun OutboundCall where
  init := .new capacity
  step := step

/-- The items in the order in which they leave the queue: those that have left it and those
that are in it. -/
def line (s : OutboundRun) : List OutboundItem := s.dequeued ++ s.queue.contents

end OutboundRun

end HbbCommon.Outbound
