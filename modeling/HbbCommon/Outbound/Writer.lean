import HbbCommon.Base.Notify
import HbbCommon.Outbound.Queue

/-!
# The writer of a duplex stream

`run_stream_writer` takes one message after another from the queue and hands it to the
transport. The calls of `DuplexStream` change the queue under its lock and notify the writer
after they have released it, so another task may run between the two. A call that is between
them is counted in `notifying` or `closing`.

A send may succeed, fail or time out. After one that does not succeed the writer resolves its
completion, fails everything that is pending and stops.
-/

namespace HbbCommon.Outbound

open HbbCommon.Base
open HbbCommon.Transport (Bytes)

namespace OutboundState

/-- The messages `fail_pending` takes out of the deque. -/
def entryMessage : OutboundEntry → Option OutboundMessage
  | .reliable message => some message
  | .video _ _ message => some message
  | .latest _ => none

/-- What `fail_pending` resolves: the messages of the deque, then those of the map. -/
def pendingMessages (s : OutboundState) : List OutboundMessage :=
  s.entries.filterMap entryMessage ++ s.latest.entries.map Prod.snd

def failPending (s : OutboundState) : OutboundState :=
  { s with closed := true, entries := [], latest := ∅ }

end OutboundState

/-- The calls of `DuplexStream` that enqueue a message. -/
inductive DuplexCall
  | enqueue (bytes : Bytes) (kind : String) (encrypt : Bool)
  | enqueueBarrier (bytes : Bytes) (kind : String)
  | enqueueLatest (key : Nat) (bytes : Bytes) (kind : String)
  | enqueueVideo (display : Int) (key : Nat) (bytes : Bytes) (kind : String)
  | enqueueAndWait (bytes : Bytes) (kind : String)
  deriving DecidableEq, Repr

/-- The message of a call; `sender` is the completion that `enqueue_and_wait` creates. -/
def DuplexCall.message (sender : Nat) : DuplexCall → OutboundMessage
  | .enqueue bytes kind encrypt =>
      { bytes := bytes, kind := kind, encrypt := encrypt, completion := none }
  | .enqueueBarrier bytes kind =>
      { bytes := bytes, kind := kind, encrypt := true, completion := none }
  | .enqueueLatest _ bytes kind =>
      { bytes := bytes, kind := kind, encrypt := true, completion := none }
  | .enqueueVideo _ _ bytes kind =>
      { bytes := bytes, kind := kind, encrypt := true, completion := none }
  | .enqueueAndWait bytes kind =>
      { bytes := bytes, kind := kind, encrypt := true, completion := some sender }

/-- The part of a call that holds the lock. -/
def DuplexCall.apply (q : OutboundState) (message : OutboundMessage) :
    DuplexCall → OutboundState × EnqueueResult
  | .enqueue .. => q.enqueue message
  | .enqueueBarrier .. => q.enqueueBarrier message
  | .enqueueLatest key .. => q.enqueueLatest key message
  | .enqueueVideo display key .. => q.enqueueVideo display key message
  | .enqueueAndWait .. => q.enqueue message

inductive SendOutcome
  | written
  | failed
  | timedOut
  deriving DecidableEq, Repr

/-- Where the writer is. -/
inductive WriterState
  /-- at the head of the loop of `dequeue` -/
  | idle
  /-- it has its `Notified`, and takes the lock next -/
  | checking
  /-- it found nothing, and waits for its `Notified` -/
  | awaiting
  /-- it has a message that it has not handed to the transport -/
  | taken (message : OutboundMessage)
  | sending (message : OutboundMessage)
  /-- a send did not succeed, `fail_pending` comes next -/
  | failing
  | stopped (failed : Bool)
  deriving DecidableEq, Repr

/-- The message of the writer. -/
def WriterState.message : WriterState → Option OutboundMessage
  | .taken message | .sending message => some message
  | _ => none

structure DuplexRun where
  queue : OutboundState
  notify : Notify
  writer : WriterState
  /-- calls that have enqueued a message and have yet to notify -/
  notifying : Nat
  /-- calls that have closed the queue and have yet to notify -/
  closing : Nat
  /-- the completions that `enqueue_and_wait` has created -/
  senders : Nat
  accepted : List OutboundMessage
  dequeued : List OutboundMessage
  /-- the messages the transport is done with -/
  finished : List (OutboundMessage × SendOutcome)
  /-- the completions that were sent; `true` is `Ok(())` -/
  resolved : List (Nat × Bool)
  deriving DecidableEq

inductive DuplexAction
  | call (call : DuplexCall)
  | notifyOne
  | close
  | notifyWaiters
  | notified
  | check
  | poll
  | send
  | sent (outcome : SendOutcome)
  | failPending
  deriving DecidableEq, Repr

namespace DuplexRun

def new (capacity : Nat) : DuplexRun :=
  { queue := .new capacity, notify := .new, writer := .idle, notifying := 0, closing := 0
    senders := 0, accepted := [], dequeued := [], finished := [], resolved := [] }

/-- A call is accepted, and notifies only when it made a new entry. -/
def callStep (s : DuplexRun) (call : DuplexCall) : DuplexRun :=
  let message := call.message s.senders
  let (queue, result) := call.apply s.queue message
  { s with
    queue := queue
    senders := s.senders + 1
    notifying := match result with
      | .pushed => s.notifying + 1
      | .replaced | .refused _ => s.notifying
    accepted := match result with
      | .pushed | .replaced => s.accepted ++ [message]
      | .refused _ => s.accepted }

/-- The part of a round of `dequeue` that holds the lock. -/
def checkStep (s : DuplexRun) : DuplexRun :=
  let (queue, result) := s.queue.dequeue
  match result with
  | some item =>
      { s with
        queue := queue
        notify := s.notify.drop
        writer := .taken item.2
        dequeued := s.dequeued ++ [item.2] }
  | none =>
      if queue.closed then
        { s with queue := queue, notify := s.notify.drop, writer := .stopped false }
      else { s with queue := queue, writer := .awaiting }

def resolve (ok : Bool) (message : OutboundMessage) : List (Nat × Bool) :=
  (message.completion.map (fun sender => (sender, ok))).toList

def sentStep (s : DuplexRun) (message : OutboundMessage) (outcome : SendOutcome) : DuplexRun :=
  { s with
    writer := if outcome = .written then .idle else .failing
    finished := s.finished ++ [(message, outcome)]
    resolved := s.resolved ++ resolve (decide (outcome = .written)) message }

def failStep (s : DuplexRun) : DuplexRun :=
  { s with
    queue := s.queue.failPending
    notify := s.notify.notifyWaiters
    writer := .stopped true
    resolved := s.resolved ++ s.queue.pendingMessages.flatMap (resolve false) }

def step (s : DuplexRun) : DuplexAction → Option DuplexRun
  | .call call => some (s.callStep call)
  | .notifyOne =>
      if 0 < s.notifying then
        some { s with notify := s.notify.notifyOne, notifying := s.notifying - 1 }
      else none
  | .close => some { s with queue := s.queue.close, closing := s.closing + 1 }
  | .notifyWaiters =>
      if 0 < s.closing then
        some { s with notify := s.notify.notifyWaiters, closing := s.closing - 1 }
      else none
  | .notified =>
      match s.writer with
      | .idle => some { s with notify := s.notify.notified, writer := .checking }
      | _ => none
  | .check =>
      match s.writer with
      | .checking => some s.checkStep
      | _ => none
  | .poll =>
      match s.writer with
      | .awaiting =>
          let (notify, completed) := s.notify.poll
          some { s with notify := notify, writer := if completed then .idle else .awaiting }
      | _ => none
  | .send =>
      match s.writer with
      | .taken message => some { s with writer := .sending message }
      | _ => none
  | .sent outcome =>
      match s.writer with
      | .sending message => some (s.sentStep message outcome)
      | _ => none
  | .failPending =>
      match s.writer with
      | .failing => some s.failStep
      | _ => none

def system (capacity : Nat) : TSys DuplexRun DuplexAction where
  init := .new capacity
  step := step

/-- The writer waits, and nothing has woken it. -/
def Parked (s : DuplexRun) : Prop := s.writer = .awaiting ∧ s.notify.ready = false

instance (s : DuplexRun) : Decidable s.Parked :=
  inferInstanceAs (Decidable (_ ∧ _))

/-- What the transport was given, in order: what it is done with and what it is sending. -/
def handed (s : DuplexRun) : List OutboundMessage :=
  s.finished.map Prod.fst ++ (match s.writer with
    | .sending message => [message]
    | _ => [])

end DuplexRun

end HbbCommon.Outbound
