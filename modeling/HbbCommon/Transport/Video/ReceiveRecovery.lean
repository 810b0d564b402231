import HbbCommon.Transport.Video.SendRecovery

/-!
# Receiver-side reference recovery (`VideoReceiveRecovery`)

For every stream the receiver keeps the id of the last frame it accepted and
whether it waits for a keyframe. `observe` decides about one frame; a loss is
recorded by `mark_reference_loss` (all streams) or `mark_stream_reference_loss`
(one stream); `next_keyframe_request_with_recovery` decides whether a refresh is
asked for now, with a rate limit and a bounded back-off.

The stream table holds at most `maxVideoStreamStates` entries and evicts its
first entry in key order. The two request tables are keyed by the stream in
scoped mode and by `legacyKey` in legacy mode.
-/

namespace HbbCommon.Transport

open HbbCommon.Base

def videoKeyframeRequestMinInterval : Time := secs 1

def videoKeyframeRetryInitialDelay : Time := secs 1

def videoKeyframeRetryMaxAttempts : Nat := 3

def videoKeyframeRecoveryCycleCooldown : Time := secs 10

/-- The largest unsigned 8-bit value, the type of the retry counter. -/
def u8Max : Nat := 2 ^ 8 - 1

/-- The key of a keyframe request: `Some(stream)`, or `None`, which comes first in
the order. -/
abbrev RequestKey := WithBot VideoStreamKey

/-- The key of legacy requests, `None`. -/
def legacyKey : RequestKey := ⊥

structure VideoReceiveState where
  lastFrameId : Nat
  awaitingKeyframe : Bool
  codec : Option VideoCodec
  deriving DecidableEq, Repr

/-- `VideoReceiveState::default`. -/
def VideoReceiveState.default : VideoReceiveState :=
  { lastFrameId := 0, awaitingKeyframe := false, codec := none }

inductive VideoReceiveDecision
  | accept
  | acceptAfterGap
  | suppress
  | suppressAfterGap
  deriving DecidableEq, Repr

structure PendingVideoRecovery where
  source : Option VideoSourceInfo
  requestedAt : Time
  retries : Nat
  strictRecovery : Bool
  deriving DecidableEq, Repr

inductive VideoKeyframeRequest
  | legacy
  | scopedTo (refresh : VideoReferenceRefresh)
  deriving DecidableEq, Repr

structure VideoReceiveRecovery where
  streams : OrdMap VideoStreamKey VideoReceiveState
  lastObserved : Option VideoSourceInfo
  pendingRequests : OrdMap RequestKey PendingVideoRecovery
  lastKeyframeRequestAt : OrdMap RequestKey Time
  deriving DecidableEq

namespace VideoReceiveRecovery

def default : VideoReceiveRecovery :=
  { streams := ∅, lastObserved := none, pendingRequests := ∅, lastKeyframeRequestAt := ∅ }

/-- Forget a stream and its requests. -/
def evict (r : VideoReceiveRecovery) (key : VideoStreamKey) : VideoReceiveRecovery :=
  { r with
    streams := r.streams.erase key
    pendingRequests := r.pendingRequests.erase (key : RequestKey)
    lastKeyframeRequestAt := r.lastKeyframeRequestAt.erase (key : RequestKey) }

/-- `VideoReceiveRecovery::prepare_stream`: make room for `key`. -/
def prepareStream (r : VideoReceiveRecovery) (key : VideoStreamKey) : VideoReceiveRecovery :=
  if !r.streams.contains key && decide (r.streams.size ≥ maxVideoStreamStates) then
    match r.streams.first? with
    | none => r
    | some (evicted, _) => r.evict evicted
  else r

/-- The state of a stream, with `entry(key).or_default()`. -/
def stream (r : VideoReceiveRecovery) (key : VideoStreamKey) : VideoReceiveState :=
  (r.streams.get? key).getD .default

def setStream (r : VideoReceiveRecovery) (key : VideoStreamKey) (state : VideoReceiveState) :
    VideoReceiveRecovery :=
  { r with streams := r.streams.insert key state }

/-- A frame that carries no stream or frame id is not tracked. -/
def unstamped (info : VideoSourceInfo) : Bool :=
  decide (info.key.streamId = 0) || decide (info.frameId = 0)

/-- `VideoReceiveRecovery::note_source_context`. -/
def noteSourceContext (r : VideoReceiveRecovery) (info : VideoSourceInfo) :
    VideoReceiveRecovery :=
  if unstamped info then r
  else
    let r := { r.prepareStream info.key with lastObserved := some info }
    r.setStream info.key { r.stream info.key with codec := some info.codec }

/-- The request times that a keyframe of `key` keeps. -/
def keepsRequest (key : VideoStreamKey) : RequestKey → Bool
  | none => true
  | some k => decide (k.display ≠ key.display) || decide (k.streamId = key.streamId)

/-- A keyframe of a stream replaces the other streams of its display: they are
forgotten with their requests, and the legacy rate limit starts afresh. -/
def retireDisplay (r : VideoReceiveRecovery) (key : VideoStreamKey) : VideoReceiveRecovery :=
  let replacedStream := r.streams.entries.any
    (fun e => decide (e.1.display = key.display) && decide (e.1 ≠ key))
  let lastKeyframeRequestAt :=
    r.lastKeyframeRequestAt.filter (fun requestKey _ => keepsRequest key requestKey)
  { r with
    streams := r.streams.filter (fun k _ =>
      decide (k.display ≠ key.display) || decide (k.streamId = key.streamId))
    pendingRequests := r.pendingRequests.filter (fun _ pending =>
      !pending.source.any (fun source =>
        decide (source.key.display = key.display) && decide (source.key ≠ key)))
    lastKeyframeRequestAt :=
      if replacedStream then lastKeyframeRequestAt.erase legacyKey
      else lastKeyframeRequestAt }

/-- A keyframe answers the requests that were made for earlier frames of its
stream. -/
def answerRequests (r : VideoReceiveRecovery) (info : VideoSourceInfo) : VideoReceiveRecovery :=
  { r with
    pendingRequests := r.pendingRequests.filter (fun _ pending =>
      !pending.source.any (fun source =>
        decide (source.key = info.key) && decide (info.frameId > source.frameId))) }

/-- What `observe` does with a delta, given the state of its stream. -/
def observeDelta (state : VideoReceiveState) (info : VideoSourceInfo)
    (strictGapRecovery : Bool) : VideoReceiveState × VideoReceiveDecision :=
  let state := { state with codec := some info.codec }
  if state.awaitingKeyframe || decide (state.lastFrameId = 0) then
    ({ state with awaitingKeyframe := true }, .suppress)
  else if info.frameId ≤ state.lastFrameId then (state, .suppress)
  else if info.frameId ≠ satAdd state.lastFrameId 1 then
    if strictGapRecovery then ({ state with awaitingKeyframe := true }, .suppressAfterGap)
    else ({ state with lastFrameId := info.frameId }, .acceptAfterGap)
  else ({ state with lastFrameId := info.frameId }, .accept)

/-- `VideoReceiveRecovery::observe`. -/
def observe (r : VideoReceiveRecovery) (info : VideoSourceInfo) (strictGapRecovery : Bool) :
    VideoReceiveRecovery × VideoReceiveDecision :=
  if unstamped info then (r, .accept)
  else
    let r := if info.keyframe then r.retireDisplay info.key else r
    let r := { r.prepareStream info.key with lastObserved := some info }
    if info.keyframe then
      let r := r.answerRequests info
      (r.setStream info.key
        { lastFrameId := info.frameId, awaitingKeyframe := false, codec := some info.codec },
        .accept)
    else
      let (state, decision) := observeDelta (r.stream info.key) info strictGapRecovery
      (r.setStream info.key state, decision)

/-- `VideoReceiveRecovery::mark_reference_loss`. -/
def markReferenceLoss (r : VideoReceiveRecovery) : VideoReceiveRecovery :=
  { r with streams := r.streams.mapVals (fun _ state => { state with awaitingKeyframe := true }) }

/-- `VideoReceiveRecovery::mark_stream_reference_loss`. -/
def markStreamReferenceLoss (r : VideoReceiveRecovery) (key : VideoStreamKey) :
    VideoReceiveRecovery :=
  { r with
    streams := r.streams.modify key (fun state => { state with awaitingKeyframe := true }) }

/-- `VideoReceiveRecovery::latest_source`. -/
def latestSource (r : VideoReceiveRecovery) : Option VideoSourceInfo :=
  r.lastObserved <|> (r.streams.entries.reverse.find? (fun e => decide (e.2.lastFrameId > 0))).map
    (fun e =>
      { key := e.1
        frameId := e.2.lastFrameId
        keyframe := false
        codec := e.2.codec.getD .raw })

/-- `VideoReceiveRecovery::stream_awaiting_keyframe`. -/
def streamAwaitingKeyframe (r : VideoReceiveRecovery) (key : VideoStreamKey) : Bool :=
  (r.streams.get? key).any (fun state => state.awaitingKeyframe)

/-! ## Keyframe requests -/

/-- The pending request was made for another stream than the latest source. -/
def isNewStream (pending : Option PendingVideoRecovery) (source : Option VideoSourceInfo) : Bool :=
  pending.any (fun pending =>
    match pending.source, source with
    | some old, some new => decide (old.key ≠ new.key)
    | _, _ => false)

/-- The back-off of a pending request has elapsed. -/
def retryDue (pending : PendingVideoRecovery) (now : Time) : Bool :=
  if pending.retries < videoKeyframeRetryMaxAttempts then
    decide (now - pending.requestedAt ≥ videoKeyframeRetryInitialDelay * 2 ^ pending.retries)
  else decide (now - pending.requestedAt ≥ videoKeyframeRecoveryCycleCooldown)

/-- The key under which a request is accounted for. `none`: in scoped mode
nothing can be requested before a stream is known. -/
def requestKey? (source : Option VideoSourceInfo) (scopedReferenceRefresh : Bool) :
    Option RequestKey :=
  if scopedReferenceRefresh then source.map (fun source => (source.key : RequestKey))
  else some legacyKey

/-- A request under `key` may be made now. -/
def requestDue (r : VideoReceiveRecovery) (key : RequestKey) (source : Option VideoSourceInfo)
    (now : Time) (scopedReferenceRefresh strictRecovery : Bool) : Bool :=
  let pending := r.pendingRequests.get? key
  let newStream := isNewStream pending source
  let strictEscalation := scopedReferenceRefresh && strictRecovery &&
    !pending.any (fun pending => pending.strictRecovery)
  let limited := !newStream && !strictEscalation &&
    (r.lastKeyframeRequestAt.get? key).any
      (fun last => decide (now - last < videoKeyframeRequestMinInterval))
  let due := newStream || pending.all (fun pending => retryDue pending now)
  !limited && (due || strictEscalation)

/-- The request that is recorded when one is made. -/
def nextPending (r : VideoReceiveRecovery) (key : RequestKey) (source : Option VideoSourceInfo)
    (now : Time) (scopedReferenceRefresh strictRecovery : Bool) : PendingVideoRecovery :=
  let pending := r.pendingRequests.get? key
  let newStream := isNewStream pending source
  let strictEscalation := scopedReferenceRefresh && strictRecovery &&
    !pending.any (fun pending => pending.strictRecovery)
  let retries :=
    match pending with
    | none => 0
    | some pending =>
        if strictEscalation then pending.retries
        else if !newStream && decide (pending.retries < videoKeyframeRetryMaxAttempts) then
          min (pending.retries + 1) u8Max
        else 0
  { source := source
    requestedAt := now
    retries := retries
    strictRecovery := strictRecovery ||
      (!newStream && pending.any (fun pending => pending.strictRecovery)) }

/-- `VideoReceiveRecovery::next_keyframe_request_with_recovery`. -/
def nextKeyframeRequestWithRecovery (r : VideoReceiveRecovery) (now : Time)
    (scopedReferenceRefresh : Bool) (droppedFrames : Nat) (strictRecovery : Bool) :
    VideoReceiveRecovery × Option VideoKeyframeRequest :=
  let source := r.latestSource
  match requestKey? source scopedReferenceRefresh with
  | none => (r, none)
  | some key =>
      if !r.requestDue key source now scopedReferenceRefresh strictRecovery then (r, none)
      else
        let pending := r.nextPending key source now scopedReferenceRefresh strictRecovery
        let request :=
          if scopedReferenceRefresh then
            (source.bind (fun source =>
              videoReferenceRefresh source droppedFrames pending.strictRecovery)).map .scopedTo
          else some .legacy
        ({ r with
            pendingRequests := r.pendingRequests.insert key pending
            lastKeyframeRequestAt := r.lastKeyframeRequestAt.insert key now }, request)

end VideoReceiveRecovery

end HbbCommon.Transport
