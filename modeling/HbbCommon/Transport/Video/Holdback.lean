import HbbCommon.Transport.Video.Types

/-!
# The keyframe barrier (`VideoEpochHoldback`)

Deltas carry the id of the keyframe they refer to, their reference epoch. The
hold-back keeps a delta until the keyframe of its epoch has been accepted and
every earlier delta of the epoch has been released, or the reorder window over a
gap has elapsed.

`drainReady` is a `while` loop in the source; here one turn is `drainTurn` and
the loop is `drainLoop`, with fuel for two turns per pending frame.
`drainReady_drains` shows that this fuel always suffices: the loop ends by one of
the source's `break`s.
-/

namespace HbbCommon.Transport

open HbbCommon.Base

def videoEpochHoldbackTimeout : Time := secs 2

def videoEpochReorderMin : Time := millis 40

def videoEpochReorderMax : Time := millis 120

def videoEpochReorderJitter : Time := millis 10

def videoEpochHoldbackMaxFrames : Nat := 120

def videoEpochHoldbackMaxBytes : Nat := 16 * 1024 * 1024

/-- `video_epoch_reorder_window`: twice the round trip plus jitter, clamped. -/
def videoEpochReorderWindow (rtt : Time) : Time :=
  max videoEpochReorderMin (min (rtt * 2 + videoEpochReorderJitter) videoEpochReorderMax)

structure HeldVideoFrame where
  info : VideoSourceInfo
  payload : Bytes
  receivedAt : Time
  countedHeld : Bool
  deriving DecidableEq, Repr

def HeldVideoFrame.length (f : HeldVideoFrame) : Nat := f.payload.length

/-- Pending frames are keyed by reference epoch, then by frame id. -/
abbrev FrameKey := Nat ×ₗ Nat

def frameKey (epoch frameId : Nat) : FrameKey := toLex (epoch, frameId)

def FrameKey.epoch (k : FrameKey) : Nat := (ofLex k).1

def FrameKey.id (k : FrameKey) : Nat := (ofLex k).2

structure VideoEpochStreamState where
  currentEpoch : Nat
  nextFrameId : Nat
  pending : OrdMap FrameKey HeldVideoFrame
  pendingBytes : Nat
  gapStartedAt : Option Time
  lastActivity : Nat
  deriving DecidableEq

/-- `VideoEpochStreamState::default`. -/
def VideoEpochStreamState.default : VideoEpochStreamState :=
  { currentEpoch := 0, nextFrameId := 0, pending := ∅, pendingBytes := 0
    gapStartedAt := none, lastActivity := 0 }

structure VideoEpochHoldback where
  streams : OrdMap VideoStreamKey VideoEpochStreamState
  activityGeneration : Nat
  deriving DecidableEq

def VideoEpochHoldback.default : VideoEpochHoldback :=
  { streams := ∅, activityGeneration := 0 }

structure VideoHoldbackOutcome where
  ready : List (VideoSourceInfo × Bytes)
  heldFrames : Nat
  releasedFrames : Nat
  recoveryRequired : Bool
  strictRecoveryRequired : Bool
  gapEvents : Nat
  gapSkippedFrames : Nat
  timedOutFrames : Nat
  overflowedFrames : Nat
  deriving DecidableEq, Repr

def VideoHoldbackOutcome.default : VideoHoldbackOutcome :=
  { ready := [], heldFrames := 0, releasedFrames := 0, recoveryRequired := false
    strictRecoveryRequired := false, gapEvents := 0, gapSkippedFrames := 0
    timedOutFrames := 0, overflowedFrames := 0 }

/-! ## Draining one stream -/

/-- What `drain_ready` returns. -/
structure Drained where
  ready : List (VideoSourceInfo × Bytes)
  releasedFrames : Nat
  skippedFrames : Nat

def Drained.none : Drained := { ready := [], releasedFrames := 0, skippedFrames := 0 }

def Drained.skip (d : Drained) (count : Nat) : Drained :=
  { d with skippedFrames := satAdd d.skippedFrames count }

def Drained.release (d : Drained) (frame : HeldVideoFrame) : Drained :=
  { d with
    ready := d.ready ++ [(frame.info, frame.payload)]
    releasedFrames := if frame.countedHeld then satAdd d.releasedFrames 1 else d.releasedFrames }

namespace VideoEpochStreamState

/-- The key of the next frame in sequence. -/
def nextKey (st : VideoEpochStreamState) : FrameKey := frameKey st.currentEpoch st.nextFrameId

/-- The smallest pending id of the current epoch after the next one in
sequence. -/
def nextAvailable (st : VideoEpochStreamState) : Option Nat :=
  (st.pending.entries.find? (fun e =>
    decide (e.1.epoch = st.currentEpoch) && decide (st.nextFrameId < e.1.id))).map
    (fun e => e.1.id)

/-- One turn of the loop in `drain_ready`. -/
inductive DrainTurn
  | stop (st : VideoEpochStreamState)
  | skip (st : VideoEpochStreamState) (skipped : Nat)
  | release (st : VideoEpochStreamState) (frame : HeldVideoFrame)

def drainTurn (st : VideoEpochStreamState) (now reorderWindow : Time) : DrainTurn :=
  if st.currentEpoch = 0 ∨ st.nextFrameId = 0 then .stop st
  else
    match st.pending.get? st.nextKey with
    | some frame =>
        .release { st with
          pending := st.pending.erase st.nextKey
          gapStartedAt := none
          pendingBytes := st.pendingBytes - frame.length
          nextFrameId := satAdd st.nextFrameId 1 } frame
    | none =>
        match st.nextAvailable with
        | none => .stop { st with gapStartedAt := none }
        | some available =>
            let gapStartedAt := st.gapStartedAt.getD now
            if now - gapStartedAt < reorderWindow then
              .stop { st with gapStartedAt := some gapStartedAt }
            else
              .skip { st with nextFrameId := available, gapStartedAt := none }
                (available - st.nextFrameId)

def drainLoop (now reorderWindow : Time) :
    Nat → VideoEpochStreamState → Drained → VideoEpochStreamState × Drained
  | 0, st, d => (st, d)
  | fuel + 1, st, d =>
      match st.drainTurn now reorderWindow with
      | .stop st => (st, d)
      | .skip st skipped => drainLoop now reorderWindow fuel st (d.skip skipped)
      | .release st frame => drainLoop now reorderWindow fuel st (d.release frame)

/-- `VideoEpochHoldback::drain_ready`. -/
def drainReady (st : VideoEpochStreamState) (now reorderWindow : Time) :
    VideoEpochStreamState × Drained :=
  drainLoop now reorderWindow (2 * st.pending.size + 2) st .none

/-- Drop the pending frames that satisfy `p`, and their bytes. -/
def dropPending (st : VideoEpochStreamState) (p : FrameKey → HeldVideoFrame → Bool) :
    VideoEpochStreamState :=
  { st with
    pending := st.pending.filter (fun k f => !p k f)
    pendingBytes := st.pendingBytes - (st.pending.filter p).total HeldVideoFrame.length }

/-- A held frame that has waited for the whole hold-back timeout. -/
def timedOut (now : Time) (_ : FrameKey) (f : HeldVideoFrame) : Bool :=
  decide (now - f.receivedAt ≥ videoEpochHoldbackTimeout)

/-- The body of the loop in `expire`: drain, then drop what timed out. The count
is the number of frames dropped. -/
def expireStream (now reorderWindow : Time) (st : VideoEpochStreamState) :
    VideoEpochStreamState × Drained × Nat :=
  let (st, drained) := st.drainReady now reorderWindow
  (st.dropPending (timedOut now), drained, (st.pending.filter (timedOut now)).size)

end VideoEpochStreamState

/-! ## Outcomes -/

/-- Account for what a drain released and skipped. -/
def VideoHoldbackOutcome.addDrained (out : VideoHoldbackOutcome) (d : Drained) :
    VideoHoldbackOutcome :=
  { out with
    ready := out.ready ++ d.ready
    releasedFrames := satAdd out.releasedFrames d.releasedFrames
    gapEvents := if d.skippedFrames > 0 then satAdd out.gapEvents 1 else out.gapEvents
    gapSkippedFrames :=
      if d.skippedFrames > 0 then satAdd out.gapSkippedFrames d.skippedFrames
      else out.gapSkippedFrames
    recoveryRequired := out.recoveryRequired || decide (d.skippedFrames > 0) }

/-- Account for frames that timed out. -/
def VideoHoldbackOutcome.addTimedOut (out : VideoHoldbackOutcome) (count : Nat) :
    VideoHoldbackOutcome :=
  let timedOut := satAdd out.timedOutFrames count
  { out with
    timedOutFrames := timedOut
    recoveryRequired := out.recoveryRequired || decide (timedOut > 0)
    strictRecoveryRequired := out.strictRecoveryRequired || decide (timedOut > 0) }

/-- Account for frames dropped for lack of room. -/
def VideoHoldbackOutcome.addOverflow (out : VideoHoldbackOutcome) (count : Nat) :
    VideoHoldbackOutcome :=
  { out with
    overflowedFrames := satAdd out.overflowedFrames count
    recoveryRequired := true
    strictRecoveryRequired := true }

/-! ## The hold-back -/

namespace VideoEpochHoldback

/-- `VideoEpochHoldback::expire`. -/
def expire (h : VideoEpochHoldback) (now reorderWindow : Time) :
    VideoEpochHoldback × VideoHoldbackOutcome :=
  ({ h with
      streams := h.streams.mapVals (fun _ st => (st.expireStream now reorderWindow).1) },
    h.streams.entries.foldl (fun out e =>
      let (_, drained, timedOut) := e.2.expireStream now reorderWindow
      (out.addDrained drained).addTimedOut timedOut) .default)

/-- The least recently active stream, in key order among equals. -/
def oldest (h : VideoEpochHoldback) : Option (VideoStreamKey × VideoEpochStreamState) :=
  h.streams.entries.argmin (fun e => e.2.lastActivity)

/-- `VideoEpochHoldback::prepare_stream`. -/
def prepareStream (h : VideoEpochHoldback) (key : VideoStreamKey) (out : VideoHoldbackOutcome) :
    VideoEpochHoldback × VideoHoldbackOutcome :=
  let generation := satAdd h.activityGeneration 1
  let (streams, out) :=
    if !h.streams.contains key && decide (h.streams.size ≥ maxVideoEpochStreamStates) then
      match h.oldest with
      | some (evicted, st) =>
          (h.streams.erase evicted,
            if st.pending.size > 0 then out.addOverflow st.pending.size else out)
      | none => (h.streams, out)
    else (h.streams, out)
  ({ streams := streams.insert key
      { (streams.get? key).getD .default with lastActivity := generation }
     activityGeneration := generation }, out)

/-- `VideoEpochHoldback::pending_totals`. -/
def pendingTotals (h : VideoEpochHoldback) : Nat × Nat :=
  h.streams.entries.foldl (fun total e =>
    (satAdd total.1 e.2.pending.size, satAdd total.2 e.2.pendingBytes)) (0, 0)

/-- `VideoEpochHoldback::clear_pending`. -/
def clearPending (h : VideoEpochHoldback) : VideoEpochHoldback :=
  { h with
    streams := h.streams.mapVals (fun _ st =>
      { st with pending := ∅, pendingBytes := 0, gapStartedAt := none }) }

/-- A delta that its stream has moved past. -/
def obsoleteDelta (st : VideoEpochStreamState) (referenceEpoch frameId : Nat) : Bool :=
  decide (referenceEpoch < st.currentEpoch) ||
    (decide (referenceEpoch = st.currentEpoch) && decide (st.nextFrameId ≠ 0) &&
      decide (frameId < st.nextFrameId))

/-- A delta that cannot be released on arrival. -/
def countedHeld (st : VideoEpochStreamState) (referenceEpoch frameId : Nat) : Bool :=
  decide (referenceEpoch ≠ st.currentEpoch) || decide (st.nextFrameId = 0) ||
    decide (frameId ≠ st.nextFrameId)

/-- The stream state with one more pending frame. -/
def hold (st : VideoEpochStreamState) (referenceEpoch : Nat) (frame : HeldVideoFrame) :
    VideoEpochStreamState :=
  { st with
    pending := st.pending.insert (frameKey referenceEpoch frame.info.frameId) frame
    pendingBytes := satAdd st.pendingBytes frame.length }

/-- The hold-back's limits are exceeded. -/
def overflows (h : VideoEpochHoldback) : Bool :=
  decide (h.pendingTotals.1 > videoEpochHoldbackMaxFrames) ||
    decide (h.pendingTotals.2 > videoEpochHoldbackMaxBytes)

/-- The half of `admit_delta` after its stream has been prepared. -/
def admitPrepared (h : VideoEpochHoldback) (out : VideoHoldbackOutcome) (info : VideoSourceInfo)
    (referenceEpoch : Nat) (payload : Bytes) (now reorderWindow : Time) :
    VideoEpochHoldback × VideoHoldbackOutcome :=
  let st := (h.streams.get? info.key).getD .default
  if obsoleteDelta st referenceEpoch info.frameId then (h, out)
  else if st.pending.contains (frameKey referenceEpoch info.frameId) then (h, out)
  else
    let held := countedHeld st referenceEpoch info.frameId
    let st := hold st referenceEpoch
      { info := info, payload := payload, receivedAt := now, countedHeld := held }
    let h := { h with streams := h.streams.insert info.key st }
    let out := if held then { out with heldFrames := satAdd out.heldFrames 1 } else out
    if h.overflows then (h.clearPending, out.addOverflow h.pendingTotals.1)
    else
      let (st, drained) := st.drainReady now reorderWindow
      ({ h with streams := h.streams.insert info.key st }, out.addDrained drained)

/-- `VideoEpochHoldback::admit_delta`. -/
def admitDelta (h : VideoEpochHoldback) (info : VideoSourceInfo) (referenceEpoch : Nat)
    (payload : Bytes) (now reorderWindow : Time) : VideoEpochHoldback × VideoHoldbackOutcome :=
  let (h, out) := h.expire now reorderWindow
  if referenceEpoch = 0 then
    (h, { out with recoveryRequired := true, strictRecoveryRequired := true })
  else
    let (h, out) := h.prepareStream info.key out
    h.admitPrepared out info referenceEpoch payload now reorderWindow

/-- A new keyframe retires the other streams of its display. -/
def retainStreams (h : VideoEpochHoldback) (key : VideoStreamKey) : VideoEpochHoldback :=
  { h with
    streams := h.streams.filter (fun k _ =>
      decide (k.display ≠ key.display) || decide (k.streamId = key.streamId)) }

/-- A pending frame that the keyframe `frameId` makes useless. -/
def obsoleteBefore (frameId : Nat) (k : FrameKey) (_ : HeldVideoFrame) : Bool :=
  decide (k.epoch < frameId) || decide (k.id ≤ frameId)

/-- The stream state that a keyframe opens, before anything is released. -/
def openEpoch (st : VideoEpochStreamState) (frameId : Nat) : VideoEpochStreamState :=
  { st with
    currentEpoch := frameId
    nextFrameId := satAdd frameId 1
    gapStartedAt := none }.dropPending (obsoleteBefore frameId)

/-- `VideoEpochHoldback::accept_keyframe`. -/
def acceptKeyframe (h : VideoEpochHoldback) (info : VideoSourceInfo) (payload : Bytes)
    (now reorderWindow : Time) : VideoEpochHoldback × VideoHoldbackOutcome :=
  let h := h.retainStreams info.key
  let (h, out) := h.expire now reorderWindow
  let (h, out) := h.prepareStream info.key out
  let st := openEpoch ((h.streams.get? info.key).getD .default) info.frameId
  let out := { out with ready := out.ready ++ [(info, payload)] }
  let (st, drained) := st.drainReady now reorderWindow
  ({ h with streams := h.streams.insert info.key st }, out.addDrained drained)

end VideoEpochHoldback

/-! ## The drain loop as a relation -/

namespace VideoEpochStreamState

/-- The turns of one drain, up to the turn that stops it. -/
inductive Drains (now reorderWindow : Time) :
    VideoEpochStreamState → Drained → VideoEpochStreamState → Drained → Prop
  | stop {st st' d} : st.drainTurn now reorderWindow = .stop st' →
      Drains now reorderWindow st d st' d
  | skip {st st' st'' d d' n} : st.drainTurn now reorderWindow = .skip st' n →
      Drains now reorderWindow st' (d.skip n) st'' d' → Drains now reorderWindow st d st'' d'
  | release {st st' st'' d d' frame} : st.drainTurn now reorderWindow = .release st' frame →
      Drains now reorderWindow st' (d.release frame) st'' d' →
      Drains now reorderWindow st d st'' d'

/-- What one turn can do, with its guards. -/
theorem drainTurn_cases (st : VideoEpochStreamState) (now reorderWindow : Time) :
    ((st.currentEpoch = 0 ∨ st.nextFrameId = 0) ∧
      st.drainTurn now reorderWindow = .stop st) ∨
    (st.currentEpoch ≠ 0 ∧ st.nextFrameId ≠ 0 ∧
      ((∃ frame, st.pending.get? st.nextKey = some frame ∧
          st.drainTurn now reorderWindow = .release { st with
            pending := st.pending.erase st.nextKey
            gapStartedAt := none
            pendingBytes := st.pendingBytes - frame.length
            nextFrameId := satAdd st.nextFrameId 1 } frame) ∨
       (st.pending.get? st.nextKey = none ∧ st.nextAvailable = none ∧
          st.drainTurn now reorderWindow = .stop { st with gapStartedAt := none }) ∨
       (∃ available, st.pending.get? st.nextKey = none ∧ st.nextAvailable = some available ∧
          now - st.gapStartedAt.getD now < reorderWindow ∧
          st.drainTurn now reorderWindow =
            .stop { st with gapStartedAt := some (st.gapStartedAt.getD now) }) ∨
       (∃ available, st.pending.get? st.nextKey = none ∧ st.nextAvailable = some available ∧
          ¬ now - st.gapStartedAt.getD now < reorderWindow ∧
          st.drainTurn now reorderWindow =
            .skip { st with nextFrameId := available, gapStartedAt := none }
              (available - st.nextFrameId)))) := by
  unfold drainTurn
  by_cases hzero : st.currentEpoch = 0 ∨ st.nextFrameId = 0
  · exact .inl ⟨hzero, if_pos hzero⟩
  · rw [if_neg hzero]
    obtain ⟨hepoch, hnext⟩ := not_or.mp hzero
    refine .inr ⟨hepoch, hnext, ?_⟩
    cases hget : st.pending.get? st.nextKey with
    | some frame => exact .inl ⟨frame, rfl, rfl⟩
    | none =>
        cases havail : st.nextAvailable with
        | none => exact .inr (.inl ⟨rfl, rfl, rfl⟩)
        | some available =>
            by_cases hgap : now - st.gapStartedAt.getD now < reorderWindow
            · exact .inr (.inr (.inl ⟨available, rfl, rfl, hgap, if_pos hgap⟩))
            · exact .inr (.inr (.inr ⟨available, rfl, rfl, hgap, if_neg hgap⟩))

/-- A turn that stops changes at most the gap clock. -/
theorem drainTurn_stop {st st' : VideoEpochStreamState} {now reorderWindow : Time}
    (h : st.drainTurn now reorderWindow = .stop st') :
    ((st.currentEpoch = 0 ∨ st.nextFrameId = 0) ∧ st' = st) ∨
    (st.currentEpoch ≠ 0 ∧ st.pending.get? st.nextKey = none ∧
      ((st.nextAvailable = none ∧ st' = { st with gapStartedAt := none }) ∨
       (now - st.gapStartedAt.getD now < reorderWindow ∧
        st' = { st with gapStartedAt := some (st.gapStartedAt.getD now) }))) := by
  rcases st.drainTurn_cases now reorderWindow with
    ⟨hzero, ht⟩ | ⟨hepoch, _, ⟨_, _, ht⟩ | ⟨hnone, havail, ht⟩ | ⟨_, hnone, _, hgap, ht⟩ |
      ⟨_, _, _, _, ht⟩⟩ <;> rw [h] at ht <;> cases ht
  · exact .inl ⟨hzero, rfl⟩
  · exact .inr ⟨hepoch, hnone, .inl ⟨havail, rfl⟩⟩
  · exact .inr ⟨hepoch, hnone, .inr ⟨hgap, rfl⟩⟩

/-- A turn that skips found a gap that has outlasted the reorder window. -/
theorem drainTurn_skip {st st' : VideoEpochStreamState} {now reorderWindow : Time} {n : Nat}
    (h : st.drainTurn now reorderWindow = .skip st' n) :
    ∃ available, st.pending.get? st.nextKey = none ∧ st.nextAvailable = some available ∧
      ¬ now - st.gapStartedAt.getD now < reorderWindow ∧
      st' = { st with nextFrameId := available, gapStartedAt := none } := by
  rcases st.drainTurn_cases now reorderWindow with
    ⟨_, ht⟩ | ⟨_, _, ⟨_, _, ht⟩ | ⟨_, _, ht⟩ | ⟨_, _, _, _, ht⟩ |
      ⟨available, hnone, havail, hgap, ht⟩⟩ <;> rw [h] at ht <;> cases ht
  exact ⟨available, hnone, havail, hgap, rfl⟩

/-- A turn that releases hands on the next frame in sequence of an open epoch. -/
theorem drainTurn_release {st st' : VideoEpochStreamState} {now reorderWindow : Time}
    {frame : HeldVideoFrame} (h : st.drainTurn now reorderWindow = .release st' frame) :
    st.currentEpoch ≠ 0 ∧ st.pending.get? st.nextKey = some frame ∧
      st' = { st with
        pending := st.pending.erase st.nextKey
        gapStartedAt := none
        pendingBytes := st.pendingBytes - frame.length
        nextFrameId := satAdd st.nextFrameId 1 } := by
  rcases st.drainTurn_cases now reorderWindow with
    ⟨_, ht⟩ | ⟨hepoch, _, ⟨_, hget, ht⟩ | ⟨_, _, ht⟩ | ⟨_, _, _, _, ht⟩ |
      ⟨_, _, _, _, ht⟩⟩ <;> rw [h] at ht <;> cases ht
  exact ⟨hepoch, hget, rfl⟩

/-- The next available id is pending in the current epoch, after the next id in
sequence, and no pending id of the epoch lies between. -/
theorem nextAvailable_spec {st : VideoEpochStreamState} {available : Nat}
    (h : st.nextAvailable = some available) :
    (∃ frame, st.pending.get? (frameKey st.currentEpoch available) = some frame) ∧
    st.nextFrameId < available ∧
    ∀ id frame, st.pending.get? (frameKey st.currentEpoch id) = some frame →
      st.nextFrameId < id → available ≤ id := by
  unfold nextAvailable at h
  obtain ⟨⟨k, frame⟩, hfind, rfl⟩ := Option.map_eq_some_iff.mp h
  have hmem := List.mem_of_find?_eq_some hfind
  have hprop := List.find?_some hfind
  simp only [Bool.and_eq_true, decide_eq_true_eq] at hprop
  obtain ⟨hepoch, hlt⟩ := hprop
  have hk : k = frameKey st.currentEpoch k.id := by
    rw [← hepoch]
    rfl
  refine ⟨⟨frame, ?_⟩, hlt, ?_⟩
  · rw [← hk]
    exact OrdMap.mem_entries_iff.mp hmem
  · -- the entries are sorted, so the first match is the smallest
    intro id g hg hid
    obtain ⟨hsat, before, after, hsplit, hbefore⟩ := List.find?_eq_some_iff_append.mp hfind
    have hgmem : (frameKey st.currentEpoch id, g) ∈ st.pending.entries :=
      OrdMap.mem_entries_iff.mpr hg
    have hsorted := st.pending.sorted
    rw [hsplit] at hgmem hsorted
    rcases List.mem_append.mp hgmem with hin | hin
    · have := hbefore _ hin
      simp [FrameKey.epoch, FrameKey.id, frameKey, hid] at this
    · rcases List.mem_cons.mp hin with heq | hin
      · have : id = k.id := congrArg (fun e : FrameKey × HeldVideoFrame => e.1.id) heq
        exact le_of_eq this.symm
      · have hrel := (List.pairwise_cons.mp (List.pairwise_append.mp hsorted).2.1).1 _ hin
        rw [hk] at hrel
        change toLex (st.currentEpoch, k.id) < toLex (st.currentEpoch, id) at hrel
        rw [Prod.Lex.toLex_lt_toLex] at hrel
        rcases hrel with hlt' | ⟨_, hlt'⟩
        · exact absurd hlt' (lt_irrefl _)
        · exact le_of_lt hlt'

/-- Turns left to a drain: two per pending frame, less one when the next frame
in sequence is pending. -/
def drainMeasure (st : VideoEpochStreamState) : Nat :=
  2 * st.pending.size + if st.pending.contains st.nextKey then 0 else 1

/-- Every turn that does not stop lowers the measure. -/
theorem drainMeasure_lt {st st' : VideoEpochStreamState} {now reorderWindow : Time}
    (h : (∃ n, st.drainTurn now reorderWindow = .skip st' n) ∨
      ∃ frame, st.drainTurn now reorderWindow = .release st' frame) :
    st'.drainMeasure < st.drainMeasure := by
  rcases h with ⟨n, h⟩ | ⟨frame, h⟩
  · obtain ⟨available, hnone, havail, _, rfl⟩ := drainTurn_skip h
    obtain ⟨⟨frame, hframe⟩, _, _⟩ := nextAvailable_spec havail
    have hthere : st.pending.contains (frameKey st.currentEpoch available) = true :=
      OrdMap.contains_iff.mpr ⟨frame, hframe⟩
    have habsent : st.pending.contains st.nextKey = false :=
      OrdMap.contains_eq_false_iff.mpr hnone
    unfold drainMeasure nextKey at *
    simp only [hthere, habsent, if_true, Bool.false_eq_true, if_false]
    omega
  · obtain ⟨_, hget, rfl⟩ := drainTurn_release h
    have hsize := OrdMap.size_erase hget
    unfold drainMeasure
    simp only
    split <;> split <;> omega

theorem drainLoop_drains {now reorderWindow : Time} :
    ∀ (fuel : Nat) (st : VideoEpochStreamState) (d : Drained), st.drainMeasure < fuel →
      Drains now reorderWindow st d (drainLoop now reorderWindow fuel st d).1
        (drainLoop now reorderWindow fuel st d).2 := by
  intro fuel
  induction fuel with
  | zero => intro st d hlt; omega
  | succ fuel ih =>
      intro st d hlt
      rw [drainLoop]
      cases hturn : st.drainTurn now reorderWindow with
      | stop st' => exact .stop hturn
      | skip st' n =>
          have := drainMeasure_lt (.inl ⟨n, hturn⟩)
          exact .skip hturn (ih st' (d.skip n) (by omega))
      | release st' frame =>
          have := drainMeasure_lt (.inr ⟨frame, hturn⟩)
          exact .release hturn (ih st' (d.release frame) (by omega))

/-- The loop of `drain_ready` ends by a `break`. -/
theorem drainReady_drains (st : VideoEpochStreamState) (now reorderWindow : Time) :
    Drains now reorderWindow st .none (st.drainReady now reorderWindow).1
      (st.drainReady now reorderWindow).2 := by
  refine drainLoop_drains _ st .none ?_
  unfold drainMeasure
  split <;> omega

end VideoEpochStreamState

end HbbCommon.Transport
