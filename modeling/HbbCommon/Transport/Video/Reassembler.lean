import HbbCommon.Transport.Video.Fragment

/-!
# Reassembly of video frames (`VideoReassembler`)

Fragments are collected per frame id until a frame is complete. A pending frame is
dropped when it gets no new fragment for too long, when it is too old, when too
many frames are pending, when a later frame completes, and when its fragments
contradict each other.

`none` stands for what the source excludes by an assertion: an `expect` on a
missing value, an index out of range, or an eviction loop that has not ended
within its fuel of one turn more than there are frames. `record_drop` of
`drop_frame` is `false` at every call and left out.
-/

namespace HbbCommon.Transport

open HbbCommon.Base

structure CompleteVideoFrame where
  metadata : VideoFrameMetadata
  payload : Bytes
  deriving DecidableEq, Repr

structure VideoReassemblyConfig where
  maxFrameBytes : Nat
  maxPendingFrames : Nat
  maxMemoryBytes : Nat
  fragmentDeadline : Time
  keyframeFragmentDeadline : Time
  frameLifetime : Time
  keyframeLifetime : Time
  requireInitialKeyframe : Bool
  keyframeRequestAfterDrops : Nat
  keyframeRequestInterval : Time
  deriving DecidableEq, Repr

/-- `VideoReassemblyConfig::default`. -/
def VideoReassemblyConfig.default : VideoReassemblyConfig :=
  { maxFrameBytes := maxDatagramFrameBytes
    maxPendingFrames := 8
    maxMemoryBytes := 64 * 1024 * 1024
    fragmentDeadline := millis 120
    keyframeFragmentDeadline := millis 500
    frameLifetime := secs 1
    keyframeLifetime := secs 3
    requireInitialKeyframe := true
    keyframeRequestAfterDrops := 1
    keyframeRequestInterval := millis 500 }

structure VideoReassemblyStats where
  completedFrames : Nat := 0
  expiredFrames : Nat := 0
  evictedFrames : Nat := 0
  obsoleteFrames : Nat := 0
  duplicateFragments : Nat := 0
  obsoleteFragments : Nat := 0
  malformedFragments : Nat := 0
  preKeyframeFrames : Nat := 0
  expiredKeyframes : Nat := 0
  missingFragments : Nat := 0
  lastFrameAssemblyUs : Nat := 0
  maxFrameAssemblyUs : Nat := 0
  maxFragmentGapUs : Nat := 0
  lastFrameBytes : Nat := 0
  lastFrameFragments : Nat := 0
  deriving DecidableEq, Repr

structure VideoReassemblyOutcome where
  frame : Option CompleteVideoFrame := none
  droppedFrames : Nat := 0
  requestKeyframe : Bool := false
  deriving DecidableEq, Repr

structure PendingFrame where
  header : FragmentHeader
  fragments : List (Option Bytes)
  receivedFragments : Nat
  receivedBytes : Nat
  createdAt : Time
  lastProgressAt : Time
  maxFragmentGap : Time
  deriving DecidableEq, Repr

structure VideoReassembler where
  config : VideoReassemblyConfig
  pending : OrdMap Nat PendingFrame
  pendingBytes : Nat
  lastCompletedFrameId : Nat
  hasCompletedKeyframe : Bool
  consecutiveDroppedFrames : Nat
  lastKeyframeRequest : Option Time
  stats : VideoReassemblyStats
  deriving DecidableEq

/-- `duration_us`. -/
def durationUs (duration : Time) : Nat := min (duration / 1000) u64Max

/-- A frame that has waited too long for a new fragment or has lived too long. -/
def VideoReassemblyConfig.expired (config : VideoReassemblyConfig) (now : Time)
    (frame : PendingFrame) : Bool :=
  let (idleDeadline, lifetime) :=
    if frame.header.metadata.isKeyframe then
      (config.keyframeFragmentDeadline, config.keyframeLifetime)
    else (config.fragmentDeadline, config.frameLifetime)
  decide (now - frame.lastProgressAt ≥ idleDeadline) || decide (now - frame.createdAt ≥ lifetime)

/-- The fragments of a frame that are still to come. -/
def PendingFrame.missing (frame : PendingFrame) : Nat :=
  frame.header.fragmentCount - frame.receivedFragments

/-- The frame with a new fragment. -/
def PendingFrame.store (frame : PendingFrame) (index : Nat) (fragment : Bytes) (now : Time) :
    PendingFrame :=
  { frame with
    maxFragmentGap := max frame.maxFragmentGap (now - frame.lastProgressAt)
    fragments := frame.fragments.set index (some fragment)
    receivedFragments := frame.receivedFragments + 1
    receivedBytes := frame.receivedBytes + fragment.length
    lastProgressAt := now }

namespace VideoReassembler

/-- `VideoReassembler::new`. -/
def new (config : VideoReassemblyConfig) : Except VideoDatagramError VideoReassembler :=
  if config.maxFrameBytes = 0 ∨ config.maxFrameBytes > maxDatagramFrameBytes then
    .error (.invalidFrameSize config.maxFrameBytes)
  else if config.maxPendingFrames = 0 ∨ config.maxMemoryBytes < config.maxFrameBytes then
    .error .memoryLimit
  else
    .ok { config := config, pending := ∅, pendingBytes := 0, lastCompletedFrameId := 0
          hasCompletedKeyframe := !config.requireInitialKeyframe, consecutiveDroppedFrames := 0
          lastKeyframeRequest := none, stats := {} }

/-- `record_drops`. -/
def recordDrops (r : VideoReassembler) (count : Nat) : VideoReassembler :=
  { r with consecutiveDroppedFrames := satAdd32 r.consecutiveDroppedFrames count }

/-- `should_request_keyframe`. -/
def shouldRequestKeyframe (r : VideoReassembler) (now : Time) : VideoReassembler × Bool :=
  if r.consecutiveDroppedFrames < r.config.keyframeRequestAfterDrops then (r, false)
  else if r.lastKeyframeRequest.any (fun last =>
      decide (now - last < r.config.keyframeRequestInterval)) then (r, false)
  else ({ r with lastKeyframeRequest := some now }, true)

/-- `drop_frame` for every pending frame that `p` holds of. -/
def dropWhere (r : VideoReassembler) (p : Nat → PendingFrame → Bool) : VideoReassembler :=
  let gone := r.pending.filter p
  { r with
    pending := r.pending.filter (fun id frame => !p id frame)
    pendingBytes := r.pendingBytes - gone.total PendingFrame.receivedBytes
    stats := { r.stats with
      missingFragments := satAdd r.stats.missingFragments (gone.total PendingFrame.missing) } }

/-- `drop_frame`. -/
def dropFrame (r : VideoReassembler) (frameId : Nat) : VideoReassembler :=
  r.dropWhere (fun id _ => decide (id = frameId))

/-- `evict_oldest`: the oldest delta frame, or the oldest keyframe when only
keyframes are pending; `none` when nothing is. -/
def evictOldest (r : VideoReassembler) : Option VideoReassembler :=
  let oldest := (r.pending.entries.find? (fun e => !e.2.header.metadata.isKeyframe)).or
    r.pending.first?
  oldest.map fun (frameId, _) =>
    let r := r.dropFrame frameId
    { r with stats := { r.stats with evictedFrames := satAdd r.stats.evictedFrames 1 } }.recordDrops 1

/-- `drop_obsolete_pending`. -/
def dropObsoletePending (r : VideoReassembler) : VideoReassembler × Nat :=
  let obsolete := (r.pending.filter (fun id _ => decide (id ≤ r.lastCompletedFrameId))).size
  let count := min obsolete u32Max
  let r := r.dropWhere (fun id _ => decide (id ≤ r.lastCompletedFrameId))
  ({ r with
    stats := { r.stats with
      obsoleteFragments := satAdd r.stats.obsoleteFragments obsolete
      obsoleteFrames := satAdd r.stats.obsoleteFrames count } }, count)

/-- `VideoReassembler::expire`. -/
def expire (r : VideoReassembler) (now : Time) : VideoReassembler × VideoReassemblyOutcome :=
  let gone := r.pending.filter (fun _ frame => r.config.expired now frame)
  let droppedFrames := min gone.size u32Max
  let r := r.dropWhere (fun _ frame => r.config.expired now frame)
  let r := { r with
    stats := { r.stats with
      expiredKeyframes := satAdd r.stats.expiredKeyframes
        (gone.filter (fun _ frame => frame.header.metadata.isKeyframe)).size
      expiredFrames := satAdd r.stats.expiredFrames gone.size } }
  let (r, requestKeyframe) := (r.recordDrops droppedFrames).shouldRequestKeyframe now
  (r, { droppedFrames := droppedFrames, requestKeyframe := requestKeyframe })

/-- `VideoReassembler::reset`. -/
def reset (r : VideoReassembler) : VideoReassembler :=
  { r with
    pending := ∅, pendingBytes := 0, lastCompletedFrameId := 0
    hasCompletedKeyframe := !r.config.requireInitialKeyframe, consecutiveDroppedFrames := 0
    lastKeyframeRequest := none }

/-- `validate_fragment_header`. -/
def validateFragmentHeader (r : VideoReassembler) (header : FragmentHeader) :
    Except VideoDatagramError Unit := do
  validateFrameMetadata header.metadata
  if header.fragmentCount = 0 ∨ header.fragmentCount > maxVideoFragments then
    throw (.invalidFragmentCount header.fragmentCount)
  else if header.fragmentIndex ≥ header.fragmentCount then
    throw (.invalidFragmentIndex header.fragmentIndex header.fragmentCount)
  else if header.frameSize = 0 ∨ header.frameSize > r.config.maxFrameBytes then
    throw (.invalidFrameSize header.frameSize)
  else return ()

/-! ## The parts of `push` -/

/-- The eviction loop, with the number of frames it dropped. -/
def makeRoom : Nat → VideoReassembler → Nat → Option (VideoReassembler × Nat)
  | 0, _, _ => none
  | fuel + 1, r, droppedFrames =>
      if r.pending.size ≥ r.config.maxPendingFrames then
        match r.evictOldest with
        | some r => makeRoom fuel r (satAdd32 droppedFrames 1)
        | none => makeRoom fuel r droppedFrames
      else some (r, droppedFrames)

/-- A frame without fragments. -/
def emptyFrame (header : FragmentHeader) (now : Time) : PendingFrame :=
  { header := header, fragments := List.replicate header.fragmentCount none
    receivedFragments := 0, receivedBytes := 0, createdAt := now, lastProgressAt := now
    maxFragmentGap := 0 }

/-- A frame id that is not pending gets a pending frame. -/
def openFrame (r : VideoReassembler) (header : FragmentHeader)
    (outcome : VideoReassemblyOutcome) (now : Time) :
    Option (VideoReassembler × VideoReassemblyOutcome) :=
  if r.pending.contains header.metadata.frameId then some (r, outcome)
  else
    (makeRoom (r.pending.size + 1) r outcome.droppedFrames).map fun (r, droppedFrames) =>
      ({ r with pending := r.pending.insert header.metadata.frameId (emptyFrame header now) },
        { outcome with droppedFrames := droppedFrames })

/-- A fragment that contradicts its frame: the frame is dropped and counted. -/
def dropMalformed (r : VideoReassembler) (frameId : Nat) : VideoReassembler :=
  let r := r.dropFrame frameId
  { r with stats := { r.stats with malformedFragments := satAdd r.stats.malformedFragments 1 } }

/-- The request that an outcome gets from `should_request_keyframe`. -/
def requestKeyframe (r : VideoReassembler) (outcome : VideoReassemblyOutcome) (now : Time) :
    VideoReassembler × VideoReassemblyOutcome :=
  let (r, request) := r.shouldRequestKeyframe now
  (r, { outcome with requestKeyframe := outcome.requestKeyframe || request })

/-- The pending frame is taken out, its bytes are free again. -/
def removeFrame (r : VideoReassembler) (frameId : Nat) (frame : PendingFrame) :
    VideoReassembler :=
  { r with
    pending := r.pending.erase frameId
    pendingBytes := r.pendingBytes - frame.receivedBytes }

/-- A complete delta before the first keyframe. -/
def dropPreKeyframe (r : VideoReassembler) (frameId : Nat) (frame : PendingFrame)
    (outcome : VideoReassemblyOutcome) (now : Time) :
    VideoReassembler × VideoReassemblyOutcome :=
  let r := r.removeFrame frameId frame
  let r := { r with
    stats := { r.stats with preKeyframeFrames := satAdd r.stats.preKeyframeFrames 1 } }
  (r.recordDrops 1).requestKeyframe
    { outcome with droppedFrames := satAdd32 outcome.droppedFrames 1 } now

/-- The statistics of a complete frame. -/
def recordComplete (stats : VideoReassemblyStats) (frame : PendingFrame) (now : Time) :
    VideoReassemblyStats :=
  let assemblyUs := durationUs (now - frame.createdAt)
  { stats with
    lastFrameAssemblyUs := assemblyUs
    maxFrameAssemblyUs := max stats.maxFrameAssemblyUs assemblyUs
    maxFragmentGapUs := max stats.maxFragmentGapUs (durationUs frame.maxFragmentGap)
    lastFrameBytes := min frame.receivedBytes u64Max
    lastFrameFragments := min frame.receivedFragments u64Max }

/-- The frames that a complete frame made obsolete are counted; a keyframe, or a
frame without drops, ends a series of drops. -/
def countObsolete (r : VideoReassembler) (isKeyframe : Bool) (obsoleteFrames : Nat)
    (outcome : VideoReassemblyOutcome) (now : Time) : VideoReassembler × VideoReassemblyOutcome :=
  let (r, outcome) :=
    if obsoleteFrames > 0 then
      (r.recordDrops obsoleteFrames).requestKeyframe
        { outcome with droppedFrames := satAdd32 outcome.droppedFrames obsoleteFrames } now
    else (r, outcome)
  if isKeyframe || decide (outcome.droppedFrames = 0) then
    ({ r with consecutiveDroppedFrames := 0 }, outcome)
  else (r, outcome)

/-- A complete frame is returned; what it makes obsolete is dropped. -/
def returnFrame (r : VideoReassembler) (header : FragmentHeader) (frame : PendingFrame)
    (outcome : VideoReassemblyOutcome) (now : Time) :
    Option (VideoReassembler × VideoReassemblyOutcome) :=
  let isKeyframe := header.metadata.isKeyframe
  let r := r.removeFrame header.metadata.frameId frame
  let r := { r with stats := recordComplete r.stats frame now }
  (frame.fragments.mapM id).map fun fragments =>
    let r := { r with
      lastCompletedFrameId := frame.header.metadata.frameId
      hasCompletedKeyframe := r.hasCompletedKeyframe || isKeyframe }
    let (r, obsoleteFrames) := r.dropObsoletePending
    let (r, outcome) := r.countObsolete isKeyframe obsoleteFrames outcome now
    ({ r with stats := { r.stats with completedFrames := satAdd r.stats.completedFrames 1 } },
      { outcome with
        frame := some { metadata := frame.header.metadata, payload := fragments.flatten } })

/-- The end of `push`, when all fragments are there. -/
def completeFrame (r : VideoReassembler) (header : FragmentHeader)
    (outcome : VideoReassemblyOutcome) (now : Time) :
    Option (VideoReassembler × VideoReassemblyOutcome) :=
  (r.pending.get? header.metadata.frameId).bind fun frame =>
    if !r.hasCompletedKeyframe && !header.metadata.isKeyframe then
      some (r.dropPreKeyframe header.metadata.frameId frame outcome now)
    else r.returnFrame header frame outcome now

/-- The fragment is new and fits: it is stored, and the frame checked. -/
def storeFragment (r : VideoReassembler) (frame : PendingFrame) (header : FragmentHeader)
    (fragment : Bytes) (outcome : VideoReassemblyOutcome) (now : Time) :
    Option (VideoReassembler × Except VideoDatagramError VideoReassemblyOutcome) :=
  let frameId := header.metadata.frameId
  let frame := frame.store header.fragmentIndex fragment now
  let r := { r with
    pending := r.pending.insert frameId frame
    pendingBytes := r.pendingBytes + fragment.length }
  if frame.receivedBytes > header.frameSize then
    some (r.dropMalformed frameId, .error (.invalidFrameSize frame.receivedBytes))
  else if frame.receivedFragments ≠ header.fragmentCount then
    let (r, outcome) := r.requestKeyframe outcome now
    some (r, .ok outcome)
  else if frame.receivedBytes ≠ header.frameSize then
    some (r.dropMalformed frameId, .error (.invalidFrameSize frame.receivedBytes))
  else (r.completeFrame header outcome now).map fun (r, outcome) => (r, .ok outcome)

/-- The frame is pending: the fragment is compared with it. The sum of two lengths
of live buffers does not saturate. -/
def addFragment (r : VideoReassembler) (header : FragmentHeader) (fragment : Bytes)
    (outcome : VideoReassemblyOutcome) (now : Time) :
    Option (VideoReassembler × Except VideoDatagramError VideoReassemblyOutcome) :=
  let frameId := header.metadata.frameId
  (r.pending.get? frameId).bind fun frame =>
    if !frame.header.belongsToSameFrame header then
      some (r.dropMalformed frameId, .error .inconsistentMetadata)
    else
      frame.fragments[header.fragmentIndex]?.bind fun slot =>
        match slot with
        | some existing =>
            if existing = fragment then
              some ({ r with
                stats := { r.stats with
                  duplicateFragments := satAdd r.stats.duplicateFragments 1 } }, .ok outcome)
            else some (r.dropMalformed frameId, .error .conflictingDuplicate)
        | none =>
            if r.pendingBytes + fragment.length > r.config.maxMemoryBytes then
              some (r.dropFrame frameId, .error .memoryLimit)
            else r.storeFragment frame header fragment outcome now

/-- `push` behind the decoding of the datagram. -/
def pushFragment (r : VideoReassembler) (header : FragmentHeader) (fragment : Bytes)
    (outcome : VideoReassemblyOutcome) (now : Time) :
    Option (VideoReassembler × Except VideoDatagramError VideoReassemblyOutcome) :=
  match r.validateFragmentHeader header with
  | .error error => some (r, .error error)
  | .ok () =>
      if header.metadata.frameId ≤ r.lastCompletedFrameId then
        some ({ r with
          stats := { r.stats with obsoleteFragments := satAdd r.stats.obsoleteFragments 1 } },
          .ok outcome)
      else
        (r.openFrame header outcome now).bind fun (r, outcome) =>
          r.addFragment header fragment outcome now

/-- `VideoReassembler::push`. -/
def push (r : VideoReassembler) (datagram : Bytes) (now : Time) :
    Option (VideoReassembler × Except VideoDatagramError VideoReassemblyOutcome) :=
  let (r, outcome) := r.expire now
  (decodeMessage datagram).run.bind fun decoded =>
    match decoded with
    | .error error => some (r, .error (.protocol error))
    | .ok message =>
        if message.header.messageType ≠ .videoFragment then
          some (r, .error (.protocol
            (.channelMismatch message.header.messageType message.header.channel)))
        else
          (decodeFragmentPayload message.payload).run.bind fun decoded =>
            match decoded with
            | .error error => some (r, .error error)
            | .ok (header, fragment) => r.pushFragment header fragment outcome now

end VideoReassembler

end HbbCommon.Transport
