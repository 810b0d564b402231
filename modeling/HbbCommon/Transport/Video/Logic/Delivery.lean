import HbbCommon.Transport.Video.Sender
import HbbCommon.Transport.Video.Logic.ReassemblyRoundTrip

/-!
# Video over a perfect path

The sender and the reassembler of its peer, with a path between them that neither
loses nor repeats nor reorders datagrams. The transport id of a frame is taken when
the frame is enqueued, the slot decides later which frame is sent next, and the
reassembler ignores a frame that is not above the last completed one.

So the peer gets the `records` of what was sent: the frames with an id above those
of all frames sent before. That is everything exactly when the frames are sent in
the order of their ids.
-/

namespace HbbCommon.Transport

open HbbCommon.Base

/-! ## The path -/

/-- The frames that `send_video_frame` has sent and those that the peer's `push` has
returned are kept newest first. -/
structure VideoPath where
  sender : Sender
  nextVideoSequence : Nat
  reassembler : VideoReassembler
  sent : List CompleteVideoFrame
  received : List CompleteVideoFrame
  deriving DecidableEq

inductive PathAction
  /-- any step of the sender but the sending of datagrams -/
  | sender (action : SenderAction)
  /-- `send_video_frame` returns `Sent`, and the datagrams arrive in order -/
  | transmit (monotonicTimestampUs maxDatagramSize : Nat) (arrivals : List Time)
  | expire (now : Time)
  deriving DecidableEq

namespace VideoPath

/-- The frame goes to the reliable channel. -/
def reliable (c : SenderConfig) (item : VideoOutbound) : Bool :=
  item.isKeyframe && c.reliableKeyframes

/-- What `send_video_frame` fragments. -/
def transmission (s : VideoPath) (sessionId : SessionId) (item : VideoOutbound)
    (monotonicTimestampUs maxDatagramSize : Nat) : VideoTransmission :=
  { sessionId := sessionId
    firstSequenceNumber := s.nextVideoSequence
    monotonicTimestampUs := monotonicTimestampUs
    metadata := item.metadata
    frame := item.payload
    maxDatagramSize := maxDatagramSize }

def transmit (c : SenderConfig) (sessionId : SessionId) (s : VideoPath)
    (monotonicTimestampUs maxDatagramSize : Nat) (arrivals : List Time) : Option VideoPath :=
  match s.sender.writer with
  | .sending item =>
      if reliable c item then none
      else
        match (s.transmission sessionId item monotonicTimestampUs
          maxDatagramSize).fragmentVideoFrame with
        | .error _ => none
        | .ok datagrams =>
            if arrivals.length ≠ datagrams.length ∨
                s.nextVideoSequence + datagrams.length > u64Max then none
            else do
              let sender ← s.sender.send c .sent
              let (r, results) ← s.reassembler.pushAll (datagrams.zip arrivals)
              return { sender := sender
                       nextVideoSequence := s.nextVideoSequence + datagrams.length
                       reassembler := r
                       sent := { metadata := item.metadata, payload := item.payload } :: s.sent
                       received := (results.filterMap VideoReassembler.returned).reverse ++
                         s.received }
  | _ => none

/-- The step of the sender that `transmit` takes. -/
def isDatagramSend (c : SenderConfig) (s : Sender) : SenderAction → Bool
  | .send .sent =>
      match s.writer with
      | .sending item => !reliable c item
      | _ => false
  | _ => false

def step (c : SenderConfig) (sessionId : SessionId) (s : VideoPath) :
    PathAction → Option VideoPath
  | .sender action =>
      if isDatagramSend c s.sender action then none
      else (s.sender.step c action).map fun sender => { s with sender := sender }
  | .transmit monotonicTimestampUs maxDatagramSize arrivals =>
      s.transmit c sessionId monotonicTimestampUs maxDatagramSize arrivals
  | .expire now => some { s with reassembler := (s.reassembler.expire now).1 }

def system (c : SenderConfig) (sessionId : SessionId) (r : VideoReassembler) :
    TSys VideoPath PathAction where
  init := { sender := .new, nextVideoSequence := 1, reassembler := r, sent := [], received := [] }
  step s a := s.step c sessionId a

/-- A frame that is sent is within the receiver's limit, and its datagrams arrive
before the deadlines. -/
def PromptFrame (config : VideoReassemblyConfig) (t : VideoTransmission) (arrivals : List Time) :
    Prop :=
  match t.fragmentVideoFrame with
  | .ok datagrams => t.Fits ∧ t.frame.length ≤ config.maxFrameBytes ∧
      Deadlines t datagrams config (datagrams.zip arrivals)
  | .error _ => True

instance (config : VideoReassemblyConfig) (t : VideoTransmission) (arrivals : List Time) :
    Decidable (PromptFrame config t arrivals) :=
  match h : t.fragmentVideoFrame with
  | .ok datagrams =>
      decidable_of_iff (t.Fits ∧ t.frame.length ≤ config.maxFrameBytes ∧
        Deadlines t datagrams config (datagrams.zip arrivals)) (by rw [PromptFrame, h])
  | .error _ => .isTrue (by rw [PromptFrame, h]; trivial)

/-- The frame in the writer's hands. -/
def sending (s : VideoPath) : Option VideoOutbound :=
  match s.sender.writer with
  | .sending item => some item
  | _ => none

/-- The path delays nothing. -/
def Prompt (sessionId : SessionId) (config : VideoReassemblyConfig) (s : VideoPath) :
    PathAction → Prop
  | .transmit monotonicTimestampUs maxDatagramSize arrivals =>
      ∀ item, s.sending = some item →
        PromptFrame config
          (s.transmission sessionId item monotonicTimestampUs maxDatagramSize) arrivals
  | .sender _ | .expire _ => True

instance (sessionId : SessionId) (config : VideoReassemblyConfig) (s : VideoPath) :
    ∀ a, Decidable (s.Prompt sessionId config a)
  | .transmit monotonicTimestampUs maxDatagramSize arrivals =>
      match h : s.sending with
      | some item =>
          decidable_of_iff (PromptFrame config
            (s.transmission sessionId item monotonicTimestampUs maxDatagramSize) arrivals)
            (by simp [Prompt, h])
      | none => .isTrue (by simp [Prompt, h])
  | .sender _ | .expire _ => .isTrue trivial

/-! ## What the peer gets -/

/-- The highest id of the frames. -/
def highestId : List CompleteVideoFrame → Nat
  | [] => 0
  | frame :: older => max frame.metadata.frameId (highestId older)

/-- The frames, newest first, that are above all older ones. -/
def records : List CompleteVideoFrame → List CompleteVideoFrame
  | [] => []
  | frame :: older =>
      if highestId older < frame.metadata.frameId then frame :: records older else records older

/-- Every frame is above all older ones. -/
def InIdOrder (frames : List CompleteVideoFrame) : Prop :=
  frames.Pairwise (fun newer older => older.metadata.frameId < newer.metadata.frameId)

variable {frames : List CompleteVideoFrame}

theorem highestId_lt_iff {n : Nat} (hn : 0 < n) :
    highestId frames < n ↔ ∀ f ∈ frames, f.metadata.frameId < n := by
  induction frames with
  | nil => simp [highestId, hn]
  | cons f older ih => simp [highestId, ih]

theorem length_records_le (frames : List CompleteVideoFrame) :
    (records frames).length ≤ frames.length := by
  induction frames with
  | nil => exact le_refl _
  | cons f older ih =>
      unfold records
      split
      · simpa using ih
      · exact Nat.le_succ_of_le ih

theorem records_eq_self_iff (hids : ∀ f ∈ frames, f.metadata.frameId ≠ 0) :
    records frames = frames ↔ InIdOrder frames := by
  induction frames with
  | nil => exact ⟨fun _ => .nil, fun _ => rfl⟩
  | cons f older ih =>
      have hpos : 0 < f.metadata.frameId := Nat.pos_of_ne_zero (hids f List.mem_cons_self)
      have ih := ih (fun g hg => hids g (List.mem_cons_of_mem _ hg))
      unfold records InIdOrder
      rw [List.pairwise_cons, ← highestId_lt_iff hpos]
      by_cases habove : highestId older < f.metadata.frameId
      · rw [if_pos habove, List.cons_inj_right, ih]
        exact ⟨fun h => ⟨habove, h⟩, fun h => h.2⟩
      · rw [if_neg habove]
        constructor
        · intro heq
          have hle := length_records_le older
          rw [heq, List.length_cons] at hle
          omega
        · exact fun h => absurd h.1 habove

/-! ## Between two frames -/

/-- The reassembler after the frames `sent`: nothing is pending. -/
structure AtRest (config : VideoReassemblyConfig) (sent : List CompleteVideoFrame)
    (r : VideoReassembler) : Prop where
  config_eq : r.config = config
  core : CoreInv r.core (fun _ _ => True)
  empty : ∀ frameId f, r.pending.get? frameId = some f → False
  gate : r.hasCompletedKeyframe = true
  last : r.lastCompletedFrameId = highestId sent

variable {config : VideoReassemblyConfig} {sent : List CompleteVideoFrame} {r r' : VideoReassembler}

theorem AtRest.drops (h : AtRest config sent r) (hdrops : VideoReassembler.Drops r r')
    (hcore : CoreInv r'.core (fun _ _ => True)) : AtRest config sent r' :=
  ⟨hdrops.config.trans h.config_eq, hcore,
    fun frameId f hf => h.empty frameId f (hdrops.pending frameId f hf),
    hdrops.keyframe.trans h.gate, hdrops.last.trans h.last⟩

/-- Any pushes are defined and keep the limits. -/
theorem pushAll_spec (pushes : List (Bytes × Time)) :
    ∀ {r : VideoReassembler}, CoreInv r.core (fun _ _ => True) → 0 < r.config.maxPendingFrames →
      ∃ r' results, r.pushAll pushes = some (r', results) ∧ CoreInv r'.core (fun _ _ => True) := by
  induction pushes with
  | nil => exact fun {r} h _ => ⟨r, [], rfl, h⟩
  | cons p pushes ih =>
      intro r h hpos
      obtain ⟨datagram, now⟩ := p
      obtain ⟨r₁, result, hpush, heffect⟩ := VideoReassembler.push_spec h hpos datagram now
      obtain ⟨hconfig, hcore⟩ := heffect.inv
      obtain ⟨r', results, hrest, hinv⟩ :=
        ih (hcore.mono (fun _ _ _ => trivial)) (by rw [hconfig]; exact hpos)
      exact ⟨r', result :: results, by simp [VideoReassembler.pushAll, hpush, hrest], hinv⟩

theorem coreInv_pushAll {pushes : List (Bytes × Time)}
    {results : List (Except VideoDatagramError VideoReassemblyOutcome)}
    (h : CoreInv r.core (fun _ _ => True)) (hpos : 0 < r.config.maxPendingFrames)
    (hpush : r.pushAll pushes = some (r', results)) : CoreInv r'.core (fun _ _ => True) := by
  obtain ⟨r₁, results₁, hpush₁, hinv⟩ := pushAll_spec pushes h hpos
  rw [hpush] at hpush₁
  cases hpush₁
  exact hinv

variable {t : VideoTransmission} {datagrams : List Bytes} {arrivals : List Time}

/-- A reassembler at rest has room for any frame within its limit. -/
theorem AtRest.hasRoom (h : AtRest config sent r) (hpending : 0 < config.maxPendingFrames)
    (hmemory : config.maxFrameBytes ≤ config.maxMemoryBytes)
    (hsize : t.frame.length ≤ config.maxFrameBytes) (hlast : highestId sent < t.metadata.frameId) :
    HasRoom t config ∅ r := by
  have hempty : r.pending = ∅ := by
    apply OrdMap.ext_get?
    intro frameId
    cases hget : r.pending.get? frameId with
    | none => rfl
    | some f => exact (h.empty frameId f hget).elim
  have hbytes : r.pendingBytes = 0 := by
    have hbytes : r.pendingBytes = r.pending.total PendingFrame.receivedBytes := h.core.bytes
    rw [hbytes, hempty]
    rfl
  refine ⟨⟨h.config_eq, by rw [h.last]; exact hlast, .inl h.gate,
    fun frameId f hf => (h.empty frameId f hf).elim⟩, ?_, ?_, ?_⟩
  · rw [hempty]
    rfl
  · rw [hempty]
    exact hpending
  · omega

/-- The datagrams of one frame: they are accepted, and the frame is returned when it
is above all frames sent before. -/
theorem AtRest.transmit (h : AtRest config sent r) (hpending : 0 < config.maxPendingFrames)
    (hmemory : config.maxFrameBytes ≤ config.maxMemoryBytes)
    (hsend : t.fragmentVideoFrame = .ok datagrams) (hfits : t.Fits)
    (hsize : t.frame.length ≤ config.maxFrameBytes) (hlength : arrivals.length = datagrams.length)
    (htimes : Deadlines t datagrams config (datagrams.zip arrivals)) :
    ∃ r' results, r.pushAll (datagrams.zip arrivals) = some (r', results) ∧
      results.filterMap VideoReassembler.returned =
        (if highestId sent < t.metadata.frameId then
          [{ metadata := t.metadata, payload := t.frame }] else []) ∧
      AtRest config ({ metadata := t.metadata, payload := t.frame } :: sent) r' := by
  have hfragmented := VideoTransmission.fragmented hsend
  have hall : (datagrams.zip arrivals).map Prod.fst = datagrams :=
    List.map_fst_zip (Nat.le_of_eq hlength.symm)
  have hpos : 0 < r.config.maxPendingFrames := by
    rw [h.config_eq]
    exact hpending
  have hfilter : ∀ results : List (Except VideoDatagramError VideoReassemblyOutcome),
      results.filterMap VideoReassembler.returned =
        (results.map VideoReassembler.returned).filterMap id := by
    intro results
    rw [List.filterMap_map]
    rfl
  by_cases habove : highestId sent < t.metadata.frameId
  · have hroom := h.hasRoom hpending hmemory hsize habove
    obtain ⟨pre, d, now, post, r', _, _, _, ⟨results, hpush, hframes, _⟩, hreturned⟩ :=
      hroom.round_trip hfragmented hfits hsize (by rw [hall]; exact List.Subset.refl _)
        (by rw [hall]; exact List.Subset.refl _) htimes
    refine ⟨r', results, hpush, ?_, hreturned.config_eq, coreInv_pushAll h.core hpos hpush,
      hreturned.pending, hreturned.keyframe, ?_⟩
    · rw [hfilter, hframes, if_pos habove]
      simp
    · rw [hreturned.last, highestId]
      exact (max_eq_left (Nat.le_of_lt habove)).symm
  · obtain ⟨r', ⟨results, hpush, hframes, _⟩, hdrops⟩ :=
      push_all_obsolete hfragmented hfits hsize h.config_eq
        (by rw [h.last]; exact Nat.le_of_not_lt habove)
        (show (datagrams.zip arrivals).map Prod.fst ⊆ datagrams by
          rw [hall]; exact List.Subset.refl _)
    have hrest := h.drops hdrops (coreInv_pushAll h.core hpos hpush)
    refine ⟨r', results, hpush, ?_, hrest.config_eq, hrest.core, hrest.empty, hrest.gate, ?_⟩
    · rw [hfilter, hframes, if_neg habove]
      simp
    · rw [hrest.last, highestId]
      exact (max_eq_right (Nat.le_of_not_lt habove)).symm

/-! ## Runs -/

/-- What holds after every step. -/
structure PathInv (config : VideoReassemblyConfig) (s : VideoPath) : Prop where
  rest : AtRest config s.sent s.reassembler
  received : s.received = records s.sent
  ids : ∀ f ∈ s.sent, f.metadata.frameId ≠ 0

variable {c : SenderConfig} {sessionId : SessionId} {s s' : VideoPath}

/-- What `transmit` has done when it succeeded. -/
theorem transmit_eq_some {monotonicTimestampUs maxDatagramSize : Nat}
    (h : s.transmit c sessionId monotonicTimestampUs maxDatagramSize arrivals = some s') :
    ∃ item datagrams r results, s.sender.writer = .sending item ∧
      (s.transmission sessionId item monotonicTimestampUs maxDatagramSize).fragmentVideoFrame =
        .ok datagrams ∧ arrivals.length = datagrams.length ∧
      s.reassembler.pushAll (datagrams.zip arrivals) = some (r, results) ∧
      s'.reassembler = r ∧
      s'.sent = { metadata := item.metadata, payload := item.payload } :: s.sent ∧
      s'.received = (results.filterMap VideoReassembler.returned).reverse ++ s.received := by
  unfold transmit at h
  cases hwriter : s.sender.writer with
  | sending item =>
      simp only [hwriter] at h
      split at h
      · cases h
      split at h
      · cases h
      rename_i datagrams hsend
      split at h
      · cases h
      rename_i hlimits
      obtain ⟨sender, _, h⟩ := Option.bind_eq_some_iff.mp h
      obtain ⟨⟨r, results⟩, hpush, h⟩ := Option.bind_eq_some_iff.mp h
      cases h
      exact ⟨item, datagrams, r, results, rfl, hsend, by omega, hpush, rfl, rfl, rfl⟩
  | _ => simp only [hwriter] at h; cases h

/-- A frame that the sender can send is sent: no push of its datagrams is undefined. -/
theorem PathInv.transmit_defined (h : PathInv config s) (hpending : 0 < config.maxPendingFrames)
    {monotonicTimestampUs maxDatagramSize : Nat} {item : VideoOutbound}
    (hwriter : s.sender.writer = .sending item) (hreliable : reliable c item = false)
    (hsend : (s.transmission sessionId item monotonicTimestampUs
      maxDatagramSize).fragmentVideoFrame = .ok datagrams)
    (hlength : arrivals.length = datagrams.length)
    (hsequence : s.nextVideoSequence + datagrams.length ≤ u64Max) :
    ∃ s', s.step c sessionId (.transmit monotonicTimestampUs maxDatagramSize arrivals) = some s' := by
  obtain ⟨r', results, hpush, _⟩ := pushAll_spec (datagrams.zip arrivals) h.rest.core
    (by rw [h.rest.config_eq]; exact hpending)
  have hlimits : ¬ (arrivals.length ≠ datagrams.length ∨
      s.nextVideoSequence + datagrams.length > u64Max) := by omega
  simp only [VideoPath.step, transmit, hwriter, hreliable, Bool.false_eq_true, if_false, hsend,
    if_neg hlimits, Sender.send, hpush]
  exact ⟨_, rfl⟩

theorem PathInv.step (h : PathInv config s) (hpending : 0 < config.maxPendingFrames)
    (hmemory : config.maxFrameBytes ≤ config.maxMemoryBytes) {a : PathAction}
    (hprompt : s.Prompt sessionId config a) (hstep : s.step c sessionId a = some s') :
    PathInv config s' := by
  cases a with
  | sender action =>
      simp only [VideoPath.step] at hstep
      split at hstep
      · cases hstep
      · obtain ⟨sender, _, rfl⟩ := Option.map_eq_some_iff.mp hstep
        exact ⟨h.rest, h.received, h.ids⟩
  | expire now =>
      cases hstep
      exact ⟨h.rest.drops (VideoReassembler.drops_expire _ now)
        (VideoReassembler.coreInv_expire h.rest.core now), h.received, h.ids⟩
  | transmit monotonicTimestampUs maxDatagramSize arrivals =>
      obtain ⟨item, datagrams, r, results, hwriter, hsend, hlength, hpush, hr, hsent, hreceived⟩ :=
        transmit_eq_some hstep
      have hframe := hprompt item (by rw [sending, hwriter])
      simp only [PromptFrame, hsend] at hframe
      obtain ⟨hfits, hsize, htimes⟩ := hframe
      obtain ⟨r', results', hpush', hframes, hrest⟩ :=
        h.rest.transmit hpending hmemory hsend hfits hsize hlength htimes
      rw [hpush] at hpush'
      cases hpush'
      have hid := (VideoTransmission.fragmented hsend).frameId
      refine ⟨?_, ?_, ?_⟩
      · rw [hr, hsent]
        exact hrest
      · rw [hreceived, hframes, hsent, records, h.received]
        show (if highestId s.sent < item.metadata.frameId then
          [({ metadata := item.metadata, payload := item.payload } : CompleteVideoFrame)]
          else []).reverse ++ _ = _
        split <;> rfl
      · intro f hf
        rw [hsent] at hf
        rcases List.mem_cons.mp hf with rfl | hf
        · exact hid
        · exact h.ids f hf

theorem pathInv_init {r₀ : VideoReassembler} (hnew : VideoReassembler.new config = .ok r₀)
    (hgate : config.requireInitialKeyframe = false) :
    PathInv config (system c sessionId r₀).init := by
  obtain ⟨_, _, hconfig, hreset⟩ := ReassemblyRun.new_ok hnew
  refine ⟨⟨hconfig, ?_, ?_, ?_, ?_⟩, rfl, fun f hf => by cases hf⟩
  · show CoreInv r₀.core _
    rw [hreset]
    exact (ReassemblyRun.runInv_reset hconfig).core.mono (fun _ _ _ => trivial)
  · intro frameId f hf
    have hf : r₀.pending.get? frameId = some f := hf
    rw [hreset] at hf
    cases hf
  · show r₀.hasCompletedKeyframe = true
    rw [hreset]
    show (!r₀.config.requireInitialKeyframe) = true
    rw [hconfig, hgate]
    rfl
  · show r₀.lastCompletedFrameId = 0
    rw [hreset]
    rfl

/-- Any interleaving of enqueues and the writer's steps, over a perfect path. The peer
has got exactly what was sent, in the order of sending, if and only if the frames
were sent in the order of their transport ids; and the next frame that the sender can
send is delivered, with no push undefined. -/
theorem delivered_iff_in_id_order (c : SenderConfig) (sessionId : SessionId)
    (config : VideoReassemblyConfig) (r₀ : VideoReassembler)
    (hnew : VideoReassembler.new config = .ok r₀) (hgate : config.requireInitialKeyframe = false)
    (s : VideoPath) (h : (system c sessionId r₀).Reach (Prompt sessionId config) s) :
    (s.received = s.sent ↔ InIdOrder s.sent) ∧
    ∀ item monotonicTimestampUs maxDatagramSize arrivals datagrams,
      s.sender.writer = .sending item → reliable c item = false →
      (s.transmission sessionId item monotonicTimestampUs maxDatagramSize).fragmentVideoFrame =
        .ok datagrams →
      arrivals.length = datagrams.length → s.nextVideoSequence + datagrams.length ≤ u64Max →
      ∃ s', s.step c sessionId (.transmit monotonicTimestampUs maxDatagramSize arrivals) =
        some s' := by
  obtain ⟨hpending, hmemory, _, _⟩ := ReassemblyRun.new_ok hnew
  have hinv : PathInv config s := by
    refine h.invariant (pathInv_init hnew hgate) ?_
    intro s a t hs hprompt hstep
    exact hs.step hpending hmemory hprompt hstep
  refine ⟨?_, ?_⟩
  · rw [hinv.received]
    exact records_eq_self_iff hinv.ids
  · intro item monotonicTimestampUs maxDatagramSize arrivals datagrams hwriter hreliable hsend
      hlength hsequence
    exact hinv.transmit_defined hpending hwriter hreliable hsend hlength hsequence

/-! ## Two displays -/

/-- A delta of a display. -/
def delta (display : Int) : VideoFrame :=
  { union := some (.vp9s [false]), display := display, streamId := 1, frameId := 2
    captureTimeMs := 0 }

/-- Both displays enqueue a delta before the writer takes one; then both are sent. -/
def twoDisplays (first second : Bytes) : List PathAction :=
  [.sender (.enqueue none (delta 0) first), .sender .offer,
    .sender (.enqueue none (delta 1) second), .sender .offer,
    .sender (.take false), .sender .gate, .sender .check, .transmit 0 1200 [0],
    .sender (.take false), .sender .gate, .sender .check, .transmit 0 1200 [0]]

def pathConfig : SenderConfig :=
  { maxTracks := 2, reliableKeyframes := true, keyframeBarrier := false
    scopedReferenceRefresh := true }

def pathSession : SessionId := ⟨List.replicate 16 7, length_replicate_sessionId⟩

def openConfig : VideoReassemblyConfig := { VideoReassemblyConfig.default with
  requireInitialKeyframe := false }

def openReassembler : VideoReassembler := { ReassemblyRun.fresh with
  config := openConfig, hasCompletedKeyframe := true }

theorem delivered_when_small_first :
    ∃ s, (system pathConfig pathSession openReassembler).run (twoDisplays [1] [1, 2, 3]) = some s ∧
      s.sent.length = 2 ∧ s.received = s.sent := by
  have hfollows : (system pathConfig pathSession openReassembler).Follows
      (Prompt pathSession openConfig) (system pathConfig pathSession openReassembler).init
      (twoDisplays [1] [1, 2, 3]) := by decide +kernel
  have hids : ((system pathConfig pathSession openReassembler).run
      (twoDisplays [1] [1, 2, 3])).map
        (fun s => s.sent.map (fun frame => frame.metadata.frameId)) = some [2, 1] := by
    decide +kernel
  obtain ⟨s, hrun, hsent⟩ := Option.map_eq_some_iff.mp hids
  have hiff := (delivered_iff_in_id_order pathConfig pathSession openConfig openReassembler rfl rfl s
    (TSys.reach_of_run _ hfollows hrun)).1
  refine ⟨s, hrun, by simpa using congrArg List.length hsent, hiff.mpr ?_⟩
  have horder : (s.sent.map (fun frame => frame.metadata.frameId)).Pairwise
      (fun newer older => older < newer) := by
    rw [hsent]
    decide
  exact List.pairwise_map.mp horder

/-- The longer frame is enqueued first, sent last, and ignored by the peer. -/
theorem reordered_frame_lost :
    ∃ s, VideoReassembler.new openConfig = .ok openReassembler ∧
      (system pathConfig pathSession openReassembler).Reach (Prompt pathSession openConfig) s ∧
      s.sent.map (fun frame => frame.payload) = [[1, 2, 3], [1]] ∧
      s.received.map (fun frame => frame.payload) = [[1]] ∧ s.received ≠ s.sent := by
  have hfollows : (system pathConfig pathSession openReassembler).Follows
      (Prompt pathSession openConfig) (system pathConfig pathSession openReassembler).init
      (twoDisplays [1, 2, 3] [1]) := by decide +kernel
  have hframes : ((system pathConfig pathSession openReassembler).run
      (twoDisplays [1, 2, 3] [1])).map
        (fun s => (s.sent.map (fun frame => frame.payload),
          s.received.map (fun frame => frame.payload))) = some ([[1, 2, 3], [1]], [[1]]) := by
    decide +kernel
  obtain ⟨s, hrun, hpayloads⟩ := Option.map_eq_some_iff.mp hframes
  obtain ⟨hsent, hreceived⟩ := Prod.mk.inj hpayloads
  refine ⟨s, rfl, TSys.reach_of_run _ hfollows hrun, hsent, hreceived, ?_⟩
  intro heq
  rw [heq, hsent] at hreceived
  cases hreceived

end VideoPath

end HbbCommon.Transport
