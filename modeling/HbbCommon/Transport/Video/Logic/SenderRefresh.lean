import HbbCommon.Transport.Video.Logic.SenderChain

/-!
# Refreshes of a track in recovery

A track enters recovery with a refresh that asks for a keyframe, and no further
refresh is sent until it leaves. The keyframe that answers must therefore get
through. It does not when a delta enqueued after it raises the id that a keyframe
must exceed, when the slot or the transport refuses it, or when a newer stream
retires it; then the track waits and nobody has been asked.

`Answering` excludes these steps. Under it every track in recovery has a refresh
younger than its last keyframe, or that keyframe is on its way and will end the
recovery (`Awaited`).
-/

namespace HbbCommon.Transport

open HbbCommon.Base

/-- The frames in the writer's hands. -/
def Writer.frames : Writer → List VideoOutbound
  | .gated item | .waiting item | .passed item | .sending item | .rejected item | .sent item =>
      [item]
  | .merging item newer => [item, newer]
  | .idle | .stopped => []

/-- The frames in the writer's hands that have not been refused. -/
def Writer.carried : Writer → List VideoOutbound
  | .rejected _ => []
  | w => w.frames

namespace Sender

variable {c : SenderConfig} {s t : Sender} {trackOf : VideoStreamKey → VideoOutboundTrackKey}
  {k : VideoOutboundTrackKey} {log : List SenderEvent}

/-- The refresh asks for a keyframe of the track. -/
def covers (trackOf : VideoStreamKey → VideoOutboundTrackKey) (k : VideoOutboundTrackKey) :
    LocalVideoRefresh → Bool
  | .legacy => true
  | .reference refresh =>
      decide (trackOf { display := refresh.display, streamId := refresh.streamId } = k)

/-- A refresh of the track was sent after its last keyframe was enqueued. -/
def answered (trackOf : VideoStreamKey → VideoOutboundTrackKey) (k : VideoOutboundTrackKey) :
    List SenderEvent → Bool
  | [] => false
  | .refresh refresh :: rest => covers trackOf k refresh || answered trackOf k rest
  | .enqueued f :: rest =>
      if f.trackKey = k ∧ f.keyframe = true then false else answered trackOf k rest
  | _ :: rest => answered trackOf k rest

/-- The last keyframe of track `k` that was enqueued. -/
def lastKeyframe (k : VideoOutboundTrackKey) : List SenderEvent → Option FrameTag
  | [] => none
  | .enqueued f :: rest =>
      if f.trackKey = k ∧ f.keyframe = true then some f else lastKeyframe k rest
  | _ :: rest => lastKeyframe k rest

/-! ## Reading the log -/

theorem lastKeyframe_mem {f : FrameTag} (h : lastKeyframe k log = some f) :
    .enqueued f ∈ log ∧ f.trackKey = k ∧ f.keyframe = true := by
  induction log with
  | nil => cases h
  | cons e rest ih =>
      cases e with
      | enqueued g =>
          simp only [lastKeyframe] at h
          split at h
          · rename_i hg
            cases h
            exact ⟨List.mem_cons_self, hg⟩
          · exact (ih h).imp_left (List.mem_cons_of_mem _)
      | _ => exact (ih h).imp_left (List.mem_cons_of_mem _)

theorem le_lastKeyframe (hsorted : log.Pairwise LogOrder) {f : FrameTag}
    (hf : .enqueued f ∈ log) (hk : f.trackKey = k) (hkey : f.keyframe = true) :
    ∃ g, lastKeyframe k log = some g ∧ (f = g ∨ f.frameId < g.frameId) := by
  induction log with
  | nil => cases hf
  | cons e rest ih =>
      obtain ⟨hhead, hrest⟩ := List.pairwise_cons.mp hsorted
      rcases List.mem_cons.mp hf with rfl | hmem
      · exact ⟨f, by simp [lastKeyframe, hk, hkey], .inl rfl⟩
      · cases e with
        | enqueued g =>
            simp only [lastKeyframe]
            split
            · exact ⟨g, rfl, .inr (hhead _ hmem)⟩
            · exact ih hrest hmem
        | _ => exact ih hrest hmem

/-- The log grows by refreshes. -/
theorem lastKeyframe_refreshes {new : List SenderEvent}
    (hnew : ∀ e ∈ new, ∃ refresh, e = .refresh refresh) :
    lastKeyframe k (new ++ log) = lastKeyframe k log := by
  induction new with
  | nil => rfl
  | cons e rest ih =>
      obtain ⟨refresh, rfl⟩ := hnew e List.mem_cons_self
      exact ih (fun e' he' => hnew e' (List.mem_cons_of_mem _ he'))

theorem answered_refreshes {new : List SenderEvent}
    (hnew : ∀ e ∈ new, ∃ refresh, e = .refresh refresh) (h : answered trackOf k log = true) :
    answered trackOf k (new ++ log) = true := by
  induction new with
  | nil => exact h
  | cons e rest ih =>
      obtain ⟨refresh, rfl⟩ := hnew e List.mem_cons_self
      rw [List.cons_append, answered, ih (fun e' he' => hnew e' (List.mem_cons_of_mem _ he')),
        Bool.or_true]

/-- A frame that is no keyframe of the track changes nothing for the track. -/
theorem answered_enqueued {f : FrameTag} (h : ¬ (f.trackKey = k ∧ f.keyframe = true)) :
    answered trackOf k (.enqueued f :: log) = answered trackOf k log := by
  simp only [answered]
  exact if_neg h

theorem lastKeyframe_enqueued {f : FrameTag} (h : ¬ (f.trackKey = k ∧ f.keyframe = true)) :
    lastKeyframe k (.enqueued f :: log) = lastKeyframe k log := by
  simp only [lastKeyframe]
  exact if_neg h

/-! ## The invariant -/

/-- The frame is pending, or in the writer's hands and not refused. -/
def Carried (s : Sender) (f : FrameTag) : Prop :=
  (∃ item ∈ s.writer.carried, item.tag = f) ∨
  (∃ p, s.slot.pending.get? f.trackKey = some p ∧ p.value.tag = f)

/-- The last keyframe of the track is on its way and exceeds the id `minimum`; no
delta that follows it can raise that id. -/
def Awaited (s : Sender) (k : VideoOutboundTrackKey) (minimum : Nat) : Prop :=
  ∃ f, lastKeyframe k s.log = some f ∧ minimum < f.frameId ∧ Carried s f ∧
    ∀ g, InFlight s g → g.trackKey = k → g.keyframe = false → g.frameId < f.frameId

def AllAnswered (trackOf : VideoStreamKey → VideoOutboundTrackKey) (s : Sender) : Prop :=
  ∀ k track, s.recovery.tracks.get? k = some track →
    answered trackOf k s.log = true ∨ Awaited s k track.minimumKeyframeId

/-- In scoped mode, the frame has what a refresh needs. -/
def Refreshable (c : SenderConfig) (item : VideoOutbound) : Prop :=
  c.scopedReferenceRefresh = true → ∀ info, item.sourceInfo = some info →
    info.key.streamId ≠ 0 ∧ info.frameId ≠ 0

/-- Every frame in flight has what a refresh needs. -/
structure AllRefreshable (c : SenderConfig) (s : Sender) : Prop where
  held : ∀ item ∈ s.writer.held, Refreshable c item
  pending : ∀ k p, s.slot.pending.get? k = some p → Refreshable c p.value
  producer : ∀ item ∈ s.producer.held, Refreshable c item

structure Refresh (trackOf : VideoStreamKey → VideoOutboundTrackKey) (c : SenderConfig)
    (s : Sender) : Prop where
  all_answered : s.writer ≠ .stopped → AllAnswered trackOf s
  minimum_le : ∀ k track, s.recovery.tracks.get? k = some track →
    ∃ f, .enqueued f ∈ s.log ∧ track.minimumKeyframeId ≤ f.frameId
  refreshable : AllRefreshable c s

/-! ## The assumption -/

/-- The slot refuses the frame. -/
def refuses (c : SenderConfig) (s : Sender) (item : VideoOutbound) : Bool :=
  match s.slot.replaceWhenWith (slotMaxTracks c.maxTracks) item.trackKey item
    shouldReplacePendingVideo with
  | some (_, .refused) => true
  | _ => false

/-- A refresh is outstanding for the track, or it needs none. -/
def Asked (trackOf : VideoStreamKey → VideoOutboundTrackKey) (s : Sender)
    (k : VideoOutboundTrackKey) : Prop :=
  s.recovery.awaiting k = true → answered trackOf k s.log = true

/-- While no refresh is outstanding for a track in recovery: no delta of it is
enqueued, its keyframes are refused neither by the slot nor by the transport,
and no newer stream retires its pending keyframe. In scoped mode frames have a
stream id and a frame id. -/
def Answering (trackOf : VideoStreamKey → VideoOutboundTrackKey) (c : SenderConfig)
    (s : Sender) : SenderAction → Prop
  | .enqueue _ frame _ => ∀ info ∈ videoSourceInfo frame,
      (info.keyframe = false → Asked trackOf s (trackOf info.key)) ∧
      (c.scopedReferenceRefresh = true → info.key.streamId ≠ 0 ∧ info.frameId ≠ 0)
  | .offer => ∀ item ∈ s.producer.held,
      (item.isKeyframe = true → s.recovery.awaiting item.trackKey = true →
        s.refuses c item = false) ∧
      (∀ e ∈ s.slot.pending.entries, e.2.value.isKeyframe = true →
        ∀ old ∈ e.2.value.sourceInfo, ∀ info ∈ item.sourceInfo,
          old.key.display = info.key.display → old.key.streamId < info.key.streamId →
          Asked trackOf s e.1)
  | .send .rejectedNoSpace => ∀ item ∈ s.writer.held, item.isKeyframe = true →
      Asked trackOf s item.trackKey
  | _ => True

/-! ## Steps that record no loss -/

/-- A step that enqueues no keyframe and keeps the last keyframe of every track
that still waits for it. -/
theorem AllAnswered.keep (h : AllAnswered trackOf s)
    (hentry : ∀ k track, t.recovery.tracks.get? k = some track →
      s.recovery.tracks.get? k = some track)
    (hanswered : ∀ k, answered trackOf k s.log = true → answered trackOf k t.log = true)
    (hlast : ∀ k, lastKeyframe k t.log = lastKeyframe k s.log)
    (hcarried : ∀ k track f, t.recovery.tracks.get? k = some track →
      answered trackOf k s.log = false → lastKeyframe k s.log = some f →
      track.minimumKeyframeId < f.frameId →
      (∀ g, InFlight s g → g.trackKey = k → g.keyframe = false → g.frameId < f.frameId) →
      Carried s f → Carried t f)
    (hflight : ∀ g, g.keyframe = false → InFlight t g →
      InFlight s g ∨ s.recovery.tracks.get? g.trackKey = none) : AllAnswered trackOf t := by
  intro k track htrack
  have hold := hentry k track htrack
  cases hans : answered trackOf k s.log with
  | true => exact .inl (hanswered k hans)
  | false =>
      rcases h k track hold with htrue | ⟨f, hf, hmin, hcar, hdeltas⟩
      · rw [hans] at htrue
        cases htrue
      · refine .inr ⟨f, (hlast k).trans hf, hmin,
          hcarried k track f htrack hans hf hmin hdeltas hcar, ?_⟩
        intro g hg hgk hdelta
        rcases hflight g hdelta hg with hg' | hnone
        · exact hdeltas g hg' hgk hdelta
        · rw [hgk, hold] at hnone
          cases hnone

theorem carried_of_move {f : FrameTag} (h : Carried s f) (hslot : t.slot = s.slot)
    (hwriter : ∀ x ∈ s.writer.carried, x.tag = f → ∃ y ∈ t.writer.carried, y.tag = f) :
    Carried t f := by
  rcases h with ⟨x, hx, htag⟩ | ⟨p, hp, htag⟩
  · exact .inl (hwriter x hx htag)
  · exact .inr ⟨p, by rw [hslot]; exact hp, htag⟩

theorem inFlight_of_move {g : FrameTag} (h : InFlight t g) (hslot : t.slot = s.slot)
    (hproducer : ∀ x ∈ t.producer.held, x ∈ s.producer.held)
    (hheld : ∀ x ∈ t.writer.held, ∃ y ∈ s.writer.held, y.tag = x.tag) : InFlight s g := by
  rcases h with ⟨x, hx, rfl⟩ | ⟨p, hp, htag⟩ | ⟨x, hx, htag⟩
  · exact .inl (hheld x hx)
  · exact .inr (.inl ⟨p, by rw [← hslot]; exact hp, htag⟩)
  · exact .inr (.inr ⟨x, hproducer x hx, htag⟩)

/-- The writer moves on; a keyframe that a track still waits for stays in its
hands. -/
theorem AllAnswered.move (h : AllAnswered trackOf s) (hslot : t.slot = s.slot)
    (hproducer : ∀ x ∈ t.producer.held, x ∈ s.producer.held)
    (hrecovery : t.recovery = s.recovery)
    (hanswered : ∀ k, answered trackOf k s.log = true → answered trackOf k t.log = true)
    (hlast : ∀ k, lastKeyframe k t.log = lastKeyframe k s.log)
    (hheld : ∀ x ∈ t.writer.held, ∃ y ∈ s.writer.held, y.tag = x.tag)
    (hwriter : ∀ k track f, s.recovery.tracks.get? k = some track →
      answered trackOf k s.log = false → lastKeyframe k s.log = some f →
      (∀ g, InFlight s g → g.trackKey = k → g.keyframe = false → g.frameId < f.frameId) →
      ∀ x ∈ s.writer.carried, x.tag = f → ∃ y ∈ t.writer.carried, y.tag = f) :
    AllAnswered trackOf t := by
  refine h.keep (fun k track htrack => by rw [← hrecovery]; exact htrack) hanswered hlast ?_ ?_
  · intro k track f htrack hans hf _ hdeltas hcar
    rw [hrecovery] at htrack
    exact carried_of_move hcar hslot (hwriter k track f htrack hans hf hdeltas)
  · exact fun g _ hg => .inl (inFlight_of_move hg hslot hproducer hheld)

/-- A pending frame changes hands. -/
theorem AllAnswered.fetch (h : AllAnswered trackOf s) {slot : TrackLatestState}
    {writer : Writer} {k₀ : VideoOutboundTrackKey} {p₀ : PendingVideo}
    (hpend : s.slot.pending.get? k₀ = some p₀) (hkey : p₀.value.trackKey = k₀)
    (hget : ∀ j, slot.pending.get? j = if j = k₀ then none else s.slot.pending.get? j)
    (hheld : writer.held = s.writer.held ++ [p₀.value])
    (hcarried : writer.carried = writer.held) (hold : ∀ x ∈ s.writer.carried, x ∈ s.writer.held) :
    AllAnswered trackOf { s with slot := slot, writer := writer } := by
  refine h.keep (fun _ _ htrack => htrack) (fun _ hans => hans) (fun _ => rfl) ?_ ?_
  · rintro k track f _ _ _ _ _ (⟨x, hx, htag⟩ | ⟨p, hp, htag⟩)
    · refine .inl ⟨x, ?_, htag⟩
      show x ∈ writer.carried
      rw [hcarried, hheld]
      exact List.mem_append_left _ (hold x hx)
    · by_cases hk : f.trackKey = k₀
      · rw [hk, hpend] at hp
        cases hp
        refine .inl ⟨p₀.value, ?_, htag⟩
        show p₀.value ∈ writer.carried
        rw [hcarried, hheld]
        exact List.mem_append_right _ List.mem_cons_self
      · refine .inr ⟨p, ?_, htag⟩
        show slot.pending.get? f.trackKey = some p
        rw [hget, if_neg hk]
        exact hp
  · rintro g _ (⟨x, hx, rfl⟩ | ⟨p, hp, htag⟩ | hq)
    · change x ∈ writer.held at hx
      rw [hheld, List.mem_append, List.mem_singleton] at hx
      rcases hx with hx | rfl
      · exact .inl (.inl ⟨x, hx, rfl⟩)
      · refine .inl (.inr (.inl ⟨p₀, ?_, rfl⟩))
        show s.slot.pending.get? p₀.value.trackKey = some p₀
        rw [hkey]
        exact hpend
    · exact .inl (.inr (.inl ⟨p, pending_of_fetched hget hp, htag⟩))
    · exact .inl (.inr (.inr hq))

/-- A delta of a track outside recovery, or a keyframe, starts its way. -/
theorem AllAnswered.start (h : AllAnswered trackOf s) (hstreams : Streams trackOf c s)
    {item : VideoOutbound}
    (hopen : item.isKeyframe = false → s.recovery.awaiting item.trackKey = false)
    (next : Nat) :
    AllAnswered trackOf { s with nextTransportFrameId := next, producer := .offering item } := by
  refine h.keep (fun _ _ htrack => htrack) (fun _ hans => hans) (fun _ => rfl)
    (fun _ _ _ _ _ _ _ _ hcar => hcar) ?_
  rintro g hdelta (hw | hp | ⟨x, hx, rfl⟩)
  · exact .inl (.inl hw)
  · exact .inl (.inr (.inl hp))
  · rw [Producer.held, List.mem_singleton] at hx
    subst hx
    refine .inr ?_
    cases hget : s.recovery.tracks.get? x.tag.trackKey with
    | none => rfl
    | some track =>
        have hawait := (hstreams.entry _ track hget).1
        have := hopen hdelta
        rw [VideoSendRecoveryState.awaiting, show x.trackKey = x.tag.trackKey from rfl, hget,
          Option.any_some, hawait] at this
        cases this

/-- The producer swallows a delta; a refresh was outstanding. -/
theorem AllAnswered.suppress (h : AllAnswered trackOf s) {item : VideoOutbound}
    {track : VideoSendTrackRecoveryState} (hdelta : item.isKeyframe = false)
    (hans : answered trackOf item.trackKey s.log = true) (next n : Nat) :
    AllAnswered trackOf { s with
      nextTransportFrameId := next
      recovery :=
        { tracks := s.recovery.tracks.insert item.trackKey { track with minimumKeyframeId := n } }
      log := .enqueued item.tag :: s.log } := by
  have hnot : ∀ k, ¬ (item.tag.trackKey = k ∧ item.tag.keyframe = true) := by
    rintro k ⟨_, hkey⟩
    change item.isKeyframe = true at hkey
    rw [hdelta] at hkey
    cases hkey
  intro k track' htrack
  change (s.recovery.tracks.insert _ _).get? k = some track' at htrack
  obtain ⟨hk, -⟩ | ⟨-, htrack⟩ := OrdMap.get?_insert_eq_some htrack
  · refine .inl ?_
    show answered trackOf k (.enqueued item.tag :: s.log) = true
    rw [answered_enqueued (hnot k), hk]
    exact hans
  · rcases h k track' htrack with hans' | ⟨f, hf, hmin, hcar, hdeltas⟩
    · refine .inl ?_
      show answered trackOf k (.enqueued item.tag :: s.log) = true
      rw [answered_enqueued (hnot k)]
      exact hans'
    · exact .inr ⟨f, (lastKeyframe_enqueued (hnot k)).trans hf, hmin, hcar, hdeltas⟩

/-- The writer swallows a delta, which is older than the keyframe awaited. -/
theorem AllAnswered.swallow (h : AllAnswered trackOf s) {item : VideoOutbound}
    (hw : s.writer = .passed item) (hdelta : item.isKeyframe = false)
    {track : VideoSendTrackRecoveryState}
    (htrack : s.recovery.tracks.get? item.trackKey = some track) :
    AllAnswered trackOf { s with
      recovery :=
        { tracks := s.recovery.tracks.insert item.trackKey { track with
            minimumKeyframeId := max track.minimumKeyframeId item.metadata.frameId } }
      writer := .idle } := by
  have hitem : InFlight s item.tag := .inl ⟨item, by rw [hw]; exact List.mem_cons_self, rfl⟩
  have hkeep : ∀ k m, Awaited s k m → Awaited { s with
      recovery :=
        { tracks := s.recovery.tracks.insert item.trackKey { track with
            minimumKeyframeId := max track.minimumKeyframeId item.metadata.frameId } }
      writer := .idle } k m := by
    rintro k m ⟨f, hf, hmin, hcar, hdeltas⟩
    refine ⟨f, hf, hmin, ?_, ?_⟩
    · rcases hcar with ⟨x, hx, htag⟩ | hpend
      · rw [hw, Writer.carried, Writer.frames, List.mem_singleton] at hx
        · subst hx
          have hkey := (lastKeyframe_mem hf).2.2
          rw [← htag] at hkey
          change x.isKeyframe = true at hkey
          rw [hdelta] at hkey
          cases hkey
        · simp
      · exact .inr hpend
    · rintro g (⟨x, hx, _⟩ | hpend | hprod) hgk hgd
      · cases hx
      · exact hdeltas g (.inr (.inl hpend)) hgk hgd
      · exact hdeltas g (.inr (.inr hprod)) hgk hgd
  intro k track' hget
  change (s.recovery.tracks.insert _ _).get? k = some track' at hget
  obtain ⟨rfl, rfl⟩ | ⟨-, hget⟩ := OrdMap.get?_insert_eq_some hget
  · rcases h _ track htrack with hans | hawait
    · exact .inl hans
    · obtain ⟨f, hf, hmin, hcar, hdeltas⟩ := hkeep _ _ hawait
      obtain ⟨f', hf', _, _, hdeltas'⟩ := hawait
      have heq : f = f' := by
        change lastKeyframe _ s.log = some f at hf
        rw [hf'] at hf
        cases hf
        rfl
      subst heq
      exact .inr ⟨f, hf, max_lt hmin (hdeltas' _ hitem rfl hdelta), hcar, hdeltas⟩
  · exact (h k track' hget).imp_right (hkeep k _)

/-- The keyframe that a track waits for ends its recovery. -/
theorem AllAnswered.recover (h : AllAnswered trackOf s) {item : VideoOutbound}
    (hw : s.writer = .sent item) :
    AllAnswered trackOf { s with
      recovery := s.recovery.keyframeSent item.trackKey item.metadata.frameId
      writer := .idle } := by
  have hentry : ∀ k track, (s.recovery.keyframeSent item.trackKey
      item.metadata.frameId).tracks.get? k = some track →
      s.recovery.tracks.get? k = some track ∧
        (k = item.trackKey → ¬ track.minimumKeyframeId < item.metadata.frameId) :=
    fun _ _ => get?_keyframeSent_eq_some
  refine h.keep (fun k track hget => (hentry k track hget).1) (fun _ hans => hans) (fun _ => rfl)
    ?_ ?_
  · rintro k track f hget _ hf hmin _ (⟨x, hx, rfl⟩ | hpend)
    · -- the keyframe awaited has just been handed over
      rw [hw] at hx
      rw [Writer.carried, Writer.frames, List.mem_singleton] at hx
      · subst hx
        exact absurd hmin ((hentry k track hget).2 (lastKeyframe_mem hf).2.1.symm)
      · simp
    · exact .inr hpend
  · rintro g _ (⟨x, hx, _⟩ | hpend | hprod)
    · cases hx
    · exact .inl (.inr (.inl hpend))
    · exact .inl (.inr (.inr hprod))

/-! ## Recording a loss -/

/-- The first loss of a track sends a refresh that covers it. -/
theorem covers_lossRefresh {item : VideoOutbound} {info : VideoSourceInfo}
    {d : Fin maxVideoDisplays} (hinfo : item.sourceInfo = some info)
    (hd : displayIndex info.key.display = some d) (hrefreshable : Refreshable c item)
    (hk : k = trackOf info.key) :
    ∃ refresh, VideoSendRecoveryState.lossRefresh c.scopedReferenceRefresh item.sourceInfo =
      some refresh ∧ covers trackOf k refresh = true := by
  unfold VideoSendRecoveryState.lossRefresh
  cases hscoped : c.scopedReferenceRefresh with
  | false => exact ⟨.legacy, rfl, rfl⟩
  | true =>
      obtain ⟨hstream, hframe⟩ := hrefreshable hscoped info hinfo
      have hnonneg : ¬ info.key.display < 0 := by
        unfold displayIndex at hd
        split at hd
        · omega
        · cases hd
      refine ⟨_, by simp [hinfo, videoReferenceRefresh, hnonneg, hstream, hframe]; rfl, ?_⟩
      simp [covers, hk]

/-- A loss is recorded. A track that was in recovery already sends no refresh, so
the lost frame must not be newer than the keyframe awaited. -/
theorem AllAnswered.enter (h : AllAnswered trackOf s) (hstreams : Streams trackOf c s)
    {item : VideoOutbound} (hitem : .enqueued item.tag ∈ s.log) (hrefreshable : Refreshable c item)
    (hold : ∀ track f, s.recovery.tracks.get? item.trackKey = some track →
      answered trackOf item.trackKey s.log = false →
      lastKeyframe item.trackKey s.log = some f → Carried s f →
      (∀ g, InFlight s g → g.trackKey = item.trackKey → g.keyframe = false →
        g.frameId < f.frameId) →
      item.metadata.frameId < f.frameId) : AllAnswered trackOf (s.enter c item) := by
  obtain ⟨src, hsrc, hkey⟩ := hstreams.owned item.tag hitem
  obtain ⟨info, hinfo, rfl⟩ := sourceInfo_of_tag hsrc
  obtain ⟨new, hlog, hnew⟩ := s.enter_log (c := c) item
  have hlast : ∀ k, lastKeyframe k (s.enter c item).log = lastKeyframe k s.log := fun k => by
    rw [hlog]
    exact lastKeyframe_refreshes hnew
  have hans : ∀ k, answered trackOf k s.log = true →
      answered trackOf k (s.enter c item).log = true := fun k hk => by
    rw [hlog]
    exact answered_refreshes hnew hk
  have hkeep : ∀ k m, Awaited s k m → Awaited (s.enter c item) k m := by
    rintro k m ⟨f, hf, hrest⟩
    exact ⟨f, (hlast k).trans hf, hrest⟩
  intro k track htrack
  rcases s.recovery.enter_cases c.scopedReferenceRefresh item.trackKey item.sourceInfo
    item.metadata.frameId with ⟨_, heq⟩ | ⟨hrecorded, hget, hrefresh⟩
  · have hsame : s.recovery.tracks.get? k = some track := by
      unfold Sender.enter at htrack
      rw [heq] at htrack
      exact htrack
    exact (h k track hsame).imp (hans k) (hkeep k _)
  · change (VideoSendRecoveryState.enter _ _ _ _ _).1.tracks.get? k = some track at htrack
    rw [hget] at htrack
    split at htrack
    · rename_i hk
      subst hk
      cases htrack
      cases hentry : s.recovery.tracks.get? item.trackKey with
      | some old =>
          rcases h _ old hentry with hans' | ⟨f, hf, hmin, hcar, hdeltas⟩
          · exact .inl (hans _ hans')
          · cases hans' : answered trackOf item.trackKey s.log with
            | true => exact .inl (hans _ hans')
            | false =>
                refine .inr (hkeep _ _ ⟨f, hf, ?_, hcar, hdeltas⟩)
                simp only [VideoSendRecoveryState.lossState, hentry, Option.elim_some]
                exact max_lt hmin (hold old f hentry hans' hf hcar hdeltas)
      | none =>
          -- the first loss: the refresh is the newest event
          have hopen : s.recovery.awaiting item.trackKey = false := by
            simp [VideoSendRecoveryState.awaiting, hentry]
          rw [hinfo] at hrecorded
          obtain ⟨⟨d, hd⟩, _⟩ := VideoSendRecoveryState.ignores_eq_false hrecorded
          obtain ⟨refresh, hsome, hcovers⟩ := covers_lossRefresh hinfo hd hrefreshable hkey
          rw [hopen, hsome] at hrefresh
          refine .inl ?_
          show answered trackOf item.trackKey
            ((s.recovery.enter _ _ _ _).2.toList.map SenderEvent.refresh ++ s.log) = true
          rw [hrefresh]
          show (covers trackOf _ refresh || _) = true
          rw [show covers trackOf item.trackKey refresh = true from hcovers, Bool.true_or]
    · exact (h k track (Option.filter_eq_some_iff.mp htrack).1).imp (hans k) (hkeep k _)

/-! ## Offering a frame to the slot -/

theorem Streams.awaiting_of_entry (h : Streams trackOf c s)
    {track : VideoSendTrackRecoveryState} (hget : s.recovery.tracks.get? k = some track) :
    s.recovery.awaiting k = true := by
  simp [VideoSendRecoveryState.awaiting, hget, (h.entry k track hget).1]

/-- Frames in flight after an offer were in flight before. -/
theorem inFlight_of_offer {item : VideoOutbound} (hp : s.producer = .offering item)
    {slot : TrackLatestState} {outcome : SlotOutcome} {producer : Producer} {maxTracks : Nat}
    (hslot : s.slot.replaceWhenWith maxTracks item.trackKey item shouldReplacePendingVideo =
      some (slot, outcome)) (hproducer : OfferedBy outcome item producer) {g : FrameTag}
    (h : InFlight { s with
      slot := slot, log := .enqueued item.tag :: s.log, producer := producer } g) :
    InFlight s g := by
  have hitem : InFlight s item.tag :=
    .inr (.inr ⟨item, by rw [hp]; exact List.mem_cons_self, rfl⟩)
  rcases h with hw | ⟨p, hpend, htag⟩ | ⟨x, hx, rfl⟩
  · exact .inl hw
  · rcases pending_of_offer hslot _ p hpend with hold | ⟨_, hval, _⟩
    · exact .inr (.inl ⟨p, hold, htag⟩)
    · rw [← htag, hval]
      exact hitem
  · change x ∈ producer.held at hx
    rcases hproducer.cases with hq | hq
    · rw [hq] at hx
      cases hx
    · rw [hq, Producer.held, List.mem_singleton] at hx
      rw [hx]
      exact hitem

/-- In flight, the producer's frame is the newest. -/
theorem Ledger.inFlight_lt_offering (h : Ledger s) {item : VideoOutbound}
    (hp : s.producer = .offering item) {g : FrameTag} (hg : InFlight s g) (hne : g ≠ item.tag) :
    g.frameId < item.metadata.frameId := by
  rcases hg with ⟨x, hx, rfl⟩ | ⟨p, hpend, rfl⟩ | ⟨x, hx, rfl⟩
  · exact h.offering_new item hp _ (h.held_enqueued x hx)
  · exact h.offering_new item hp _ (h.pending_enqueued _ p hpend)
  · rw [hp, Producer.held, List.mem_singleton] at hx
    rw [hx] at hne
    exact absurd rfl hne

theorem AllAnswered.offer (h : AllAnswered trackOf s) (hstreams : Streams trackOf c s)
    (hledger : Ledger s)
    (hminimum : ∀ k track, s.recovery.tracks.get? k = some track →
      ∃ f, .enqueued f ∈ s.log ∧ track.minimumKeyframeId ≤ f.frameId)
    {item : VideoOutbound} (hp : s.producer = .offering item) {slot : TrackLatestState}
    {outcome : SlotOutcome}
    (hslot : s.slot.replaceWhenWith (slotMaxTracks c.maxTracks) item.trackKey item
      shouldReplacePendingVideo = some (slot, outcome)) {producer : Producer}
    (hproducer : OfferedBy outcome item producer)
    (hguard : Answering trackOf c s .offer) :
    AllAnswered trackOf { s with
      slot := slot, log := .enqueued item.tag :: s.log, producer := producer } := by
  obtain ⟨haccept, hretire⟩ := hguard item (by rw [hp]; exact List.mem_cons_self)
  have hitem : InFlight s item.tag :=
    .inr (.inr ⟨item, by rw [hp]; exact List.mem_cons_self, rfl⟩)
  intro k track htrack
  change s.recovery.tracks.get? k = some track at htrack
  have hawait := hstreams.awaiting_of_entry htrack
  by_cases hkey : item.tag.trackKey = k ∧ item.tag.keyframe = true
  · -- the keyframe that may end the recovery
    obtain ⟨rfl, hkey⟩ := hkey
    have hout : outcome ≠ .refused := by
      rintro rfl
      have := haccept hkey hawait
      simp [refuses, hslot] at this
    obtain ⟨p, hpend, hval⟩ := pending_self_of_offer hslot hout
    obtain ⟨f, hf, hle⟩ := hminimum _ track htrack
    refine .inr ⟨item.tag, by simp [lastKeyframe, hkey],
      hle.trans_lt (hledger.offering_new item hp f hf), .inr ⟨p, hpend, by rw [hval]⟩, ?_⟩
    intro g hg _ hdelta
    refine hledger.inFlight_lt_offering hp (inFlight_of_offer hp hslot hproducer hg) ?_
    rintro rfl
    rw [hkey] at hdelta
    cases hdelta
  · cases hans : answered trackOf k s.log with
    | true => exact .inl ((answered_enqueued hkey).trans hans)
    | false =>
        rcases h k track htrack with htrue | ⟨f, hf, hmin, hcar, hdeltas⟩
        · rw [hans] at htrue
          cases htrue
        · obtain ⟨henq, hfk, hfkey⟩ := lastKeyframe_mem hf
          refine .inr ⟨f, (lastKeyframe_enqueued hkey).trans hf, hmin, ?_,
            fun g hg => hdeltas g (inFlight_of_offer hp hslot hproducer hg)⟩
          rcases hcar with hw | ⟨p, hpend, htag⟩
          · exact .inl hw
          · rcases pending_after_offer hstreams.slot_wf hslot hpend with
              hstay | ⟨hk, _⟩ | ⟨old, info, hold, hinfo, hdisplay, hlt⟩
            · exact .inr ⟨p, hstay, htag⟩
            · -- only a delta could replace it here, and that would be newer
              exfalso
              have hdelta : item.tag.keyframe = false := by
                cases hik : item.tag.keyframe with
                | false => rfl
                | true => exact absurd ⟨hk.symm.trans hfk, hik⟩ hkey
              have := hdeltas item.tag hitem (hk.symm.trans hfk) hdelta
              have := hledger.offering_new item hp f henq
              exact absurd this (not_lt_of_gt (by assumption))
            · exfalso
              have hpkey : p.value.isKeyframe = true := by
                rw [← htag] at hfkey
                exact hfkey
              have hasked := hretire (f.trackKey, p) (OrdMap.mem_entries_iff.mpr hpend) hpkey
                old hold info hinfo hdisplay.symm hlt
              rw [hfk] at hasked
              rw [hasked hawait] at hans
              cases hans

end Sender

end HbbCommon.Transport
