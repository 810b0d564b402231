import HbbCommon.Transport.Video.Logic.SenderFlight

/-!
# Streams and their tracks

The producer gives every stream its own track (`trackOf`), and the stream ids of
one display never decrease: `OwnTracks` is this assumption on the enqueue calls.
`Streams` is what it gives in every state: who owns a frame, how the newest
stream that the slot records bounds the frames seen so far, and which tracks the
recovery state can hold.
-/

namespace HbbCommon.Transport

open HbbCommon.Base

namespace Sender

variable {c : SenderConfig} {s t : Sender} {trackOf : VideoStreamKey → VideoOutboundTrackKey}

/-- No frame of a newer stream of the same display has been enqueued. -/
def Alive (log : List SenderEvent) (key : VideoStreamKey) : Prop :=
  ∀ f src, .enqueued f ∈ log → f.source = some src → src.display = key.display →
    src.streamId ≤ key.streamId

/-- Each stream uses its own track key, and the stream ids of a display never
decrease. -/
def OwnTracks (trackOf : VideoStreamKey → VideoOutboundTrackKey) (s : Sender) :
    SenderAction → Prop
  | .enqueue latestKey frame _ => ∀ info, videoSourceInfo frame = some info →
      .resolve latestKey (some info) = trackOf info.key ∧ Alive s.log info.key
  | _ => True

/-- A track in recovery waits for a keyframe of the stream whose frame was lost. -/
def EntryOk (trackOf : VideoStreamKey → VideoOutboundTrackKey) (log : List SenderEvent)
    (k : VideoOutboundTrackKey) (track : VideoSendTrackRecoveryState) : Prop :=
  track.awaitingKeyframe = true ∧ ∃ src f, track.source = some src ∧ k = trackOf src ∧
    .enqueued f ∈ log ∧ f.source = some src

structure Streams (trackOf : VideoStreamKey → VideoOutboundTrackKey) (c : SenderConfig)
    (s : Sender) : Prop where
  slot_wf : s.slot.Wf (slotMaxTracks c.maxTracks)
  owned : ∀ f, .enqueued f ∈ s.log → ∃ src, f.source = some src ∧ f.trackKey = trackOf src
  producer_owned : ∀ item ∈ s.producer.held, ∃ src, item.tag.source = some src ∧
    item.trackKey = trackOf src ∧ Alive s.log src
  newest : ∀ f src d, .enqueued f ∈ s.log → f.source = some src →
    displayIndex src.display = some d → ∃ n, s.slot.newestStream d = some n ∧ src.streamId ≤ n
  held_valid : ∀ item ∈ s.writer.held, ∃ src d, item.tag.source = some src ∧
    displayIndex src.display = some d
  entry : ∀ k track, s.recovery.tracks.get? k = some track → EntryOk trackOf s.log k track

theorem streams_new : Streams trackOf c Sender.new where
  slot_wf := TrackLatestState.wf_new _
  owned := fun _ h => by cases h
  producer_owned := fun _ h => by cases h
  newest := fun _ _ _ h => by cases h
  held_valid := fun _ h => by cases h
  entry := fun _ _ h => by cases h

/-- The source of a frame, from its tag. -/
theorem sourceInfo_of_tag {item : VideoOutbound} {src : VideoStreamKey}
    (h : item.tag.source = some src) : ∃ info, item.sourceInfo = some info ∧ info.key = src :=
  Option.map_eq_some_iff.mp h

theorem EntryOk.mono {log log' : List SenderEvent} {k : VideoOutboundTrackKey}
    {track : VideoSendTrackRecoveryState} (h : EntryOk trackOf log k track)
    (hlog : ∀ f, .enqueued f ∈ log → .enqueued f ∈ log') : EntryOk trackOf log' k track := by
  obtain ⟨hawait, src, f, hsource, hk, hf, hsrc⟩ := h
  exact ⟨hawait, src, f, hsource, hk, hlog f hf, hsrc⟩

/-! ## The recovery state -/

/-- Raising the id that a keyframe must exceed keeps the entries. -/
theorem Streams.entry_raised (h : Streams trackOf c s) {key : VideoOutboundTrackKey}
    {track : VideoSendTrackRecoveryState} (htrack : s.recovery.tracks.get? key = some track)
    (id : Nat) (k : VideoOutboundTrackKey) (track' : VideoSendTrackRecoveryState)
    (hget : (s.recovery.tracks.insert key { track with minimumKeyframeId := id }).get? k =
      some track') : EntryOk trackOf s.log k track' := by
  obtain ⟨rfl, rfl⟩ | ⟨-, hget⟩ := OrdMap.get?_insert_eq_some hget
  · exact h.entry k track htrack
  · exact h.entry k track' hget

theorem Streams.entry_enter (h : Streams trackOf c s) {item : VideoOutbound}
    (hitem : .enqueued item.tag ∈ s.log) (k : VideoOutboundTrackKey)
    (track : VideoSendTrackRecoveryState)
    (hget : (s.enter c item).recovery.tracks.get? k = some track) :
    EntryOk trackOf s.log k track := by
  obtain ⟨src, hsrc, hkey⟩ := h.owned item.tag hitem
  obtain ⟨info, hinfo, rfl⟩ := sourceInfo_of_tag hsrc
  unfold Sender.enter at hget
  rcases s.recovery.enter_cases c.scopedReferenceRefresh item.trackKey item.sourceInfo
    item.metadata.frameId with ⟨_, heq⟩ | ⟨_, hcases, _⟩
  · rw [heq] at hget
    exact h.entry k track hget
  · simp only [hcases] at hget
    split at hget
    · rename_i hk
      cases hget
      refine ⟨rfl, info.key, item.tag, ?_, hk.trans hkey, hitem, hsrc⟩
      simp [VideoSendRecoveryState.lossState, hinfo]
    · exact h.entry k track (Option.filter_eq_some_iff.mp hget).1

/-- A keyframe clears the entry of its track when it is the one awaited. -/
theorem get?_keyframeSent_eq_some {r : VideoSendRecoveryState} {key k : VideoOutboundTrackKey}
    {id : Nat} {track : VideoSendTrackRecoveryState}
    (h : (r.keyframeSent key id).tracks.get? k = some track) :
    r.tracks.get? k = some track ∧ (k = key → ¬ track.minimumKeyframeId < id) := by
  unfold VideoSendRecoveryState.keyframeSent at h
  split at h
  · obtain ⟨hk, h⟩ := OrdMap.get?_erase_eq_some.mp h
    exact ⟨h, fun heq => absurd heq hk⟩
  · rename_i hkeep
    refine ⟨h, ?_⟩
    rintro rfl hlt
    apply hkeep
    rw [h]
    simpa using hlt

theorem Streams.entry_keyframeSent (h : Streams trackOf c s) (key : VideoOutboundTrackKey)
    (id : Nat) (k : VideoOutboundTrackKey) (track : VideoSendTrackRecoveryState)
    (hget : (s.recovery.keyframeSent key id).tracks.get? k = some track) :
    EntryOk trackOf s.log k track :=
  h.entry k track (get?_keyframeSent_eq_some hget).1

/-! ## Steps -/

/-- A step that records no frame and leaves the slot alone. -/
theorem Streams.quiet {new : List SenderEvent} (h : Streams trackOf c s)
    (hslot : t.slot = s.slot) (hproducer : t.producer = s.producer ∨ t.producer = .idle)
    (hlog : t.log = new ++ s.log) (hnew : ∀ e ∈ new, e.isFrame = false)
    (hheld : (t.writer.held.map VideoOutbound.mark).Sublist
      (s.writer.held.map VideoOutbound.mark))
    (hentry : ∀ k track, t.recovery.tracks.get? k = some track → EntryOk trackOf s.log k track) :
    Streams trackOf c t := by
  have hmem : ∀ f, .enqueued f ∈ t.log ↔ .enqueued f ∈ s.log := by
    intro f
    rw [hlog, mem_append_of_isFrame hnew rfl]
  have halive : ∀ key, Alive s.log key → Alive t.log key :=
    fun key ha f src hf => ha f src ((hmem f).mp hf)
  refine
    { slot_wf := by rw [hslot]; exact h.slot_wf
      owned := fun f hf => h.owned f ((hmem f).mp hf)
      producer_owned := ?_
      newest := fun f src d hf => by rw [hslot]; exact h.newest f src d ((hmem f).mp hf)
      held_valid := ?_
      entry := fun k track hget => (hentry k track hget).mono (fun f hf => (hmem f).mpr hf) }
  · intro item hitem
    rcases hproducer with heq | hidle
    · obtain ⟨src, hsrc, hk, ha⟩ := h.producer_owned item (heq ▸ hitem)
      exact ⟨src, hsrc, hk, halive src ha⟩
    · rw [hidle] at hitem
      cases hitem
  · intro item hitem
    obtain ⟨old, hold, heq⟩ := List.mem_map.mp (hheld.subset (List.mem_map_of_mem hitem))
    have htag : old.tag = item.tag := congrArg Prod.fst heq
    rw [← htag]
    exact h.held_valid old hold

/-- The writer moves on with a part of what it holds. -/
theorem Streams.move (h : Streams trackOf c s) {writer : Writer}
    (hheld : (writer.held.map VideoOutbound.mark).Sublist
      (s.writer.held.map VideoOutbound.mark))
    (epochs : OrdMap VideoStreamKey Nat) (acknowledged : Nat) :
    Streams trackOf c { s with
      writer := writer, referenceEpochs := epochs
      gate := { s.gate with acknowledgedEpoch := acknowledged } } :=
  h.quiet rfl (.inl rfl) (List.nil_append _).symm (by simp) hheld h.entry

theorem Streams.drop (h : Streams trackOf c s) {writer : Writer} (hheld : writer.held = [])
    (acknowledged : Nat) :
    Streams trackOf c { s with
      writer := writer, gate := { s.gate with acknowledgedEpoch := acknowledged } } :=
  h.move (by rw [hheld]; exact List.nil_sublist _) s.referenceEpochs acknowledged

theorem Streams.enter (h : Streams trackOf c s) {item : VideoOutbound}
    (hitem : .enqueued item.tag ∈ s.log) : Streams trackOf c (s.enter c item) := by
  obtain ⟨new, hlog, hnew⟩ := s.enter_log (c := c) item
  refine h.quiet rfl (.inl rfl) hlog ?_ (List.Sublist.refl _) (h.entry_enter hitem)
  intro e he
  obtain ⟨refresh, rfl⟩ := hnew e he
  rfl

/-- The stream of a frame that was offered is at most the newest one recorded. -/
theorem newest_of_offer {maxTracks : Nat} {slot u : TrackLatestState} {item : VideoOutbound}
    {outcome : SlotOutcome} {info : VideoSourceInfo} {d : Fin maxVideoDisplays}
    (h : slot.replaceWhenWith maxTracks item.trackKey item shouldReplacePendingVideo =
      some (u, outcome)) (hinfo : item.sourceInfo = some info)
    (hd : displayIndex info.key.display = some d) :
    ∃ n, u.newestStream d = some n ∧ info.key.streamId ≤ n := by
  obtain ⟨v, admitted, hsrc, ⟨rfl, rfl, rfl⟩ | ⟨rfl, hst⟩⟩ :=
    TrackLatestState.replaceWhenWith_cases h
  · cases hsrc with
    | outside hinfo' hd' =>
        rw [hinfo] at hinfo'
        cases hinfo'
        rw [hd] at hd'
        cases hd'
    | older hinfo' hd' hnew hlt =>
        rw [hinfo] at hinfo'
        cases hinfo'
        rw [hd] at hd'
        cases hd'
        exact ⟨_, hnew, le_of_lt hlt⟩
  · obtain ⟨d', hd', hnew⟩ := hsrc.ofNewestStream info hinfo
    rw [hd] at hd'
    cases hd'
    exact ⟨_, by rw [hst.newestStream_eq]; exact hnew, le_refl _⟩

theorem newest_mono_of_offer {maxTracks : Nat} {slot u : TrackLatestState}
    {item : VideoOutbound} {outcome : SlotOutcome} {d : Fin maxVideoDisplays} {n : Nat}
    (h : slot.replaceWhenWith maxTracks item.trackKey item shouldReplacePendingVideo =
      some (u, outcome)) (hn : slot.newestStream d = some n) :
    ∃ m, u.newestStream d = some m ∧ n ≤ m := by
  obtain ⟨v, admitted, hsrc, ⟨_, rfl, _⟩ | ⟨_, hst⟩⟩ := TrackLatestState.replaceWhenWith_cases h
  · exact hsrc.newest_mono hn
  · rw [hst.newestStream_eq]
    exact hsrc.newest_mono hn

/-- A stream of the newest id of its display stays so when one of its frames is
recorded. -/
theorem Alive.cons {log : List SenderEvent} {key : VideoStreamKey} {f : FrameTag}
    (h : Alive log key) (hf : f.source = some key) : Alive (.enqueued f :: log) key := by
  intro g src hg hsrc hd
  rcases List.mem_cons.mp hg with heq | hg
  · cases heq
    rw [hf] at hsrc
    cases hsrc
    exact le_refl _
  · exact h g src hg hsrc hd

theorem Streams.offer (h : Streams trackOf c s) {item : VideoOutbound}
    (hp : s.producer = .offering item) {slot : TrackLatestState} {outcome : SlotOutcome}
    (hslot : s.slot.replaceWhenWith (slotMaxTracks c.maxTracks) item.trackKey item
      shouldReplacePendingVideo = some (slot, outcome)) {producer : Producer}
    (hproducer : producer = .idle ∨ producer = .refused item) :
    Streams trackOf c { s with
      slot := slot, log := .enqueued item.tag :: s.log, producer := producer } := by
  obtain ⟨src, hsrc, hkey, halive⟩ :=
    h.producer_owned item (by rw [hp]; exact List.mem_cons_self)
  obtain ⟨info, hinfo, rfl⟩ := sourceInfo_of_tag hsrc
  refine
    { slot_wf := h.slot_wf.replaceWhenWith hslot
      owned := ?_
      producer_owned := ?_
      newest := ?_
      held_valid := h.held_valid
      entry := fun k track hget =>
        (h.entry k track hget).mono (fun f hf => List.mem_cons_of_mem _ hf) }
  · intro f hf
    rcases List.mem_cons.mp hf with heq | hf
    · cases heq
      exact ⟨info.key, hsrc, hkey⟩
    · exact h.owned f hf
  · intro x hx
    change x ∈ producer.held at hx
    rcases hproducer with hq | hq
    · rw [hq] at hx
      cases hx
    · rw [hq, Producer.held, List.mem_singleton] at hx
      subst hx
      exact ⟨info.key, hsrc, hkey, halive.cons hsrc⟩
  · intro f key d hf hfs hd
    rcases List.mem_cons.mp hf with heq | hf
    · cases heq
      rw [hsrc] at hfs
      cases hfs
      exact newest_of_offer hslot hinfo hd
    · obtain ⟨n, hn, hle⟩ := h.newest f key d hf hfs hd
      obtain ⟨m, hm, hnm⟩ := newest_mono_of_offer hslot hn
      exact ⟨m, hm, hle.trans hnm⟩

/-- The writer takes a pending frame, which is of a display in the table. -/
theorem Streams.fetch (h : Streams trackOf c s) (hledger : Ledger s) {slot : TrackLatestState}
    {writer : Writer} {k : VideoOutboundTrackKey} {p : PendingVideo}
    (hwf : slot.Wf (slotMaxTracks c.maxTracks)) (hpend : s.slot.pending.get? k = some p)
    (hnewest : slot.newestStream = s.slot.newestStream)
    (hheld : writer.held = s.writer.held ++ [p.value]) :
    Streams trackOf c { s with slot := slot, writer := writer } := by
  refine { h with slot_wf := hwf, newest := ?_, held_valid := ?_ }
  · intro f src d hf hsrc hd
    show ∃ n, slot.newestStream d = some n ∧ _
    rw [hnewest]
    exact h.newest f src d hf hsrc hd
  · intro item hitem
    change item ∈ writer.held at hitem
    rw [hheld, List.mem_append, List.mem_singleton] at hitem
    rcases hitem with hold | rfl
    · exact h.held_valid item hold
    · obtain ⟨src, hsrc, _⟩ := h.owned _ (hledger.pending_enqueued k p hpend)
      obtain ⟨info, hinfo, rfl⟩ := sourceInfo_of_tag hsrc
      obtain ⟨d, hd, _⟩ := h.slot_wf.newest k p hpend info hinfo
      exact ⟨info.key, d, hsrc, hd⟩

/-- What the assumption on enqueue calls says about the frame built. -/
theorem Stamped.own {latestKey : Option Nat} {frame : VideoFrame} {payload : Bytes}
    {item : VideoOutbound} (hitem : Stamped s latestKey frame item)
    (hguard : OwnTracks trackOf s (.enqueue latestKey frame payload)) :
    ∃ src, item.tag.source = some src ∧ item.trackKey = trackOf src ∧ Alive s.log src := by
  obtain ⟨info, hinfo, _⟩ := hitem.sourced
  obtain ⟨hown, halive⟩ := hguard info (hitem.sourceInfo ▸ hinfo)
  refine ⟨info.key, by simp [VideoOutbound.tag, hinfo], ?_, halive⟩
  rw [hitem.trackKey, hinfo]
  exact hown

/-- A swallowed delta is of the stream that its track waits for. -/
theorem Streams.suppress (hinj : Function.Injective trackOf) (h : Streams trackOf c s)
    (hp : s.producer = .idle) {item : VideoOutbound} {src : VideoStreamKey}
    (hsrc : item.tag.source = some src) (hkey : item.trackKey = trackOf src)
    {track : VideoSendTrackRecoveryState}
    (htrack : s.recovery.tracks.get? item.trackKey = some track) (next id : Nat) :
    Streams trackOf c { s with
      nextTransportFrameId := next
      recovery :=
        { tracks := s.recovery.tracks.insert item.trackKey { track with minimumKeyframeId := id } }
      log := .enqueued item.tag :: s.log } := by
  refine
    { slot_wf := h.slot_wf
      owned := ?_
      producer_owned := fun x hx => by
        change x ∈ s.producer.held at hx
        rw [hp] at hx
        cases hx
      newest := ?_
      held_valid := h.held_valid
      entry := fun k track' hget => (h.entry_raised htrack id k track' hget).mono
        (fun f hf => List.mem_cons_of_mem _ hf) }
  · intro f hf
    rcases List.mem_cons.mp hf with heq | hf
    · cases heq
      exact ⟨src, hsrc, hkey⟩
    · exact h.owned f hf
  · intro f key d hf hfs hd
    rcases List.mem_cons.mp hf with heq | hf
    · cases heq
      obtain ⟨_, src', g, _, hk, hg, hgs⟩ := h.entry _ track htrack
      have hsame : src' = src := hinj (hk.symm.trans hkey)
      rw [hsrc] at hfs
      cases hfs
      exact h.newest g src d hg (hsame ▸ hgs) hd
    · exact h.newest f key d hf hfs hd

/-- Handing a frame over enqueues none. -/
theorem Streams.hand (h : Streams trackOf c s) {writer : Writer} (hheld : writer.held = [])
    (f : FrameTag) : Streams trackOf c { s with writer := writer, log := .handed f :: s.log } := by
  refine { h with
    owned := fun g hg => h.owned g (by simpa using hg)
    producer_owned := ?_
    newest := fun g src d hg => h.newest g src d (by simpa using hg)
    held_valid := fun x hx => by
      change x ∈ writer.held at hx
      rw [hheld] at hx
      cases hx
    entry := fun k track hget =>
      (h.entry k track hget).mono (fun g hg => List.mem_cons_of_mem _ hg) }
  intro x hx
  obtain ⟨src, hsrc, hk, halive⟩ := h.producer_owned x hx
  exact ⟨src, hsrc, hk, fun g key hg => halive g key (by simpa using hg)⟩

theorem Streams.step {a : SenderAction} (hinj : Function.Injective trackOf)
    (h : Streams trackOf c s) (hledger : Ledger s) (hguard : OwnTracks trackOf s a)
    (hstep : Steps c s a t) : Streams trackOf c t := by
  have hlogged : ∀ {t : Sender} {e : SenderEvent}, t.slot = s.slot → t.producer = s.producer →
      t.log = e :: s.log → e.isFrame = false →
      (t.writer.held.map VideoOutbound.mark).Sublist (s.writer.held.map VideoOutbound.mark) →
      t.recovery = s.recovery → Streams trackOf c t := by
    intro t e hslot hproducer hlog he hheld hrecovery
    refine h.quiet hslot (.inl hproducer) (hlog.trans (List.singleton_append).symm) ?_ hheld
      (by rw [hrecovery]; exact h.entry)
    intro e' he'
    rw [List.mem_singleton.mp he']
    exact he
  -- a frame that the writer holds was enqueued
  have henq : ∀ item ∈ s.writer.held, .enqueued item.tag ∈ s.log := hledger.held_enqueued
  cases hstep with
  | orderQueued _ => exact hlogged rfl rfl rfl rfl (List.Sublist.refl _) rfl
  | orderRefused _ =>
      exact h.quiet rfl (.inl rfl) (List.nil_append _).symm (by simp) (List.Sublist.refl _) h.entry
  | enqueueSuppressed hp hitem _ htrack _ =>
      obtain ⟨src, hsrc, hkey, _⟩ := Stamped.own hitem hguard
      exact h.suppress hinj hp hsrc hkey htrack _ _
  | enqueueOffering hp hitem _ =>
      have hown := Stamped.own hitem hguard
      refine { h with producer_owned := ?_ }
      intro x hx
      rw [Producer.held, List.mem_singleton] at hx
      subst hx
      exact hown
  | offerRefused hp hslot => exact h.offer hp hslot (.inr rfl)
  | offerInserted hp hslot => exact h.offer hp hslot (.inl rfl)
  | offerReplacedKeyframe hp hslot _ => exact h.offer hp hslot (.inl rfl)
  | offerReplacedDelta hp hslot _ =>
      exact (h.offer hp hslot (.inl rfl)).enter List.mem_cons_self
  | recordRefused hp =>
      have hidle : Streams trackOf c { s with producer := .idle } :=
        h.quiet rfl (.inr rfl) (List.nil_append _).symm (by simp) (List.Sublist.refl _) h.entry
      exact hidle.enter (hledger.refused_enqueued _ hp)
  | take hw hslot =>
      obtain ⟨k, p, hpend, rfl, hnewest, _⟩ := take_effect hslot
      exact h.fetch hledger (h.slot_wf.take hslot) hpend hnewest (by rw [hw]; rfl)
  | @takeClosing _ slot hw hslot =>
      obtain ⟨k, p, hpend, rfl, hnewest, _⟩ := take_effect hslot
      have htaken : Streams trackOf c { s with slot := slot, writer := .gated p.value } :=
        h.fetch hledger (h.slot_wf.take hslot) hpend hnewest (by rw [hw]; rfl)
      exact htaken.drop rfl _
  | gateOpen hw _ =>
      exact hlogged rfl rfl rfl rfl (by rw [hw]; exact List.Sublist.refl _) rfl
  | gateShut hw => exact h.move (by rw [hw]; exact List.Sublist.refl _) _ _
  | wake hw => exact h.move (by rw [hw]; exact List.Sublist.refl _) _ _
  | takeTrack hw hslot =>
      obtain ⟨p, hpend, rfl, hnewest, _⟩ := takeTrack_effect hslot
      exact h.fetch hledger (h.slot_wf.takeTrack hslot) hpend hnewest (by rw [hw]; rfl)
  | mergeKeyframe hw _ _ =>
      exact h.move (by rw [hw]; exact List.sublist_cons_self _ _) _ _
  | @mergeDelta item newer hw _ _ =>
      have hmerged : Streams trackOf c { s with writer := .gated newer } :=
        h.move (by rw [hw]; exact List.sublist_cons_self _ _) _ _
      exact hmerged.enter (henq newer (by rw [hw]; simp [Writer.held]))
  | @mergeDiscarded item newer hw _ =>
      have hmerged : Streams trackOf c { s with writer := .gated item } := by
        refine h.move ?_ _ _
        rw [hw]
        exact (List.nil_sublist [newer.mark]).cons_cons item.mark
      exact hmerged.enter (henq newer (by rw [hw]; simp [Writer.held]))
  | checkSuppressed hw _ htrack _ =>
      exact h.quiet rfl (.inl rfl) (List.nil_append _).symm (by simp) (List.nil_sublist _)
        (h.entry_raised htrack _)
  | @checkSending item hw _ =>
      refine h.move ?_ _ _
      rw [hw]
      show [(applyVideoReferenceEpoch item _ _).1.mark].Sublist [item.mark]
      rw [applyVideoReferenceEpoch_mark]
  | sendKeyframe hw _ => exact h.hand rfl _
  | sendDelta hw _ => exact h.hand rfl _
  | sendNoSpace hw => exact h.move (by rw [hw]; exact List.Sublist.refl _) _ _
  | sendClosing hw => exact h.drop rfl _
  | sendFailed hw => exact h.drop rfl _
  | @recordRejected item hw =>
      have hidle : Streams trackOf c { s with writer := .idle } := h.drop rfl _
      exact hidle.enter (henq item (by rw [hw]; exact List.mem_cons_self))
  | keyframeSent hw =>
      exact h.quiet rfl (.inl rfl) (List.nil_append _).symm (by simp) (List.nil_sublist _)
        (h.entry_keyframeSent _ _)
  | closeIdle hw => exact h.drop rfl _
  | closeWaiting hw => exact h.drop rfl _
  | peerReceive _ => exact hlogged rfl rfl rfl rfl (List.Sublist.refl _) rfl
  | peerAcknowledge _ _ => exact hlogged rfl rfl rfl rfl (List.Sublist.refl _) rfl

end Sender

end HbbCommon.Transport
