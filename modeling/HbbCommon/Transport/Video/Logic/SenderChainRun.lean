import HbbCommon.Transport.Video.Logic.SenderChain

/-!
# The reference chain over every run

Every step keeps the invariant `Chain` (`Chain.step`), and a delta that passes
the check after the gate follows its predecessor (`Chain.checked`). From this,
`reference_chain` reads off the order in which frames are handed over.

The run of `reference_chain_forgotten` shows what `SparesWriter` excludes: the
producer records a loss of a new stream while the writer holds a delta of the
old one, the recovery state of the old stream is dropped, and the delta goes out
although its reference was replaced in the slot.
-/

namespace HbbCommon.Transport

open HbbCommon.Base

/-- The frame that an event records as enqueued. -/
def SenderEvent.enqueuedFrame : SenderEvent → Option FrameTag
  | .enqueued f => some f
  | _ => none

namespace Sender

variable {c : SenderConfig} {s t : Sender} {trackOf : VideoStreamKey → VideoOutboundTrackKey}
  {k : VideoOutboundTrackKey} {id : Nat} {log : List SenderEvent}

/-! ## What the writer knows -/

/-- A pending frame has no newer stream in recovery. -/
theorem Streams.newerStream_pending (h : Streams trackOf c s) {p : PendingVideo}
    (hp : s.slot.pending.get? k = some p) {src : VideoStreamKey}
    (hsrc : p.value.tag.source = some src) : s.recovery.newerStream src = false := by
  cases hnewer : s.recovery.newerStream src with
  | false => rfl
  | true =>
      obtain ⟨f, new, hf, hfs, hdisplay, hlt⟩ := h.newer_enqueued hnewer
      obtain ⟨info, hinfo, rfl⟩ := sourceInfo_of_tag hsrc
      obtain ⟨d, hd, hn⟩ := h.slot_wf.newest k p hp info hinfo
      obtain ⟨n, hn', hle⟩ := h.newest f new d hf hfs (hdisplay ▸ hd)
      rw [hn] at hn'
      cases hn'
      omega

theorem newerStream_raised {r : VideoSendRecoveryState} {key : VideoOutboundTrackKey}
    {track : VideoSendTrackRecoveryState} {n : Nat} {src : VideoStreamKey}
    (htrack : r.tracks.get? key = some track)
    (h : VideoSendRecoveryState.newerStream
      { tracks := r.tracks.insert key { track with minimumKeyframeId := n } } src = true) :
    r.newerStream src = true := by
  obtain ⟨k, track', new, hget, hnew, hrest⟩ := VideoSendRecoveryState.newerStream_iff.mp h
  obtain ⟨-, rfl⟩ | ⟨-, hget⟩ := OrdMap.get?_insert_eq_some hget
  · exact VideoSendRecoveryState.newerStream_iff.mpr ⟨key, track, new, htrack, hnew, hrest⟩
  · exact VideoSendRecoveryState.newerStream_iff.mpr ⟨k, track', new, hget, hnew, hrest⟩

/-- Past the check, the frame enqueued before the delta has been handed over. -/
theorem Chain.checked (h : Chain trackOf s) (hstreams : Streams trackOf c s) (hledger : Ledger s)
    {item : VideoOutbound} (hw : s.writer = .passed item) (hdelta : item.isKeyframe = false)
    (hopen : s.recovery.awaiting item.trackKey = false) {p : FrameTag}
    (hp : lastEnqueued item.trackKey item.metadata.frameId s.log = some p) :
    .handed p ∈ s.log := by
  have hthreat : Threat trackOf s item.trackKey item.metadata.frameId :=
    .writer (by rw [hw]; exact List.mem_cons_self) hdelta
  have hheld : item ∈ s.writer.held := by rw [hw]; exact List.mem_cons_self
  obtain ⟨_, hpk, hlt⟩ := lastEnqueued_mem hp
  rcases h.linked (by simp [hw]) _ _ hthreat p hp with hkept | ⟨track, htrack, _⟩
  · rcases hkept with hf | ⟨x, hx, rfl⟩ | ⟨q, hq, rfl⟩ | ⟨x, hx, rfl⟩
    · exact hf
    · rw [hw, Writer.held, List.mem_singleton] at hx
      subst hx
      exact absurd hlt (lt_irrefl _)
    · have := hledger.held_lt_pending hheld (hpk ▸ hq)
      exact absurd hlt (not_lt_of_gt this)
    · have := hledger.held_lt_producer hheld hx hpk
      exact absurd hlt (not_lt_of_gt this)
  · obtain ⟨hawait, _⟩ := hstreams.entry _ track htrack
    rw [VideoSendRecoveryState.awaiting, htrack, Option.any_some, hawait] at hopen
    cases hopen

/-- A frame enqueued later is not before `id`. -/
theorem lastEnqueued_later {f : FrameTag} (h : id ≤ f.frameId) :
    lastEnqueued k id (.enqueued f :: log) = lastEnqueued k id log := by
  simp only [lastEnqueued]
  exact if_neg (fun hf => absurd hf.2 (not_lt_of_ge h))

/-! ## One step -/

/-- What a step adds to the log: one frame handed over, or none. -/
theorem Steps.log_cases {a : SenderAction} (hstep : Steps c s a t) :
    (∃ new, t.log = new ++ s.log ∧ ∀ d, .handed d ∉ new) ∨
    (∃ item, s.writer = .sending item ∧ t.log = .handed item.tag :: s.log) := by
  have hnone : ∃ new, s.log = new ++ s.log ∧ ∀ d, SenderEvent.handed d ∉ new :=
    ⟨[], rfl, by simp⟩
  have hone : ∀ e : SenderEvent, (∀ d, e ≠ .handed d) →
      ∃ new, e :: s.log = new ++ s.log ∧ ∀ d, SenderEvent.handed d ∉ new :=
    fun e he => ⟨[e], rfl, fun d hd => he d (List.mem_singleton.mp hd).symm⟩
  have henter : ∀ (s' : Sender) (item : VideoOutbound),
      (∃ new, s'.log = new ++ s.log ∧ ∀ d, SenderEvent.handed d ∉ new) →
      ∃ new, (s'.enter c item).log = new ++ s.log ∧ ∀ d, SenderEvent.handed d ∉ new := by
    rintro s' item ⟨new, hlog, hnew⟩
    obtain ⟨refreshes, hrefresh, hall⟩ := s'.enter_log (c := c) item
    refine ⟨refreshes ++ new, by rw [hrefresh, hlog, List.append_assoc], ?_⟩
    intro d hd
    rcases List.mem_append.mp hd with hd | hd
    · obtain ⟨_, heq⟩ := hall _ hd
      cases heq
    · exact hnew d hd
  cases hstep with
  | sendKeyframe hw _ => exact .inr ⟨_, hw, rfl⟩
  | sendDelta hw _ => exact .inr ⟨_, hw, rfl⟩
  | orderQueued _ => exact .inl (hone _ (by simp))
  | enqueueSuppressed _ _ _ _ _ => exact .inl (hone _ (by simp))
  | offerRefused _ _ => exact .inl (hone _ (by simp))
  | offerInserted _ _ => exact .inl (hone _ (by simp))
  | offerReplacedKeyframe _ _ _ => exact .inl (hone _ (by simp))
  | offerReplacedDelta _ _ _ => exact .inl (henter _ _ (hone _ (by simp)))
  | gateOpen _ _ => exact .inl (hone _ (by simp))
  | peerReceive _ => exact .inl (hone _ (by simp))
  | peerAcknowledge _ _ => exact .inl (hone _ (by simp))
  | recordRefused _ => exact .inl (henter _ _ hnone)
  | mergeDelta _ _ _ => exact .inl (henter _ _ hnone)
  | mergeDiscarded _ _ => exact .inl (henter _ _ hnone)
  | recordRejected _ => exact .inl (henter _ _ hnone)
  | orderRefused _ | enqueueOffering _ _ _ | take _ _ | takeClosing _ _ | gateShut _ | wake _
  | takeTrack _ _ | mergeKeyframe _ _ _ | checkSuppressed _ _ _ _ | checkSending _ _
  | sendNoSpace _ | sendClosing _ | sendFailed _ | keyframeSent _ | closeIdle _
  | closeWaiting _ => exact .inl hnone

theorem Chain.chained_step {a : SenderAction} (h : Chain trackOf s) (hledger : Ledger s)
    (hstep : Steps c s a t) (post pre : List SenderEvent) (d : FrameTag)
    (hlog : t.log = post ++ .handed d :: pre) : Follows d pre := by
  rcases hstep.log_cases with ⟨new, hnew, hnone⟩ | ⟨item, hw, hnew⟩
  · rw [hnew] at hlog
    obtain ⟨post', hpost⟩ := split_of_append (hnone d) hlog
    exact h.chained post' d pre hpost
  · rw [hnew] at hlog
    cases post with
    | cons e post' => exact h.chained post' d pre (List.cons.inj hlog).2
    | nil =>
        obtain ⟨hd, rfl⟩ := List.cons.inj hlog
        cases hd
        -- the frame handed over now
        have hheld : item ∈ s.writer.held := by rw [hw]; exact List.mem_cons_self
        refine ⟨hledger.held_enqueued item hheld, fun hdelta => ?_⟩
        refine lastHanded_eq_lastEnqueued hledger.sorted hledger.handed_enqueued ?_
          (h.sending item hw hdelta)
        intro f hf hk
        refine hledger.handed_before _ item.mark ?_ f hf hk
        exact List.mem_append_left _ (List.mem_append_left _
          (mem_marksOf.mpr ⟨item, hheld, rfl, rfl⟩))

/-- The writer goes on sending while the log grows. -/
theorem Chain.sending_keep (h : Chain trackOf s) (hw : t.writer = s.writer)
    (hlast : ∀ d, s.writer = .sending d → lastEnqueued d.trackKey d.metadata.frameId t.log =
      lastEnqueued d.trackKey d.metadata.frameId s.log)
    (hhanded : ∀ f, .handed f ∈ s.log → .handed f ∈ t.log) (d : VideoOutbound)
    (hd : t.writer = .sending d) (hdelta : d.isKeyframe = false) (p : FrameTag)
    (hp : lastEnqueued d.trackKey d.metadata.frameId t.log = some p) : .handed p ∈ t.log := by
  rw [hw] at hd
  rw [hlast d hd] at hp
  exact hhanded p (h.sending d hd hdelta p hp)

theorem Chain.sending_step {a : SenderAction} (h : Chain trackOf s)
    (hstreams : Streams trackOf c s) (hledger : Ledger s) (hstep : Steps c s a t) :
    ∀ d, t.writer = .sending d → d.isKeyframe = false →
      ∀ p, lastEnqueued d.trackKey d.metadata.frameId t.log = some p → .handed p ∈ t.log := by
  have henq : ∀ d, s.writer = .sending d → .enqueued d.tag ∈ s.log :=
    fun d hd => hledger.held_enqueued d (by rw [hd]; exact List.mem_cons_self)
  have hcons : ∀ (e : SenderEvent) f, .handed f ∈ s.log → .handed f ∈ e :: s.log :=
    fun e f hf => List.mem_cons_of_mem _ hf
  -- a frame with a new id does not come before the one being sent
  have hnew : ∀ item : VideoOutbound, (∀ f, .enqueued f ∈ s.log → f.frameId ≤ item.tag.frameId) →
      ∀ d, s.writer = .sending d →
        lastEnqueued d.trackKey d.metadata.frameId (.enqueued item.tag :: s.log) =
        lastEnqueued d.trackKey d.metadata.frameId s.log :=
    fun item hle d hd => lastEnqueued_later (hle _ (henq d hd))
  have hoffer : ∀ item, s.producer = .offering item →
      ∀ f, .enqueued f ∈ s.log → f.frameId ≤ item.tag.frameId :=
    fun item hp f hf => le_of_lt (hledger.offering_new item hp f hf)
  cases hstep with
  | @checkSending item hw hopen =>
      intro d hd hdelta p hp
      cases hd
      have hmark := applyVideoReferenceEpoch_mark item s.referenceEpochs c.keyframeBarrier
      have htag : (applyVideoReferenceEpoch item s.referenceEpochs c.keyframeBarrier).1.tag =
          item.tag := congrArg Prod.fst hmark
      have hkey : item.isKeyframe = false := by
        have := congrArg FrameTag.keyframe htag
        exact this.symm.trans hdelta
      have htrack := congrArg FrameTag.trackKey htag
      have hid := congrArg FrameTag.frameId htag
      change lastEnqueued (VideoOutbound.tag _).trackKey (VideoOutbound.tag _).frameId s.log =
        some p at hp
      rw [htrack, hid] at hp
      exact h.checked hstreams hledger hw hkey (hopen hkey) hp
  | orderQueued _ => exact h.sending_keep rfl (fun _ _ => rfl) (hcons _)
  | orderRefused _ => exact h.sending
  | enqueueSuppressed hp hitem _ _ _ =>
      refine h.sending_keep rfl (hnew _ (fun f hf => ?_)) (hcons _)
      exact le_of_lt ((hledger.enqueued_lt f hf).trans_eq hitem.frameId.symm)
  | enqueueOffering _ _ _ => exact h.sending
  | offerRefused hp _ => exact h.sending_keep rfl (hnew _ (hoffer _ hp)) (hcons _)
  | offerInserted hp _ => exact h.sending_keep rfl (hnew _ (hoffer _ hp)) (hcons _)
  | offerReplacedKeyframe hp _ _ => exact h.sending_keep rfl (hnew _ (hoffer _ hp)) (hcons _)
  | offerReplacedDelta hp _ _ =>
      refine h.sending_keep rfl (fun d hd => ?_) (fun f hf => ?_)
      · rw [lastEnqueued_enter]
        exact hnew _ (hoffer _ hp) d hd
      · exact handed_enter.mpr (hcons _ f hf)
  | recordRefused _ =>
      exact h.sending_keep rfl (fun _ _ => lastEnqueued_enter) (fun _ hf => handed_enter.mpr hf)
  | peerReceive _ => exact h.sending_keep rfl (fun _ _ => rfl) (hcons _)
  | peerAcknowledge _ _ => exact h.sending_keep rfl (fun _ _ => rfl) (hcons _)
  | _ => intro d hd; cases hd

theorem Chain.merging_step {a : SenderAction} (h : Chain trackOf s)
    (hstreams : Streams trackOf c s) (hspare : SparesWriter c s a) (hstep : Steps c s a t) :
    ∀ newer ∈ t.writer.arriving, newer.isKeyframe = false →
      ∀ src ∈ newer.tag.source, t.recovery.newerStream src = false := by
  -- a loss that the producer records is not of a newer stream of the display
  have henter : ∀ (s' : Sender) (item : VideoOutbound), s'.writer = s.writer →
      s'.recovery = s.recovery → item ∈ s.producer.held → Spared s item →
      ∀ newer ∈ (s'.enter c item).writer.arriving, newer.isKeyframe = false →
      ∀ src ∈ newer.tag.source, (s'.enter c item).recovery.newerStream src = false := by
    intro s' item hw hrec hitem hspared newer hnewer hdelta src hsrc
    cases hfound : (s'.enter c item).recovery.newerStream src with
    | false => rfl
    | true =>
        obtain ⟨own, hown, _, _⟩ := hstreams.producer_owned item hitem
        have hmem : newer ∈ s.writer.arriving := by
          rw [← hw]
          exact hnewer
        rcases newerStream_of_enter hown hfound with hold | ⟨hdisplay, hlt⟩
        · rw [hrec, h.merging newer hmem hdelta src hsrc] at hold
          cases hold
        · have := (hspared own hown).2 newer hmem hdelta src hsrc hdisplay.symm
          omega
  cases hstep with
  | @takeTrack item newer _ hw hslot =>
      intro x hx _ src hsrc
      cases hx
      obtain ⟨p, hpend, rfl, _⟩ := takeTrack_effect hslot
      exact hstreams.newerStream_pending hpend hsrc
  | enqueueSuppressed _ _ _ htrack _ =>
      intro newer hnewer hdelta src hsrc
      cases hfound : VideoSendRecoveryState.newerStream _ src with
      | false => rfl
      | true =>
          have hold := newerStream_raised htrack hfound
          rw [h.merging newer hnewer hdelta src hsrc] at hold
          cases hold
  | @offerReplacedDelta item slot old hp hslot hdelta =>
      refine henter _ item rfl rfl (by rw [hp]; exact List.mem_cons_self) (hspare item ?_)
      simp only [producerLoss, hp, hdelta, hslot]
      rfl
  | @recordRefused item hp =>
      refine henter _ item rfl rfl (by rw [hp]; exact List.mem_cons_self) (hspare item ?_)
      simp only [producerLoss, hp]
      rfl
  | orderQueued _ | orderRefused _ | enqueueOffering _ _ _ | offerRefused _ _
  | offerInserted _ _ | offerReplacedKeyframe _ _ _ | peerReceive _ | peerAcknowledge _ _ =>
      exact h.merging
  | _ => intro newer hnewer; cases hnewer

theorem Chain.linked_step {a : SenderAction} (hinj : Function.Injective trackOf)
    (h : Chain trackOf s) (hstreams : Streams trackOf c s) (hledger : Ledger s)
    (hown : OwnTracks trackOf s a) (hspare : SparesWriter c s a) (hstep : Steps c s a t)
    (hrun : t.writer ≠ .stopped) : AllLinked trackOf t := by
  -- until it stops, the writer is running
  have hall : s.writer ≠ .stopped → AllLinked trackOf s := h.linked
  have hidle : Streams trackOf c { s with producer := .idle } ∧
      Ledger { s with producer := .idle } :=
    ⟨hstreams.quiet rfl (.inr rfl) (List.nil_append _).symm (by simp) (List.Sublist.refl _)
      hstreams.entry,
     hledger.quiet rfl rfl (le_refl _) (.inr rfl) (List.nil_append _).symm (by simp)
      (List.Sublist.refl _) (fun _ hw => hw)⟩
  have hmoved : ∀ writer : Writer, (writer.held.map VideoOutbound.mark).Sublist
      (s.writer.held.map VideoOutbound.mark) → (∀ item, writer ≠ .sent item) →
      Streams trackOf c { s with writer := writer } ∧ Ledger { s with writer := writer } :=
    fun _ hheld hsent => ⟨hstreams.move hheld _ _, hledger.move hheld hsent _ _ _⟩
  cases hstep with
  | orderQueued _ =>
      exact (hall hrun).move [_] rfl rfl rfl rfl rfl (by simp [SenderEvent.isFrame])
        (fun d hd _ => hd) (fun x hx => ⟨x, hx, rfl⟩)
  | orderRefused _ =>
      exact (hall hrun).move [] rfl rfl rfl rfl rfl (by simp) (fun d hd _ => hd)
        (fun x hx => ⟨x, hx, rfl⟩)
  | enqueueSuppressed _ _ _ htrack _ => exact (hall hrun).suppress htrack
  | enqueueOffering hp hitem _ =>
      obtain ⟨src, hsrc, hkey, halive⟩ := Stamped.own hitem hown
      exact (hall hrun).start hp hitem.frameId hsrc hkey halive
  | offerRefused hp hslot =>
      exact (hall hrun).offerKept hinj hstreams hledger hp hslot rfl (by simp)
  | offerInserted hp hslot =>
      exact (hall hrun).offerKept hinj hstreams hledger hp hslot rfl (by simp)
  | offerReplacedKeyframe hp hslot hkey =>
      exact (hall hrun).offerKeyframe hinj hstreams hledger hp hslot hkey
  | @offerReplacedDelta item slot old hp hslot hdelta =>
      have hspared : Spared s item := hspare item (by
        simp only [producerLoss, hp, hdelta, hslot]
        rfl)
      refine (hall hrun).offerDelta hinj hstreams hledger hp hslot hspared ?_
      refine hledger.offer hp (.inl rfl) ?_ (flight_offer hp hslot rfl)
      exact fun k p hk => (pending_of_offer hslot k p hk).imp_right
        (fun hnew => ⟨hnew.1, hnew.2.1⟩)
  | @recordRefused item hp =>
      have hspared : Spared s item := hspare item (by
        simp only [producerLoss, hp]
        rfl)
      exact (hall hrun).recordRefused hinj hstreams hledger hp hspared hidle.1 hidle.2
  | take hw hslot =>
      obtain ⟨k, p, hpend, rfl, _, hget⟩ := take_effect hslot
      exact (hall (by simp [hw])).fetch hledger hpend hget (by rw [hw]; rfl)
        (fun d hd => List.mem_singleton.mp hd)
  | gateOpen hw _ =>
      exact (hall (by simp [hw])).move [_] rfl rfl rfl rfl rfl
        (by simp [SenderEvent.isFrame])
        (fun d hd _ => by rw [hw]; exact hd) (fun x hx => ⟨x, by rw [hw] at hx; exact hx, rfl⟩)
  | gateShut hw =>
      exact (hall (by simp [hw])).move [] rfl rfl rfl rfl rfl (by simp)
        (fun d hd _ => by rw [hw]; exact hd) (fun x hx => ⟨x, by rw [hw] at hx; exact hx, rfl⟩)
  | wake hw =>
      exact (hall (by simp [hw])).move [] rfl rfl rfl rfl rfl (by simp)
        (fun d hd _ => by rw [hw]; exact hd) (fun x hx => ⟨x, by rw [hw] at hx; exact hx, rfl⟩)
  | takeTrack hw hslot =>
      obtain ⟨p, hpend, rfl, _, hget⟩ := takeTrack_effect hslot
      exact (hall (by simp [hw])).fetch hledger hpend hget (by rw [hw]; rfl)
        (fun d hd => by cases hd)
  | mergeKeyframe hw _ hkey =>
      exact (hall (by simp [hw])).replaceHeld hledger hw (h.merging_track _ _ hw) hkey
  | @mergeDelta item newer hw _ hdelta =>
      have hsame := h.merging_track _ _ hw
      obtain ⟨hs, hl⟩ := hmoved (.gated newer)
        (by rw [hw]; exact List.sublist_cons_self _ _) (by simp)
      refine (hall (by simp [hw])).recordHeld hinj hstreams hledger
        (by rw [hw]; simp [Writer.held]) ?_ (fun d hd _ => List.mem_singleton.mp hd) ?_ hs hl
      · intro x hx
        rw [hw, Writer.held, List.mem_cons, List.mem_singleton] at hx
        rcases hx with rfl | rfl
        · exact .inr ⟨hsame.symm, le_of_lt (hledger.merging_precedes hw hsame).1⟩
        · exact .inl List.mem_cons_self
      · intro src hsrc hnewer
        rw [h.merging newer (by rw [hw]; rfl) hdelta src hsrc] at hnewer
        cases hnewer
  | @mergeDiscarded item newer hw hkeep =>
      have hsame := h.merging_track _ _ hw
      have hkey := (hledger.kinds_of_discarded hw hsame hkeep).1
      obtain ⟨hs, hl⟩ := hmoved (.gated item)
        (by rw [hw]; exact (List.nil_sublist [newer.mark]).cons_cons item.mark) (by simp)
      have honly : ∀ d ∈ (Writer.gated item).unchecked, d.isKeyframe = true := by
        intro d hd
        rw [List.mem_singleton.mp hd]
        exact hkey
      refine (hall (by simp [hw])).recordHeld hinj hstreams hledger
        (by rw [hw]; simp [Writer.held]) ?_ ?_ (fun _ _ _ => honly) hs hl
      · intro x hx
        rw [hw, Writer.held, List.mem_cons, List.mem_singleton] at hx
        rcases hx with rfl | rfl
        · exact .inl List.mem_cons_self
        · exact .inr ⟨rfl, le_refl _⟩
      · intro d hd hdelta
        rw [honly d hd] at hdelta
        cases hdelta
  | checkSuppressed hw _ htrack _ => exact (hall (by simp [hw])).swallow hw htrack
  | @checkSending item hw _ =>
      refine (hall (by simp [hw])).move [] rfl rfl rfl rfl rfl (by simp)
        (fun d hd => by cases hd) ?_
      intro x hx
      rw [hw, Writer.held, List.mem_singleton] at hx
      subst hx
      exact ⟨_, List.mem_cons_self, congrArg Prod.fst (applyVideoReferenceEpoch_mark _ _ _)⟩
  | sendKeyframe hw _ => exact (hall (by simp [hw])).hand hw rfl
  | sendDelta hw _ => exact (hall (by simp [hw])).hand hw rfl
  | sendNoSpace hw =>
      exact (hall (by simp [hw])).move [] rfl rfl rfl rfl rfl (by simp)
        (fun d hd => by cases hd) (fun x hx => ⟨x, by rw [hw] at hx; exact hx, rfl⟩)
  | @recordRejected item hw =>
      obtain ⟨hs, hl⟩ := hmoved .idle (List.nil_sublist _) (by simp)
      refine (hall (by simp [hw])).recordHeld hinj hstreams hledger
        (by rw [hw]; exact List.mem_cons_self) ?_ (fun d hd => by cases hd)
        (fun _ _ _ d hd => by cases hd) hs hl
      intro x hx
      rw [hw, Writer.held, List.mem_singleton] at hx
      subst hx
      exact .inr ⟨rfl, le_refl _⟩
  | keyframeSent hw => exact (hall (by simp [hw])).recover hledger hw
  | peerReceive _ =>
      exact (hall hrun).move [_] rfl rfl rfl rfl rfl (by simp [SenderEvent.isFrame])
        (fun d hd _ => hd) (fun x hx => ⟨x, hx, rfl⟩)
  | peerAcknowledge _ _ =>
      exact (hall hrun).move [_] rfl rfl rfl rfl rfl (by simp [SenderEvent.isFrame])
        (fun d hd _ => hd) (fun x hx => ⟨x, hx, rfl⟩)
  | takeClosing _ _ | sendClosing _ | sendFailed _ | closeIdle _ | closeWaiting _ =>
      exact absurd rfl hrun

theorem Chain.step {a : SenderAction} (hinj : Function.Injective trackOf) (h : Chain trackOf s)
    (hstreams : Streams trackOf c s) (hledger : Ledger s) (hown : OwnTracks trackOf s a)
    (hspare : SparesWriter c s a) (hstep : Steps c s a t) : Chain trackOf t where
  linked := h.linked_step hinj hstreams hledger hown hspare hstep
  sending := h.sending_step hstreams hledger hstep
  merging_track := h.merging_track.step hledger hstep
  merging := h.merging_step hstreams hspare hstep
  chained := fun post d pre => h.chained_step hledger hstep post pre d

theorem chain_new : Chain trackOf Sender.new where
  linked := fun _ _ _ _ _ h => by cases h
  sending := fun _ h => by cases h
  merging_track := fun _ _ h => by cases h
  merging := fun _ h => by cases h
  chained := fun post _ _ h => by cases post <;> cases h

/-! ## Every run -/

/-- The invariants of the sender together. -/
theorem invariants_of_reach (hinj : Function.Injective trackOf)
    (h : (system c).Reach (fun s a => OwnTracks trackOf s a ∧ SparesWriter c s a) s) :
    Ledger s ∧ Streams trackOf c s ∧ Chain trackOf s := by
  refine h.invariant (I := fun s => Ledger s ∧ Streams trackOf c s ∧ Chain trackOf s)
    ⟨ledger_new, streams_new, chain_new⟩ ?_
  rintro s a t ⟨hledger, hstreams, hchain⟩ ⟨hown, hspare⟩ hstep
  have hsteps := steps_of_step hstep
  exact ⟨hledger.step hsteps, hstreams.step hinj hledger hown hsteps,
    hchain.step hinj hstreams hledger hown hspare hsteps⟩

/-- A frame with a smaller id than one handed over was enqueued before. -/
theorem enqueued_before_handed {post pre : List SenderEvent} {f p : FrameTag}
    (hsorted : (post ++ .handed p :: pre).Pairwise LogOrder) (hp : .enqueued p ∈ pre)
    (hf : .enqueued f ∈ post ++ .handed p :: pre) (hlt : f.frameId < p.frameId) :
    .enqueued f ∈ pre := by
  rcases List.mem_append.mp hf with hpost | hrest
  · have horder : p.frameId < f.frameId :=
      (List.pairwise_append.mp hsorted).2.2 _ hpost _ (List.mem_cons_of_mem _ hp)
    omega
  · simpa using hrest

/-- In a log in which every delta follows its predecessor, a frame that was not
handed over before a delta is followed by a keyframe that was. -/
theorem keyframe_between {log : List SenderEvent} (hsorted : log.Pairwise LogOrder)
    (hchained : ∀ post d pre, log = post ++ .handed d :: pre → Follows d pre)
    {post pre : List SenderEvent} {d f : FrameTag} (hlog : log = post ++ .handed d :: pre)
    (hdelta : d.keyframe = false) (hf : .enqueued f ∈ pre) (hk : f.trackKey = d.trackKey)
    (hlt : f.frameId < d.frameId) (hlost : .handed f ∉ pre) :
    ∃ g, .handed g ∈ pre ∧ g.trackKey = d.trackKey ∧ g.keyframe = true ∧
      f.frameId < g.frameId ∧ g.frameId < d.frameId := by
  -- induction on the part of the log before the delta
  induction hlen : pre.length using Nat.strong_induction_on generalizing post pre d with
  | _ n ih =>
      have hpre : pre.Pairwise LogOrder := by
        rw [hlog] at hsorted
        exact (List.pairwise_cons.mp (List.pairwise_append.mp hsorted).2.1).2
      obtain ⟨p, hp, hfp⟩ := le_lastEnqueued hpre hf hk hlt
      have hhanded : lastHanded d.trackKey pre = some p :=
        ((hchained post d pre hlog).2 hdelta).trans hp
      obtain ⟨hmem, hpk⟩ := lastHanded_mem hhanded
      obtain ⟨_, _, hpd⟩ := lastEnqueued_mem hp
      have hfp' : f.frameId < p.frameId := by
        rcases hfp with rfl | hlt'
        · exact absurd hmem hlost
        · exact hlt'
      cases hkey : p.keyframe with
      | true => exact ⟨p, hmem, hpk, hkey, hfp', hpd⟩
      | false =>
          -- the predecessor is a delta that was handed over earlier
          obtain ⟨post', pre', rfl⟩ := List.append_of_mem hmem
          have hlog' : log = (post ++ .handed d :: post') ++ .handed p :: pre' := by
            rw [hlog]
            simp
          have hshort : pre'.length < n := by
            rw [← hlen, List.length_append, List.length_cons]
            omega
          have hf' := enqueued_before_handed hpre (hchained _ p pre' hlog').1 hf hfp'
          have hlost' : .handed f ∉ pre' := fun hmem' =>
            hlost (List.mem_append_right _ (List.mem_cons_of_mem _ hmem'))
          obtain ⟨g, hg, hgk, hgkey, hfg, hgp⟩ :=
            ih pre'.length hshort hlog' hkey hf' (hk.trans hpk.symm) hfp' hlost' rfl
          exact ⟨g, List.mem_append_right _ (List.mem_cons_of_mem _ hg), hgk.trans hpk, hgkey, hfg,
            hgp.trans hpd⟩

/-- **Reference chains.** Each stream has its own track and the stream ids of a
display never decrease; the producer records no loss while the writer holds a
delta of an older stream of that display that waits to be swallowed. Then, in
every run, whenever a delta is handed over, the frame of its track handed over
before it is the one enqueued before it; so a frame of the track that was
enqueued before the delta and not handed over is followed by a keyframe that
was. -/
theorem reference_chain (trackOf : VideoStreamKey → VideoOutboundTrackKey)
    (hinj : Function.Injective trackOf) (c : SenderConfig) (s : Sender)
    (h : (system c).Reach (fun s a => OwnTracks trackOf s a ∧ SparesWriter c s a) s)
    (post pre : List SenderEvent) (d : FrameTag) (hlog : s.log = post ++ .handed d :: pre)
    (hdelta : d.keyframe = false) :
    lastHanded d.trackKey pre = lastEnqueued d.trackKey d.frameId pre ∧
    ∀ f, .enqueued f ∈ pre → f.trackKey = d.trackKey → f.frameId < d.frameId →
      .handed f ∉ pre →
      ∃ g, .handed g ∈ pre ∧ g.trackKey = d.trackKey ∧ g.keyframe = true ∧
        f.frameId < g.frameId ∧ g.frameId < d.frameId := by
  obtain ⟨hledger, _, hchain⟩ := invariants_of_reach hinj h
  refine ⟨(hchain.chained post d pre hlog).2 hdelta, ?_⟩
  intro f hf hk hlt hlost
  exact keyframe_between hledger.sorted hchain.chained hlog hdelta hf hk hlt hlost

/-! ## Two runs -/

theorem mem_enqueuedFrames {f : FrameTag} :
    f ∈ log.filterMap SenderEvent.enqueuedFrame ↔ .enqueued f ∈ log := by
  rw [List.mem_filterMap]
  constructor
  · rintro ⟨e, he, heq⟩
    cases e with
    | enqueued g => cases heq; exact he
    | _ => cases heq
  · intro h
    exact ⟨_, h, rfl⟩

instance (log : List SenderEvent) (key : VideoStreamKey) : Decidable (Alive log key) :=
  decidable_of_iff
    (∀ f ∈ log.filterMap SenderEvent.enqueuedFrame, ∀ src ∈ f.source,
      src.display = key.display → src.streamId ≤ key.streamId)
    ⟨fun h f src hf hsrc => h f (mem_enqueuedFrames.mpr hf) src hsrc,
     fun h f hf src hsrc => h f src (mem_enqueuedFrames.mp hf) hsrc⟩

instance (trackOf : VideoStreamKey → VideoOutboundTrackKey) (s : Sender) :
    (a : SenderAction) → Decidable (OwnTracks trackOf s a)
  | .enqueue latestKey frame _ => inferInstanceAs (Decidable (∀ info ∈ videoSourceInfo frame,
      VideoOutboundTrackKey.resolve latestKey (some info) = trackOf info.key ∧
        Alive s.log info.key))
  | .order _ | .offer | .recordRefused | .take _ | .gate | .wake | .takeTrack | .merge | .check
  | .send _ | .recordRejected | .keyframeSent | .close | .peerReceive _ | .peerAcknowledge _ =>
      .isTrue trivial

instance (s : Sender) (item : VideoOutbound) : Decidable (Spared s item) :=
  inferInstanceAs (Decidable (∀ src ∈ item.tag.source, _ ∧ _))

instance (c : SenderConfig) (s : Sender) (a : SenderAction) : Decidable (SparesWriter c s a) :=
  inferInstanceAs (Decidable (∀ item ∈ producerLoss c s a, Spared s item))

/-- A frame of display 0. -/
def chainFrame (streamId frameId : Nat) (keyframe : Bool) : VideoFrame :=
  { union := some (.h264s [keyframe]), display := 0, streamId := streamId, frameId := frameId
    captureTimeMs := 0 }

def chainConfig : SenderConfig :=
  { maxTracks := maxPendingVideoTracks, reliableKeyframes := true, keyframeBarrier := true
    scopedReferenceRefresh := true }

/-- A frame that is enqueued and queued. -/
def offered (streamId frameId : Nat) (keyframe : Bool) : List SenderAction :=
  [.enqueue none (chainFrame streamId frameId keyframe) [7], .offer]

def handOver : List SenderAction := [.take false, .gate, .check, .send .sent]

theorem source_injective : Function.Injective VideoOutboundTrackKey.source := by
  intro a b h
  cases h
  rfl

/-- A keyframe and then its delta. -/
def chainedRun : List SenderAction :=
  offered 1 1 true ++ handOver ++ [.keyframeSent] ++ offered 1 2 false ++ handOver

/-- In `chainedRun` the delta is handed over after its keyframe. -/
theorem reference_chain_two_frames :
    ∃ s d pre, (system chainConfig).run chainedRun = some s ∧
      s.log = [] ++ .handed d :: pre ∧ d.keyframe = false ∧
      lastHanded d.trackKey pre = lastEnqueued d.trackKey d.frameId pre := by
  refine ⟨_, _, _, rfl, rfl, rfl, ?_⟩
  exact (reference_chain .source source_injective chainConfig _
    (TSys.reach_of_run chainedRun (by decide) rfl) [] _ _ rfl rfl).1

/-- The delta 3 of stream 1 is handed over after the keyframe 1, although the
delta 2 was replaced in the slot: the loss of the delta 5 of stream 2 makes the
recovery state forget stream 1 while the writer holds delta 3. -/
theorem reference_chain_forgotten :
    ∃ s d pre, (system chainConfig).Reach (OwnTracks .source) s ∧
      s.log = [] ++ .handed d :: pre ∧ d.keyframe = false ∧
      lastHanded d.trackKey pre ≠ lastEnqueued d.trackKey d.frameId pre := by
  refine ⟨_, _, _, TSys.reach_of_run
    (offered 1 1 true ++ handOver ++ [.keyframeSent] ++ offered 1 2 false ++ offered 1 3 false ++
      [.take false, .gate] ++ offered 2 1 true ++ offered 2 2 false ++ [.recordRefused] ++
      [.check, .send .sent]) (by decide) rfl, rfl, rfl, by decide⟩

end Sender

end HbbCommon.Transport
