import HbbCommon.Transport.Video.Logic.SenderRefresh
import HbbCommon.Transport.Video.Logic.SenderChainRun
import HbbCommon.Transport.Video.Logic.SenderItems

/-!
# Outstanding refreshes over every run

Every step that `Answering` admits keeps the invariant `Refresh`
(`Refresh.step`), and `refresh_outstanding` reads off the state in which a track
waits for a keyframe with nothing on its way.

The run of `refresh_outstanding_suppressed` shows what goes wrong without it: a
delta enqueued behind the answering keyframe raises the id that keyframe had to
exceed, so the keyframe is sent and the track stays in recovery, with no refresh
to follow.
-/

namespace HbbCommon.Transport

open HbbCommon.Base

namespace Sender

variable {c : SenderConfig} {s t : Sender} {trackOf : VideoStreamKey → VideoOutboundTrackKey}
  {k : VideoOutboundTrackKey} {log : List SenderEvent}

/-! ## One step -/

/-- A track without an outstanding refresh has no delta in flight after its last
keyframe. -/
theorem AllAnswered.deltas_lt (h : AllAnswered trackOf s) {track : VideoSendTrackRecoveryState}
    {f : FrameTag} (htrack : s.recovery.tracks.get? k = some track)
    (hans : answered trackOf k s.log = false) (hf : lastKeyframe k s.log = some f) :
    ∀ g, InFlight s g → g.trackKey = k → g.keyframe = false → g.frameId < f.frameId := by
  rcases h k track htrack with htrue | ⟨f', hf', _, _, hdeltas⟩
  · rw [hans] at htrue
    cases htrue
  · rw [hf] at hf'
    cases hf'
    exact hdeltas

/-- A keyframe that is not the last one of its track comes before it. -/
theorem Ledger.keyframe_lt (h : Ledger s) {item : VideoOutbound} {f : FrameTag}
    (hitem : .enqueued item.tag ∈ s.log) (hkey : item.isKeyframe = true)
    (hf : lastKeyframe item.trackKey s.log = some f) (hne : item.tag ≠ f) :
    item.metadata.frameId < f.frameId := by
  obtain ⟨g, hg, hle⟩ := le_lastKeyframe h.sorted hitem rfl hkey
  change lastKeyframe item.trackKey s.log = some g at hg
  rw [hf] at hg
  cases hg
  exact hle.resolve_left hne

/-- The producer's frame is neither pending nor in the writer's hands. -/
theorem Ledger.not_carried_of_producer (h : Ledger s) {item : VideoOutbound}
    (hitem : item ∈ s.producer.held)
    (hcar : Carried { s with producer := .idle } item.tag) : False := by
  have hmark : item.mark ∈ s.flight item.trackKey :=
    List.mem_append_right _ (mem_marksOf.mpr ⟨item, hitem, rfl, rfl⟩)
  rcases hcar with ⟨x, hx, htag⟩ | ⟨p, hpend, htag⟩
  · have hk : item.trackKey = x.trackKey := (congrArg FrameTag.trackKey htag).symm
    have hid : x.tag.frameId = item.tag.frameId := congrArg FrameTag.frameId htag
    have hlt : x.tag.frameId < item.tag.frameId := by
      change x ∈ s.writer.carried at hx
      by_cases hsent : s.writer = .sent x
      · exact h.handed_before _ _ hmark x.tag (h.sent_handed x hsent) hk.symm
      · refine h.held_lt_producer ?_ hitem hk
        cases hwr : s.writer <;> rw [hwr] at hx hsent <;>
          simp_all [Writer.carried, Writer.frames, Writer.held]
    omega
  · have hk := h.pending_key _ p hpend
    have hid : p.value.tag.frameId = item.tag.frameId := congrArg FrameTag.frameId htag
    have hlt : p.value.tag.frameId < item.tag.frameId := by
      refine ((List.pairwise_append.mp (h.in_order item.trackKey)).2.2 p.value.mark ?_ item.mark
        (mem_marksOf.mpr ⟨item, hitem, rfl, rfl⟩)).1
      exact List.mem_append_right _
        (mem_marksOf.mpr ⟨_, mem_pendingOf.mpr ⟨p, hpend, rfl⟩, rfl, hk⟩)
    omega

/-- Outside a refusal, the frames that the writer holds are carried. -/
theorem carried_held {w : Writer} (hrejected : ∀ x, w ≠ .rejected x) (hsent : ∀ x, w ≠ .sent x) :
    w.carried = w.held := by
  cases w with
  | rejected x => exact absurd rfl (hrejected x)
  | sent x => exact absurd rfl (hsent x)
  | _ => rfl

theorem Refresh.answered_step {a : SenderAction} (h : Refresh trackOf c s)
    (hstreams : Streams trackOf c s) (hledger : Ledger s) (hmerges : MergesTrack s)
    (hown : OwnTracks trackOf s a) (hguard : Answering trackOf c s a) (hstep : Steps c s a t)
    (hrun : t.writer ≠ .stopped) : AllAnswered trackOf t := by
  have hall : s.writer ≠ .stopped → AllAnswered trackOf s := h.all_answered
  have hkeep : ∀ k track f, s.recovery.tracks.get? k = some track →
      answered trackOf k s.log = false → lastKeyframe k s.log = some f →
      (∀ g, InFlight s g → g.trackKey = k → g.keyframe = false → g.frameId < f.frameId) →
      ∀ x ∈ s.writer.carried, x.tag = f → ∃ y ∈ s.writer.carried, y.tag = f :=
    fun _ _ _ _ _ _ _ x hx htag => ⟨x, hx, htag⟩
  cases hstep with
  | orderQueued _ =>
      exact (hall hrun).move rfl (fun _ hx => hx) rfl (fun _ hk => hk) (fun _ => rfl)
        (fun x hx => ⟨x, hx, rfl⟩) hkeep
  | orderRefused _ =>
      exact (hall hrun).move rfl (fun _ hx => hx) rfl (fun _ hk => hk) (fun _ => rfl)
        (fun x hx => ⟨x, hx, rfl⟩) hkeep
  | @enqueueSuppressed latestKey frame payload item track _ hitem hdelta htrack hawait =>
      obtain ⟨info, hinfo, hkeyframe⟩ := hitem.sourced
      have hsource := hitem.sourceInfo ▸ hinfo
      have hkey : item.trackKey = trackOf info.key := by
        rw [hitem.trackKey, hinfo]
        exact (hown info hsource).1
      have hasked := (hguard info hsource).1 (hkeyframe.trans hdelta)
      rw [← hkey] at hasked
      refine (hall hrun).suppress hdelta (hasked ?_) _ _
      exact hstreams.awaiting_of_entry htrack
  | enqueueOffering _ _ hopen => exact (hall hrun).start hstreams hopen _
  | offerRefused hp hslot =>
      exact (hall hrun).offer hstreams hledger h.minimum_le hp hslot rfl hguard
  | offerInserted hp hslot =>
      exact (hall hrun).offer hstreams hledger h.minimum_le hp hslot rfl hguard
  | offerReplacedKeyframe hp hslot _ =>
      exact (hall hrun).offer hstreams hledger h.minimum_le hp hslot rfl hguard
  | @offerReplacedDelta item slot old hp hslot hdelta =>
      have hoffered := (hall hrun).offer hstreams hledger h.minimum_le hp hslot rfl hguard
      refine hoffered.enter (hstreams.offer hp hslot (.inl rfl)) List.mem_cons_self
        (h.refreshable.producer item (by rw [hp]; exact List.mem_cons_self)) ?_
      -- the offered delta is pending, so no older keyframe is awaited
      intro _ f _ _ _ _ hdeltas
      obtain ⟨p, hpend, hval⟩ := pending_self_of_offer hslot (by simp)
      have hin : InFlight { s with
          slot := slot, log := .enqueued item.tag :: s.log, producer := .idle } item.tag :=
        .inr (.inl ⟨p, hpend, by rw [hval]⟩)
      exact hdeltas item.tag hin rfl hdelta
  | @recordRefused item hp =>
      have hheld : item ∈ s.producer.held := by rw [hp]; exact List.mem_cons_self
      have hidle : AllAnswered trackOf { s with producer := .idle } :=
        (hall hrun).move rfl (fun x hx => by cases hx) rfl (fun _ hk => hk) (fun _ => rfl)
          (fun x hx => ⟨x, hx, rfl⟩) hkeep
      have hstreams' : Streams trackOf c { s with producer := .idle } :=
        hstreams.quiet rfl (.inr rfl) (List.nil_append _).symm (by simp) (List.Sublist.refl _)
          hstreams.entry
      refine hidle.enter hstreams' (hledger.refused_enqueued item hp)
        (h.refreshable.producer item hheld) ?_
      intro track f htrack hans hf hcar _
      have hdeltas := (hall hrun).deltas_lt htrack hans hf
      cases hkey : item.isKeyframe with
      | false => exact hdeltas item.tag (.inr (.inr ⟨item, hheld, rfl⟩)) rfl hkey
      | true =>
          refine hledger.keyframe_lt (hledger.refused_enqueued item hp) hkey hf ?_
          rintro rfl
          exact hledger.not_carried_of_producer hheld hcar
  | take hw hslot =>
      obtain ⟨k, p, hpend, rfl, _, hget⟩ := take_effect hslot
      exact (hall (by simp [hw])).fetch hpend (hledger.pending_key k p hpend) hget
        (by rw [hw]; rfl) rfl (by rw [hw]; exact fun x hx => hx)
  | gateOpen hw _ =>
      exact (hall (by simp [hw])).move rfl (fun _ hx => hx) rfl (fun _ hk => hk) (fun _ => rfl)
        (fun x hx => ⟨x, by rw [hw]; exact hx, rfl⟩)
        (fun _ _ _ _ _ _ _ x hx htag => ⟨x, by rw [hw] at hx; exact hx, htag⟩)
  | gateShut hw =>
      exact (hall (by simp [hw])).move rfl (fun _ hx => hx) rfl (fun _ hk => hk) (fun _ => rfl)
        (fun x hx => ⟨x, by rw [hw]; exact hx, rfl⟩)
        (fun _ _ _ _ _ _ _ x hx htag => ⟨x, by rw [hw] at hx; exact hx, htag⟩)
  | wake hw =>
      exact (hall (by simp [hw])).move rfl (fun _ hx => hx) rfl (fun _ hk => hk) (fun _ => rfl)
        (fun x hx => ⟨x, by rw [hw]; exact hx, rfl⟩)
        (fun _ _ _ _ _ _ _ x hx htag => ⟨x, by rw [hw] at hx; exact hx, htag⟩)
  | takeTrack hw hslot =>
      obtain ⟨p, hpend, rfl, _, hget⟩ := takeTrack_effect hslot
      exact (hall (by simp [hw])).fetch hpend (hledger.pending_key _ p hpend) hget
        (by rw [hw]; rfl) rfl (by rw [hw]; exact fun x hx => hx)
  | @mergeKeyframe item newer hw _ hkey =>
      have hnewer : newer ∈ s.writer.held := by rw [hw]; simp [Writer.held]
      refine (hall (by simp [hw])).move rfl (fun _ hx => hx) rfl (fun _ hk => hk) (fun _ => rfl)
        (fun x hx => ⟨x, by rw [List.mem_singleton.mp hx]; exact hnewer, rfl⟩) ?_
      rintro k track f _ _ hf _ x hx rfl
      rw [hw, carried_held (by simp) (by simp), Writer.held, List.mem_cons,
        List.mem_singleton] at hx
      rcases hx with rfl | rfl
      · -- the newer keyframe is the one awaited
        exfalso
        have hsame := hmerges _ _ hw
        have hxk := (lastKeyframe_mem hf).2.1
        obtain ⟨g, hg, hle⟩ := le_lastKeyframe hledger.sorted
          (hledger.held_enqueued newer hnewer) (hsame.trans hxk) hkey
        rw [hf] at hg
        cases hg
        have horder : x.tag.frameId < newer.tag.frameId := (hledger.merging_precedes hw hsame).1
        rcases hle with heq | hlt
        · rw [heq] at horder
          exact lt_irrefl _ horder
        · omega
      · exact ⟨x, List.mem_cons_self, rfl⟩
  | @mergeDelta item newer hw _ hdelta =>
      have hsame := hmerges _ _ hw
      have hnewer : newer ∈ s.writer.held := by rw [hw]; simp [Writer.held]
      have hmerged : AllAnswered trackOf { s with writer := .gated newer } := by
        refine (hall (by simp [hw])).move rfl (fun _ hx => hx) rfl (fun _ hk => hk) (fun _ => rfl)
          (fun x hx => ⟨x, by rw [List.mem_singleton.mp hx]; exact hnewer, rfl⟩) ?_
        rintro k track f _ _ hf hdeltas x hx rfl
        rw [hw, carried_held (by simp) (by simp), Writer.held, List.mem_cons,
          List.mem_singleton] at hx
        rcases hx with rfl | rfl
        · exfalso
          have hxk := (lastKeyframe_mem hf).2.1
          have hlt := hdeltas newer.tag (.inl ⟨newer, hnewer, rfl⟩) (hsame.trans hxk) hdelta
          exact absurd hlt (not_lt_of_gt (hledger.merging_precedes hw hsame).1)
        · exact ⟨x, List.mem_cons_self, rfl⟩
      have hstreams' : Streams trackOf c { s with writer := .gated newer } :=
        hstreams.move (by rw [hw]; exact List.sublist_cons_self _ _) _ _
      refine hmerged.enter hstreams' (hledger.held_enqueued newer hnewer)
        (h.refreshable.held newer hnewer) ?_
      intro _ f _ _ _ _ hdeltas
      exact hdeltas newer.tag (.inl ⟨newer, List.mem_cons_self, rfl⟩) rfl hdelta
  | @mergeDiscarded item newer hw hdiscard =>
      have hsame := hmerges _ _ hw
      have hnewer : newer ∈ s.writer.held := by rw [hw]; simp [Writer.held]
      have hitem : item ∈ s.writer.held := by rw [hw]; simp [Writer.held]
      have hdelta := (hledger.kinds_of_discarded hw hsame hdiscard).2
      have hmerged : AllAnswered trackOf { s with writer := .gated item } := by
        refine (hall (by simp [hw])).move rfl (fun _ hx => hx) rfl (fun _ hk => hk) (fun _ => rfl)
          (fun x hx => ⟨x, by rw [List.mem_singleton.mp hx]; exact hitem, rfl⟩) ?_
        rintro k track f _ _ hf _ x hx rfl
        rw [hw, carried_held (by simp) (by simp), Writer.held, List.mem_cons,
          List.mem_singleton] at hx
        rcases hx with rfl | rfl
        · exact ⟨x, List.mem_cons_self, rfl⟩
        · have hkey : x.isKeyframe = true := (lastKeyframe_mem hf).2.2
          rw [hdelta] at hkey
          cases hkey
      have hstreams' : Streams trackOf c { s with writer := .gated item } := by
        refine hstreams.move ?_ _ _
        rw [hw]
        exact (List.nil_sublist [newer.mark]).cons_cons item.mark
      refine hmerged.enter hstreams' (hledger.held_enqueued newer hnewer)
        (h.refreshable.held newer hnewer) ?_
      intro track f htrack hans hf _ _
      exact (hall (by simp [hw])).deltas_lt htrack hans hf newer.tag
        (.inl ⟨newer, hnewer, rfl⟩) rfl hdelta
  | checkSuppressed hw hdelta htrack _ => exact (hall (by simp [hw])).swallow hw hdelta htrack
  | @checkSending item hw _ =>
      have htag : (applyVideoReferenceEpoch item s.referenceEpochs c.keyframeBarrier).1.tag =
          item.tag := congrArg Prod.fst (applyVideoReferenceEpoch_mark _ _ _)
      refine (hall (by simp [hw])).move rfl (fun _ hx => hx) rfl (fun _ hk => hk) (fun _ => rfl)
        (fun x hx => ⟨item, by rw [hw]; exact List.mem_cons_self, ?_⟩) ?_
      · rw [List.mem_singleton.mp hx]
        exact htag.symm
      · rintro k track f _ _ _ _ x hx rfl
        rw [hw, carried_held (by simp) (by simp), Writer.held, List.mem_singleton] at hx
        subst hx
        exact ⟨_, List.mem_cons_self, htag⟩
  | @sendKeyframe item hw _ =>
      refine (hall (by simp [hw])).move rfl (fun _ hx => hx) rfl (fun _ hk => hk) (fun _ => rfl)
        (fun x hx => by cases hx)
        (fun _ _ _ _ _ _ _ x hx htag => ⟨x, by rw [hw] at hx; exact hx, htag⟩)
  | @sendDelta item hw hdelta =>
      refine (hall (by simp [hw])).move rfl (fun _ hx => hx) rfl (fun _ hk => hk) (fun _ => rfl)
        (fun x hx => by cases hx) ?_
      rintro k track f _ _ hf _ x hx rfl
      rw [hw, carried_held (by simp) (by simp), Writer.held, List.mem_singleton] at hx
      subst hx
      have hkey : x.isKeyframe = true := (lastKeyframe_mem hf).2.2
      rw [hdelta] at hkey
      cases hkey
  | @sendNoSpace item hw =>
      have hheld : item ∈ s.writer.held := by rw [hw]; exact List.mem_cons_self
      refine (hall (by simp [hw])).move rfl (fun _ hx => hx) rfl (fun _ hk => hk) (fun _ => rfl)
        (fun x hx => ⟨x, by rw [List.mem_singleton.mp hx]; exact hheld, rfl⟩) ?_
      rintro k track f htrack hans hf _ x hx rfl
      rw [hw, carried_held (by simp) (by simp), Writer.held, List.mem_singleton] at hx
      subst hx
      obtain ⟨_, hxk, hkey⟩ := lastKeyframe_mem hf
      have hasked := hguard x hheld hkey
      rw [show x.trackKey = k from hxk] at hasked
      rw [hasked (hstreams.awaiting_of_entry htrack)] at hans
      cases hans
  | @recordRejected item hw =>
      have hheld : item ∈ s.writer.held := by rw [hw]; exact List.mem_cons_self
      have hidle : AllAnswered trackOf { s with writer := .idle } :=
        (hall (by simp [hw])).move rfl (fun _ hx => hx) rfl (fun _ hk => hk) (fun _ => rfl)
          (fun x hx => by cases hx) (fun _ _ _ _ _ _ _ x hx => by rw [hw] at hx; cases hx)
      have hstreams' : Streams trackOf c { s with writer := .idle } := hstreams.drop rfl _
      refine hidle.enter hstreams' (hledger.held_enqueued item hheld)
        (h.refreshable.held item hheld) ?_
      intro track f htrack hans hf hcar _
      have hdeltas := (hall (by simp [hw])).deltas_lt htrack hans hf
      cases hkey : item.isKeyframe with
      | false => exact hdeltas item.tag (.inl ⟨item, hheld, rfl⟩) rfl hkey
      | true =>
          refine hledger.keyframe_lt (hledger.held_enqueued item hheld) hkey hf ?_
          rintro rfl
          rcases hcar with ⟨x, hx, _⟩ | ⟨p, hpend, htag⟩
          · cases hx
          · have hlt := hledger.held_lt_pending hheld hpend
            have heq : p.value.tag.frameId = item.tag.frameId := by rw [htag]
            exact absurd hlt (not_lt_of_ge (le_of_eq heq))
  | keyframeSent hw => exact (hall (by simp [hw])).recover hw
  | peerReceive _ =>
      exact (hall hrun).move rfl (fun _ hx => hx) rfl (fun _ hk => hk) (fun _ => rfl)
        (fun x hx => ⟨x, hx, rfl⟩) hkeep
  | peerAcknowledge _ _ =>
      exact (hall hrun).move rfl (fun _ hx => hx) rfl (fun _ hk => hk) (fun _ => rfl)
        (fun x hx => ⟨x, hx, rfl⟩) hkeep
  | takeClosing _ _ | sendClosing _ | sendFailed _ | closeIdle _ | closeWaiting _ =>
      exact absurd rfl hrun

/-- The ids that keyframes must exceed are those of frames enqueued. -/
def MinimumsEnqueued (s : Sender) (r : VideoSendRecoveryState) : Prop :=
  ∀ k track, r.tracks.get? k = some track →
    ∃ f, .enqueued f ∈ s.log ∧ track.minimumKeyframeId ≤ f.frameId

theorem MinimumsEnqueued.raise {r : VideoSendRecoveryState} (h : MinimumsEnqueued s r)
    {key : VideoOutboundTrackKey} {track : VideoSendTrackRecoveryState} {f : FrameTag}
    (htrack : r.tracks.get? key = some track) (hf : .enqueued f ∈ s.log) :
    MinimumsEnqueued s { tracks := r.tracks.insert key { track with
      minimumKeyframeId := max track.minimumKeyframeId f.frameId } } := by
  intro k track' hget
  change (r.tracks.insert _ _).get? k = some track' at hget
  obtain ⟨rfl, rfl⟩ | ⟨-, hget⟩ := OrdMap.get?_insert_eq_some hget
  · obtain ⟨g, hg, hle⟩ := h k track htrack
    rcases le_total g.frameId f.frameId with hgf | hfg
    · exact ⟨f, hf, max_le (hle.trans hgf) (le_refl _)⟩
    · exact ⟨g, hg, max_le hle hfg⟩
  · exact h k track' hget

theorem MinimumsEnqueued.enter (h : MinimumsEnqueued s s.recovery) {item : VideoOutbound}
    (hitem : .enqueued item.tag ∈ s.log) :
    MinimumsEnqueued (s.enter c item) (s.enter c item).recovery := by
  intro k track htrack
  have hlog : ∀ f, .enqueued f ∈ s.log → .enqueued f ∈ (s.enter c item).log :=
    fun f hf => enqueued_enter.mpr hf
  rcases s.recovery.enter_cases c.scopedReferenceRefresh item.trackKey item.sourceInfo
    item.metadata.frameId with ⟨_, heq⟩ | ⟨_, hget, _⟩
  · unfold Sender.enter at htrack
    rw [heq] at htrack
    obtain ⟨f, hf, hle⟩ := h k track htrack
    exact ⟨f, hlog f hf, hle⟩
  · change (VideoSendRecoveryState.enter _ _ _ _ _).1.tracks.get? k = some track at htrack
    rw [hget] at htrack
    split at htrack
    · cases htrack
      cases hold : s.recovery.tracks.get? item.trackKey with
      | none =>
          refine ⟨item.tag, hlog _ hitem, ?_⟩
          simp [VideoSendRecoveryState.lossState, hold, VideoOutbound.tag]
      | some old =>
          obtain ⟨g, hg, hle⟩ := h _ old hold
          simp only [VideoSendRecoveryState.lossState, hold, Option.elim_some]
          rcases le_total g.frameId item.tag.frameId with hgi | hig
          · exact ⟨item.tag, hlog _ hitem, max_le (hle.trans hgi) (le_refl _)⟩
          · exact ⟨g, hlog g hg, max_le hle hig⟩
    · obtain ⟨f, hf, hle⟩ := h k track (Option.filter_eq_some_iff.mp htrack).1
      exact ⟨f, hlog f hf, hle⟩

theorem MinimumsEnqueued.mono {r : VideoSendRecoveryState} (h : MinimumsEnqueued s r)
    (hlog : ∀ f, .enqueued f ∈ s.log → .enqueued f ∈ t.log) : MinimumsEnqueued t r := by
  intro k track hget
  obtain ⟨f, hf, hle⟩ := h k track hget
  exact ⟨f, hlog f hf, hle⟩

theorem Refresh.minimum_step {a : SenderAction} (h : Refresh trackOf c s) (hledger : Ledger s)
    (hstep : Steps c s a t) : MinimumsEnqueued t t.recovery := by
  have hcons : ∀ (e : SenderEvent) f, .enqueued f ∈ s.log → .enqueued f ∈ e :: s.log :=
    fun e f hf => List.mem_cons_of_mem _ hf
  have hold : MinimumsEnqueued s s.recovery := h.minimum_le
  cases hstep with
  | @enqueueSuppressed _ _ _ item track _ _ _ htrack _ =>
      have hnew : MinimumsEnqueued { s with log := .enqueued item.tag :: s.log } s.recovery :=
        hold.mono (hcons _)
      exact hnew.raise (f := item.tag) htrack List.mem_cons_self
  | @checkSuppressed item track hw _ htrack _ =>
      exact hold.raise (f := item.tag) htrack
        (hledger.held_enqueued item (by rw [hw]; exact List.mem_cons_self))
  | @offerReplacedDelta item slot _ _ _ _ =>
      have hnew : MinimumsEnqueued { s with
          slot := slot, log := .enqueued item.tag :: s.log, producer := .idle } s.recovery :=
        hold.mono (hcons _)
      exact hnew.enter List.mem_cons_self
  | @recordRefused item hp =>
      exact MinimumsEnqueued.enter (s := { s with producer := .idle }) hold
        (hledger.refused_enqueued item hp)
  | @mergeDelta item newer hw _ _ =>
      exact MinimumsEnqueued.enter (s := { s with writer := .gated newer }) hold
        (hledger.held_enqueued newer (by rw [hw]; simp [Writer.held]))
  | @mergeDiscarded item newer hw _ =>
      exact MinimumsEnqueued.enter (s := { s with writer := .gated item }) hold
        (hledger.held_enqueued newer (by rw [hw]; simp [Writer.held]))
  | @recordRejected item hw =>
      exact MinimumsEnqueued.enter (s := { s with writer := .idle }) hold
        (hledger.held_enqueued item (by rw [hw]; exact List.mem_cons_self))
  | keyframeSent hw =>
      intro k track hget
      exact hold k track (get?_keyframeSent_eq_some hget).1
  | orderQueued _ | offerRefused _ _ | offerInserted _ _ | offerReplacedKeyframe _ _ _
  | gateOpen _ _ | sendKeyframe _ _ | sendDelta _ _ | peerReceive _ | peerAcknowledge _ _ =>
      exact hold.mono (hcons _)
  | _ => exact hold

theorem Refreshable.of_sourceInfo {x y : VideoOutbound} (h : Refreshable c x)
    (hsource : y.sourceInfo = x.sourceInfo) : Refreshable c y := by
  intro hscoped info hinfo
  exact h hscoped info (hsource ▸ hinfo)

theorem applyVideoReferenceEpoch_sourceInfo (item : VideoOutbound)
    (epochs : OrdMap VideoStreamKey Nat) (barrier : Bool) :
    (applyVideoReferenceEpoch item epochs barrier).1.sourceInfo = item.sourceInfo := by
  unfold applyVideoReferenceEpoch
  split
  · rfl
  · split
    · rfl
    · split <;> rfl

theorem AllRefreshable.step {a : SenderAction} (h : AllRefreshable c s)
    (hguard : Answering trackOf c s a) (hstep : Steps c s a t) : AllRefreshable c t := by
  have hitems : AllItems (Refreshable c) (Refreshable c) s := ⟨h.held, h.pending, h.producer⟩
  have hmade : ∀ latestKey frame payload item, a = .enqueue latestKey frame payload →
      t.producer = .offering item → Refreshable c item := by
    rintro latestKey frame payload item rfl hp
    cases hstep with
    | enqueueSuppressed hidle =>
        rw [hidle] at hp
        cases hp
    | enqueueOffering _ hitem _ =>
        cases hp
        intro hscoped info hinfo
        exact (hguard info (hitem.sourceInfo ▸ hinfo)).2 hscoped
  have hnext := hitems.step (fun _ hitem _ => hitem)
    (fun item epochs hitem =>
      hitem.of_sourceInfo (applyVideoReferenceEpoch_sourceInfo item epochs c.keyframeBarrier))
    hstep hmade
  exact ⟨hnext.held, hnext.pending, hnext.producer⟩

theorem Refresh.step {a : SenderAction} (h : Refresh trackOf c s)
    (hstreams : Streams trackOf c s) (hledger : Ledger s) (hmerges : MergesTrack s)
    (hown : OwnTracks trackOf s a) (hguard : Answering trackOf c s a)
    (hstep : Steps c s a t) : Refresh trackOf c t where
  all_answered := h.answered_step hstreams hledger hmerges hown hguard hstep
  minimum_le := h.minimum_step hledger hstep
  refreshable := h.refreshable.step hguard hstep

theorem refresh_new : Refresh trackOf c Sender.new where
  all_answered := fun _ _ _ h => by cases h
  minimum_le := fun _ _ h => by cases h
  refreshable :=
    { held := fun _ h => by cases h
      pending := fun _ _ h => by cases h
      producer := fun _ h => by cases h }

/-! ## Every run -/

/-- **Outstanding refreshes.** Each stream has its own track and the stream ids of
a display never decrease; while no refresh is outstanding for a track in
recovery, no delta of it is enqueued and its keyframes are not refused or
retired. Then, in every state reached before the session is torn down, a track in
recovery with no frame pending and none in the writer's hands was asked to
refresh after its last keyframe was enqueued. -/
theorem refresh_outstanding (trackOf : VideoStreamKey → VideoOutboundTrackKey)
    (hinj : Function.Injective trackOf) (c : SenderConfig) (s : Sender)
    (h : (system c).Reach (fun s a => OwnTracks trackOf s a ∧ Answering trackOf c s a) s)
    (hrun : s.writer ≠ .stopped) (k : VideoOutboundTrackKey)
    (hawait : s.recovery.awaiting k = true) (hpending : s.slot.pending.get? k = none)
    (hheld : ∀ item ∈ s.writer.frames, item.trackKey ≠ k) : answered trackOf k s.log = true := by
  have hinv : Ledger s ∧ MergesTrack s ∧ Streams trackOf c s ∧ Refresh trackOf c s := by
    refine h.invariant
      (I := fun s => Ledger s ∧ MergesTrack s ∧ Streams trackOf c s ∧ Refresh trackOf c s)
      ⟨ledger_new, (fun _ _ hw => by cases hw), streams_new, refresh_new⟩ ?_
    rintro s a t ⟨hledger, hmerges, hstreams, hrefresh⟩ ⟨hown, hguard⟩ hstep
    have hsteps := steps_of_step hstep
    exact ⟨hledger.step hsteps, hmerges.step hledger hsteps,
      hstreams.step hinj hledger hown hsteps,
      hrefresh.step hstreams hledger hmerges hown hguard hsteps⟩
  obtain ⟨_, _, _, hrefresh⟩ := hinv
  cases htrack : s.recovery.tracks.get? k with
  | none =>
      rw [VideoSendRecoveryState.awaiting, htrack] at hawait
      cases hawait
  | some track =>
      rcases hrefresh.all_answered hrun k track htrack with hans | ⟨f, hf, _, hcar, _⟩
      · exact hans
      · -- the keyframe awaited would be pending or in the writer's hands
        exfalso
        have hfk := (lastKeyframe_mem hf).2.1
        rcases hcar with ⟨x, hx, htag⟩ | ⟨p, hp, _⟩
        · refine hheld x ?_ ((congrArg FrameTag.trackKey htag).trans hfk)
          cases hw : s.writer <;> rw [hw] at hx <;> first | exact hx | cases hx
        · rw [hfk, hpending] at hp
          cases hp

/-! ## Two runs -/

instance (trackOf : VideoStreamKey → VideoOutboundTrackKey) (s : Sender)
    (k : VideoOutboundTrackKey) : Decidable (Asked trackOf s k) :=
  inferInstanceAs (Decidable (s.recovery.awaiting k = true → answered trackOf k s.log = true))

instance (trackOf : VideoStreamKey → VideoOutboundTrackKey) (c : SenderConfig) (s : Sender) :
    (a : SenderAction) → Decidable (Answering trackOf c s a)
  | .enqueue _ frame _ => inferInstanceAs (Decidable (∀ info ∈ videoSourceInfo frame, _ ∧ _))
  | .offer => inferInstanceAs (Decidable (∀ item ∈ s.producer.held, _ ∧ _))
  | .send .rejectedNoSpace =>
      inferInstanceAs (Decidable (∀ item ∈ s.writer.held, item.isKeyframe = true → _))
  | .send .sent | .send .rejectedClosing | .send .failed | .order _ | .recordRefused | .take _
  | .gate | .wake | .takeTrack | .merge | .check | .recordRejected | .keyframeSent | .close
  | .peerReceive _ | .peerAcknowledge _ => .isTrue trivial

/-- A keyframe is pending, so the slot refuses the delta behind it; the keyframe
is sent, which does not end the recovery. -/
def refusedRun : List SenderAction :=
  offered 1 1 true ++ offered 1 2 false ++ [.recordRefused] ++ handOver ++ [.keyframeSent]

/-- After `refusedRun` the track waits, and its refresh is outstanding. -/
theorem refresh_outstanding_refused :
    ∃ s k, (system chainConfig).run refusedRun = some s ∧ s.recovery.awaiting k = true ∧
      answered .source k s.log = true := by
  refine ⟨_, .source ⟨0, 1⟩, rfl, by decide, ?_⟩
  exact refresh_outstanding .source source_injective chainConfig _
    (TSys.reach_of_run refusedRun (by decide) rfl) (by decide) _ (by decide) (by decide)
    (by decide)

/-- The refresh of `refusedRun` is answered by keyframe 3, and the delta 4 behind
it is swallowed: keyframe 3 is sent but does not end the recovery, and no refresh
follows. -/
theorem refresh_outstanding_suppressed :
    ∃ s k, (system chainConfig).Reach (OwnTracks .source) s ∧ s.writer ≠ .stopped ∧
      s.recovery.awaiting k = true ∧ s.slot.pending.get? k = none ∧
      (∀ item ∈ s.writer.frames, item.trackKey ≠ k) ∧ answered .source k s.log = false := by
  refine ⟨_, .source ⟨0, 1⟩, TSys.reach_of_run
    (refusedRun ++ offered 1 3 true ++ [.enqueue none (chainFrame 1 4 false) [7]] ++ handOver ++
      [.keyframeSent]) (by decide) rfl, ?_⟩
  decide

end Sender

end HbbCommon.Transport
