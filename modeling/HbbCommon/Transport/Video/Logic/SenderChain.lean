import HbbCommon.Transport.Video.Logic.SenderStreams

/-!
# The reference chain of a track

A delta may be handed over only when the frame enqueued before it on its track
was handed over before it. `Linked s k i` says that the frame enqueued on track
`k` before id `i` has been handed over, is in flight, or is a loss that the
recovery state guards: then the delta `i` is swallowed by the check after the
gate. The invariant `Chain` keeps this for every delta that can still reach the
transport (`Threat`).

Recording a loss of a stream drops the recovery states of the older streams of
its display. A delta of such a stream can still be in the writer's hands, past
the slot: if its track was waiting for a keyframe, nothing stops it any more.
`SparesWriter` excludes the step in which that happens.
-/

namespace HbbCommon.Transport

open HbbCommon.Base

/-- The deltas that the writer holds and has not checked yet. -/
def Writer.unchecked : Writer → List VideoOutbound
  | .gated item | .waiting item | .passed item => [item]
  | _ => []

theorem Writer.held_of_unchecked {w : Writer} {d : VideoOutbound} (h : d ∈ w.unchecked) :
    d ∈ w.held := by
  cases w with
  | gated item | waiting item | passed item => exact h
  | _ => cases h

/-- The frame that is about to replace the one the writer holds. -/
def Writer.arriving : Writer → Option VideoOutbound
  | .merging _ newer => some newer
  | _ => none

namespace Sender

variable {c : SenderConfig} {s t : Sender} {trackOf : VideoStreamKey → VideoOutboundTrackKey}
  {k : VideoOutboundTrackKey} {id : Nat} {log : List SenderEvent}

/-- The frame of track `k` handed over last. -/
def lastHanded (k : VideoOutboundTrackKey) : List SenderEvent → Option FrameTag
  | [] => none
  | .handed f :: rest => if f.trackKey = k then some f else lastHanded k rest
  | _ :: rest => lastHanded k rest

/-- The frame of track `k` enqueued last before the frame with id `id`. -/
def lastEnqueued (k : VideoOutboundTrackKey) (id : Nat) : List SenderEvent → Option FrameTag
  | [] => none
  | .enqueued f :: rest =>
      if f.trackKey = k ∧ f.frameId < id then some f else lastEnqueued k id rest
  | _ :: rest => lastEnqueued k id rest

/-! ## Reading the log -/

theorem lastEnqueued_cons_of_ne {e : SenderEvent} (h : ∀ f, e ≠ .enqueued f) :
    lastEnqueued k id (e :: log) = lastEnqueued k id log := by
  cases e with
  | enqueued f => exact absurd rfl (h f)
  | _ => rfl

theorem lastEnqueued_append {new : List SenderEvent} (hnew : ∀ e ∈ new, e.isFrame = false) :
    lastEnqueued k id (new ++ log) = lastEnqueued k id log := by
  induction new with
  | nil => rfl
  | cons e rest ih =>
      have he : ∀ f, e ≠ .enqueued f := by
        intro f heq
        have := hnew e List.mem_cons_self
        rw [heq] at this
        cases this
      rw [List.cons_append, lastEnqueued_cons_of_ne he]
      exact ih (fun e' he' => hnew e' (List.mem_cons_of_mem _ he'))

theorem lastEnqueued_mem {p : FrameTag} (h : lastEnqueued k id log = some p) :
    .enqueued p ∈ log ∧ p.trackKey = k ∧ p.frameId < id := by
  induction log with
  | nil => cases h
  | cons e rest ih =>
      cases e with
      | enqueued f =>
          simp only [lastEnqueued] at h
          split at h
          · rename_i hf
            cases h
            exact ⟨List.mem_cons_self, hf⟩
          · exact (ih h).imp_left (List.mem_cons_of_mem _)
      | _ => exact (ih h).imp_left (List.mem_cons_of_mem _)

/-- In a log in order, the frame found is the latest. -/
theorem le_lastEnqueued (hsorted : log.Pairwise LogOrder) {f : FrameTag}
    (hf : .enqueued f ∈ log) (hk : f.trackKey = k) (hid : f.frameId < id) :
    ∃ p, lastEnqueued k id log = some p ∧ (f = p ∨ f.frameId < p.frameId) := by
  induction log with
  | nil => cases hf
  | cons e rest ih =>
      obtain ⟨hhead, hrest⟩ := List.pairwise_cons.mp hsorted
      rcases List.mem_cons.mp hf with rfl | hmem
      · exact ⟨f, by simp [lastEnqueued, hk, hid], .inl rfl⟩
      · cases e with
        | enqueued g =>
            simp only [lastEnqueued]
            split
            · exact ⟨g, rfl, .inr (hhead _ hmem)⟩
            · exact ih hrest hmem
        | _ => exact ih hrest hmem

theorem lastHanded_mem {p : FrameTag} (h : lastHanded k log = some p) :
    .handed p ∈ log ∧ p.trackKey = k := by
  induction log with
  | nil => cases h
  | cons e rest ih =>
      cases e with
      | handed f =>
          simp only [lastHanded] at h
          split at h
          · rename_i hf
            cases h
            exact ⟨List.mem_cons_self, hf⟩
          · exact (ih h).imp_left (List.mem_cons_of_mem _)
      | _ => exact (ih h).imp_left (List.mem_cons_of_mem _)

theorem le_lastHanded (hsorted : log.Pairwise LogOrder) {f : FrameTag}
    (hf : .handed f ∈ log) (hk : f.trackKey = k) :
    ∃ p, lastHanded k log = some p ∧ (f = p ∨ f.frameId < p.frameId) := by
  induction log with
  | nil => cases hf
  | cons e rest ih =>
      obtain ⟨hhead, hrest⟩ := List.pairwise_cons.mp hsorted
      rcases List.mem_cons.mp hf with rfl | hmem
      · exact ⟨f, by simp [lastHanded, hk], .inl rfl⟩
      · cases e with
        | handed g =>
            simp only [lastHanded]
            split
            · rename_i hg
              exact ⟨g, rfl, .inr (hhead _ hmem (hg.trans hk.symm))⟩
            · exact ih hrest hmem
        | _ => exact ih hrest hmem

/-- When the frame enqueued before `id` was handed over, and no frame from `id`
on was, it is the one handed over last. -/
theorem lastHanded_eq_lastEnqueued (hsorted : log.Pairwise LogOrder)
    (henqueued : ∀ f, .handed f ∈ log → .enqueued f ∈ log)
    (hbefore : ∀ f, .handed f ∈ log → f.trackKey = k → f.frameId < id)
    (hhanded : ∀ p, lastEnqueued k id log = some p → .handed p ∈ log) :
    lastHanded k log = lastEnqueued k id log := by
  cases hlast : lastHanded k log with
  | none =>
      cases henq : lastEnqueued k id log with
      | none => rfl
      | some p =>
          obtain ⟨q, hq, _⟩ := le_lastHanded hsorted (hhanded p henq) (lastEnqueued_mem henq).2.1
          rw [hlast] at hq
          cases hq
  | some q =>
      obtain ⟨hq, hqk⟩ := lastHanded_mem hlast
      obtain ⟨p, henq, hqp⟩ := le_lastEnqueued hsorted (henqueued q hq) hqk (hbefore q hq hqk)
      rw [henq]
      obtain ⟨q', hq', hpq⟩ := le_lastHanded hsorted (hhanded p henq) (lastEnqueued_mem henq).2.1
      rw [hlast] at hq'
      cases hq'
      rcases hqp with rfl | hlt
      · rfl
      · rcases hpq with rfl | hlt'
        · rfl
        · omega

/-! ## The invariant -/

/-- The frame is held somewhere between the enqueue call and the transport. -/
def InFlight (s : Sender) (f : FrameTag) : Prop :=
  (∃ item ∈ s.writer.held, item.tag = f) ∨
  (∃ p, s.slot.pending.get? f.trackKey = some p ∧ p.value.tag = f) ∨
  (∃ item ∈ s.producer.held, item.tag = f)

/-- The frame is not lost. -/
def Kept (s : Sender) (f : FrameTag) : Prop := .handed f ∈ s.log ∨ InFlight s f

/-- The track waits for a keyframe after `id`. -/
def Guarded (s : Sender) (k : VideoOutboundTrackKey) (id : Nat) : Prop :=
  ∃ track, s.recovery.tracks.get? k = some track ∧ id ≤ track.minimumKeyframeId

def Linked (s : Sender) (k : VideoOutboundTrackKey) (id : Nat) : Prop :=
  ∀ p, lastEnqueued k id s.log = some p → Kept s p ∨ Guarded s k p.frameId

/-- A delta that can still reach the transport: unchecked in the writer's hands,
pending, about to be offered, or not enqueued yet. -/
inductive Threat (trackOf : VideoStreamKey → VideoOutboundTrackKey) (s : Sender) :
    VideoOutboundTrackKey → Nat → Prop
  | writer {d} : d ∈ s.writer.unchecked → d.isKeyframe = false →
      Threat trackOf s d.trackKey d.metadata.frameId
  | pending {k p} : s.slot.pending.get? k = some p → p.value.isKeyframe = false →
      Threat trackOf s k p.value.metadata.frameId
  | offering {d src display} : s.producer = .offering d → d.isKeyframe = false →
      d.tag.source = some src → displayIndex src.display = some display →
      Threat trackOf s d.trackKey d.metadata.frameId
  | next {src display id} : s.nextTransportFrameId ≤ id → Alive s.log src →
      displayIndex src.display = some display → Threat trackOf s (trackOf src) id

/-- What holds when `d` is handed over after `pre`: it was enqueued, and if it is
a delta, the frame handed over last is the one enqueued before it. -/
def Follows (d : FrameTag) (pre : List SenderEvent) : Prop :=
  .enqueued d ∈ pre ∧
    (d.keyframe = false → lastHanded d.trackKey pre = lastEnqueued d.trackKey d.frameId pre)

structure Chain (trackOf : VideoStreamKey → VideoOutboundTrackKey) (s : Sender) : Prop where
  linked : s.writer ≠ .stopped → ∀ k id, Threat trackOf s k id → Linked s k id
  sending : ∀ d, s.writer = .sending d → d.isKeyframe = false →
    ∀ p, lastEnqueued d.trackKey d.metadata.frameId s.log = some p → .handed p ∈ s.log
  merging_track : MergesTrack s
  merging : ∀ newer ∈ s.writer.arriving, newer.isKeyframe = false →
    ∀ src ∈ newer.tag.source, s.recovery.newerStream src = false
  chained : ∀ post d pre, s.log = post ++ .handed d :: pre → Follows d pre

/-- The writer holds no delta of an older stream of the display that waits to be
swallowed, nor one that is about to be recorded as a loss. -/
def Spared (s : Sender) (item : VideoOutbound) : Prop :=
  ∀ src ∈ item.tag.source,
    (∀ d ∈ s.writer.unchecked, d.isKeyframe = false → s.recovery.awaiting d.trackKey = true →
      ∀ old ∈ d.tag.source, old.display = src.display → old.streamId = src.streamId) ∧
    (∀ newer ∈ s.writer.arriving, newer.isKeyframe = false →
      ∀ old ∈ newer.tag.source, old.display = src.display → old.streamId = src.streamId)

/-- The frame whose loss the producer records in a step. -/
def producerLoss (c : SenderConfig) (s : Sender) : SenderAction → Option VideoOutbound
  | .offer =>
      match s.producer with
      | .offering item =>
          if item.isKeyframe then none
          else
            match s.slot.replaceWhenWith (slotMaxTracks c.maxTracks) item.trackKey item
              shouldReplacePendingVideo with
            | some (_, .replaced _) => some item
            | _ => none
      | _ => none
  | .recordRefused =>
      match s.producer with
      | .refused item => some item
      | _ => none
  | _ => none

/-- When the producer records a loss, the writer is spared. -/
def SparesWriter (c : SenderConfig) (s : Sender) (a : SenderAction) : Prop :=
  ∀ item ∈ producerLoss c s a, Spared s item

/-! ## Order of the frames in flight -/

theorem Ledger.held_lt_pending (h : Ledger s) {x : VideoOutbound} {p : PendingVideo}
    (hx : x ∈ s.writer.held) (hp : s.slot.pending.get? x.trackKey = some p) :
    x.metadata.frameId < p.value.metadata.frameId := by
  have horder := (List.pairwise_append.mp (h.in_order x.trackKey)).1
  refine ((List.pairwise_append.mp horder).2.2 x.mark ?_ p.value.mark ?_).1
  · exact mem_marksOf.mpr ⟨x, hx, rfl, rfl⟩
  · exact mem_marksOf.mpr
      ⟨p.value, mem_pendingOf.mpr ⟨p, hp, rfl⟩, rfl, h.pending_key _ p hp⟩

theorem Ledger.held_lt_producer (h : Ledger s) {x y : VideoOutbound} (hx : x ∈ s.writer.held)
    (hy : y ∈ s.producer.held) (hk : y.trackKey = x.trackKey) :
    x.metadata.frameId < y.metadata.frameId := by
  refine ((List.pairwise_append.mp (h.in_order x.trackKey)).2.2 x.mark ?_ y.mark ?_).1
  · exact List.mem_append_left _ (mem_marksOf.mpr ⟨x, hx, rfl, rfl⟩)
  · exact mem_marksOf.mpr ⟨y, hy, rfl, hk⟩

theorem Ledger.merging_precedes (h : Ledger s) {item newer : VideoOutbound}
    (hw : s.writer = .merging item newer) (hk : newer.trackKey = item.trackKey) :
    Precedes item.mark newer.mark := by
  have horder := (List.pairwise_append.mp (h.in_order item.trackKey)).1
  have hheld := (List.pairwise_append.mp horder).1
  have hmarks : marksOf item.trackKey s.writer.held = [item.mark, newer.mark] := by
    rw [hw]
    simp [Writer.held, marksOf, VideoOutbound.mark, VideoOutbound.tag, hk]
  rw [hmarks] at hheld
  exact (List.pairwise_cons.mp hheld).1 _ List.mem_cons_self

/-- A frame that arrives during the ordering wait is discarded only for a
keyframe. -/
theorem Ledger.kinds_of_discarded (h : Ledger s) {item newer : VideoOutbound}
    (hw : s.writer = .merging item newer) (hk : newer.trackKey = item.trackKey)
    (hkeep : shouldReplacePendingVideo item newer = false) :
    item.isKeyframe = true ∧ newer.isKeyframe = false := by
  have hle : item.orderingEpoch ≤ newer.orderingEpoch := (h.merging_precedes hw hk).2
  unfold shouldReplacePendingVideo at hkeep
  split at hkeep
  · rename_i hne
    simp only [decide_eq_false_iff_not] at hkeep
    omega
  · simpa only [Bool.or_eq_false_iff, Bool.not_eq_false'] using hkeep

/-- The deltas outside the writer come after every frame that it holds. -/
theorem Ledger.held_lt_threat (h : Ledger s) {x : VideoOutbound} (hx : x ∈ s.writer.held)
    (hthreat : Threat trackOf t k id) (hk : x.trackKey = k)
    (hslot : t.slot = s.slot) (hproducer : t.producer = s.producer)
    (hnext : t.nextTransportFrameId = s.nextTransportFrameId)
    (hwriter : ∀ d ∈ t.writer.unchecked, d.isKeyframe = true) : x.metadata.frameId < id := by
  cases hthreat with
  | writer hd hdelta =>
      rw [hwriter _ hd] at hdelta
      cases hdelta
  | pending hp _ =>
      rw [hslot, ← hk] at hp
      exact h.held_lt_pending hx hp
  | offering hp _ _ _ =>
      rw [hproducer] at hp
      exact h.held_lt_producer hx (by rw [hp]; exact List.mem_cons_self) hk.symm
  | next hle _ _ =>
      rw [hnext] at hle
      exact (h.enqueued_lt _ (h.held_enqueued x hx)).trans_le hle

/-- Of a stream that a newer one of its display has replaced, only the writer
can still hold a delta. -/
theorem Streams.older_threat (hinj : Function.Injective trackOf) (h : Streams trackOf c t)
    (hledger : Ledger t) {f : FrameTag} {old new : VideoStreamKey} (hf : .enqueued f ∈ t.log)
    (hsrc : f.source = some new) (hdisplay : new.display = old.display)
    (hlt : old.streamId < new.streamId) (hthreat : Threat trackOf t (trackOf old) id) :
    ∃ d ∈ t.writer.unchecked, d.isKeyframe = false ∧ d.trackKey = trackOf old ∧
      d.metadata.frameId = id := by
  generalize hk : trackOf old = k at hthreat
  cases hthreat with
  | @writer d hd hdelta => exact ⟨d, hd, hdelta, rfl, rfl⟩
  | @pending k p hp _ =>
      -- a pending frame is of the newest stream
      obtain ⟨src, hps, hpk⟩ := h.owned _ (hledger.pending_enqueued k p hp)
      have heq : src = old := hinj (by
        rw [hk, ← hledger.pending_key k p hp]
        exact hpk.symm)
      subst heq
      obtain ⟨info, hinfo, rfl⟩ := sourceInfo_of_tag hps
      obtain ⟨d, hd, hn⟩ := h.slot_wf.newest k p hp info hinfo
      obtain ⟨n, hn', hle⟩ := h.newest f new d hf hsrc (hdisplay ▸ hd)
      rw [hn] at hn'
      cases hn'
      omega
  | @offering d src _ hp _ hds _ =>
      obtain ⟨src', hds', hdk, halive⟩ :=
        h.producer_owned d (by rw [hp]; exact List.mem_cons_self)
      rw [hds] at hds'
      cases hds'
      have heq : src = old := hinj (hdk.symm.trans hk.symm)
      subst heq
      have := halive f new hf hsrc hdisplay
      omega
  | @next src _ _ _ halive _ =>
      have heq : src = old := hinj hk.symm
      subst heq
      have := halive f new hf hsrc hdisplay
      omega

/-- Deltas that can reach the transport are of displays in the table. -/
theorem Streams.threat_valid (hinj : Function.Injective trackOf) (h : Streams trackOf c s)
    (hledger : Ledger s) {src : VideoStreamKey} (hthreat : Threat trackOf s (trackOf src) id) :
    ∃ d, displayIndex src.display = some d := by
  generalize hk : trackOf src = k at hthreat
  cases hthreat with
  | @writer d hd _ =>
      have hheld := Writer.held_of_unchecked hd
      obtain ⟨old, display, hold, hvalid⟩ := h.held_valid d hheld
      obtain ⟨src', hsrc', hkey⟩ := h.owned _ (hledger.held_enqueued d hheld)
      rw [hold] at hsrc'
      cases hsrc'
      have heq : src = old := hinj (hk.trans hkey)
      exact ⟨display, heq ▸ hvalid⟩
  | @pending k p hp _ =>
      obtain ⟨src', hps, hpk⟩ := h.owned _ (hledger.pending_enqueued k p hp)
      have heq : src' = src := hinj (by
        rw [hk, ← hledger.pending_key k p hp]
        exact hpk.symm)
      subst heq
      obtain ⟨info, hinfo, rfl⟩ := sourceInfo_of_tag hps
      obtain ⟨d, hd, _⟩ := h.slot_wf.newest k p hp info hinfo
      exact ⟨d, hd⟩
  | @offering d src' display hp _ hds hd =>
      obtain ⟨old, hds', hdk, _⟩ := h.producer_owned d (by rw [hp]; exact List.mem_cons_self)
      rw [hds] at hds'
      cases hds'
      have heq : src = src' := hinj (hk.trans hdk)
      exact ⟨display, heq ▸ hd⟩
  | @next src' display _ _ _ hd =>
      have heq : src = src' := hinj hk
      exact ⟨display, heq ▸ hd⟩

/-! ## Recording a loss -/

/-- A newer stream in recovery has had a frame enqueued. -/
theorem Streams.newer_enqueued (h : Streams trackOf c s) {src : VideoStreamKey}
    (hnewer : s.recovery.newerStream src = true) :
    ∃ f new, .enqueued f ∈ s.log ∧ f.source = some new ∧ new.display = src.display ∧
      src.streamId < new.streamId := by
  obtain ⟨k, track, new, hget, hnew, hdisplay, hlt⟩ :=
    VideoSendRecoveryState.newerStream_iff.mp hnewer
  obtain ⟨_, src', f, hsource, _, hf, hfs⟩ := h.entry k track hget
  rw [hnew] at hsource
  cases hsource
  exact ⟨f, new, hf, hfs, hdisplay, hlt⟩

/-- What recording a loss does to the guarded tracks. -/
theorem Streams.enter_effect (h : Streams trackOf c s) {item : VideoOutbound}
    {src : VideoStreamKey} (hsrc : item.tag.source = some src) (hkey : item.trackKey = trackOf src) :
    ((∀ x, x ≤ item.metadata.frameId ∨ Guarded s item.trackKey x →
        Guarded (s.enter c item) item.trackKey x) ∧
      (∀ k x, k ≠ item.trackKey → Guarded s k x → Guarded (s.enter c item) k x ∨
        ∃ old, k = trackOf old ∧ src.display = old.display ∧ old.streamId < src.streamId)) ∨
    ((s.enter c item).recovery = s.recovery ∧
      (displayIndex src.display = none ∨ s.recovery.newerStream src = true)) := by
  obtain ⟨info, hinfo, rfl⟩ := sourceInfo_of_tag hsrc
  have hmap : item.sourceInfo.map (fun info => info.key) = some info.key := by rw [hinfo]; rfl
  unfold Guarded Sender.enter
  rcases s.recovery.enter_cases c.scopedReferenceRefresh item.trackKey item.sourceInfo
    item.metadata.frameId with ⟨hign, heq⟩ | ⟨hrec, hget, _⟩
  · refine .inr ⟨by simp only [heq], ?_⟩
    rw [hmap] at hign
    simpa [VideoSendRecoveryState.ignores] using hign
  · rw [hmap] at hrec
    obtain ⟨_, hnewer⟩ := VideoSendRecoveryState.ignores_eq_false hrec
    refine .inl ⟨?_, ?_⟩
    · intro x hx
      refine ⟨_, (hget item.trackKey).trans (if_pos rfl), ?_⟩
      show x ≤ max _ _
      rcases hx with hle | ⟨track, htrack, hle⟩
      · exact hle.trans (le_max_right _ _)
      · rw [htrack]
        exact hle.trans (le_max_left _ _)
    · rintro k x hk ⟨track, htrack, hle⟩
      obtain ⟨_, old, f, hold, hkold, _, _⟩ := h.entry k track htrack
      by_cases hdisplay : old.display = info.key.display
      · -- an older stream of the same display is forgotten
        refine .inr ⟨old, hkold, hdisplay.symm, ?_⟩
        have hle' : ¬ info.key.streamId < old.streamId := by
          intro hlt
          have := VideoSendRecoveryState.newerStream_iff.mpr
            ⟨k, track, old, htrack, hold, hdisplay, hlt⟩
          rw [hnewer] at this
          cases this
        have hne : old.streamId ≠ info.key.streamId := by
          intro heq
          apply hk
          have hsame : old = info.key := by
            cases hi : info.key
            cases old
            simp_all
          rw [hkold, hkey, hsame]
        omega
      · refine .inl ⟨track, ?_, hle⟩
        show (VideoSendRecoveryState.enter _ _ _ _ _).1.tracks.get? k = some track
        rw [hget k, if_neg hk, htrack, hmap]
        simp [VideoSendRecoveryState.keeps, hk, hold, hdisplay]

/-- A loss adds its own stream to the streams in recovery, and no other. -/
theorem newerStream_of_enter {item : VideoOutbound} {src key : VideoStreamKey}
    (hsrc : item.tag.source = some src)
    (h : (s.enter c item).recovery.newerStream key = true) :
    s.recovery.newerStream key = true ∨
      (src.display = key.display ∧ key.streamId < src.streamId) := by
  obtain ⟨info, hinfo, rfl⟩ := sourceInfo_of_tag hsrc
  obtain ⟨k, track, new, hget, hnew, hdisplay, hlt⟩ :=
    VideoSendRecoveryState.newerStream_iff.mp h
  unfold Sender.enter at hget
  rcases s.recovery.enter_cases c.scopedReferenceRefresh item.trackKey item.sourceInfo
    item.metadata.frameId with ⟨_, heq⟩ | ⟨_, hcases, _⟩
  · rw [heq] at hget
    exact .inl (VideoSendRecoveryState.newerStream_iff.mpr
      ⟨k, track, new, hget, hnew, hdisplay, hlt⟩)
  · simp only [hcases] at hget
    split at hget
    · cases hget
      rw [VideoSendRecoveryState.lossState, hinfo] at hnew
      cases hnew
      exact .inr ⟨hdisplay, hlt⟩
    · exact .inl (VideoSendRecoveryState.newerStream_iff.mpr
        ⟨k, track, new, (Option.filter_eq_some_iff.mp hget).1, hnew, hdisplay, hlt⟩)

theorem enqueued_enter {item : VideoOutbound} {f : FrameTag} :
    .enqueued f ∈ (s.enter c item).log ↔ .enqueued f ∈ s.log := by
  obtain ⟨new, hlog, hnew⟩ := s.enter_log (c := c) item
  rw [hlog]
  refine mem_append_of_isFrame ?_ rfl
  intro e he
  obtain ⟨refresh, rfl⟩ := hnew e he
  rfl

theorem handed_enter {item : VideoOutbound} {f : FrameTag} :
    .handed f ∈ (s.enter c item).log ↔ .handed f ∈ s.log := by
  obtain ⟨new, hlog, hnew⟩ := s.enter_log (c := c) item
  rw [hlog]
  refine mem_append_of_isFrame ?_ rfl
  intro e he
  obtain ⟨refresh, rfl⟩ := hnew e he
  rfl

theorem lastEnqueued_enter {item : VideoOutbound} :
    lastEnqueued k id (s.enter c item).log = lastEnqueued k id s.log := by
  obtain ⟨new, hlog, hnew⟩ := s.enter_log (c := c) item
  rw [hlog]
  refine lastEnqueued_append ?_
  intro e he
  obtain ⟨refresh, rfl⟩ := hnew e he
  rfl

theorem threat_of_enter {item : VideoOutbound}
    (h : Threat trackOf (s.enter c item) k id) : Threat trackOf s k id := by
  cases h with
  | writer hd hdelta => exact .writer hd hdelta
  | pending hp hdelta => exact .pending hp hdelta
  | offering hp hdelta hds hd => exact .offering hp hdelta hds hd
  | next hle halive hd =>
      exact .next hle (fun f src hf => halive f src (enqueued_enter.mpr hf)) hd

/-- A loss on the track of `item`, up to its id, is guarded once it is recorded.
`hspared` and `hnewer` say that the writer holds nothing that would escape. -/
theorem Streams.linked_enter (hinj : Function.Injective trackOf) (h : Streams trackOf c s)
    (hledger : Ledger s) {item : VideoOutbound} {src : VideoStreamKey}
    (hitem : .enqueued item.tag ∈ s.log) (hsrc : item.tag.source = some src)
    (hkey : item.trackKey = trackOf src)
    (hlinked : ∀ k id, Threat trackOf s k id → ∀ p, lastEnqueued k id s.log = some p →
      Kept s p ∨ Guarded s k p.frameId ∨
        (k = item.trackKey ∧ p.frameId ≤ item.metadata.frameId))
    (hspared : ∀ d ∈ s.writer.unchecked, d.isKeyframe = false →
      s.recovery.awaiting d.trackKey = true → ∀ old, d.trackKey = trackOf old →
      src.display = old.display → ¬ old.streamId < src.streamId)
    (hnewer : s.recovery.newerStream src = true →
      ∀ d ∈ s.writer.unchecked, d.isKeyframe = false → d.trackKey ≠ item.trackKey)
    (hthreat : Threat trackOf (s.enter c item) k id) : Linked (s.enter c item) k id := by
  intro p hp
  rw [lastEnqueued_enter] at hp
  have hold := threat_of_enter hthreat
  have hkept : Kept s p → Kept (s.enter c item) p := fun hkept =>
    hkept.imp (handed_enter.mpr) (fun hflight => hflight)
  rcases h.enter_effect hsrc hkey with ⟨hown, hother⟩ | ⟨hsame, hcause⟩
  · rcases hlinked k id hold p hp with hk | hguard | ⟨rfl, hle⟩
    · exact .inl (hkept hk)
    · by_cases hk : k = item.trackKey
      · subst hk
        exact .inr (hown _ (.inr hguard))
      · rcases hother k p.frameId hk hguard with hguard' | ⟨old, rfl, hdisplay, hlt⟩
        · exact .inr hguard'
        · -- the track was forgotten: no delta of it can reach the transport
          obtain ⟨d, hd, hdelta, hdk, _⟩ :=
            h.older_threat hinj hledger hitem hsrc hdisplay hlt hold
          refine absurd hlt (hspared d hd hdelta ?_ old hdk hdisplay)
          obtain ⟨track, htrack, _⟩ := hguard
          obtain ⟨hawait, _⟩ := h.entry _ track htrack
          rw [hdk]
          simp [VideoSendRecoveryState.awaiting, htrack, hawait]
    · exact .inr (hown _ (.inl hle))
  · rcases hlinked k id hold p hp with hk | hguard | ⟨rfl, hle⟩
    · exact .inl (hkept hk)
    · refine .inr ?_
      unfold Guarded
      rw [hsame]
      exact hguard
    · exfalso
      rw [hkey] at hold
      rcases hcause with hnone | hnew
      · obtain ⟨d, hd⟩ := h.threat_valid hinj hledger hold
        rw [hnone] at hd
        cases hd
      · obtain ⟨f, new, hf, hfs, hdisplay, hlt⟩ := h.newer_enqueued hnew
        obtain ⟨d, hd, hdelta, hdk, _⟩ := h.older_threat hinj hledger hf hfs hdisplay hlt hold
        exact hnewer hnew d hd hdelta (hdk.trans hkey.symm)

/-! ## Steps that lose nothing -/

/-- Every delta that can reach the transport is linked. -/
def AllLinked (trackOf : VideoStreamKey → VideoOutboundTrackKey) (s : Sender) : Prop :=
  ∀ k id, Threat trackOf s k id → Linked s k id

theorem AllLinked.same (h : AllLinked trackOf s) (hrecovery : t.recovery = s.recovery)
    (hlast : ∀ k id, lastEnqueued k id t.log = lastEnqueued k id s.log)
    (hkept : ∀ f, Kept s f → Kept t f)
    (hthreat : ∀ k id, Threat trackOf t k id → Threat trackOf s k id) : AllLinked trackOf t := by
  intro k id ht p hp
  rw [hlast] at hp
  refine (h k id (hthreat k id ht) p hp).imp (hkept p) (fun hguard => ?_)
  unfold Guarded
  rw [hrecovery]
  exact hguard

theorem kept_of_move {f : FrameTag} (h : Kept s f)
    (hhanded : ∀ f, .handed f ∈ s.log → .handed f ∈ t.log)
    (hslot : t.slot = s.slot) (hproducer : t.producer = s.producer)
    (hheld : ∀ x ∈ s.writer.held, ∃ y ∈ t.writer.held, y.tag = x.tag) : Kept t f := by
  rcases h with hf | ⟨x, hx, rfl⟩ | ⟨p, hp, htag⟩ | ⟨x, hx, htag⟩
  · exact .inl (hhanded f hf)
  · exact .inr (.inl (hheld x hx))
  · exact .inr (.inr (.inl ⟨p, by rw [hslot]; exact hp, htag⟩))
  · exact .inr (.inr (.inr ⟨x, by rw [hproducer]; exact hx, htag⟩))

theorem threat_of_move (h : Threat trackOf t k id) (hslot : t.slot = s.slot)
    (hproducer : t.producer = s.producer)
    (hnext : t.nextTransportFrameId = s.nextTransportFrameId)
    (henqueued : ∀ f, .enqueued f ∈ s.log → .enqueued f ∈ t.log)
    (hwriter : ∀ d ∈ t.writer.unchecked, d.isKeyframe = false → d ∈ s.writer.unchecked) :
    Threat trackOf s k id := by
  cases h with
  | writer hd hdelta => exact .writer (hwriter _ hd hdelta) hdelta
  | pending hp hdelta => exact .pending (hslot ▸ hp) hdelta
  | offering hp hdelta hds hd => exact .offering (hproducer ▸ hp) hdelta hds hd
  | next hle halive hd =>
      exact .next (hnext ▸ hle) (fun f src hf => halive f src (henqueued f hf)) hd

/-- A step of the gate, of the peer, or of the writer that keeps its frames. -/
theorem AllLinked.move (h : AllLinked trackOf s) (new : List SenderEvent)
    (hslot : t.slot = s.slot) (hproducer : t.producer = s.producer)
    (hnext : t.nextTransportFrameId = s.nextTransportFrameId)
    (hrecovery : t.recovery = s.recovery) (hlog : t.log = new ++ s.log)
    (hnew : ∀ e ∈ new, e.isFrame = false)
    (hwriter : ∀ d ∈ t.writer.unchecked, d.isKeyframe = false → d ∈ s.writer.unchecked)
    (hheld : ∀ x ∈ s.writer.held, ∃ y ∈ t.writer.held, y.tag = x.tag) : AllLinked trackOf t := by
  have hmem : ∀ e : SenderEvent, e ∈ s.log → e ∈ t.log := fun e he => by
    rw [hlog]
    exact List.mem_append_right _ he
  refine h.same hrecovery (fun k id => ?_) (fun f hf => ?_) (fun k id ht => ?_)
  · rw [hlog]
    exact lastEnqueued_append hnew
  · exact kept_of_move hf (fun f => hmem _) hslot hproducer hheld
  · exact threat_of_move ht hslot hproducer hnext (fun f => hmem _) hwriter

/-- A frame that is handed over is kept. -/
theorem AllLinked.hand (h : AllLinked trackOf s) {item : VideoOutbound}
    (hw : s.writer = .sending item) {writer : Writer} (hunchecked : writer.unchecked = []) :
    AllLinked trackOf { s with writer := writer, log := .handed item.tag :: s.log } := by
  refine h.same rfl (fun k id => rfl) ?_ (fun k id ht => ?_)
  · rintro f (hf | ⟨x, hx, rfl⟩ | hp | hq)
    · exact .inl (List.mem_cons_of_mem _ hf)
    · rw [hw, Writer.held, List.mem_singleton] at hx
      subst hx
      exact .inl List.mem_cons_self
    · exact .inr (.inr (.inl hp))
    · exact .inr (.inr (.inr hq))
  · refine threat_of_move ht rfl rfl rfl (fun f => List.mem_cons_of_mem _) ?_
    intro d hd
    change d ∈ writer.unchecked at hd
    rw [hunchecked] at hd
    cases hd

/-- The writer takes a pending frame. -/
theorem AllLinked.fetch (h : AllLinked trackOf s) (hledger : Ledger s) {slot : TrackLatestState}
    {writer : Writer} {k₀ : VideoOutboundTrackKey} {p₀ : PendingVideo}
    (hpend : s.slot.pending.get? k₀ = some p₀)
    (hget : ∀ j, slot.pending.get? j = if j = k₀ then none else s.slot.pending.get? j)
    (hheld : writer.held = s.writer.held ++ [p₀.value])
    (hunchecked : ∀ d ∈ writer.unchecked, d = p₀.value) :
    AllLinked trackOf { s with slot := slot, writer := writer } := by
  have hin : ∀ x ∈ s.writer.held ++ [p₀.value], x ∈ writer.held := by rw [hheld]; exact fun _ => id
  refine h.same rfl (fun k id => rfl) ?_ ?_
  · rintro f (hf | ⟨x, hx, htag⟩ | ⟨p, hp, htag⟩ | hq)
    · exact .inl hf
    · exact .inr (.inl ⟨x, hin x (List.mem_append_left _ hx), htag⟩)
    · by_cases hk : f.trackKey = k₀
      · rw [hk, hpend] at hp
        cases hp
        exact .inr (.inl ⟨p₀.value, hin _ (List.mem_append_right _ List.mem_cons_self), htag⟩)
      · refine .inr (.inr (.inl ⟨p, ?_, htag⟩))
        show slot.pending.get? f.trackKey = some p
        rw [hget, if_neg hk]
        exact hp
    · exact .inr (.inr (.inr hq))
  · intro k id hthreat
    cases hthreat with
    | writer hd hdelta =>
        obtain rfl := hunchecked _ hd
        rw [hledger.pending_key k₀ p₀ hpend]
        exact .pending hpend hdelta
    | pending hp hdelta => exact .pending (pending_of_fetched hget hp) hdelta
    | offering hp hdelta hds hd => exact .offering hp hdelta hds hd
    | next hle halive hd => exact .next hle halive hd

/-- The frame that starts its way was the next one before. -/
theorem AllLinked.start (h : AllLinked trackOf s) {item : VideoOutbound} {src : VideoStreamKey}
    (hp : s.producer = .idle) (hid : item.metadata.frameId = s.nextTransportFrameId)
    (hsrc : item.tag.source = some src) (hkey : item.trackKey = trackOf src)
    (halive : Alive s.log src) :
    AllLinked trackOf { s with
      nextTransportFrameId := s.nextTransportFrameId + 1, producer := .offering item } := by
  refine h.same rfl (fun k id => rfl) ?_ ?_
  · rintro f (hf | hheld | hpend | ⟨x, hx, _⟩)
    · exact .inl hf
    · exact .inr (.inl hheld)
    · exact .inr (.inr (.inl hpend))
    · rw [hp] at hx
      cases hx
  · intro k id hthreat
    cases hthreat with
    | writer hd hdelta => exact .writer hd hdelta
    | pending hpend hdelta => exact .pending hpend hdelta
    | offering hoff _ hds hd =>
        cases hoff
        rw [hsrc] at hds
        cases hds
        rw [hkey]
        exact .next (le_of_eq hid.symm) halive hd
    | next hle halive' hd => exact .next (Nat.le_of_succ_le hle) halive' hd

/-! ## Steps that lose a frame -/

/-- A guarded track stays guarded when the id it waits for is raised. -/
theorem Guarded.raise {key : VideoOutboundTrackKey} {track : VideoSendTrackRecoveryState}
    {n x : Nat} (htrack : s.recovery.tracks.get? key = some track) (h : Guarded s k x) :
    ∃ track', (s.recovery.tracks.insert key { track with
      minimumKeyframeId := max track.minimumKeyframeId n }).get? k = some track' ∧
      x ≤ track'.minimumKeyframeId := by
  obtain ⟨old, hold, hle⟩ := h
  rw [OrdMap.get?_insert]
  by_cases hk : k = key
  · rw [hk, htrack] at hold
    cases hold
    exact ⟨_, if_pos hk, hle.trans (le_max_left _ _)⟩
  · exact ⟨old, (if_neg hk).trans hold, hle⟩

theorem guarded_raised {key : VideoOutboundTrackKey} {track : VideoSendTrackRecoveryState}
    (n : Nat) (r : VideoSendRecoveryState) :
    ∃ track', (r.tracks.insert key { track with
      minimumKeyframeId := max track.minimumKeyframeId n }).get? key = some track' ∧
      n ≤ track'.minimumKeyframeId :=
  ⟨_, (OrdMap.get?_insert _ _ _ _).trans (if_pos rfl), le_max_right _ _⟩

/-- A delta that the producer swallows is guarded. -/
theorem AllLinked.suppress (h : AllLinked trackOf s) {item : VideoOutbound}
    {track : VideoSendTrackRecoveryState}
    (htrack : s.recovery.tracks.get? item.trackKey = some track) :
    AllLinked trackOf { s with
      nextTransportFrameId := s.nextTransportFrameId + 1
      recovery :=
        { tracks := s.recovery.tracks.insert item.trackKey { track with
            minimumKeyframeId := max track.minimumKeyframeId item.metadata.frameId } }
      log := .enqueued item.tag :: s.log } := by
  intro k id hthreat p hp
  simp only [lastEnqueued] at hp
  split at hp
  · rename_i hlast
    cases hp
    rw [← hlast.1]
    exact .inr (guarded_raised item.metadata.frameId s.recovery)
  · have hold : Threat trackOf s k id := by
      cases hthreat with
      | writer hd hdelta => exact .writer hd hdelta
      | pending hpend hdelta => exact .pending hpend hdelta
      | offering hoff hdelta hds hd => exact .offering hoff hdelta hds hd
      | next hle halive hd =>
          exact .next (Nat.le_of_succ_le hle)
            (fun f src hf => halive f src (List.mem_cons_of_mem _ hf)) hd
    exact (h k id hold p hp).imp (fun hk => hk.imp_left (List.mem_cons_of_mem _))
      (fun hguard => hguard.raise htrack)

/-- A delta that the writer swallows is guarded. -/
theorem AllLinked.swallow (h : AllLinked trackOf s) {item : VideoOutbound}
    (hw : s.writer = .passed item) {track : VideoSendTrackRecoveryState}
    (htrack : s.recovery.tracks.get? item.trackKey = some track) :
    AllLinked trackOf { s with
      recovery :=
        { tracks := s.recovery.tracks.insert item.trackKey { track with
            minimumKeyframeId := max track.minimumKeyframeId item.metadata.frameId } }
      writer := .idle } := by
  intro k id hthreat p hp
  have hold : Threat trackOf s k id :=
    threat_of_move hthreat rfl rfl rfl (fun f hf => hf) (fun d hd => by cases hd)
  rcases h k id hold p hp with hkept | hguard
  · rcases hkept with hf | ⟨x, hx, rfl⟩ | hpend | hprod
    · exact .inl (.inl hf)
    · rw [hw, Writer.held, List.mem_singleton] at hx
      subst hx
      rw [← (lastEnqueued_mem hp).2.1]
      exact .inr (guarded_raised x.metadata.frameId s.recovery)
    · exact .inl (.inr (.inr (.inl hpend)))
    · exact .inl (.inr (.inr (.inr hprod)))
  · exact .inr (hguard.raise htrack)

/-- A keyframe replaces the frame that waits for the gate: no delta depends on
the lost frame, since the keyframe comes between. -/
theorem AllLinked.replaceHeld (h : AllLinked trackOf s) (hledger : Ledger s)
    {item newer : VideoOutbound} (hw : s.writer = .merging item newer)
    (hk : newer.trackKey = item.trackKey) (hkey : newer.isKeyframe = true) :
    AllLinked trackOf { s with writer := .gated newer } := by
  have hheld : newer ∈ s.writer.held := by rw [hw]; simp [Writer.held]
  intro k id hthreat p hp
  have hold : Threat trackOf s k id := by
    refine threat_of_move hthreat rfl rfl rfl (fun f hf => hf) ?_
    intro d hd hdelta
    rw [Writer.unchecked, List.mem_singleton] at hd
    rw [hd, hkey] at hdelta
    cases hdelta
  rcases h k id hold p hp with hkept | hguard
  · rcases hkept with hf | ⟨x, hx, rfl⟩ | hpend | hprod
    · exact .inl (.inl hf)
    · rw [hw, Writer.held, List.mem_cons, List.mem_singleton] at hx
      rcases hx with rfl | rfl
      · exfalso
        obtain ⟨_, hxk, _⟩ := lastEnqueued_mem hp
        have hlt : newer.metadata.frameId < id := by
          refine hledger.held_lt_threat hheld hthreat (hk.trans hxk) rfl rfl rfl ?_
          intro d hd
          rw [Writer.unchecked, List.mem_singleton] at hd
          rw [hd, hkey]
        obtain ⟨q, hq, hle⟩ := le_lastEnqueued hledger.sorted
          (hledger.held_enqueued newer hheld) (hk.trans hxk) hlt
        change lastEnqueued k id s.log = _ at hp
        rw [hp] at hq
        cases hq
        have horder := (hledger.merging_precedes hw hk).1
        rcases hle with heq | hlt'
        · have : newer.tag.frameId = x.tag.frameId := by rw [heq]
          exact absurd horder (by
            show ¬ x.tag.frameId < newer.tag.frameId
            omega)
        · exact absurd horder (by
            show ¬ x.tag.frameId < newer.tag.frameId
            omega)
      · exact .inl (.inr (.inl ⟨x, List.mem_cons_self, rfl⟩))
    · exact .inl (.inr (.inr (.inl hpend)))
    · exact .inl (.inr (.inr (.inr hprod)))
  · exact .inr hguard

/-- A frame handed over precedes every delta of its track that can follow. -/
theorem Ledger.handed_lt_threat (h : Ledger s) {f : FrameTag} (hf : .handed f ∈ s.log)
    (hthreat : Threat trackOf s k id) (hk : f.trackKey = k) : f.frameId < id := by
  cases hthreat with
  | @writer d hd _ =>
      refine h.handed_before _ d.mark ?_ f hf hk
      exact List.mem_append_left _ (List.mem_append_left _
        (mem_marksOf.mpr ⟨d, Writer.held_of_unchecked hd, rfl, rfl⟩))
  | @pending k p hp _ =>
      refine h.handed_before _ p.value.mark ?_ f hf hk
      exact List.mem_append_left _ (List.mem_append_right _
        (mem_marksOf.mpr ⟨_, mem_pendingOf.mpr ⟨p, hp, rfl⟩, rfl, h.pending_key k p hp⟩))
  | @offering d _ _ hp _ _ _ =>
      refine h.handed_before _ d.mark ?_ f hf hk
      exact List.mem_append_right _
        (mem_marksOf.mpr ⟨d, by rw [hp]; exact List.mem_cons_self, rfl, rfl⟩)
  | next hle _ _ => exact (h.enqueued_lt f (h.handed_enqueued f hf)).trans_le hle

/-- A keyframe ends the recovery only of losses before it. -/
theorem AllLinked.recover (h : AllLinked trackOf s) (hledger : Ledger s) {item : VideoOutbound}
    (hw : s.writer = .sent item) :
    AllLinked trackOf { s with
      recovery := s.recovery.keyframeSent item.trackKey item.metadata.frameId
      writer := .idle } := by
  have hhanded := hledger.sent_handed item hw
  intro k id hthreat p hp
  have hold : Threat trackOf s k id :=
    threat_of_move hthreat rfl rfl rfl (fun f hf => hf) (fun d hd => by cases hd)
  rcases h k id hold p hp with hkept | ⟨track, htrack, hle⟩
  · refine .inl (kept_of_move hkept (fun f hf => hf) rfl rfl ?_)
    intro x hx
    rw [hw] at hx
    cases hx
  · refine .inr ⟨track, ?_, hle⟩
    show (VideoSendRecoveryState.keyframeSent _ _ _).tracks.get? k = some track
    unfold VideoSendRecoveryState.keyframeSent
    split
    · rename_i hclear
      rw [OrdMap.get?_erase]
      by_cases hk : k = item.trackKey
      · -- the keyframe lies between the loss and the delta
        exfalso
        have hlt : item.tag.frameId < id := hledger.handed_lt_threat hhanded hold hk.symm
        obtain ⟨q, hq, hge⟩ := le_lastEnqueued hledger.sorted
          (hledger.handed_enqueued _ hhanded) hk.symm hlt
        change lastEnqueued k id s.log = _ at hp
        rw [hp] at hq
        cases hq
        rw [← hk, htrack, Option.any_some, decide_eq_true_eq] at hclear
        change item.tag.frameId > _ at hclear
        rcases hge with rfl | hlt'
        · exact absurd hle (by omega)
        · omega
      · rw [if_neg hk]
        exact htrack
    · exact htrack

/-! ## Offering a frame to the slot -/

/-- A pending frame stays pending, is the one replaced, or is of an older stream
of the display of the frame offered. -/
theorem pending_after_offer {maxTracks : Nat} {slot u : TrackLatestState} {item : VideoOutbound}
    {outcome : SlotOutcome} (hwf : slot.Wf maxTracks)
    (h : slot.replaceWhenWith maxTracks item.trackKey item shouldReplacePendingVideo =
      some (u, outcome)) {p : PendingVideo} (hp : slot.pending.get? k = some p) :
    u.pending.get? k = some p ∨
    (k = item.trackKey ∧ outcome = .replaced p.value) ∨
    (∃ old info, p.value.sourceInfo = some old ∧ item.sourceInfo = some info ∧
      info.key.display = old.key.display ∧ old.key.streamId < info.key.streamId) := by
  obtain ⟨v, admitted, hsrc, hrest⟩ := TrackLatestState.replaceWhenWith_cases h
  -- what the source check leaves
  have hv : v.pending.get? k = some p ∨
      (∃ old info, p.value.sourceInfo = some old ∧ item.sourceInfo = some info ∧
        info.key.display = old.key.display ∧ old.key.streamId < info.key.streamId) := by
    cases hsrc with
    | @retired info d bytes hinfo hd _ hlt _ =>
        cases hobs : TrackLatestState.obsolete info.key p with
        | false => exact .inl (OrdMap.get?_filter_eq_some.mpr ⟨hp, by simp [hobs]⟩)
        | true =>
            obtain ⟨old, hold, hcond⟩ := (Option.any_eq_true _ _).mp hobs
            simp only [Bool.and_eq_true, beq_iff_eq, bne_iff_ne] at hcond
            obtain ⟨d', hd', hn⟩ := hwf.newest k p hp old hold
            rw [hcond.1, hd] at hd'
            cases hd'
            exact .inr ⟨old, info, hold, hinfo, hcond.1.symm, hlt _ hn⟩
    | _ => exact .inl hp
  rcases hv with hv | hold
  · rcases hrest with ⟨_, rfl, _⟩ | ⟨_, hst⟩
    · exact .inl hv
    · cases hst with
      | refused => exact .inl hv
      | replaced hget =>
          by_cases hk : k = item.trackKey
          · rw [hk, hget] at hv
            cases hv
            exact .inr (.inl ⟨hk, rfl⟩)
          · exact .inl ((OrdMap.get?_insert _ _ _ _).trans ((if_neg hk).trans hv))
      | inserted hget =>
          by_cases hk : k = item.trackKey
          · rw [hk, hget] at hv
            cases hv
          · exact .inl ((OrdMap.get?_insert _ _ _ _).trans ((if_neg hk).trans hv))
  · exact .inr (.inr hold)

/-- The producer's state after an offer. -/
def OfferedBy (outcome : SlotOutcome) (item : VideoOutbound) (producer : Producer) : Prop :=
  if outcome = .refused then producer = .refused item else producer = .idle

theorem OfferedBy.cases {outcome : SlotOutcome} {item : VideoOutbound} {producer : Producer}
    (h : OfferedBy outcome item producer) : producer = .idle ∨ producer = .refused item := by
  unfold OfferedBy at h
  split at h
  · exact .inr h
  · exact .inl h

/-- The offered frame is still in flight. -/
theorem kept_offered {item : VideoOutbound} {slot : TrackLatestState} {outcome : SlotOutcome}
    {producer : Producer} {maxTracks : Nat}
    (hslot : s.slot.replaceWhenWith maxTracks item.trackKey item shouldReplacePendingVideo =
      some (slot, outcome)) (hproducer : OfferedBy outcome item producer)
    (log : List SenderEvent) :
    Kept { s with slot := slot, log := log, producer := producer } item.tag := by
  unfold OfferedBy at hproducer
  split at hproducer
  · exact .inr (.inr (.inr ⟨item, by rw [hproducer]; exact List.mem_cons_self, rfl⟩))
  · rename_i hout
    obtain ⟨p, hp, hval⟩ := pending_self_of_offer hslot hout
    exact .inr (.inr (.inl ⟨p, hp, by rw [hval]⟩))

/-- After an offer, every delta is linked, up to the loss of the replaced frame. -/
theorem AllLinked.offer (hinj : Function.Injective trackOf) (h : AllLinked trackOf s)
    (hstreams : Streams trackOf c s) (hledger : Ledger s) {item : VideoOutbound}
    (hp : s.producer = .offering item) {slot : TrackLatestState} {outcome : SlotOutcome}
    (hslot : s.slot.replaceWhenWith (slotMaxTracks c.maxTracks) item.trackKey item
      shouldReplacePendingVideo = some (slot, outcome)) {producer : Producer}
    (hproducer : OfferedBy outcome item producer)
    (hthreat : Threat trackOf { s with
      slot := slot, log := .enqueued item.tag :: s.log, producer := producer } k id)
    {p : FrameTag} (hlast : lastEnqueued k id (.enqueued item.tag :: s.log) = some p) :
    Kept { s with slot := slot, log := .enqueued item.tag :: s.log, producer := producer } p ∨
    Guarded { s with
      slot := slot, log := .enqueued item.tag :: s.log, producer := producer } k p.frameId ∨
    (k = item.trackKey ∧ ¬ item.metadata.frameId < id ∧ ∃ q, s.slot.pending.get? k = some q ∧
      outcome = .replaced q.value ∧ q.value.tag = p) := by
  have hnew := hstreams.offer hp hslot hproducer.cases
  simp only [lastEnqueued] at hlast
  split at hlast
  · cases hlast
    exact .inl (kept_offered hslot hproducer _)
  · rename_i hnot
    -- the delta was there before the offer
    have hold : Threat trackOf s k id := by
      cases hthreat with
      | writer hd hdelta => exact .writer hd hdelta
      | pending hpend hdelta =>
          rcases pending_of_offer hslot _ _ hpend with hpend' | ⟨rfl, hval, hout⟩
          · exact .pending hpend' hdelta
          · obtain ⟨src, hsrc, _, _⟩ :=
              hstreams.producer_owned item (by rw [hp]; exact List.mem_cons_self)
            obtain ⟨info, hinfo, rfl⟩ := sourceInfo_of_tag hsrc
            obtain ⟨d, hd, _⟩ := hnew.slot_wf.newest _ _ hpend info (by rw [hval]; exact hinfo)
            rw [hval] at hdelta ⊢
            exact .offering hp hdelta hsrc hd
      | offering hoff _ _ _ =>
          change producer = _ at hoff
          rcases hproducer.cases with hq | hq <;> rw [hq] at hoff <;> cases hoff
      | next hle halive hd =>
          exact .next hle (fun f src hf => halive f src (List.mem_cons_of_mem _ hf)) hd
    obtain ⟨henq, hpk, hlt⟩ := lastEnqueued_mem hlast
    rcases h k id hold p hlast with hkept | hguard
    · rcases hkept with hf | hheld | ⟨q, hq, hqp⟩ | ⟨x, hx, hxp⟩
      · exact .inl (.inl (List.mem_cons_of_mem _ hf))
      · exact .inl (.inr (.inl hheld))
      · rcases pending_after_offer hstreams.slot_wf hslot hq with
          hq' | ⟨hk, hout⟩ | ⟨old, info, hqo, hinfo, hdisplay, hstream⟩
        · exact .inl (.inr (.inr (.inl ⟨q, hq', hqp⟩)))
        · refine .inr (.inr ⟨hpk.symm.trans hk, ?_, q, hpk ▸ hq, hout, hqp⟩)
          intro hid
          exact hnot ⟨hk.symm.trans hpk, hid⟩
        · -- a retired frame comes after what the writer holds
          exfalso
          have hqsrc : p.source = some old.key := by
            rw [← hqp]
            simp [VideoOutbound.tag, hqo]
          obtain ⟨src, hps, hkey⟩ := hstreams.owned p henq
          rw [hqsrc] at hps
          cases hps
          have hitem : item.tag.source = some info.key := by simp [VideoOutbound.tag, hinfo]
          have hk : k = trackOf old.key := hpk.symm.trans hkey
          rw [hk] at hthreat
          have hledger' : Ledger { s with
              slot := slot, log := .enqueued item.tag :: s.log, producer := producer } :=
            hledger.offer hp hproducer.cases
              (fun k' p' hp' => (pending_of_offer hslot k' p' hp').imp_right
                (fun hnew => ⟨hnew.1, hnew.2.1⟩))
              (flight_offer hp hslot hproducer)
          obtain ⟨d, hd, _, hdk, hdid⟩ := hnew.older_threat hinj hledger' List.mem_cons_self hitem
            hdisplay hstream hthreat
          have hqd : s.slot.pending.get? d.trackKey = some q := by
            rw [hdk, ← hkey]
            exact hq
          have hdlt := hledger.held_lt_pending (Writer.held_of_unchecked hd) hqd
          have : q.value.metadata.frameId = p.frameId := by rw [← hqp]; rfl
          omega
      · rw [hp, Producer.held, List.mem_singleton] at hx
        subst hx
        rw [← hxp]
        exact .inl (kept_offered hslot hproducer _)
    · exact .inr (.inl hguard)

/-- A refused or inserted frame replaces nothing. -/
theorem AllLinked.offerKept (hinj : Function.Injective trackOf) (h : AllLinked trackOf s)
    (hstreams : Streams trackOf c s) (hledger : Ledger s) {item : VideoOutbound}
    (hp : s.producer = .offering item) {slot : TrackLatestState} {outcome : SlotOutcome}
    (hslot : s.slot.replaceWhenWith (slotMaxTracks c.maxTracks) item.trackKey item
      shouldReplacePendingVideo = some (slot, outcome)) {producer : Producer}
    (hproducer : OfferedBy outcome item producer) (hout : ∀ old, outcome ≠ .replaced old) :
    AllLinked trackOf { s with
      slot := slot, log := .enqueued item.tag :: s.log, producer := producer } := by
  intro k id hthreat p hlast
  rcases h.offer hinj hstreams hledger hp hslot hproducer hthreat hlast with
    hkept | hguard | ⟨_, _, q, _, hrep, _⟩
  · exact .inl hkept
  · exact .inr hguard
  · exact absurd hrep (hout _)

/-- A keyframe replaces the pending frame: no delta depends on the lost frame. -/
theorem AllLinked.offerKeyframe (hinj : Function.Injective trackOf) (h : AllLinked trackOf s)
    (hstreams : Streams trackOf c s) (hledger : Ledger s) {item old : VideoOutbound}
    (hp : s.producer = .offering item) {slot : TrackLatestState}
    (hslot : s.slot.replaceWhenWith (slotMaxTracks c.maxTracks) item.trackKey item
      shouldReplacePendingVideo = some (slot, .replaced old)) (hkey : item.isKeyframe = true) :
    AllLinked trackOf { s with
      slot := slot, log := .enqueued item.tag :: s.log, producer := .idle } := by
  intro k id hthreat p hlast
  have hproducer : OfferedBy (.replaced old) item .idle := rfl
  rcases h.offer hinj hstreams hledger hp hslot hproducer hthreat hlast with
    hkept | hguard | ⟨hk, hnot, q, hq, _, hqp⟩
  · exact .inl hkept
  · exact .inr hguard
  · exfalso
    obtain ⟨_, _, hlt⟩ := lastEnqueued_mem hlast
    have hpid : q.value.metadata.frameId = p.frameId := by rw [← hqp]; rfl
    cases hthreat with
    | writer hd _ =>
        have := hledger.held_lt_pending (Writer.held_of_unchecked hd) hq
        omega
    | pending hpend hdelta =>
        obtain ⟨r, hr, hval⟩ := pending_self_of_offer hslot (by simp)
        change slot.pending.get? _ = _ at hpend
        rw [hk, hr] at hpend
        cases hpend
        rw [hval, hkey] at hdelta
        cases hdelta
    | offering hoff _ _ _ => cases hoff
    | next hle _ _ => exact hnot ((hledger.offering_lt item hp).trans_le hle)

/-- The producer's own stream has no newer one in recovery. -/
theorem Streams.newerStream_producer (h : Streams trackOf c s) {item : VideoOutbound}
    {src : VideoStreamKey} (hitem : item ∈ s.producer.held) (hsrc : item.tag.source = some src) :
    s.recovery.newerStream src = false := by
  cases hnewer : s.recovery.newerStream src with
  | false => rfl
  | true =>
      obtain ⟨f, new, hf, hfs, hdisplay, hlt⟩ := h.newer_enqueued hnewer
      obtain ⟨src', hsrc', _, halive⟩ := h.producer_owned item hitem
      rw [hsrc] at hsrc'
      cases hsrc'
      have := halive f new hf hfs hdisplay
      omega

/-- What the guard on the producer's losses gives. -/
theorem Streams.spared (hinj : Function.Injective trackOf) (h : Streams trackOf c s)
    (hledger : Ledger s) {item : VideoOutbound} {src : VideoStreamKey}
    (hsrc : item.tag.source = some src) (hspared : Spared s item) (d : VideoOutbound)
    (hd : d ∈ s.writer.unchecked) (hdelta : d.isKeyframe = false)
    (hawait : s.recovery.awaiting d.trackKey = true) (old : VideoStreamKey)
    (hdk : d.trackKey = trackOf old) (hdisplay : src.display = old.display) :
    ¬ old.streamId < src.streamId := by
  obtain ⟨src', hds, hkey⟩ :=
    h.owned _ (hledger.held_enqueued d (Writer.held_of_unchecked hd))
  have heq : src' = old := hinj (hkey.symm.trans hdk)
  subst heq
  have := (hspared src hsrc).1 d hd hdelta hawait src' hds hdisplay.symm
  omega

/-- A delta replaces the pending frame and is recorded as a loss. -/
theorem AllLinked.offerDelta (hinj : Function.Injective trackOf) (h : AllLinked trackOf s)
    (hstreams : Streams trackOf c s) (hledger : Ledger s) {item old : VideoOutbound}
    (hp : s.producer = .offering item) {slot : TrackLatestState}
    (hslot : s.slot.replaceWhenWith (slotMaxTracks c.maxTracks) item.trackKey item
      shouldReplacePendingVideo = some (slot, .replaced old)) (hspared : Spared s item)
    (hledger' : Ledger { s with
      slot := slot, log := .enqueued item.tag :: s.log, producer := .idle }) :
    AllLinked trackOf (enter c { s with
      slot := slot, log := .enqueued item.tag :: s.log, producer := .idle } item) := by
  have hheld : item ∈ s.producer.held := by rw [hp]; exact List.mem_cons_self
  obtain ⟨src, hsrc, hkey, _⟩ := hstreams.producer_owned item hheld
  have hproducer : OfferedBy (.replaced old) item .idle := rfl
  have hstreams' := hstreams.offer hp hslot hproducer.cases
  intro k id hthreat
  refine hstreams'.linked_enter hinj hledger' List.mem_cons_self hsrc hkey ?_
    (hstreams.spared hinj hledger hsrc hspared) ?_ hthreat
  · intro k id hthreat p hlast
    rcases h.offer hinj hstreams hledger hp hslot hproducer hthreat hlast with
      hkept | hguard | ⟨hk, _, q, hq, _, hqp⟩
    · exact .inl hkept
    · exact .inr (.inl hguard)
    · refine .inr (.inr ⟨hk, ?_⟩)
      rw [← hqp]
      exact le_of_lt (hledger.offering_new item hp _ (hledger.pending_enqueued k q hq))
  · intro hnewer
    rw [hstreams.newerStream_producer hheld hsrc] at hnewer
    cases hnewer

/-- The loss of a refused frame is recorded. -/
theorem AllLinked.recordRefused (hinj : Function.Injective trackOf) (h : AllLinked trackOf s)
    (hstreams : Streams trackOf c s) (hledger : Ledger s) {item : VideoOutbound}
    (hp : s.producer = .refused item) (hspared : Spared s item)
    (hstreams' : Streams trackOf c { s with producer := .idle })
    (hledger' : Ledger { s with producer := .idle }) :
    AllLinked trackOf (enter c { s with producer := .idle } item) := by
  have hheld : item ∈ s.producer.held := by rw [hp]; exact List.mem_cons_self
  have hitem := hledger.refused_enqueued item hp
  obtain ⟨src, hsrc, hkey, _⟩ := hstreams.producer_owned item hheld
  intro k id hthreat
  refine hstreams'.linked_enter hinj hledger' hitem hsrc hkey ?_
    (hstreams.spared hinj hledger hsrc hspared) ?_ hthreat
  · intro k id hthreat p hlast
    have hold : Threat trackOf s k id := by
      cases hthreat with
      | writer hd hdelta => exact .writer hd hdelta
      | pending hpend hdelta => exact .pending hpend hdelta
      | offering hoff _ _ _ => cases hoff
      | next hle halive hd => exact .next hle halive hd
    rcases h k id hold p hlast with hkept | hguard
    · rcases hkept with hf | hw | hpend | ⟨x, hx, hxp⟩
      · exact .inl (.inl hf)
      · exact .inl (.inr (.inl hw))
      · exact .inl (.inr (.inr (.inl hpend)))
      · rw [hp, Producer.held, List.mem_singleton] at hx
        subst hx
        obtain ⟨_, hpk, _⟩ := lastEnqueued_mem hlast
        refine .inr (.inr ⟨?_, ?_⟩)
        · rw [← hpk, ← hxp]
          rfl
        · rw [← hxp]
          exact le_refl _
    · exact .inr (.inl hguard)
  · intro hnewer
    have hnone := hstreams.newerStream_producer hheld hsrc
    change s.recovery.newerStream src = true at hnewer
    rw [hnone] at hnewer
    cases hnewer

/-- The writer gives up a frame and records the loss. -/
theorem AllLinked.recordHeld (hinj : Function.Injective trackOf) (h : AllLinked trackOf s)
    (hstreams : Streams trackOf c s) (hledger : Ledger s) {writer : Writer} {lost : VideoOutbound}
    (hlost : lost ∈ s.writer.held)
    (hheld : ∀ x ∈ s.writer.held, x ∈ writer.held ∨
      (x.trackKey = lost.trackKey ∧ x.metadata.frameId ≤ lost.metadata.frameId))
    (hunchecked : ∀ d ∈ writer.unchecked, d.isKeyframe = false → d = lost)
    (hnewer : ∀ src, lost.tag.source = some src → s.recovery.newerStream src = true →
      ∀ d ∈ writer.unchecked, d.isKeyframe = true)
    (hstreams' : Streams trackOf c { s with writer := writer })
    (hledger' : Ledger { s with writer := writer }) :
    AllLinked trackOf (enter c { s with writer := writer } lost) := by
  have hitem := hledger.held_enqueued lost hlost
  obtain ⟨src, hsrc, hkey⟩ := hstreams.owned _ hitem
  intro k id hthreat
  refine hstreams'.linked_enter hinj hledger' hitem hsrc hkey ?_ ?_ ?_ hthreat
  · intro k id hthreat p hlast
    obtain ⟨_, hpk, hlt⟩ := lastEnqueued_mem hlast
    by_cases hwriter : ∃ d ∈ writer.unchecked, d.isKeyframe = false ∧ d.trackKey = k ∧
        d.metadata.frameId = id
    · -- the delta that the writer keeps is the one recorded
      obtain ⟨d, hd, hdelta, rfl, rfl⟩ := hwriter
      rw [hunchecked d hd hdelta] at hlt ⊢
      exact .inr (.inr ⟨rfl, le_of_lt hlt⟩)
    · have hold : Threat trackOf s k id := by
        cases hthreat with
        | @writer d hd hdelta => exact absurd ⟨d, hd, hdelta, rfl, rfl⟩ hwriter
        | pending hpend hdelta => exact .pending hpend hdelta
        | offering hoff hdelta hds hd => exact .offering hoff hdelta hds hd
        | next hle halive hd => exact .next hle halive hd
      rcases h k id hold p hlast with hkept | hguard
      · rcases hkept with hf | ⟨x, hx, hxp⟩ | hpend | hprod
        · exact .inl (.inl hf)
        · rcases hheld x hx with hx' | ⟨hxk, hle⟩
          · exact .inl (.inr (.inl ⟨x, hx', hxp⟩))
          · refine .inr (.inr ⟨?_, ?_⟩)
            · rw [← hpk, ← hxp]
              exact hxk
            · rw [← hxp]
              exact hle
        · exact .inl (.inr (.inr (.inl hpend)))
        · exact .inl (.inr (.inr (.inr hprod)))
      · exact .inr (.inl hguard)
  · intro d hd hdelta _ old hdk _ hlt
    rw [hunchecked d hd hdelta] at hdk
    have heq : src = old := hinj (hkey.symm.trans hdk)
    rw [heq] at hlt
    exact absurd hlt (lt_irrefl _)
  · intro hnew d hd hdelta
    have := hnewer src hsrc hnew d hd
    rw [hdelta] at this
    cases this

end Sender

end HbbCommon.Transport
