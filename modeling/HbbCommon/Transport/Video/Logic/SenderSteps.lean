import HbbCommon.Transport.Video.Sender

/-!
# What one step of the sender does

`Steps c s a t` lists every transition of the sender, branch by branch, with the
state it leaves. `steps_of_step` is the only place where the step function is
unfolded; every invariant of the sender is a case analysis on `Steps`.
-/

namespace HbbCommon.Transport

open HbbCommon.Base

/-- An entry of a log that is not among the new ones was there before. -/
theorem split_of_append {α : Type*} {new log post pre : List α} {e : α} (hnew : e ∉ new)
    (h : new ++ log = post ++ e :: pre) : ∃ post', log = post' ++ e :: pre := by
  induction new generalizing post with
  | nil => exact ⟨post, h⟩
  | cons e' rest ih =>
      cases post with
      | nil => exact absurd ((List.cons.inj h).1 ▸ List.mem_cons_self) hnew
      | cons _ post' =>
          exact ih (fun hmem => hnew (List.mem_cons_of_mem _ hmem)) (List.cons.inj h).2

/-- The frame that `enqueue_with_latest_key` builds in state `s`. -/
structure Stamped (s : Sender) (latestKey : Option Nat) (frame : VideoFrame)
    (item : VideoOutbound) : Prop where
  trackKey : item.trackKey = .resolve latestKey item.sourceInfo
  frameId : item.metadata.frameId = s.nextTransportFrameId
  sourceInfo : item.sourceInfo = videoSourceInfo frame
  sourced : ∃ info, item.sourceInfo = some info ∧ info.keyframe = item.isKeyframe
  orderingEpoch : item.orderingEpoch = s.gate.requestedEpoch

namespace Sender

inductive Steps (c : SenderConfig) (s : Sender) : SenderAction → Sender → Prop
  | orderQueued : s.producer = .idle →
      Steps c s (.order true) { s with
        gate := { s.gate with requestedEpoch := s.gate.requestedEpoch + 1 }
        log := .ordered (s.gate.requestedEpoch + 1) :: s.log }
  | orderRefused : s.producer = .idle →
      Steps c s (.order false) { s with
        gate :=
          { requestedEpoch := s.gate.requestedEpoch + 1
            acknowledgedEpoch := max s.gate.acknowledgedEpoch (s.gate.requestedEpoch + 1) } }
  | enqueueSuppressed {latestKey frame payload item track} : s.producer = .idle →
      Stamped s latestKey frame item → item.isKeyframe = false →
      s.recovery.tracks.get? item.trackKey = some track → track.awaitingKeyframe = true →
      Steps c s (.enqueue latestKey frame payload) { s with
        nextTransportFrameId := s.nextTransportFrameId + 1
        recovery :=
          { tracks := s.recovery.tracks.insert item.trackKey { track with
              minimumKeyframeId := max track.minimumKeyframeId item.metadata.frameId } }
        log := .enqueued item.tag :: s.log }
  | enqueueOffering {latestKey frame payload item} : s.producer = .idle →
      Stamped s latestKey frame item →
      (item.isKeyframe = false → s.recovery.awaiting item.trackKey = false) →
      Steps c s (.enqueue latestKey frame payload) { s with
        nextTransportFrameId := s.nextTransportFrameId + 1
        producer := .offering item }
  | offerRefused {item slot} : s.producer = .offering item →
      s.slot.replaceWhenWith (slotMaxTracks c.maxTracks) item.trackKey item
        shouldReplacePendingVideo = some (slot, .refused) →
      Steps c s .offer { s with
        slot := slot, log := .enqueued item.tag :: s.log, producer := .refused item }
  | offerInserted {item slot} : s.producer = .offering item →
      s.slot.replaceWhenWith (slotMaxTracks c.maxTracks) item.trackKey item
        shouldReplacePendingVideo = some (slot, .inserted) →
      Steps c s .offer { s with
        slot := slot, log := .enqueued item.tag :: s.log, producer := .idle }
  | offerReplacedKeyframe {item slot old} : s.producer = .offering item →
      s.slot.replaceWhenWith (slotMaxTracks c.maxTracks) item.trackKey item
        shouldReplacePendingVideo = some (slot, .replaced old) →
      item.isKeyframe = true →
      Steps c s .offer { s with
        slot := slot, log := .enqueued item.tag :: s.log, producer := .idle }
  | offerReplacedDelta {item slot old} : s.producer = .offering item →
      s.slot.replaceWhenWith (slotMaxTracks c.maxTracks) item.trackKey item
        shouldReplacePendingVideo = some (slot, .replaced old) →
      item.isKeyframe = false →
      Steps c s .offer (enter c { s with
        slot := slot, log := .enqueued item.tag :: s.log, producer := .idle } item)
  | recordRefused {item} : s.producer = .refused item →
      Steps c s .recordRefused (enter c { s with producer := .idle } item)
  | take {item slot} : s.writer = .idle → s.slot.take = some (slot, some item) →
      Steps c s (.take false) { s with slot := slot, writer := .gated item }
  | takeClosing {item slot} : s.writer = .idle → s.slot.take = some (slot, some item) →
      Steps c s (.take true) { s with
        slot := slot, writer := .stopped, gate := s.gate.cancelEpoch item.orderingEpoch }
  | gateOpen {item} : s.writer = .gated item →
      item.orderingEpoch ≤ s.gate.acknowledgedEpoch →
      Steps c s .gate { s with writer := .passed item, log := .passed item :: s.log }
  | gateShut {item} : s.writer = .gated item →
      Steps c s .gate { s with writer := .waiting item }
  | wake {item} : s.writer = .waiting item →
      Steps c s .wake { s with writer := .gated item }
  | takeTrack {item newer slot} : s.writer = .waiting item →
      s.slot.takeTrack item.trackKey = some (slot, some newer) →
      Steps c s .takeTrack { s with slot := slot, writer := .merging item newer }
  | mergeKeyframe {item newer} : s.writer = .merging item newer →
      shouldReplacePendingVideo item newer = true → newer.isKeyframe = true →
      Steps c s .merge { s with writer := .gated newer }
  | mergeDelta {item newer} : s.writer = .merging item newer →
      shouldReplacePendingVideo item newer = true → newer.isKeyframe = false →
      Steps c s .merge (enter c { s with writer := .gated newer } newer)
  | mergeDiscarded {item newer} : s.writer = .merging item newer →
      shouldReplacePendingVideo item newer = false →
      Steps c s .merge (enter c { s with writer := .gated item } newer)
  | checkSuppressed {item track} : s.writer = .passed item → item.isKeyframe = false →
      s.recovery.tracks.get? item.trackKey = some track → track.awaitingKeyframe = true →
      Steps c s .check { s with
        recovery :=
          { tracks := s.recovery.tracks.insert item.trackKey { track with
              minimumKeyframeId := max track.minimumKeyframeId item.metadata.frameId } }
        writer := .idle }
  | checkSending {item} : s.writer = .passed item →
      (item.isKeyframe = false → s.recovery.awaiting item.trackKey = false) →
      Steps c s .check { s with
        referenceEpochs :=
          (applyVideoReferenceEpoch item s.referenceEpochs c.keyframeBarrier).2.1
        writer :=
          .sending (applyVideoReferenceEpoch item s.referenceEpochs c.keyframeBarrier).1 }
  | sendKeyframe {item} : s.writer = .sending item → item.isKeyframe = true →
      Steps c s (.send .sent) { s with
        writer := .sent item, log := .handed item.tag :: s.log }
  | sendDelta {item} : s.writer = .sending item → item.isKeyframe = false →
      Steps c s (.send .sent) { s with
        writer := .idle, log := .handed item.tag :: s.log }
  | sendNoSpace {item} : s.writer = .sending item →
      Steps c s (.send .rejectedNoSpace) { s with writer := .rejected item }
  | sendClosing {item} : s.writer = .sending item →
      Steps c s (.send .rejectedClosing) { s with
        writer := .stopped, gate := s.gate.cancelEpoch item.orderingEpoch }
  | sendFailed {item} : s.writer = .sending item →
      Steps c s (.send .failed) { s with writer := .stopped }
  | recordRejected {item} : s.writer = .rejected item →
      Steps c s .recordRejected (enter c { s with writer := .idle } item)
  | keyframeSent {item} : s.writer = .sent item →
      Steps c s .keyframeSent { s with
        recovery := s.recovery.keyframeSent item.trackKey item.metadata.frameId
        writer := .idle }
  | closeIdle : s.writer = .idle → Steps c s .close { s with writer := .stopped }
  | closeWaiting {item} : s.writer = .waiting item →
      Steps c s .close { s with
        writer := .stopped, gate := s.gate.cancelEpoch item.orderingEpoch }
  | peerReceive {epoch} : .ordered epoch ∈ s.log →
      Steps c s (.peerReceive epoch) { s with log := .received epoch :: s.log }
  | peerAcknowledge {epoch} : .received epoch ∈ s.log → epoch ≤ s.gate.requestedEpoch →
      Steps c s (.peerAcknowledge epoch) { s with
        gate := s.gate.acknowledge epoch, log := .acknowledged epoch :: s.log }

end Sender

namespace VideoSendRecoveryState

/-- What `suppress_delta` finds. -/
theorem suppressDelta_cases (r : VideoSendRecoveryState) (key : VideoOutboundTrackKey)
    (frameId : Nat) :
    (r.awaiting key = false ∧ r.suppressDelta key frameId = (r, false)) ∨
    ∃ track, r.tracks.get? key = some track ∧ track.awaitingKeyframe = true ∧
      r.suppressDelta key frameId =
        ({ tracks := r.tracks.insert key { track with
            minimumKeyframeId := max track.minimumKeyframeId frameId } }, true) := by
  unfold awaiting suppressDelta
  cases hget : r.tracks.get? key with
  | none => exact .inl ⟨rfl, rfl⟩
  | some track =>
      cases hawait : track.awaitingKeyframe with
      | false => exact .inl ⟨by simp [hawait], by simp [hawait]⟩
      | true => exact .inr ⟨track, rfl, hawait, by simp [hawait]⟩

/-- The state of a track after a recorded loss. -/
def lossState (r : VideoSendRecoveryState) (key : VideoOutboundTrackKey)
    (source : Option VideoStreamKey) (frameId : Nat) : VideoSendTrackRecoveryState :=
  { awaitingKeyframe := true
    minimumKeyframeId :=
      max ((r.tracks.get? key).elim 0 (fun track => track.minimumKeyframeId)) frameId
    source := source }

theorem keeps_self (key : VideoOutboundTrackKey) (source : Option VideoStreamKey)
    (track : VideoSendTrackRecoveryState) : keeps key source key track = true := by
  simp [keeps]

/-- What `enter` does: nothing, or it binds the track of the loss and drops the
other tracks of its display. -/
theorem enter_cases (r : VideoSendRecoveryState) (refreshScoped : Bool) (key : VideoOutboundTrackKey)
    (info : Option VideoSourceInfo) (frameId : Nat) :
    (r.ignores (info.map (fun info => info.key)) = true ∧
      r.enter refreshScoped key info frameId = (r, none)) ∨
    (r.ignores (info.map (fun info => info.key)) = false ∧
      (∀ k, (r.enter refreshScoped key info frameId).1.tracks.get? k =
        if k = key then some (r.lossState key (info.map (fun info => info.key)) frameId)
        else (r.tracks.get? k).filter (keeps key (info.map (fun info => info.key)) k)) ∧
      (r.enter refreshScoped key info frameId).2 =
        if r.awaiting key then none else lossRefresh refreshScoped info) := by
  have hown : (r.tracks.filter (keeps key (info.map (fun info => info.key)))).get? key =
      r.tracks.get? key := by
    cases hget : r.tracks.get? key with
    | none => simp [hget]
    | some track => simp [hget, keeps_self]
  cases hign : r.ignores (info.map (fun info => info.key)) with
  | true => exact .inl ⟨rfl, by simp only [enter, hign, if_true]⟩
  | false =>
      refine .inr ⟨rfl, ?_, ?_⟩
      · intro k
        simp only [enter, hign, Bool.false_eq_true, if_false, hown, OrdMap.get?_insert,
          OrdMap.get?_filter]
        cases hget : r.tracks.get? key with
        | none => simp [lossState, hget]
        | some track => simp [lossState, hget]
      · have hflag : ((r.tracks.get? key).getD
            ⟨false, 0, info.map (fun info => info.key)⟩).awaitingKeyframe = r.awaiting key := by
          unfold awaiting
          cases r.tracks.get? key <;> rfl
        simp only [enter, hign, Bool.false_eq_true, if_false, hown, hflag]

/-- A recorded loss is of a display in the table, and no newer stream of that
display is in recovery. -/
theorem ignores_eq_false {r : VideoSendRecoveryState} {source : VideoStreamKey}
    (h : r.ignores (some source) = false) :
    (∃ d, displayIndex source.display = some d) ∧ r.newerStream source = false := by
  simp only [ignores, Option.any_some, Bool.or_eq_false_iff, Option.isNone_eq_false_iff] at h
  exact ⟨Option.isSome_iff_exists.mp h.1, h.2⟩

theorem newerStream_iff {r : VideoSendRecoveryState} {source : VideoStreamKey} :
    r.newerStream source = true ↔ ∃ k track old, r.tracks.get? k = some track ∧
      track.source = some old ∧ old.display = source.display ∧ source.streamId < old.streamId := by
  unfold newerStream
  rw [List.any_eq_true]
  constructor
  · rintro ⟨⟨k, track⟩, hmem, hany⟩
    obtain ⟨old, hold, hcond⟩ := (Option.any_eq_true _ _).mp hany
    simp only [Bool.and_eq_true, decide_eq_true_eq] at hcond
    exact ⟨k, track, old, OrdMap.mem_entries_iff.mp hmem, hold, hcond.1, hcond.2⟩
  · rintro ⟨k, track, old, hget, hold, hdisplay, hlt⟩
    refine ⟨(k, track), OrdMap.mem_entries_iff.mpr hget, ?_⟩
    simp [hold, hdisplay, hlt]

end VideoSendRecoveryState

namespace Sender

variable {c : SenderConfig} {s t : Sender}

/-- Recording a loss adds at most a refresh to the log. -/
theorem enter_log (s : Sender) (item : VideoOutbound) :
    ∃ new, (s.enter c item).log = new ++ s.log ∧
      ∀ e ∈ new, ∃ refresh, e = .refresh refresh := by
  refine ⟨_, rfl, ?_⟩
  intro e he
  obtain ⟨refresh, _, rfl⟩ := List.mem_map.mp he
  exact ⟨refresh, rfl⟩

theorem steps_of_order {accepted : Bool} (h : s.order accepted = some t) :
    Steps c s (.order accepted) t := by
  unfold order VideoOrderingGate.nextEpoch at h
  split at h
  · rename_i hp
    split at h
    · cases accepted with
      | true => cases h; exact .orderQueued hp
      | false => cases h; exact .orderRefused hp
    · cases h
  · cases h

theorem steps_of_enqueue {latestKey : Option Nat} {frame : VideoFrame} {payload : Bytes}
    (h : s.enqueue latestKey frame payload = some t) :
    Steps c s (.enqueue latestKey frame payload) t := by
  unfold enqueue at h
  split at h
  · rename_i hp
    obtain ⟨metadata, hmeta, h⟩ := Option.bind_eq_some_iff.mp h
    split at h
    · have hstamped : Stamped s latestKey frame
          { trackKey := .resolve latestKey (videoSourceInfo frame)
            metadata := { metadata with frameId := s.nextTransportFrameId }
            sourceInfo := videoSourceInfo frame
            payload := payload
            orderingEpoch := s.gate.currentEpoch } :=
        ⟨rfl, rfl, rfl, ⟨_, videoSourceInfo_of_metadata hmeta, rfl⟩, rfl⟩
      rcases s.recovery.suppressDelta_cases (.resolve latestKey (videoSourceInfo frame))
        s.nextTransportFrameId with ⟨hopen, hsup⟩ | ⟨track, htrack, hawait, hsup⟩
      · simp only [hsup, Bool.and_false, Bool.false_eq_true, if_false] at h
        cases h
        exact .enqueueOffering hp hstamped (fun _ => hopen)
      · simp only [hsup, Bool.and_true] at h
        split at h
        · rename_i hdelta
          cases h
          exact .enqueueSuppressed hp hstamped (by simpa using hdelta) htrack hawait
        · rename_i hkey
          cases h
          refine .enqueueOffering hp hstamped ?_
          intro hdelta
          exact absurd (by simpa using hdelta) hkey
    · cases h
  · cases h

theorem steps_of_offer (h : s.offer c = some t) : Steps c s .offer t := by
  unfold offer at h
  split at h
  · rename_i item hp
    obtain ⟨⟨slot, outcome⟩, hslot, h⟩ := Option.bind_eq_some_iff.mp h
    cases outcome with
    | refused => cases h; exact .offerRefused hp hslot
    | inserted => cases h; exact .offerInserted hp hslot
    | replaced old =>
        simp only at h
        split at h
        · rename_i hkey
          cases h
          exact .offerReplacedKeyframe hp hslot hkey
        · rename_i hkey
          cases h
          exact .offerReplacedDelta hp hslot (by simpa using hkey)
  · cases h

theorem steps_of_take {closing : Bool} (h : s.take closing = some t) :
    Steps c s (.take closing) t := by
  unfold take at h
  split at h
  · rename_i hw
    obtain ⟨⟨slot, got⟩, hslot, h⟩ := Option.bind_eq_some_iff.mp h
    obtain ⟨item, hgot, h⟩ := Option.bind_eq_some_iff.mp h
    subst hgot
    cases closing with
    | true => cases h; exact .takeClosing hw hslot
    | false => cases h; exact .take hw hslot
  · cases h

theorem steps_of_takeTrack (h : s.takeTrack = some t) : Steps c s .takeTrack t := by
  unfold takeTrack at h
  split at h
  · rename_i item hw
    obtain ⟨⟨slot, got⟩, hslot, h⟩ := Option.bind_eq_some_iff.mp h
    obtain ⟨newer, hgot, h⟩ := Option.bind_eq_some_iff.mp h
    subst hgot
    cases h
    exact .takeTrack hw hslot
  · cases h

theorem steps_of_merge (h : s.merge c = some t) : Steps c s .merge t := by
  unfold merge at h
  split at h
  · rename_i item newer hw
    split at h
    · rename_i hrep
      split at h
      · rename_i hkey
        cases h
        exact .mergeKeyframe hw hrep hkey
      · rename_i hkey
        cases h
        exact .mergeDelta hw hrep (by simpa using hkey)
    · rename_i hrep
      cases h
      exact .mergeDiscarded hw (by simpa using hrep)
  · cases h

theorem steps_of_check (h : s.check c = some t) : Steps c s .check t := by
  unfold check at h
  split at h
  · rename_i item hw
    rcases s.recovery.suppressDelta_cases item.trackKey item.metadata.frameId with
      ⟨hopen, hsup⟩ | ⟨track, htrack, hawait, hsup⟩
    · simp only [hsup, Bool.and_false, Bool.false_eq_true, if_false] at h
      cases h
      exact .checkSending hw (fun _ => hopen)
    · simp only [hsup, Bool.and_true] at h
      split at h
      · rename_i hdelta
        cases h
        exact .checkSuppressed hw (by simpa using hdelta) htrack hawait
      · rename_i hkey
        cases h
        refine .checkSending hw ?_
        intro hdelta
        exact absurd (by simpa using hdelta) hkey
  · cases h

theorem steps_of_send {outcome : SendOutcome} (h : s.send c outcome = some t) :
    Steps c s (.send outcome) t := by
  unfold send at h
  split at h
  · rename_i item hw
    cases outcome with
    | sent =>
        cases hkey : item.isKeyframe with
        | true => simp only [hkey, if_true] at h; cases h; exact .sendKeyframe hw hkey
        | false =>
            simp only [hkey, Bool.false_eq_true, if_false] at h
            cases h
            exact .sendDelta hw hkey
    | rejectedNoSpace =>
        simp only at h
        split at h
        · cases h
        · cases h; exact .sendNoSpace hw
    | rejectedClosing =>
        simp only at h
        split at h
        · cases h
        · cases h; exact .sendClosing hw
    | failed => cases h; exact .sendFailed hw
  · cases h

/-- Every transition of the system is one of `Steps`. -/
theorem steps_of_step {a : SenderAction} (h : (system c).step s a = some t) :
    Steps c s a t := by
  change s.step c a = some t at h
  cases a with
  | order accepted => exact steps_of_order h
  | enqueue latestKey frame payload => exact steps_of_enqueue h
  | offer => exact steps_of_offer h
  | take closing => exact steps_of_take h
  | takeTrack => exact steps_of_takeTrack h
  | merge => exact steps_of_merge h
  | check => exact steps_of_check h
  | send outcome => exact steps_of_send h
  | recordRefused =>
      change s.recordRefused c = some t at h
      unfold Sender.recordRefused at h
      split at h
      · rename_i item hp
        cases h
        exact .recordRefused hp
      · cases h
  | gate =>
      change s.checkGate = some t at h
      unfold checkGate at h
      split at h
      · rename_i item hw
        split at h
        · rename_i hopen
          cases h
          exact .gateOpen hw (by simpa [VideoOrderingGate.isOpen] using hopen)
        · cases h
          exact .gateShut hw
      · cases h
  | wake =>
      change s.wake = some t at h
      unfold Sender.wake at h
      split at h
      · rename_i item hw
        cases h
        exact .wake hw
      · cases h
  | recordRejected =>
      change s.recordRejected c = some t at h
      unfold Sender.recordRejected at h
      split at h
      · rename_i item hw
        cases h
        exact .recordRejected hw
      · cases h
  | keyframeSent =>
      change s.keyframeSent = some t at h
      unfold Sender.keyframeSent at h
      split at h
      · rename_i item hw
        cases h
        exact .keyframeSent hw
      · cases h
  | close =>
      change s.close = some t at h
      unfold Sender.close at h
      split at h
      · rename_i hw
        cases h
        exact .closeIdle hw
      · rename_i item hw
        cases h
        exact .closeWaiting hw
      · cases h
  | peerReceive epoch =>
      change s.peerReceive epoch = some t at h
      unfold Sender.peerReceive at h
      split at h
      · rename_i hmem
        cases h
        exact .peerReceive hmem
      · cases h
  | peerAcknowledge epoch =>
      change s.peerAcknowledge epoch = some t at h
      unfold Sender.peerAcknowledge at h
      split at h
      · rename_i hmem
        cases h
        exact .peerAcknowledge hmem.1 hmem.2.2
      · cases h

end Sender

end HbbCommon.Transport
