import HbbCommon.Transport.Video.Logic.HoldbackRun

/-!
# Streams do not disturb each other

The stream table holds `maxVideoEpochStreamStates` streams and evicts the least
recently active one. While no more streams than that are in use, one per
display, the table never evicts: the epoch of a stream is always the id of its
latest keyframe (`Remembers`). The next delta in sequence is then released on
arrival, whatever the other streams do, unless the gap before a later delta of
the stream has already outlasted the reorder window.

With one display more than the table holds, the next delta in sequence can find
its stream forgotten; it is then held.
-/

namespace HbbCommon.Transport

open HbbCommon.Base
open HoldbackEvent

namespace VideoEpochStreamState

variable {st st' : VideoEpochStreamState} {now reorderWindow : Time}

/-- The next frame in sequence is not waiting. -/
def Quiet (st : VideoEpochStreamState) : Prop :=
  st.currentEpoch ≠ 0 → st.nextFrameId ≠ 0 → st.pending.get? st.nextKey = none

theorem quiet_of_drains {d d' : Drained} (hdrain : st.Drains now reorderWindow d st' d') :
    st'.Quiet := by
  induction hdrain with
  | @stop st st' d hturn =>
      intro hepoch hnext
      rcases drainTurn_stop hturn with ⟨hzero, rfl⟩ | ⟨_, hnone, ⟨_, rfl⟩ | ⟨_, rfl⟩⟩
      · exact absurd hzero (not_or.mpr ⟨hepoch, hnext⟩)
      · exact hnone
      · exact hnone
  | skip _ _ ih => exact ih
  | release _ _ ih => exact ih

theorem quiet_drainReady (st : VideoEpochStreamState) (now reorderWindow : Time) :
    (st.drainReady now reorderWindow).1.Quiet :=
  quiet_of_drains (st.drainReady_drains now reorderWindow)

theorem Quiet.dropPending (h : st.Quiet) (p : FrameKey → HeldVideoFrame → Bool) :
    (st.dropPending p).Quiet := by
  intro hepoch hnext
  have hnone := h hepoch hnext
  cases hget : (st.dropPending p).pending.get? (st.dropPending p).nextKey with
  | none => rfl
  | some f =>
      have hkept := (OrdMap.get?_filter_eq_some.mp hget).1
      exact absurd (hkept.symm.trans hnone) (by simp)

/-- A drain that has nothing to release and no gap to skip changes at most the
gap clock. -/
theorem drainReady_idle (hnone : st.pending.get? st.nextKey = none)
    (hgap : st.nextAvailable = none ∨ now - st.gapStartedAt.getD now < reorderWindow) :
    ∃ gap, st.drainReady now reorderWindow = ({ st with gapStartedAt := gap }, .none) ∧
      (gap = none ∨ gap = st.gapStartedAt ∨ gap = some now) := by
  have hloop : ∀ st', st.drainTurn now reorderWindow = .stop st' →
      st.drainReady now reorderWindow = (st', .none) := by
    intro st' hturn
    show drainLoop now reorderWindow (2 * st.pending.size + 1 + 1) st .none = _
    rw [drainLoop, hturn]
  rcases st.drainTurn_cases now reorderWindow with
    ⟨_, ht⟩ | ⟨_, _, ⟨_, hget, _⟩ | ⟨_, _, ht⟩ | ⟨_, _, _, _, ht⟩ | ⟨_, _, havail, hlate, _⟩⟩
  · exact ⟨st.gapStartedAt, hloop _ ht, .inr (.inl rfl)⟩
  · rw [hnone] at hget
    cases hget
  · exact ⟨none, hloop _ ht, .inl rfl⟩
  · refine ⟨_, hloop _ ht, ?_⟩
    cases st.gapStartedAt with
    | none => exact .inr (.inr rfl)
    | some t => exact .inr (.inl rfl)
  · rcases hgap with hgap | hgap
    · rw [hgap] at havail
      cases havail
    · exact absurd hgap hlate

end VideoEpochStreamState

namespace VideoEpochHoldback

variable {h : VideoEpochHoldback} {ev : List HoldbackEvent} {keys : List VideoStreamKey}
  {key : VideoStreamKey} {now reorderWindow : Time} {out : VideoHoldbackOutcome}

/-- Streams are quiet between calls. -/
theorem closed_quiet : Closed VideoEpochStreamState.Quiet where
  default h := absurd rfl h
  touch _ _ h := h
  expire st now reorderWindow _ := (st.quiet_drainReady now reorderWindow).dropPending _
  clear _ _ _ _ := rfl
  held _ _ _ _ _ _ _ _ _ := VideoEpochStreamState.quiet_drainReady _ _ _
  opened _ _ _ _ _ := VideoEpochStreamState.quiet_drainReady _ _ _

/-! ## A table that never evicts -/

theorem latestKeyframe_emit (ready : List (VideoSourceInfo × Bytes)) (ev : List HoldbackEvent) :
    latestKeyframe (emit ready ++ ev) = latestKeyframe ev := by
  induction ready using List.reverseRecOn with
  | nil => rfl
  | append_singleton rest x ih =>
      rw [emit_append, emit_singleton, List.append_assoc]
      exact ih

theorem latestKeyframe_eventsOf_emit (k : VideoStreamKey)
    (ready : List (VideoSourceInfo × Bytes)) (ev : List HoldbackEvent) :
    latestKeyframe (eventsOf k (emit ready ++ ev)) = latestKeyframe (eventsOf k ev) := by
  rw [eventsOf_append, eventsOf_emit, latestKeyframe_emit]

theorem drain_epoch (st : VideoEpochStreamState) (now reorderWindow : Time) :
    (st.drainReady now reorderWindow).1.currentEpoch = st.currentEpoch :=
  (drains_frame (st.drainReady_drains now reorderWindow)).epoch_eq

/-- The streams of `keys` are on different displays. -/
def OnePerDisplay (keys : List VideoStreamKey) : Prop :=
  ∀ a ∈ keys, ∀ b ∈ keys, a.display = b.display → a = b

/-- The table holds only streams of `keys`, and none of them was forgotten: the
epoch of each is the id of its latest keyframe. -/
structure Resident (keys : List VideoStreamKey) (h : VideoEpochHoldback)
    (ev : List HoldbackEvent) : Prop where
  only : ∀ k st, h.streams.get? k = some st → k ∈ keys
  epoch : ∀ k, ((h.streams.get? k).getD .default).currentEpoch =
    (latestKeyframe (eventsOf k ev)).getD 0

namespace Resident

/-- A stream of `keys` that is missing from the table leaves room for itself. -/
theorem size_lt (hres : Resident keys h ev) (hkey : key ∈ keys)
    (hnone : h.streams.get? key = none) : h.streams.size < keys.length := by
  have hsub : h.streams.entries.map Prod.fst ⊆ keys.erase key := by
    intro k hk
    obtain ⟨⟨k', st⟩, hmem, rfl⟩ := List.mem_map.mp hk
    have hget := OrdMap.mem_entries_iff.mp hmem
    refine (List.mem_erase_of_ne ?_).mpr (hres.only k' st hget)
    intro heq
    rw [show k' = key from heq, hnone] at hget
    cases hget
  have hle := (List.subperm_of_subset h.streams.keys_nodup hsub).length_le
  rw [List.length_map, List.length_erase_of_mem hkey] at hle
  have hpos := List.length_pos_of_mem hkey
  show h.streams.entries.length < _
  omega

/-- One stream per display: a keyframe retires no other stream. -/
theorem retainStreams_eq (hres : Resident keys h ev) (hdisplays : OnePerDisplay keys)
    (hkey : key ∈ keys) : h.retainStreams key = h := by
  have hstreams : (h.retainStreams key).streams = h.streams := by
    apply OrdMap.ext_get?
    intro k
    cases hget : h.streams.get? k with
    | none => simp [VideoEpochHoldback.retainStreams, hget]
    | some st =>
        refine OrdMap.get?_filter_eq_some.mpr ⟨hget, ?_⟩
        by_cases hk : k = key
        · simp [hk]
        · have hdisplay : k.display ≠ key.display :=
            fun heq => hk (hdisplays k (hres.only k st hget) key hkey heq)
          simp [hdisplay]
  exact congrArg (VideoEpochHoldback.mk · h.activityGeneration) hstreams

/-- Deltas do not move an epoch. -/
theorem emit (hres : Resident keys h ev) (ready : List (VideoSourceInfo × Bytes)) :
    Resident keys h (emit ready ++ ev) :=
  ⟨hres.only, fun k => by rw [latestKeyframe_eventsOf_emit]; exact hres.epoch k⟩

/-- Rewriting a stream without moving its epoch. -/
theorem insert {st : VideoEpochStreamState} {h' : VideoEpochHoldback}
    (hres : Resident keys h ev) (hkey : key ∈ keys) (heq : h'.streams = h.streams.insert key st)
    (hepoch : st.currentEpoch = ((h.streams.get? key).getD .default).currentEpoch) :
    Resident keys h' ev := by
  refine ⟨?_, ?_⟩
  · intro k st' hst'
    rw [heq] at hst'
    obtain ⟨rfl, -⟩ | ⟨-, hst'⟩ := OrdMap.get?_insert_eq_some hst'
    · exact hkey
    · exact hres.only k st' hst'
  · intro k
    rw [← hres.epoch k, heq, OrdMap.get?_insert]
    split
    · rename_i hk
      rw [hk]
      exact hepoch
    · rfl

/-- Editing every stream without moving an epoch. -/
theorem map {f : VideoEpochStreamState → VideoEpochStreamState} {h' : VideoEpochHoldback}
    (hres : Resident keys h ev) (heq : ∀ k, h'.streams.get? k = (h.streams.get? k).map f)
    (hepoch : ∀ st, (f st).currentEpoch = st.currentEpoch) : Resident keys h' ev := by
  refine ⟨?_, ?_⟩
  · intro k st hst
    rw [heq, Option.map_eq_some_iff] at hst
    obtain ⟨st', hst', _⟩ := hst
    exact hres.only k st' hst'
  · intro k
    rw [← hres.epoch k, heq]
    cases h.streams.get? k with
    | none => rfl
    | some st => exact hepoch st

theorem expire (hres : Resident keys h ev) (now reorderWindow : Time) :
    Resident keys (h.expire now reorderWindow).1 ev :=
  hres.map (h.expire_get? now reorderWindow) (fun st => drain_epoch st now reorderWindow)

theorem prepareStream (hres : Resident keys h ev)
    (hlen : keys.length ≤ maxVideoEpochStreamStates) (hkey : key ∈ keys)
    (out : VideoHoldbackOutcome) : Resident keys (h.prepareStream key out).1 ev := by
  have hroom : h.room key = h.streams :=
    room_eq (fun hnone => Nat.lt_of_lt_of_le (hres.size_lt hkey hnone) hlen)
  have heq : (h.prepareStream key out).1.streams = h.streams.insert key (h.prepared key) := by
    rw [prepareStream_streams, hroom]
    rfl
  exact hres.insert hkey heq rfl

theorem admitDelta {info : VideoSourceInfo} (hres : Resident keys h ev)
    (hlen : keys.length ≤ maxVideoEpochStreamStates) (hkey : info.key ∈ keys) (epoch : Nat)
    (payload : Bytes) (now reorderWindow : Time) :
    Resident keys (h.admitDelta info epoch payload now reorderWindow).1 ev := by
  have hexp := hres.expire now reorderWindow
  have hprep := hexp.prepareStream hlen hkey (h.expire now reorderWindow).2
  have hget := prepareStream_get?_self (h.expire now reorderWindow).1 info.key
    (h.expire now reorderWindow).2
  have hcall := (Prod.mk.eta (p := h.admitDelta info epoch payload now reorderWindow)).symm
  rcases admitDelta_cases h info epoch payload now reorderWindow hcall with
    ⟨_, _, heq, _⟩ | ⟨_, _, heq, _⟩ | ⟨_, _, heq, _⟩ | ⟨_, _, heq, _⟩ <;> rw [heq]
  · exact hexp
  · exact hprep
  · rw [holdDelta, clearPending_hold hget]
    exact hprep.map (clearPending_get? _) (fun _ => rfl)
  · rw [setStream_setStream]
    refine hprep.insert hkey rfl ?_
    rw [hget, drain_epoch]
    rfl

theorem acceptKeyframe {info : VideoSourceInfo} (hres : Resident keys h ev)
    (hdisplays : OnePerDisplay keys) (hlen : keys.length ≤ maxVideoEpochStreamStates)
    (hkey : info.key ∈ keys) (payload : Bytes) (now reorderWindow : Time) :
    Resident keys (h.acceptKeyframe info payload now reorderWindow).1
      (.keyframe info payload :: ev) := by
  have hexp := hres.expire now reorderWindow
  rw [acceptKeyframe_fst, hres.retainStreams_eq hdisplays hkey]
  have hprep := hexp.prepareStream hlen hkey (h.expire now reorderWindow).2
  refine ⟨?_, ?_⟩
  · intro k st hst
    rw [setStream_get?] at hst
    split at hst
    · rename_i hk
      rw [hk]
      exact hkey
    · exact hprep.only k st hst
  · intro k
    rw [setStream_get?]
    by_cases hk : k = info.key
    · have hself : eventsOf k (.keyframe info payload :: ev) =
          .keyframe info payload :: eventsOf k ev :=
        List.filter_cons_of_pos (decide_eq_true hk.symm)
      rw [if_pos hk, hself, Option.getD_some, drain_epoch]
      rfl
    · have hother : eventsOf k (.keyframe info payload :: ev) = eventsOf k ev :=
        List.filter_cons_of_neg (fun heq => hk (of_decide_eq_true heq).symm)
      rw [if_neg hk, hother]
      exact hprep.epoch k

end Resident

/-- A delta that its prepared stream expects next is released on arrival. -/
theorem admitDelta_next {info : VideoSourceInfo} {e : Nat} {payload : Bytes} (he : e ≠ 0)
    (hepoch : ((h.expire now reorderWindow).1.prepared info.key).currentEpoch = e)
    (hnext : ((h.expire now reorderWindow).1.prepared info.key).nextFrameId = info.frameId)
    (hid : info.frameId ≠ 0)
    (hnew : ((h.expire now reorderWindow).1.prepared info.key).pending.contains
      (frameKey e info.frameId) = false)
    (hframes : h.frames + 1 ≤ videoEpochHoldbackMaxFrames)
    (hbytes : h.bytes + payload.length ≤ videoEpochHoldbackMaxBytes) :
    (info, payload) ∈ (h.admitDelta info e payload now reorderWindow).2.ready := by
  have hadmits : h.admits info e now reorderWindow = true := by
    refine admits_iff.mpr ⟨he, ?_, hnew⟩
    simp [obsoleteDelta, hepoch, hnext]
  have hcall := (Prod.mk.eta (p := h.admitDelta info e payload now reorderWindow)).symm
  set exp := h.expire now reorderWindow with hexp
  rcases admitDelta_cases h info e payload now reorderWindow hcall with
    ⟨hz, _⟩ | ⟨_, hno, _⟩ | ⟨_, hover, _⟩ | ⟨_, _, _, hready, _⟩
  · exact absurd hz he
  · rw [hadmits] at hno
    cases hno
  · -- the limits hold with the arriving frame
    obtain ⟨hf, hb⟩ := hold_totals (prepareStream_get?_self exp.1 info.key exp.2) hnew
      { info := info, payload := payload, receivedAt := now
        countedHeld := countedHeld (exp.1.prepared info.key) e info.frameId } rfl
    have hf1 := expire_frames_le h now reorderWindow
    have hf2 := prepareStream_frames_le exp.1 info.key exp.2
    have hb1 := expire_bytes_le h now reorderWindow
    have hb2 := prepareStream_bytes_le exp.1 info.key exp.2
    rw [← hexp] at hf1 hb1
    have hfits : ((exp.1.prepareStream info.key exp.2).1.setStream info.key
        (holdDelta (exp.1.prepared info.key) info e payload now)).overflows = false := by
      refine not_overflows_of_totals ?_ ?_
      · unfold holdDelta
        omega
      · unfold holdDelta
        exact Nat.le_trans hb (Nat.le_trans (Nat.add_le_add_right (Nat.le_trans hb2 hb1) _) hbytes)
    rw [hfits] at hover
    cases hover
  · rw [hready]
    refine List.mem_append_right _ ?_
    have hkey : (holdDelta (exp.1.prepared info.key) info e payload now).nextKey =
        frameKey e info.frameId := by
      show frameKey (exp.1.prepared info.key).currentEpoch _ = _
      rw [hepoch]
      exact congrArg (frameKey e) hnext
    have hget : (holdDelta (exp.1.prepared info.key) info e payload now).pending.get?
        (frameKey e info.frameId) = some
          { info := info, payload := payload, receivedAt := now
            countedHeld := countedHeld (exp.1.prepared info.key) e info.frameId } := by
      show (OrdMap.insert _ _ _).get? _ = _
      rw [OrdMap.get?_insert, if_pos rfl]
    rw [← hkey] at hget
    exact mem_drains_next (VideoEpochStreamState.drainReady_drains _ now reorderWindow)
      (hepoch ▸ he) (hnext ▸ hid) hget

end VideoEpochHoldback

/-! ## Runs -/

/-- The call is for a stream of `keys`, or for none. -/
def HoldbackCall.KeyIn (keys : List VideoStreamKey) : HoldbackCall → Prop
  | .admitDelta info _ _ _ _ => info.key ∈ keys
  | .acceptKeyframe info _ _ _ => info.key ∈ keys
  | .expire _ _ => True

instance (keys : List VideoStreamKey) : DecidablePred (HoldbackCall.KeyIn keys)
  | .admitDelta info _ _ _ _ => inferInstanceAs (Decidable (info.key ∈ keys))
  | .acceptKeyframe info _ _ _ => inferInstanceAs (Decidable (info.key ∈ keys))
  | .expire _ _ => .isTrue trivial

instance (keys : List VideoStreamKey) : Decidable (VideoEpochHoldback.OnePerDisplay keys) :=
  inferInstanceAs (Decidable (∀ a ∈ keys, ∀ b ∈ keys, a.display = b.display → a = b))

namespace HoldbackRun

open VideoEpochHoldback

theorem resident_of_reach {keys : List VideoStreamKey} (hdisplays : OnePerDisplay keys)
    (hlen : keys.length ≤ maxVideoEpochStreamStates) {r : HoldbackRun}
    (h : system.Reach (fun _ call => call.IdBelowMax ∧ call.KeyIn keys) r) :
    Resident keys r.holdback r.events := by
  refine h.invariant (I := fun r => Resident keys r.holdback r.events)
    ⟨fun k st hst => (by cases hst), fun _ => rfl⟩ ?_
  intro s call t hres hguard hstep
  cases hstep
  cases call with
  | admitDelta info epoch payload now reorderWindow =>
      exact (hres.admitDelta hlen hguard.2 epoch payload now reorderWindow).emit _
  | acceptKeyframe info payload now reorderWindow =>
      show Resident keys _ (s.holdback.acceptEvents info payload now reorderWindow ++ s.events)
      rw [acceptEvents_eq, List.append_assoc, List.cons_append]
      exact ((hres.emit _).acceptKeyframe hdisplays hlen hguard.2 payload now reorderWindow).emit _
  | expire now reorderWindow => exact (hres.expire now reorderWindow).emit _

/-- **Stream isolation.** Run the hold-back with at most as many streams as its
table holds, one per display. When the latest keyframe of a stream is `e` and
its last released frame `e + k`, delta `e + k + 1` of epoch `e` is released on
arrival, whatever was processed for the other streams, as long as it fits the
limits and no gap of its own stream has outlasted the reorder window. -/
theorem next_delta_released (keys : List VideoStreamKey) (hdisplays : OnePerDisplay keys)
    (hlen : keys.length ≤ maxVideoEpochStreamStates) (r : HoldbackRun)
    (hreach : system.Reach (fun _ call => call.IdBelowMax ∧ call.KeyIn keys) r)
    (info : VideoSourceInfo) (e k : Nat) (payload : Bytes) (now reorderWindow : Time)
    (he : e ≠ 0) (hkeyframe : latestKeyframe (eventsOf info.key r.events) = some e)
    (hlast : lastId (eventsOf info.key r.events) = some (e + k))
    (hid : info.frameId = e + k + 1)
    (hframes : r.holdback.frames + 1 ≤ videoEpochHoldbackMaxFrames)
    (hbytes : r.holdback.bytes + payload.length ≤ videoEpochHoldbackMaxBytes)
    (hgap : ∀ st, r.holdback.streams.get? info.key = some st →
      st.nextAvailable = none ∨ now - st.gapStartedAt.getD now < reorderWindow) :
    (info, payload) ∈ (r.holdback.admitDelta info e payload now reorderWindow).2.ready := by
  have hres := resident_of_reach hdisplays hlen hreach
  have hinv := inv_of_reach (hreach.mono (fun _ _ hg => hg.1))
  have hquiet := allStreams_of_reach closed_quiet (hreach.mono (fun _ _ _ => trivial))
  have hepoch := hres.epoch info.key
  rw [hkeyframe, Option.getD_some] at hepoch
  -- a forgotten stream would have epoch 0
  obtain ⟨st, hst⟩ : ∃ st, r.holdback.streams.get? info.key = some st := by
    cases hget : r.holdback.streams.get? info.key with
    | some st => exact ⟨st, rfl⟩
    | none =>
        rw [hget] at hepoch
        exact absurd hepoch.symm he
  rw [hst, Option.getD_some] at hepoch
  obtain ⟨_, hset⟩ := (hinv.tracked info.key).stream st hst
  obtain ⟨n, hn, hnext⟩ := hset (hepoch ▸ he)
  rw [hlast] at hn
  cases hn
  have hnone := hquiet info.key st hst (hepoch ▸ he) (by omega)
  obtain ⟨gap, hdrain, _⟩ := st.drainReady_idle hnone (hgap st hst)
  -- expiry leaves the stream open and without the arriving frame
  have hget : (r.holdback.expire now reorderWindow).1.streams.get? info.key =
      some ({ st with gapStartedAt := gap }.dropPending
        (VideoEpochStreamState.timedOut now)) := by
    rw [expire_get?, hst, Option.map_some, VideoEpochStreamState.expireStream, hdrain]
  have hprep : (r.holdback.expire now reorderWindow).1.prepared info.key =
      { { st with gapStartedAt := gap }.dropPending (VideoEpochStreamState.timedOut now) with
        lastActivity :=
          satAdd (r.holdback.expire now reorderWindow).1.activityGeneration 1 } := by
    unfold prepared
    rw [hget, Option.getD_some]
  have hkey : frameKey e info.frameId = st.nextKey := by
    rw [VideoEpochStreamState.nextKey, hepoch, ← hnext, hid]
  refine admitDelta_next he (by rw [hprep]; exact hepoch) (by rw [hprep, hid]; exact hnext.symm)
    (by omega) ?_ hframes hbytes
  rw [hprep, hkey, OrdMap.contains_eq_false_iff]
  cases hkept : (st.pending.filter
      (fun k f => !VideoEpochStreamState.timedOut now k f)).get? st.nextKey with
  | none => exact hkept
  | some f => exact absurd ((OrdMap.get?_filter_eq_some.mp hkept).1.symm.trans hnone) (by simp)

/-- Keyframe 1 of stream 1 of each of the first displays, in order. -/
def keyframesOf (displays : Nat) : List HoldbackCall :=
  (List.range displays).map
    (fun display => .acceptKeyframe (frameOf display 1 true) [1] 0 (millis 40))

/-- Stream 1 of each of the first displays. -/
def streamsOf (displays : Nat) : List VideoStreamKey :=
  (List.range displays).map (fun display => { display := display, streamId := 1 })

/-- With eight displays, the first one's delta is released on arrival. -/
theorem next_delta_released_eight :
    ∃ r, system.run (keyframesOf 8) = some r ∧
      (frameOf 0 2 false, [2]) ∈
        (r.holdback.admitDelta (frameOf 0 2 false) 1 [2] 0 (millis 40)).2.ready :=
  ⟨_, rfl, next_delta_released (streamsOf 8) (by decide) (by decide) _
    (TSys.reach_of_run (keyframesOf 8) (by decide) rfl) (frameOf 0 2 false) 1 0 [2] 0 (millis 40)
    (by decide) (by decide) (by decide) (by decide) (by decide) (by decide)
    (by intro st hst; cases hst; exact .inl rfl)⟩

/-- The ninth display's keyframe evicts the first display's stream, and the next
delta of the first display is not released. -/
theorem next_delta_held_nine :
    ∃ r, system.Reach (fun _ call => call.IdBelowMax ∧ call.KeyIn (streamsOf 9)) r ∧
      OnePerDisplay (streamsOf 9) ∧ (streamsOf 9).length ≤ 16 ∧
      latestKeyframe (eventsOf { display := 0, streamId := 1 } r.events) = some 1 ∧
      lastId (eventsOf { display := 0, streamId := 1 } r.events) = some (1 + 0) ∧
      r.holdback.frames + 1 ≤ videoEpochHoldbackMaxFrames ∧
      r.holdback.bytes + [2].length ≤ videoEpochHoldbackMaxBytes ∧
      ¬ (frameOf 0 2 false, [2]) ∈
        (r.holdback.admitDelta (frameOf 0 2 false) 1 [2] 0 (millis 40)).2.ready :=
  ⟨_, TSys.reach_of_run (keyframesOf 9) (by decide) rfl, by decide, by decide, by decide,
    by decide, by decide, by decide, by decide⟩

end HoldbackRun

end HbbCommon.Transport
