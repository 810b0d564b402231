import HbbCommon.Base.TSys
import HbbCommon.Transport.Video.Logic.HoldbackCalls

/-!
# Runs of the hold-back

A run is any list of `admit_delta`, `accept_keyframe` and `expire` calls. It
records, newest first, every frame handed on and every delta put among the
pending frames. `AllTracked` is the per-stream invariant of every stream at
once, for streams that the table has forgotten too: their history stays, so a
stream that comes back cannot repeat a release. `Bounded` holds the limits.
-/

namespace HbbCommon.Transport

open HbbCommon.Base
open HoldbackEvent

/-! ## One stream, present or forgotten -/

/-- The invariant of stream `k`, whose state may have been evicted. -/
structure Tracked (k : VideoStreamKey) (o : Option VideoEpochStreamState)
    (ev : List HoldbackEvent) (ad : List (VideoSourceInfo × Option Nat × Bytes)) : Prop where
  increasing : Increasing ev
  released : (releases ev).Subperm ad
  stream : ∀ st, o = some st → StreamInv k st ev ad ∧ Settled st ev

namespace Tracked

variable {k : VideoStreamKey} {o : Option VideoEpochStreamState} {st : VideoEpochStreamState}
  {ev : List HoldbackEvent} {ad : List (VideoSourceInfo × Option Nat × Bytes)}
  {now reorderWindow : Time}

theorem forget (h : Tracked k o ev ad) : Tracked k none ev ad :=
  ⟨h.increasing, h.released, fun _ hst => by cases hst⟩

theorem mono {ad' : List (VideoSourceInfo × Option Nat × Bytes)} (h : Tracked k o ev ad)
    (had : ad.Subperm ad') : Tracked k o ev ad' :=
  ⟨h.increasing, h.released.trans had,
    fun st hst => ⟨(h.stream st hst).1.mono had, (h.stream st hst).2⟩⟩

theorem of_stream (hinc : Increasing ev) (hst : StreamInv k st ev ad) (hset : Settled st ev) :
    Tracked k (some st) ev ad :=
  ⟨hinc, hst.released, fun _ heq => by cases heq; exact ⟨hst, hset⟩⟩

/-- A stream that is looked up with `or_default`. -/
theorem getD_default (h : Tracked k o ev ad) :
    StreamInv k (o.getD .default) ev ad ∧ Settled (o.getD .default) ev := by
  cases o with
  | none => exact ⟨.default h.released, .default⟩
  | some st => exact h.stream st rfl

theorem touch (h : Tracked k o ev ad) (generation : Nat) :
    Tracked k (some { o.getD .default with lastActivity := generation }) ev ad := by
  obtain ⟨hst, hset⟩ := h.getD_default
  exact of_stream h.increasing (hst.touch generation) hset

theorem drain (hinc : Increasing ev) (hst : StreamInv k st ev ad)
    (hset : Settled st ev ∨ st.pending.contains st.nextKey = true) :
    Tracked k (some (st.drainReady now reorderWindow).1)
      (emit (st.drainReady now reorderWindow).2.ready ++ ev) ad := by
  obtain ⟨hst', hinc', hset'⟩ := hst.drain hinc hset
  exact of_stream hinc' hst' hset'

theorem expire (h : Tracked k o ev ad) :
    Tracked k (o.map (fun st => (st.expireStream now reorderWindow).1))
      (emit (VideoEpochHoldback.expired now reorderWindow o) ++ ev) ad := by
  cases o with
  | none => exact h
  | some st =>
      obtain ⟨hst, hset⟩ := h.stream st rfl
      obtain ⟨hst', hinc', hset'⟩ := hst.drain h.increasing (.inl hset)
      exact of_stream hinc' (hst'.dropPending _) hset'

theorem clear (h : Tracked k o ev ad) :
    Tracked k (o.map (fun st =>
      { st with pending := ∅, pendingBytes := 0, gapStartedAt := none })) ev ad := by
  cases o with
  | none => exact h
  | some st =>
      obtain ⟨hst, hset⟩ := h.stream st rfl
      exact of_stream h.increasing hst.clear hset

end Tracked

/-! ## All streams -/

/-- The part of a history that belongs to stream `k`. -/
def eventsOf (k : VideoStreamKey) (ev : List HoldbackEvent) : List HoldbackEvent :=
  ev.filter (fun e => decide (e.info.key = k))

/-- The admitted deltas of stream `k`. -/
def admittedOf (k : VideoStreamKey) (ad : List (VideoSourceInfo × Option Nat × Bytes)) :
    List (VideoSourceInfo × Option Nat × Bytes) :=
  ad.filter (fun x => decide (x.1.key = k))

@[simp] theorem eventsOf_append (k : VideoStreamKey) (a b : List HoldbackEvent) :
    eventsOf k (a ++ b) = eventsOf k a ++ eventsOf k b :=
  List.filter_append _ _

theorem eventsOf_emit (k : VideoStreamKey) (ready : List (VideoSourceInfo × Bytes)) :
    eventsOf k (emit ready) = emit (ready.filter (fun x => decide (x.1.key = k))) := by
  simp only [eventsOf, emit, List.filter_reverse, List.filter_map]
  rfl

/-- Frames of one stream are events of that stream only. -/
theorem eventsOf_emit_self {k : VideoStreamKey} {ready : List (VideoSourceInfo × Bytes)}
    (hkeys : ∀ x ∈ ready, x.1.key = k) : eventsOf k (emit ready) = emit ready := by
  rw [eventsOf_emit, List.filter_eq_self.mpr]
  exact fun x hx => decide_eq_true (hkeys x hx)

theorem eventsOf_emit_other {k key : VideoStreamKey} {ready : List (VideoSourceInfo × Bytes)}
    (hkeys : ∀ x ∈ ready, x.1.key = key) (hk : k ≠ key) : eventsOf k (emit ready) = [] := by
  rw [eventsOf_emit, List.filter_eq_nil_iff.mpr]
  · rfl
  · intro x hx heq
    exact hk ((of_decide_eq_true heq).symm.trans (hkeys x hx))

namespace VideoEpochHoldback

variable {h : VideoEpochHoldback} {ev : List HoldbackEvent}
  {ad : List (VideoSourceInfo × Option Nat × Bytes)} {key : VideoStreamKey}
  {now reorderWindow : Time} {out : VideoHoldbackOutcome}

/-- Every stream is tracked. -/
def AllTracked (h : VideoEpochHoldback) (ev : List HoldbackEvent)
    (ad : List (VideoSourceInfo × Option Nat × Bytes)) : Prop :=
  ∀ k, Tracked k (h.streams.get? k) (eventsOf k ev) (admittedOf k ad)

/-- The table and the pending frames are within their limits. -/
structure Bounded (h : VideoEpochHoldback) : Prop where
  streams_le : h.streams.size ≤ maxVideoEpochStreamStates
  frames_le : h.frames ≤ videoEpochHoldbackMaxFrames
  bytes_le : h.bytes ≤ videoEpochHoldbackMaxBytes

theorem AllTracked.retainStreams (hall : h.AllTracked ev ad) (key : VideoStreamKey) :
    (h.retainStreams key).AllTracked ev ad := by
  intro k
  simp only [VideoEpochHoldback.retainStreams, OrdMap.get?_filter]
  cases hget : h.streams.get? k with
  | none => exact (hall k).forget
  | some st =>
      have htracked := hget ▸ hall k
      rw [Option.filter_some]
      split
      · exact htracked
      · exact htracked.forget

theorem AllTracked.pending_keys (hall : h.AllTracked ev ad) :
    ∀ j st, h.streams.get? j = some st → ∀ fk f, st.pending.get? fk = some f →
      f.info.key = j :=
  fun j st hst fk f hf => (((hall j).stream st hst).1.keyed fk f hf).1

theorem AllTracked.expire (hall : h.AllTracked ev ad) (now reorderWindow : Time) :
    (h.expire now reorderWindow).1.AllTracked
      (emit (h.expire now reorderWindow).2.ready ++ ev) ad := by
  intro k
  rw [expire_get?, eventsOf_append, eventsOf_emit,
    expire_ready_filter now reorderWindow k hall.pending_keys]
  exact (hall k).expire

theorem AllTracked.prepareStream (hall : h.AllTracked ev ad) (key : VideoStreamKey)
    (out : VideoHoldbackOutcome) :
    (h.prepareStream key out).1.AllTracked ev ad := by
  intro k
  by_cases hk : k = key
  · rw [hk, prepareStream_get?_self]
    exact (hall key).touch _
  · rcases prepareStream_get?_ne h out hk with hget | hget <;> rw [hget]
    · exact hall k
    · exact (hall k).forget

theorem AllTracked.prepared (hall : h.AllTracked ev ad) (key : VideoStreamKey) :
    StreamInv key (h.prepared key) (eventsOf key ev) (admittedOf key ad) ∧
      Settled (h.prepared key) (eventsOf key ev) :=
  ((hall key).touch _).stream _ rfl

theorem AllTracked.clearPending (hall : h.AllTracked ev ad) : h.clearPending.AllTracked ev ad := by
  intro k
  rw [clearPending_get?]
  exact (hall k).clear

/-- Rewriting one stream together with its own history. -/
theorem AllTracked.insert {st : VideoEpochStreamState} {ev' : List HoldbackEvent}
    (hall : h.AllTracked ev ad) (ad' : List (VideoSourceInfo × Option Nat × Bytes))
    (hst : Tracked key (some st) (eventsOf key ev') (admittedOf key ad'))
    (hev : ∀ k, k ≠ key → eventsOf k ev' = eventsOf k ev)
    (had : ∀ k, k ≠ key → admittedOf k ad' = admittedOf k ad) :
    (h.setStream key st).AllTracked ev' ad' := by
  intro k
  by_cases hk : k = key
  · rw [hk]
    simpa using hst
  · rw [hev k hk, had k hk]
    simpa [hk] using hall k

theorem Bounded.retainStreams (hb : h.Bounded) (key : VideoStreamKey) : (h.retainStreams key).Bounded :=
  ⟨Nat.le_trans (h.streams.size_filter_le _) hb.streams_le,
    Nat.le_trans (h.streams.total_filter_le _ (fun st => st.pending.size)) hb.frames_le,
    Nat.le_trans (h.streams.total_filter_le _ (fun st => st.pendingBytes)) hb.bytes_le⟩

theorem Bounded.expire (hb : h.Bounded) (now reorderWindow : Time) : (h.expire now reorderWindow).1.Bounded :=
  ⟨by rw [expire_size]; exact hb.streams_le, Nat.le_trans (expire_frames_le h now reorderWindow) hb.frames_le,
    Nat.le_trans (expire_bytes_le h now reorderWindow) hb.bytes_le⟩

theorem Bounded.prepareStream (hb : h.Bounded) (key : VideoStreamKey)
    (out : VideoHoldbackOutcome) : (h.prepareStream key out).1.Bounded :=
  ⟨prepareStream_size_le h key out hb.streams_le,
    Nat.le_trans (prepareStream_frames_le h key out) hb.frames_le,
    Nat.le_trans (prepareStream_bytes_le h key out) hb.bytes_le⟩

/-- Rewriting one stream within what it held before. -/
theorem Bounded.insert {st old : VideoEpochStreamState} (hb : h.Bounded)
    (hold : h.streams.get? key = some old) (hframes : st.pending.size ≤ old.pending.size)
    (hbytes : st.pendingBytes ≤ old.pendingBytes) :
    (h.setStream key st).Bounded := by
  obtain ⟨hstreams, hf, hby⟩ := hb
  have h1 := OrdMap.total_erase (fun st => st.pending.size) hold
  have h2 := OrdMap.total_erase (fun st => st.pendingBytes) hold
  refine ⟨?_, ?_, ?_⟩
  · show (h.streams.insert key st).size ≤ _
    rw [OrdMap.size_insert_of_some _ hold]
    exact hstreams
  · show (h.streams.insert key st).total _ ≤ _
    rw [OrdMap.total_insert]
    unfold frames at hf
    omega
  · show (h.streams.insert key st).total _ ≤ _
    rw [OrdMap.total_insert]
    unfold bytes at hby
    omega

/-! ## Whole calls -/

/-- The admissions recorded by one `admit_delta`. -/
def admission (h : VideoEpochHoldback) (info : VideoSourceInfo) (referenceEpoch : Nat)
    (payload : Bytes) (now reorderWindow : Time) : List (VideoSourceInfo × Option Nat × Bytes) :=
  if h.admits info referenceEpoch now reorderWindow then
    [(info, some referenceEpoch, payload)]
  else []

/-- The events of one `accept_keyframe`, newest first: the keyframe stands after
the frames that its expiry released. -/
def acceptEvents (h : VideoEpochHoldback) (info : VideoSourceInfo) (payload : Bytes)
    (now reorderWindow : Time) : List HoldbackEvent :=
  let ready := (h.acceptKeyframe info payload now reorderWindow).2.ready
  let expired := ((h.retainStreams info.key).expire now reorderWindow).2.ready.length
  emit (ready.drop (expired + 1)) ++ .keyframe info payload :: emit (ready.take expired)

theorem acceptEvents_eq (h : VideoEpochHoldback) (info : VideoSourceInfo) (payload : Bytes)
    (now reorderWindow : Time) :
    h.acceptEvents info payload now reorderWindow =
      emit ((h.keyframeStream info now reorderWindow).drainReady now reorderWindow).2.ready ++
        .keyframe info payload ::
          emit ((h.retainStreams info.key).expire now reorderWindow).2.ready := by
  unfold acceptEvents
  rw [acceptKeyframe_ready]
  simp

theorem drain_keys {st : VideoEpochStreamState} {ev : List HoldbackEvent}
    {ad : List (VideoSourceInfo × Option Nat × Bytes)} (hst : StreamInv key st ev ad)
    (now reorderWindow : Time) :
    ∀ x ∈ (st.drainReady now reorderWindow).2.ready, x.1.key = key := by
  intro x hx
  rcases (drains_frame (st.drainReady_drains now reorderWindow)).ready x hx with
    hx | ⟨fk, f, hf, rfl⟩
  · cases hx
  · exact (hst.keyed fk f hf).1

/-- Draining one stream of the table and recording what it handed on. -/
theorem AllTracked.drainInsert {st : VideoEpochStreamState} (hall : h.AllTracked ev ad)
    (hst : StreamInv key st (eventsOf key ev) (admittedOf key ad))
    (hset : Settled st (eventsOf key ev)) (now reorderWindow : Time) :
    (h.setStream key (st.drainReady now reorderWindow).1).AllTracked
      (emit (st.drainReady now reorderWindow).2.ready ++ ev) ad := by
  have hkeys := drain_keys hst now reorderWindow
  refine hall.insert ad ?_ ?_ (fun _ _ => rfl)
  · rw [eventsOf_append, eventsOf_emit_self hkeys]
    exact Tracked.drain (hall key).increasing hst (.inl hset)
  · intro k hk
    rw [eventsOf_append, eventsOf_emit_other hkeys hk, List.nil_append]

theorem AllTracked.mono (hall : h.AllTracked ev ad)
    (new : List (VideoSourceInfo × Option Nat × Bytes)) : h.AllTracked ev (new ++ ad) := by
  intro k
  refine (hall k).mono ?_
  unfold admittedOf
  rw [List.filter_append]
  exact (List.sublist_append_right _ _).subperm

/-- **One `admit_delta`.** -/
theorem AllTracked.admitDelta {info : VideoSourceInfo} {epoch : Nat} {payload : Bytes}
    {h' : VideoEpochHoldback} (hall : h.AllTracked ev ad) (hb : h.Bounded)
    (hid : info.frameId < u64Max)
    (hcall : h.admitDelta info epoch payload now reorderWindow = (h', out)) :
    h'.AllTracked (emit out.ready ++ ev)
      (h.admission info epoch payload now reorderWindow ++ ad) ∧ h'.Bounded := by
  have hexp := hall.expire now reorderWindow
  have hprep := hexp.prepareStream info.key (h.expire now reorderWindow).2
  have hbexp := hb.expire now reorderWindow
  have hbprep := hbexp.prepareStream info.key (h.expire now reorderWindow).2
  have hget := prepareStream_get?_self (h.expire now reorderWindow).1 info.key
    (h.expire now reorderWindow).2
  unfold admission
  rcases admitDelta_cases h info epoch payload now reorderWindow hcall with
    ⟨_, hno, rfl, hready⟩ | ⟨_, hno, rfl, rfl⟩ | ⟨hyes, _, rfl, hready⟩ |
      ⟨hyes, hover, rfl, hready, _⟩
  · rw [hno, hready]
    exact ⟨hexp, hbexp⟩
  · rw [hno, prepareStream_ready]
    exact ⟨hprep, hbprep⟩
  · rw [hyes, if_pos rfl, hready, holdDelta, clearPending_hold hget]
    obtain ⟨hframes, hbytes⟩ := clearPending_totals
      ((h.expire now reorderWindow).1.prepareStream info.key (h.expire now reorderWindow).2).1
    refine ⟨(hprep.clearPending).mono _, ?_, by omega, by omega⟩
    rw [clearPending_size]
    exact hbprep.streams_le
  · obtain ⟨hepoch, hfresh, hnew⟩ := admits_iff.mp hyes
    obtain ⟨hst, hset⟩ := hexp.prepared info.key
    have hhold := hst.hold payload now rfl hepoch hid hfresh hnew
      (countedHeld ((h.expire now reorderWindow).1.prepared info.key) epoch info.frameId)
    rw [hyes, if_pos rfl, hready, emit_append, List.append_assoc]
    have hself : admittedOf info.key ([(info, some epoch, payload)] ++ ad) =
        (info, some epoch, payload) :: admittedOf info.key ad := by
      simp [admittedOf]
    rw [← hself] at hhold
    have hheld := hprep.insert ([(info, some epoch, payload)] ++ ad)
      (.of_stream (hprep info.key).increasing hhold hset) (fun _ _ => rfl) ?_
    · refine ⟨hheld.drainInsert hhold hset now reorderWindow, ?_⟩
      have hframe := drains_frame ((holdDelta ((h.expire now reorderWindow).1.prepared info.key)
        info epoch payload now).drainReady_drains now reorderWindow)
      obtain ⟨hframes, hbytes⟩ := totals_of_not_overflows hover
      refine Bounded.insert ⟨?_, hframes, hbytes⟩ (by simp) hframe.size_le hframe.bytes_le
      show (OrdMap.insert _ _ _).size ≤ _
      rw [OrdMap.size_insert_of_some _ hget]
      exact hbprep.streams_le
    · intro k hk
      simp [admittedOf, Ne.symm hk]

/-- **One `accept_keyframe`.** -/
theorem AllTracked.acceptKeyframe {info : VideoSourceInfo} {payload : Bytes}
    (hall : h.AllTracked ev ad) (hb : h.Bounded) (hid : info.frameId < u64Max) :
    (h.acceptKeyframe info payload now reorderWindow).1.AllTracked
      (h.acceptEvents info payload now reorderWindow ++ ev) ad ∧
    (h.acceptKeyframe info payload now reorderWindow).1.Bounded := by
  have hexp := (hall.retainStreams info.key).expire now reorderWindow
  have hbexp := (hb.retainStreams info.key).expire now reorderWindow
  have hprep := hexp.prepareStream info.key
    ((h.retainStreams info.key).expire now reorderWindow).2
  have hbprep := hbexp.prepareStream info.key
    ((h.retainStreams info.key).expire now reorderWindow).2
  have hget := prepareStream_get?_self ((h.retainStreams info.key).expire now reorderWindow).1
    info.key ((h.retainStreams info.key).expire now reorderWindow).2
  obtain ⟨hst, hset⟩ := hexp.prepared info.key
  obtain ⟨hopen, hopenset⟩ := hst.openEpoch payload hid
  rw [acceptKeyframe_fst, acceptEvents_eq, List.append_assoc, List.cons_append]
  set pre := emit ((h.retainStreams info.key).expire now reorderWindow).2.ready ++ ev with hpre
  have hself : eventsOf info.key (.keyframe info payload :: pre) =
      .keyframe info payload :: eventsOf info.key pre :=
    List.filter_cons_of_pos (decide_eq_true rfl)
  rw [← hself] at hopen hopenset
  have hopened := hprep.insert ad (.of_stream (by rw [hself]; exact (hprep info.key).increasing)
    hopen hopenset) ?_ (fun _ _ => rfl)
  · refine ⟨?_, ?_⟩
    · rw [← setStream_setStream _ _ (h.keyframeStream info now reorderWindow)]
      exact hopened.drainInsert hopen hopenset now reorderWindow
    · have hframe := drains_frame
        ((h.keyframeStream info now reorderWindow).drainReady_drains now reorderWindow)
      exact hbprep.insert hget
        (Nat.le_trans hframe.size_le (OrdMap.size_filter_le _ _))
        (Nat.le_trans hframe.bytes_le (Nat.sub_le _ _))
  · intro k hk
    refine List.filter_cons_of_neg ?_
    rw [decide_eq_true_eq]
    exact Ne.symm hk

end VideoEpochHoldback

/-! ## Runs -/

/-- A call of the hold-back. -/
inductive HoldbackCall
  | admitDelta (info : VideoSourceInfo) (referenceEpoch : Nat) (payload : Bytes)
      (now reorderWindow : Time)
  | acceptKeyframe (info : VideoSourceInfo) (payload : Bytes) (now reorderWindow : Time)
  | expire (now reorderWindow : Time)
  deriving DecidableEq, Repr

/-- The frame ids of the call are below the last 64-bit value. -/
def HoldbackCall.IdBelowMax : HoldbackCall → Prop
  | .admitDelta info _ _ _ _ => info.frameId < u64Max
  | .acceptKeyframe info _ _ _ => info.frameId < u64Max
  | .expire _ _ => True

instance : DecidablePred HoldbackCall.IdBelowMax
  | .admitDelta info _ _ _ _ => inferInstanceAs (Decidable (info.frameId < u64Max))
  | .acceptKeyframe info _ _ _ => inferInstanceAs (Decidable (info.frameId < u64Max))
  | .expire _ _ => .isTrue trivial

/-- A hold-back with its history: the frames handed on and the deltas put among
the pending frames, both newest first. -/
structure HoldbackRun where
  holdback : VideoEpochHoldback
  events : List HoldbackEvent
  admitted : List (VideoSourceInfo × Option Nat × Bytes)

namespace HoldbackRun

def step (r : HoldbackRun) : HoldbackCall → HoldbackRun
  | .admitDelta info referenceEpoch payload now reorderWindow =>
      let (h, out) := r.holdback.admitDelta info referenceEpoch payload now reorderWindow
      { holdback := h
        events := emit out.ready ++ r.events
        admitted :=
          r.holdback.admission info referenceEpoch payload now reorderWindow ++ r.admitted }
  | .acceptKeyframe info payload now reorderWindow =>
      { r with
        holdback := (r.holdback.acceptKeyframe info payload now reorderWindow).1
        events := r.holdback.acceptEvents info payload now reorderWindow ++ r.events }
  | .expire now reorderWindow =>
      let (h, out) := r.holdback.expire now reorderWindow
      { r with holdback := h, events := emit out.ready ++ r.events }

/-- The hold-back under any calls. -/
def system : TSys HoldbackRun HoldbackCall where
  init := { holdback := .default, events := [], admitted := [] }
  step r call := some (r.step call)

/-- A property closed under the edits of a stream holds of every stream after
every run. -/
theorem allStreams_of_reach {P : VideoEpochStreamState → Prop}
    (hP : VideoEpochHoldback.Closed P) {r : HoldbackRun}
    (h : system.Reach (fun _ _ => True) r) : r.holdback.AllStreams P := by
  refine h.invariant (I := fun r => r.holdback.AllStreams P) (fun _ _ hst => by cases hst) ?_
  intro s call t hall _ hstep
  cases hstep
  cases call with
  | admitDelta info epoch payload now reorderWindow => exact hall.admitDelta hP
  | acceptKeyframe info payload now reorderWindow => exact hall.acceptKeyframe hP payload
  | expire now reorderWindow => exact hall.expire hP now reorderWindow

/-- What holds after every call whose frame ids are in range. -/
structure Inv (r : HoldbackRun) : Prop where
  tracked : r.holdback.AllTracked r.events r.admitted
  bounded : r.holdback.Bounded

theorem inv_init : Inv system.init where
  tracked _ := ⟨trivial, .refl _, fun _ h => by cases h⟩
  bounded := ⟨Nat.zero_le _, Nat.zero_le _, Nat.zero_le _⟩

theorem Inv.step {r : HoldbackRun} (hinv : r.Inv) {call : HoldbackCall}
    (hid : call.IdBelowMax) : (r.step call).Inv := by
  obtain ⟨htracked, hbounded⟩ := hinv
  cases call with
  | admitDelta info epoch payload now reorderWindow =>
      have hcall := (Prod.mk.eta
        (p := r.holdback.admitDelta info epoch payload now reorderWindow)).symm
      obtain ⟨htracked', hbounded'⟩ := htracked.admitDelta hbounded hid hcall
      exact ⟨htracked', hbounded'⟩
  | acceptKeyframe info payload now reorderWindow =>
      obtain ⟨htracked', hbounded'⟩ := htracked.acceptKeyframe hbounded hid
      exact ⟨htracked', hbounded'⟩
  | expire now reorderWindow =>
      exact ⟨htracked.expire now reorderWindow, hbounded.expire now reorderWindow⟩

theorem inv_of_reach {r : HoldbackRun}
    (h : system.Reach (fun _ call => call.IdBelowMax) r) : r.Inv := by
  refine h.invariant inv_init ?_
  intro s call t hinv hid hstep
  cases hstep
  exact hinv.step hid

/-- **Hold-back safety.** After every run of calls whose frame ids are below the
last 64-bit value: every stream counts its pending bytes exactly and all streams
together stay within the limits, as does their number; no pending frame is
behind its stream. Every released delta was admitted with the latest keyframe of
its stream as its reference epoch, between two keyframes of a stream the
released ids increase from the keyframe's, and no admission is released
twice. -/
theorem holdback_safety (r : HoldbackRun)
    (h : system.Reach (fun _ call => call.IdBelowMax) r) :
    (∀ k st, r.holdback.streams.get? k = some st →
      st.pendingBytes = st.pending.total HeldVideoFrame.length) ∧
    r.holdback.frames ≤ videoEpochHoldbackMaxFrames ∧
    r.holdback.bytes ≤ videoEpochHoldbackMaxBytes ∧
    r.holdback.streams.size ≤ maxVideoEpochStreamStates ∧
    (∀ k st, r.holdback.streams.get? k = some st →
      ∀ fk f, st.pending.get? fk = some f →
        st.currentEpoch ≤ fk.epoch ∧ (fk.epoch = st.currentEpoch → st.nextFrameId ≤ fk.id)) ∧
    (∀ k, ∀ x ∈ releases (eventsOf k r.events), x ∈ admittedOf k r.admitted) ∧
    (∀ k, Increasing (eventsOf k r.events)) ∧
    (∀ k, (releases (eventsOf k r.events)).Subperm (admittedOf k r.admitted)) := by
  have hinv := inv_of_reach h
  refine ⟨?_, hinv.bounded.frames_le, hinv.bounded.bytes_le, hinv.bounded.streams_le, ?_, ?_,
    fun k => (hinv.tracked k).increasing, fun k => (hinv.tracked k).released⟩
  · exact allStreams_of_reach VideoEpochHoldback.closed_exact (h.mono (fun _ _ _ => trivial))
  · intro k st hst
    exact ((hinv.tracked k).stream st hst).1.fresh
  · intro k x hx
    exact (hinv.tracked k).released.subset hx

/-- The source information of frame `id` of stream 1 of a display. -/
def frameOf (display id : Nat) (keyframe : Bool) : VideoSourceInfo :=
  { key := { display := display, streamId := 1 }, frameId := id, keyframe := keyframe
    codec := .h264 }

/-- A delta that overtakes its keyframe and a delta after it. -/
def overtaken : List HoldbackCall :=
  [.admitDelta (frameOf 0 2 false) 1 [2, 2] 0 (millis 40),
    .acceptKeyframe (frameOf 0 1 true) [1] 0 (millis 40),
    .admitDelta (frameOf 0 3 false) 1 [3] 0 (millis 40)]

/-- The overtaking delta is released once, after its keyframe. -/
theorem holdback_safety_overtaken :
    ∃ r, system.run overtaken = some r ∧
      releases (eventsOf { display := 0, streamId := 1 } r.events) =
        [(frameOf 0 3 false, some 1, [3]), (frameOf 0 2 false, some 1, [2, 2])] ∧
      (releases (eventsOf { display := 0, streamId := 1 } r.events)).Subperm
        (admittedOf { display := 0, streamId := 1 } r.admitted) := by
  refine ⟨_, rfl, by decide, ?_⟩
  have hreach := TSys.reach_of_run (M := system) (G := fun _ call => call.IdBelowMax) overtaken
    (by decide) rfl
  exact (holdback_safety _ hreach).2.2.2.2.2.2.2 _

end HoldbackRun

end HbbCommon.Transport
