import HbbCommon.Transport.Video.Logic.HoldbackStream

/-!
# What each hold-back call does to each stream

The calls of the hold-back loop over all streams, evict one, or edit the stream
of their key. Here every such loop is read off stream by stream: what is bound
to a key afterwards, which frames are handed on for it, and how the totals over
all streams move. Nothing later unfolds `expire`, `prepareStream` or
`pendingTotals`.
-/

namespace HbbCommon.Transport

open HbbCommon.Base
open HoldbackEvent

namespace VideoEpochHoldback

variable {h : VideoEpochHoldback} {key k : VideoStreamKey} {now reorderWindow : Time}
  {out : VideoHoldbackOutcome}

/-- Frames pending over all streams. -/
def frames (h : VideoEpochHoldback) : Nat := h.streams.total (fun st => st.pending.size)

/-- Bytes pending over all streams, as the streams count them. -/
def bytes (h : VideoEpochHoldback) : Nat := h.streams.total (fun st => st.pendingBytes)

/-! ## Totals -/

theorem foldl_satAdd_le (l : List (VideoStreamKey × VideoEpochStreamState)) (a b m n : Nat)
    (hm : m < u64Max) (hn : n < u64Max)
    (hfst : (l.foldl (fun total e =>
      (satAdd total.1 e.2.pending.size, satAdd total.2 e.2.pendingBytes)) (a, b)).1 ≤ m)
    (hsnd : (l.foldl (fun total e =>
      (satAdd total.1 e.2.pending.size, satAdd total.2 e.2.pendingBytes)) (a, b)).2 ≤ n) :
    a + (l.map (fun e => e.2.pending.size)).sum ≤ m ∧
      b + (l.map (fun e => e.2.pendingBytes)).sum ≤ n := by
  induction l generalizing a b with
  | nil => exact ⟨hfst, hsnd⟩
  | cons e rest ih =>
      obtain ⟨h1, h2⟩ := ih _ _ hfst hsnd
      have ha := satAdd_eq_of_le hm (le_trans (Nat.le_add_right _ _) h1)
      have hb := satAdd_eq_of_le hn (le_trans (Nat.le_add_right _ _) h2)
      simp only [List.map_cons, List.sum_cons]
      omega

/-- Totals that pass the check are exact. -/
theorem totals_of_not_overflows (hover : h.overflows = false) :
    h.frames ≤ videoEpochHoldbackMaxFrames ∧ h.bytes ≤ videoEpochHoldbackMaxBytes := by
  simp only [overflows, Bool.or_eq_false_iff, decide_eq_false_iff_not, not_lt] at hover
  have hsum := foldl_satAdd_le h.streams.entries 0 0 _ _ (by decide) (by decide) hover.1 hover.2
  simpa [frames, bytes, OrdMap.total] using hsum

theorem foldl_satAdd_ge (l : List (VideoStreamKey × VideoEpochStreamState)) (a b : Nat) :
    (l.foldl (fun total e =>
      (satAdd total.1 e.2.pending.size, satAdd total.2 e.2.pendingBytes)) (a, b)).1 ≤
        a + (l.map (fun e => e.2.pending.size)).sum ∧
    (l.foldl (fun total e =>
      (satAdd total.1 e.2.pending.size, satAdd total.2 e.2.pendingBytes)) (a, b)).2 ≤
        b + (l.map (fun e => e.2.pendingBytes)).sum := by
  induction l generalizing a b with
  | nil => exact ⟨Nat.le_refl _, Nat.le_refl _⟩
  | cons e rest ih =>
      obtain ⟨h1, h2⟩ := ih (satAdd a e.2.pending.size) (satAdd b e.2.pendingBytes)
      have ha := satAdd_le_add a e.2.pending.size
      have hb := satAdd_le_add b e.2.pendingBytes
      simp only [List.foldl_cons, List.map_cons, List.sum_cons]
      omega

/-- Totals within the limits pass the check. -/
theorem not_overflows_of_totals (hframes : h.frames ≤ videoEpochHoldbackMaxFrames)
    (hbytes : h.bytes ≤ videoEpochHoldbackMaxBytes) : h.overflows = false := by
  obtain ⟨h1, h2⟩ := foldl_satAdd_ge h.streams.entries 0 0
  rw [Nat.zero_add] at h1 h2
  have hle1 : h.pendingTotals.1 ≤ videoEpochHoldbackMaxFrames := Nat.le_trans h1 hframes
  have hle2 : h.pendingTotals.2 ≤ videoEpochHoldbackMaxBytes := Nat.le_trans h2 hbytes
  unfold overflows
  rw [decide_eq_false (Nat.not_lt.mpr hle1), decide_eq_false (Nat.not_lt.mpr hle2)]
  rfl

/-! ## Expiry -/

theorem expire_get? (h : VideoEpochHoldback) (now reorderWindow : Time) (k : VideoStreamKey) :
    (h.expire now reorderWindow).1.streams.get? k =
      (h.streams.get? k).map (fun st => (st.expireStream now reorderWindow).1) := by
  simp [expire]

@[simp] theorem expire_size (h : VideoEpochHoldback) (now reorderWindow : Time) :
    (h.expire now reorderWindow).1.streams.size = h.streams.size := by
  simp [expire, OrdMap.size, OrdMap.mapVals]

/-- The frames one stream hands on when it expires. -/
def expired (now reorderWindow : Time) (o : Option VideoEpochStreamState) :
    List (VideoSourceInfo × Bytes) :=
  o.elim [] (fun st => (st.drainReady now reorderWindow).2.ready)

theorem expire_ready (h : VideoEpochHoldback) (now reorderWindow : Time) :
    (h.expire now reorderWindow).2.ready =
      h.streams.entries.flatMap (fun e => (e.2.drainReady now reorderWindow).2.ready) := by
  have hfold : ∀ (l : List (VideoStreamKey × VideoEpochStreamState))
      (out : VideoHoldbackOutcome),
      (l.foldl (fun out e =>
        (out.addDrained (e.2.expireStream now reorderWindow).2.1).addTimedOut
          (e.2.expireStream now reorderWindow).2.2) out).ready =
      out.ready ++ l.flatMap (fun e => (e.2.drainReady now reorderWindow).2.ready) := by
    intro l
    induction l with
    | nil => intro out; exact (List.append_nil _).symm
    | cons e rest ih =>
        intro out
        rw [List.foldl_cons, ih, List.flatMap_cons, ← List.append_assoc]
        rfl
  exact hfold h.streams.entries .default

/-- The frames handed on for stream `k` are those of its own drain. -/
theorem expire_ready_filter (now reorderWindow : Time) (k : VideoStreamKey)
    (hkeys : ∀ j st, h.streams.get? j = some st → ∀ fk f, st.pending.get? fk = some f →
      f.info.key = j) :
    (h.expire now reorderWindow).2.ready.filter (fun x => decide (x.1.key = k)) =
      expired now reorderWindow (h.streams.get? k) := by
  rw [expire_ready]
  refine h.streams.filter_flatMap (fun _ st => (st.drainReady now reorderWindow).2.ready) k _ ?_
  intro j st hst x hx
  have hframe := drains_frame (st.drainReady_drains now reorderWindow)
  rcases hframe.ready x hx with hx | ⟨fk, f, hf, rfl⟩
  · cases hx
  · rw [decide_eq_true_eq, hkeys j st hst fk f hf]

theorem expireStream_size_le (st : VideoEpochStreamState) :
    (st.expireStream now reorderWindow).1.pending.size ≤ st.pending.size :=
  Nat.le_trans (OrdMap.size_filter_le _ _)
    (drains_frame (st.drainReady_drains now reorderWindow)).size_le

theorem expireStream_bytes_le (st : VideoEpochStreamState) :
    (st.expireStream now reorderWindow).1.pendingBytes ≤ st.pendingBytes :=
  Nat.le_trans (Nat.sub_le _ _) (drains_frame (st.drainReady_drains now reorderWindow)).bytes_le

theorem expire_frames_le (h : VideoEpochHoldback) (now reorderWindow : Time) :
    (h.expire now reorderWindow).1.frames ≤ h.frames :=
  h.streams.total_mapVals_le (fun _ st => (st.expireStream now reorderWindow).1)
    (fun st => st.pending.size) (fun _ st _ => expireStream_size_le st)

theorem expire_bytes_le (h : VideoEpochHoldback) (now reorderWindow : Time) :
    (h.expire now reorderWindow).1.bytes ≤ h.bytes :=
  h.streams.total_mapVals_le (fun _ st => (st.expireStream now reorderWindow).1)
    (fun st => st.pendingBytes) (fun _ st _ => expireStream_bytes_le st)

/-! ## Preparing a stream -/

/-- The streams left after `prepare_stream` has made room for `key`. -/
def room (h : VideoEpochHoldback) (key : VideoStreamKey) :
    OrdMap VideoStreamKey VideoEpochStreamState :=
  if !h.streams.contains key && decide (h.streams.size ≥ maxVideoEpochStreamStates) then
    match h.oldest with
    | some (evicted, _) => h.streams.erase evicted
    | none => h.streams
  else h.streams

theorem prepareStream_streams (h : VideoEpochHoldback) (key : VideoStreamKey)
    (out : VideoHoldbackOutcome) :
    (h.prepareStream key out).1.streams = (h.room key).insert key
      { ((h.room key).get? key).getD .default with
        lastActivity := satAdd h.activityGeneration 1 } := by
  unfold prepareStream room
  cases (!h.streams.contains key && decide (h.streams.size ≥ maxVideoEpochStreamStates)) with
  | false => rfl
  | true => cases h.oldest <;> rfl

@[simp] theorem prepareStream_ready (h : VideoEpochHoldback) (key : VideoStreamKey)
    (out : VideoHoldbackOutcome) : (h.prepareStream key out).2.ready = out.ready := by
  unfold prepareStream
  cases (!h.streams.contains key && decide (h.streams.size ≥ maxVideoEpochStreamStates)) with
  | false => rfl
  | true =>
      cases h.oldest with
      | none => rfl
      | some e =>
          show (if e.2.pending.size > 0 then out.addOverflow e.2.pending.size else out).ready = _
          split <;> rfl

theorem oldest_mem {e : VideoStreamKey × VideoEpochStreamState} (hold : h.oldest = some e) :
    h.streams.get? e.1 = some e.2 :=
  OrdMap.mem_entries_iff.mp (List.argmin_mem hold)

/-- Making room forgets at most one stream, and never the one it is for. -/
theorem room_cases (h : VideoEpochHoldback) (key : VideoStreamKey) :
    h.room key = h.streams ∨
    (∃ e, h.streams.get? key = none ∧ maxVideoEpochStreamStates ≤ h.streams.size ∧
      h.oldest = some e ∧ h.room key = h.streams.erase e.1) := by
  unfold room
  split
  · rename_i hfull
    simp only [Bool.and_eq_true, Bool.not_eq_true', decide_eq_true_eq] at hfull
    cases hold : h.oldest with
    | none => exact .inl rfl
    | some e =>
        exact .inr ⟨e, OrdMap.contains_eq_false_iff.mp hfull.1, hfull.2, rfl, rfl⟩
  · exact .inl rfl

theorem room_get?_self (h : VideoEpochHoldback) (key : VideoStreamKey) :
    (h.room key).get? key = h.streams.get? key := by
  rcases h.room_cases key with heq | ⟨e, hnone, _, _, heq⟩ <;> rw [heq]
  rw [OrdMap.get?_erase, hnone, ite_self]

/-- The state that `prepare_stream` leaves under `key`. -/
def prepared (h : VideoEpochHoldback) (key : VideoStreamKey) : VideoEpochStreamState :=
  { (h.streams.get? key).getD .default with lastActivity := satAdd h.activityGeneration 1 }

theorem prepareStream_get?_self (h : VideoEpochHoldback) (key : VideoStreamKey)
    (out : VideoHoldbackOutcome) :
    (h.prepareStream key out).1.streams.get? key = some (h.prepared key) := by
  rw [prepareStream_streams, OrdMap.get?_insert, if_pos rfl, room_get?_self]
  rfl

/-- Nothing is evicted for a stream that is there or still fits. -/
theorem room_eq (hroom : h.streams.get? key = none →
    h.streams.size < maxVideoEpochStreamStates) : h.room key = h.streams := by
  rcases h.room_cases key with heq | ⟨_, hnone, hfull, _⟩
  · exact heq
  · exact absurd (hroom hnone) (Nat.not_lt.mpr hfull)

theorem prepareStream_snd (hroom : h.streams.get? key = none →
    h.streams.size < maxVideoEpochStreamStates) (out : VideoHoldbackOutcome) :
    (h.prepareStream key out).2 = out := by
  have hkeep : (!h.streams.contains key &&
      decide (h.streams.size ≥ maxVideoEpochStreamStates)) = false := by
    cases hget : h.streams.get? key with
    | none => simp [hroom hget]
    | some st => simp [OrdMap.contains, hget]
  unfold prepareStream
  rw [hkeep]
  rfl

/-- Another stream is kept as it is, or evicted. -/
theorem prepareStream_get?_ne (h : VideoEpochHoldback) (out : VideoHoldbackOutcome)
    (hk : k ≠ key) :
    (h.prepareStream key out).1.streams.get? k = h.streams.get? k ∨
      (h.prepareStream key out).1.streams.get? k = none := by
  rw [prepareStream_streams, OrdMap.get?_insert, if_neg hk]
  rcases h.room_cases key with heq | ⟨e, _, _, _, heq⟩
  · exact .inl (by rw [heq])
  · rw [heq, OrdMap.get?_erase]
    split
    · exact .inr rfl
    · exact .inl rfl

/-- The stream table stays within its bound. -/
theorem prepareStream_size_le (h : VideoEpochHoldback) (key : VideoStreamKey)
    (out : VideoHoldbackOutcome) (hsize : h.streams.size ≤ maxVideoEpochStreamStates) :
    (h.prepareStream key out).1.streams.size ≤ maxVideoEpochStreamStates := by
  rw [prepareStream_streams]
  cases hget : h.streams.get? key with
  | some st =>
      have hroom := (h.room_get?_self key).trans hget
      rw [OrdMap.size_insert_of_some _ hroom]
      rcases h.room_cases key with heq | ⟨_, hnone, _⟩
      · rw [heq]
        exact hsize
      · rw [hget] at hnone
        cases hnone
  | none =>
      have hroom := (h.room_get?_self key).trans hget
      rw [OrdMap.size_insert_of_none _ hroom]
      by_cases hfull : maxVideoEpochStreamStates ≤ h.streams.size
      · -- the table is full, so there is an oldest stream to evict
        have hold : ∃ e, h.oldest = some e := by
          rw [← Option.ne_none_iff_exists']
          intro hnone
          have hnil : h.streams.entries = [] := List.argmin_eq_none.mp hnone
          have : h.streams.size = 0 := by simp [OrdMap.size, hnil]
          rw [this] at hfull
          exact absurd hfull (by decide)
        obtain ⟨e, he⟩ := hold
        have hroomeq : h.room key = h.streams.erase e.1 := by
          unfold room
          rw [OrdMap.contains_eq_false_iff.mpr hget, he]
          simp [hfull]
        rw [hroomeq]
        have := OrdMap.size_erase (oldest_mem he)
        omega
      · rcases h.room_cases key with heq | ⟨_, _, hge, _⟩
        · rw [heq]
          omega
        · exact absurd hge hfull

/-- Preparing a stream adds nothing to a total that ignores activity. -/
theorem prepareStream_total_le (h : VideoEpochHoldback) (key : VideoStreamKey)
    (out : VideoHoldbackOutcome) (f : VideoEpochStreamState → Nat)
    (htouch : ∀ st generation, f { st with lastActivity := generation } = f st)
    (hdefault : f .default = 0) :
    (h.prepareStream key out).1.streams.total f ≤ h.streams.total f := by
  have hroom : (h.room key).total f ≤ h.streams.total f := by
    rcases h.room_cases key with heq | ⟨e, _, _, hold, heq⟩ <;> rw [heq]
    have := OrdMap.total_erase f (oldest_mem hold)
    omega
  rw [prepareStream_streams, OrdMap.total_insert, htouch]
  cases hget : (h.room key).get? key with
  | none =>
      rw [OrdMap.erase_eq_of_get?_none hget, Option.getD_none, hdefault]
      omega
  | some st =>
      have := OrdMap.total_erase f hget
      rw [Option.getD_some]
      omega

theorem prepareStream_frames_le (h : VideoEpochHoldback) (key : VideoStreamKey)
    (out : VideoHoldbackOutcome) :
    (h.prepareStream key out).1.frames ≤ h.frames :=
  prepareStream_total_le h key out _ (fun _ _ => rfl) rfl

theorem prepareStream_bytes_le (h : VideoEpochHoldback) (key : VideoStreamKey)
    (out : VideoHoldbackOutcome) :
    (h.prepareStream key out).1.bytes ≤ h.bytes :=
  prepareStream_total_le h key out _ (fun _ _ => rfl) rfl

/-! ## Clearing -/

theorem clearPending_get? (h : VideoEpochHoldback) (k : VideoStreamKey) :
    h.clearPending.streams.get? k = (h.streams.get? k).map (fun st =>
      { st with pending := ∅, pendingBytes := 0, gapStartedAt := none }) := by
  simp [clearPending]

@[simp] theorem clearPending_size (h : VideoEpochHoldback) :
    h.clearPending.streams.size = h.streams.size := by
  simp [clearPending, OrdMap.size, OrdMap.mapVals]

theorem clearPending_totals (h : VideoEpochHoldback) :
    h.clearPending.frames = 0 ∧ h.clearPending.bytes = 0 := by
  constructor
  · simp only [frames, clearPending, OrdMap.total, OrdMap.mapVals, List.map_map]
    refine List.sum_eq_zero ?_
    intro x hx
    obtain ⟨e, _, rfl⟩ := List.mem_map.mp hx
    rfl
  · simp only [bytes, clearPending, OrdMap.total, OrdMap.mapVals, List.map_map]
    refine List.sum_eq_zero ?_
    intro x hx
    obtain ⟨e, _, rfl⟩ := List.mem_map.mp hx
    rfl

/-! ## Whole calls -/

/-- The hold-back with stream `key` in state `st`. -/
def setStream (h : VideoEpochHoldback) (key : VideoStreamKey) (st : VideoEpochStreamState) :
    VideoEpochHoldback :=
  { h with streams := h.streams.insert key st }

@[simp] theorem setStream_get? (h : VideoEpochHoldback) (key k : VideoStreamKey)
    (st : VideoEpochStreamState) :
    (h.setStream key st).streams.get? k = if k = key then some st else h.streams.get? k := by
  simp [setStream]

theorem setStream_setStream (h : VideoEpochHoldback) (key : VideoStreamKey)
    (st st' : VideoEpochStreamState) :
    (h.setStream key st).setStream key st' = h.setStream key st' := by
  have hstreams : ((h.setStream key st).setStream key st').streams =
      (h.setStream key st').streams := by
    apply OrdMap.ext_get?
    intro k
    rw [setStream_get?, setStream_get?, setStream_get?]
    split <;> rfl
  exact congrArg (VideoEpochHoldback.mk · h.activityGeneration) hstreams

/-- The stream that `accept_keyframe` has opened when it starts to drain. -/
def keyframeStream (h : VideoEpochHoldback) (info : VideoSourceInfo) (now reorderWindow : Time) :
    VideoEpochStreamState :=
  openEpoch (((h.retainStreams info.key).expire now reorderWindow).1.prepared info.key)
    info.frameId

theorem acceptKeyframe_fst (h : VideoEpochHoldback) (info : VideoSourceInfo)
    (payload : Bytes) (now reorderWindow : Time) :
    (h.acceptKeyframe info payload now reorderWindow).1 =
      (((h.retainStreams info.key).expire now reorderWindow).1.prepareStream info.key
        ((h.retainStreams info.key).expire now reorderWindow).2).1.setStream info.key
        ((h.keyframeStream info now reorderWindow).drainReady now reorderWindow).1 := by
  unfold acceptKeyframe keyframeStream
  simp only [prepareStream_get?_self, Option.getD_some]
  rfl

/-- What `accept_keyframe` hands on: what expired, the keyframe, what it opened. -/
theorem acceptKeyframe_ready (h : VideoEpochHoldback) (info : VideoSourceInfo) (payload : Bytes)
    (now reorderWindow : Time) :
    (h.acceptKeyframe info payload now reorderWindow).2.ready =
      ((h.retainStreams info.key).expire now reorderWindow).2.ready ++ (info, payload) ::
        ((h.keyframeStream info now reorderWindow).drainReady now reorderWindow).2.ready := by
  unfold acceptKeyframe keyframeStream
  simp only [prepareStream_get?_self, Option.getD_some, VideoHoldbackOutcome.addDrained,
    prepareStream_ready, List.append_assoc, List.singleton_append]

/-- The recovery that `accept_keyframe` asks for: what expiry and eviction ask
for, and a recovery for a gap that the drain skipped. -/
theorem acceptKeyframe_recovery (h : VideoEpochHoldback) (info : VideoSourceInfo)
    (payload : Bytes) (now reorderWindow : Time) :
    (h.acceptKeyframe info payload now reorderWindow).2.recoveryRequired =
      ((((h.retainStreams info.key).expire now reorderWindow).1.prepareStream info.key
        ((h.retainStreams info.key).expire now reorderWindow).2).2.recoveryRequired ||
        decide (((h.keyframeStream info now reorderWindow).drainReady
          now reorderWindow).2.skippedFrames > 0)) ∧
    (h.acceptKeyframe info payload now reorderWindow).2.strictRecoveryRequired =
      (((h.retainStreams info.key).expire now reorderWindow).1.prepareStream info.key
        ((h.retainStreams info.key).expire now reorderWindow).2).2.strictRecoveryRequired := by
  unfold acceptKeyframe keyframeStream
  constructor
  · simp only [prepareStream_get?_self, Option.getD_some, VideoHoldbackOutcome.addDrained]
  · simp only [prepareStream_get?_self, Option.getD_some, VideoHoldbackOutcome.addDrained]

/-- The delta is neither without an epoch, nor obsolete, nor already pending, so
`admit_delta` puts it among the pending frames. -/
def admits (h : VideoEpochHoldback) (info : VideoSourceInfo) (referenceEpoch : Nat)
    (now reorderWindow : Time) : Bool :=
  let st := (h.expire now reorderWindow).1.prepared info.key
  decide (referenceEpoch ≠ 0) && !obsoleteDelta st referenceEpoch info.frameId &&
    !st.pending.contains (frameKey referenceEpoch info.frameId)

/-- The stream state that holds a delta on arrival. -/
def holdDelta (st : VideoEpochStreamState) (info : VideoSourceInfo) (referenceEpoch : Nat)
    (payload : Bytes) (now : Time) : VideoEpochStreamState :=
  hold st referenceEpoch
    { info := info, payload := payload, receivedAt := now
      countedHeld := countedHeld st referenceEpoch info.frameId }

/-- What one `admit_delta` can do: nothing beyond expiry, only prepare the
stream, drop everything, or hold the delta and drain its stream. -/
theorem admitDelta_cases (h : VideoEpochHoldback) (info : VideoSourceInfo) (referenceEpoch : Nat)
    (payload : Bytes) (now reorderWindow : Time) {h' : VideoEpochHoldback}
    {out : VideoHoldbackOutcome}
    (hcall : h.admitDelta info referenceEpoch payload now reorderWindow = (h', out)) :
    let e := h.expire now reorderWindow
    let p := e.1.prepareStream info.key e.2
    let st := holdDelta (e.1.prepared info.key) info referenceEpoch payload now
    let held := p.1.setStream info.key st
    (referenceEpoch = 0 ∧ h.admits info referenceEpoch now reorderWindow = false ∧
      h' = e.1 ∧ out.ready = e.2.ready) ∨
    (referenceEpoch ≠ 0 ∧ h.admits info referenceEpoch now reorderWindow = false ∧
      h' = p.1 ∧ out = p.2) ∨
    (h.admits info referenceEpoch now reorderWindow = true ∧ held.overflows = true ∧
      h' = held.clearPending ∧ out.ready = e.2.ready) ∨
    (h.admits info referenceEpoch now reorderWindow = true ∧ held.overflows = false ∧
      h' = held.setStream info.key (st.drainReady now reorderWindow).1 ∧
      out.ready = e.2.ready ++ (st.drainReady now reorderWindow).2.ready ∧
      out.recoveryRequired = (p.2.recoveryRequired ||
        decide ((st.drainReady now reorderWindow).2.skippedFrames > 0)) ∧
      out.strictRecoveryRequired = p.2.strictRecoveryRequired) := by
  intro e p st held
  unfold admitDelta at hcall
  change (if referenceEpoch = 0 then (e.1, _) else
    p.1.admitPrepared p.2 info referenceEpoch payload now reorderWindow) = _ at hcall
  by_cases hzero : referenceEpoch = 0
  · rw [if_pos hzero, Prod.mk.injEq] at hcall
    obtain ⟨rfl, rfl⟩ := hcall
    exact .inl ⟨hzero, by simp [admits, hzero], rfl, rfl⟩
  · rw [if_neg hzero] at hcall
    have hprep : (p.1.streams.get? info.key).getD .default = e.1.prepared info.key := by
      rw [prepareStream_get?_self, Option.getD_some]
    unfold admitPrepared at hcall
    simp only [hprep] at hcall
    have hready : p.2.ready = e.2.ready := prepareStream_ready _ _ _
    cases hobs : obsoleteDelta (e.1.prepared info.key) referenceEpoch info.frameId with
    | true =>
        rw [hobs, if_pos rfl] at hcall
        cases hcall
        have hno : h.admits info referenceEpoch now reorderWindow = false := by
          show (_ && !obsoleteDelta (e.1.prepared info.key) _ _ && _) = false
          simp [hobs]
        exact .inr (.inl ⟨hzero, hno, rfl, rfl⟩)
    | false =>
        simp only [hobs, Bool.false_eq_true, if_false] at hcall
        cases hdup : (e.1.prepared info.key).pending.contains
            (frameKey referenceEpoch info.frameId) with
        | true =>
            rw [hdup, if_pos rfl] at hcall
            cases hcall
            have hno : h.admits info referenceEpoch now reorderWindow = false := by
              show (_ && !(e.1.prepared info.key).pending.contains _) = false
              simp [hdup]
            exact .inr (.inl ⟨hzero, hno, rfl, rfl⟩)
        | false =>
            have hyes : h.admits info referenceEpoch now reorderWindow = true := by
              show (decide (referenceEpoch ≠ 0) &&
                !obsoleteDelta (e.1.prepared info.key) _ _ &&
                !(e.1.prepared info.key).pending.contains _) = true
              simp [hobs, hdup, hzero]
            simp only [hdup, Bool.false_eq_true, if_false] at hcall
            cases hover : held.overflows with
            | true =>
                refine .inr (.inr (.inl ⟨hyes, rfl, ?_⟩))
                change (if held.overflows = true then _ else _) = _ at hcall
                rw [hover, if_pos rfl, Prod.mk.injEq] at hcall
                obtain ⟨rfl, rfl⟩ := hcall
                refine ⟨rfl, ?_⟩
                rw [← hready]
                show (if countedHeld _ _ _ = true then _ else p.2).ready = _
                split <;> rfl
            | false =>
                refine .inr (.inr (.inr ⟨hyes, rfl, ?_⟩))
                change (if held.overflows = true then _ else _) = _ at hcall
                rw [hover, if_neg Bool.false_ne_true, Prod.mk.injEq] at hcall
                obtain ⟨rfl, rfl⟩ := hcall
                refine ⟨rfl, ?_⟩
                rw [← hready]
                refine ⟨?_, ?_, ?_⟩
                · show (if countedHeld _ _ _ = true then _ else p.2).ready ++ _ = _
                  split <;> rfl
                · show ((if countedHeld _ _ _ = true then _ else p.2).recoveryRequired || _) = _
                  split <;> rfl
                · show (if countedHeld _ _ _ = true then _ else p.2).strictRecoveryRequired = _
                  split <;> rfl

/-- The conditions under which a delta is put among the pending frames. -/
theorem admits_iff {info : VideoSourceInfo} {epoch : Nat} :
    h.admits info epoch now reorderWindow = true ↔
      epoch ≠ 0 ∧
      obsoleteDelta ((h.expire now reorderWindow).1.prepared info.key) epoch info.frameId = false ∧
      ((h.expire now reorderWindow).1.prepared info.key).pending.contains
        (frameKey epoch info.frameId) = false := by
  simp [admits, and_assoc]

/-- A delta held within the limits has its bytes counted exactly. -/
theorem hold_bytes {st : VideoEpochStreamState} {epoch : Nat} {frame : HeldVideoFrame}
    (hover : (h.setStream key (hold st epoch frame)).overflows = false) :
    satAdd st.pendingBytes frame.length = st.pendingBytes + frame.length := by
  have hbytes := (totals_of_not_overflows hover).2
  have hget : (h.setStream key (hold st epoch frame)).streams.get? key =
      some (hold st epoch frame) := by simp
  have hle := OrdMap.le_total (fun st => st.pendingBytes) hget
  exact satAdd_eq_of_le (by decide) (Nat.le_trans hle hbytes)

/-- Holding a delta adds one frame and its bytes. -/
theorem hold_totals {st : VideoEpochStreamState} {epoch id : Nat}
    (hst : h.streams.get? key = some st)
    (hnew : st.pending.contains (frameKey epoch id) = false) (frame : HeldVideoFrame)
    (hid : frame.info.frameId = id) :
    (h.setStream key (hold st epoch frame)).frames = h.frames + 1 ∧
      (h.setStream key (hold st epoch frame)).bytes ≤ h.bytes + frame.length := by
  subst hid
  have hsize := OrdMap.size_insert_of_none frame (OrdMap.contains_eq_false_iff.mp hnew)
  have h1 := OrdMap.total_erase (fun st => st.pending.size) hst
  have h2 := OrdMap.total_erase (fun st => st.pendingBytes) hst
  have hle := satAdd_le_add st.pendingBytes frame.length
  unfold frames bytes
  constructor
  · show (h.streams.insert key _).total _ = _
    rw [OrdMap.total_insert]
    show (st.pending.insert _ frame).size + _ = _
    omega
  · show (h.streams.insert key _).total _ ≤ _
    rw [OrdMap.total_insert]
    show satAdd st.pendingBytes frame.length + _ ≤ _
    omega

/-- Dropping everything also drops the delta that was just held. -/
theorem clearPending_hold {p : VideoEpochHoldback} {st : VideoEpochStreamState}
    {epoch : Nat} {frame : HeldVideoFrame} (hst : p.streams.get? key = some st) :
    (p.setStream key (hold st epoch frame)).clearPending = p.clearPending := by
  have hstreams : (p.setStream key (hold st epoch frame)).clearPending.streams =
      p.clearPending.streams := by
    apply OrdMap.ext_get?
    intro k
    rw [clearPending_get?, clearPending_get?, setStream_get?]
    split
    · rename_i hk
      rw [hk, hst]
      rfl
    · rfl
  exact congrArg (VideoEpochHoldback.mk · p.activityGeneration) hstreams

/-! ## Properties of every stream -/

/-- Every stream of the table satisfies `P`. -/
def AllStreams (P : VideoEpochStreamState → Prop) (h : VideoEpochHoldback) : Prop :=
  ∀ k st, h.streams.get? k = some st → P st

/-- A property that survives every edit the hold-back makes to a stream. -/
structure Closed (P : VideoEpochStreamState → Prop) : Prop where
  default : P .default
  touch : ∀ st generation, P st → P { st with lastActivity := generation }
  expire : ∀ st now reorderWindow, P st → P (st.expireStream now reorderWindow).1
  clear : ∀ st, P st → P { st with pending := ∅, pendingBytes := 0, gapStartedAt := none }
  held : ∀ st info epoch payload now reorderWindow, P st →
    st.pending.contains (frameKey epoch info.frameId) = false →
    satAdd st.pendingBytes payload.length = st.pendingBytes + payload.length →
    P ((holdDelta st info epoch payload now).drainReady now reorderWindow).1
  opened : ∀ st id now reorderWindow, P st →
    P ((openEpoch st id).drainReady now reorderWindow).1

namespace AllStreams

variable {P : VideoEpochStreamState → Prop} {info : VideoSourceInfo} {epoch : Nat}
  {payload : Bytes}

theorem retainStreams (hall : h.AllStreams P) (key : VideoStreamKey) :
    (h.retainStreams key).AllStreams P :=
  fun k st hst => hall k st (OrdMap.get?_filter_eq_some.mp hst).1

theorem setStream {st : VideoEpochStreamState} (hall : h.AllStreams P) (hst : P st) :
    (h.setStream key st).AllStreams P := by
  intro k st' hst'
  rw [setStream_get?] at hst'
  split at hst'
  · exact Option.some.inj hst' ▸ hst
  · exact hall k st' hst'

theorem expire (hP : Closed P) (hall : h.AllStreams P) (now reorderWindow : Time) :
    (h.expire now reorderWindow).1.AllStreams P := by
  intro k st hst
  rw [expire_get?, Option.map_eq_some_iff] at hst
  obtain ⟨st', hst', rfl⟩ := hst
  exact hP.expire st' now reorderWindow (hall k st' hst')

theorem clearPending (hP : Closed P) (hall : h.AllStreams P) : h.clearPending.AllStreams P := by
  intro k st hst
  rw [clearPending_get?, Option.map_eq_some_iff] at hst
  obtain ⟨st', hst', rfl⟩ := hst
  exact hP.clear st' (hall k st' hst')

theorem prepared (hP : Closed P) (hall : h.AllStreams P) (key : VideoStreamKey) :
    P (h.prepared key) := by
  refine hP.touch _ _ ?_
  cases hget : h.streams.get? key with
  | none => exact hP.default
  | some st => exact hall key st hget

theorem prepareStream (hP : Closed P) (hall : h.AllStreams P) (key : VideoStreamKey)
    (out : VideoHoldbackOutcome) : (h.prepareStream key out).1.AllStreams P := by
  intro k st hst
  by_cases hk : k = key
  · rw [hk, prepareStream_get?_self] at hst
    exact Option.some.inj hst ▸ hall.prepared hP key
  · rcases prepareStream_get?_ne h out hk with hget | hget <;> rw [hget] at hst
    · exact hall k st hst
    · cases hst

theorem admitDelta (hP : Closed P) (hall : h.AllStreams P) :
    (h.admitDelta info epoch payload now reorderWindow).1.AllStreams P := by
  have hexp := hall.expire hP now reorderWindow
  have hprep := hexp.prepareStream hP info.key (h.expire now reorderWindow).2
  have hget := prepareStream_get?_self (h.expire now reorderWindow).1 info.key
    (h.expire now reorderWindow).2
  have hcall := (Prod.mk.eta (p := h.admitDelta info epoch payload now reorderWindow)).symm
  rcases admitDelta_cases h info epoch payload now reorderWindow hcall with
    ⟨_, _, heq, _⟩ | ⟨_, _, heq, _⟩ | ⟨_, _, heq, _⟩ | ⟨hyes, hover, heq, _⟩ <;> rw [heq]
  · exact hexp
  · exact hprep
  · rw [holdDelta, clearPending_hold hget]
    exact hprep.clearPending hP
  · obtain ⟨_, _, hnew⟩ := admits_iff.mp hyes
    rw [setStream_setStream]
    exact hprep.setStream
      (hP.held _ _ _ _ _ _ (hexp.prepared hP info.key) hnew (hold_bytes hover))

theorem acceptKeyframe (hP : Closed P) (hall : h.AllStreams P) (payload : Bytes) :
    (h.acceptKeyframe info payload now reorderWindow).1.AllStreams P := by
  have hexp := (hall.retainStreams info.key).expire hP now reorderWindow
  rw [acceptKeyframe_fst]
  exact (hexp.prepareStream hP _ _).setStream
    (hP.opened _ _ _ _ (hexp.prepared hP info.key))

end AllStreams

/-- The byte counters stay exact. -/
theorem closed_exact : Closed Exact where
  default := rfl
  touch _ _ h := h
  expire _ now reorderWindow h := (h.drain now reorderWindow).dropPending _
  clear _ _ := rfl
  held st info epoch payload now reorderWindow h hnew hbytes := by
    refine Exact.drain ?_ now reorderWindow
    show Exact (hold st epoch _)
    exact h.hold hnew hbytes
  opened st id now reorderWindow h := by
    refine Exact.drain ?_ now reorderWindow
    refine Exact.dropPending ?_ _
    exact h

end VideoEpochHoldback

end HbbCommon.Transport
