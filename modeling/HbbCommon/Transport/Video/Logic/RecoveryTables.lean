import HbbCommon.Transport.Video.ReceiveRecovery
import HbbCommon.Base.TSys

/-!
# The tables of the receiver's recovery state

Three tables are kept side by side: the streams, the pending requests and the
times of the last requests. Entries leave them by eviction, by replacement of a
display's stream and by the arrival of a keyframe, each time under a predicate of
its own. `Requests` says that a request is only kept for a tracked stream; it is
carried through every operation, also through the ones that run while the source
just observed is not tracked yet. `Tables` adds the tracked source and holds
between calls.
-/

namespace HbbCommon.Transport

open HbbCommon.Base

namespace VideoReceiveRecovery

variable {r : VideoReceiveRecovery}

/-- Every request is kept for a tracked stream, under the key of its source. -/
structure Requests (r : VideoReceiveRecovery) : Prop where
  streams_le : r.streams.size ≤ maxVideoStreamStates
  pending : ∀ (k : VideoStreamKey) (p : PendingVideoRecovery),
    r.pendingRequests.get? (k : RequestKey) = some p →
    r.streams.contains k = true ∧ ∃ source, p.source = some source ∧ source.key = k
  last : ∀ (k : VideoStreamKey) (t : Time),
    r.lastKeyframeRequestAt.get? (k : RequestKey) = some t → r.streams.contains k = true

/-- What holds between two calls. -/
structure Tables (r : VideoReceiveRecovery) : Prop extends Requests r where
  observed : ∀ info, r.lastObserved = some info → r.streams.contains info.key = true

theorem coe_ne_legacyKey (k : VideoStreamKey) : (k : RequestKey) ≠ legacyKey :=
  WithBot.coe_ne_bot

theorem coe_inj {j k : VideoStreamKey} : (j : RequestKey) = (k : RequestKey) ↔ j = k :=
  WithBot.coe_inj

/-! ## Streams that leave the table -/

theorem contains_erase_of_ne {j k : VideoStreamKey} (hjk : j ≠ k)
    (h : r.streams.contains j = true) : (r.streams.erase k).contains j = true := by
  obtain ⟨v, hv⟩ := OrdMap.contains_iff.mp h
  exact OrdMap.contains_iff.mpr ⟨v, by simpa [hjk] using hv⟩

theorem Requests.evict (h : Requests r) (key : VideoStreamKey) : Requests (r.evict key) where
  streams_le := le_trans (OrdMap.size_filter_le _ _) h.streams_le
  pending := by
    intro k p hp
    obtain ⟨hne, hp⟩ := OrdMap.get?_erase_eq_some.mp hp
    obtain ⟨hk, hsource⟩ := h.pending k p hp
    exact ⟨contains_erase_of_ne (coe_inj.not.mp hne) hk, hsource⟩
  last := by
    intro k t ht
    obtain ⟨hne, ht⟩ := OrdMap.get?_erase_eq_some.mp ht
    exact contains_erase_of_ne (coe_inj.not.mp hne) (h.last k t ht)

/-- After `prepare_stream` the stream is tracked or there is room for it. -/
def Room (r : VideoReceiveRecovery) (key : VideoStreamKey) : Prop :=
  r.streams.contains key = true ∨ r.streams.size < maxVideoStreamStates

theorem prepareStream_cases (r : VideoReceiveRecovery) (key : VideoStreamKey) :
    (r.prepareStream key = r ∧ (r.streams.contains key = true ∨
      r.streams.size < maxVideoStreamStates)) ∨
    ∃ evicted state, r.streams.get? evicted = some state ∧ r.streams.contains key = false ∧
      r.prepareStream key = r.evict evicted := by
  unfold prepareStream
  split
  · rename_i hfull
    rw [Bool.and_eq_true, Bool.not_eq_true', decide_eq_true_iff] at hfull
    cases hfirst : r.streams.first? with
    | none =>
        -- a full table has a first entry
        have hempty : r.streams.size = 0 := by
          simpa [OrdMap.first?, OrdMap.size] using hfirst
        rw [hempty] at hfull
        exact absurd hfull.2 (by decide)
    | some e =>
        exact .inr ⟨e.1, e.2, OrdMap.first?_mem hfirst, hfull.1, rfl⟩
  · rename_i hroom
    refine .inl ⟨rfl, ?_⟩
    rw [Bool.and_eq_true, Bool.not_eq_true', decide_eq_true_iff, not_and_or] at hroom
    rcases hroom with h | h
    · exact .inl (by simpa using h)
    · exact .inr (by omega)

theorem Requests.prepareStream (h : Requests r) (key : VideoStreamKey) :
    Requests (r.prepareStream key) ∧ Room (r.prepareStream key) key := by
  rcases prepareStream_cases r key with ⟨heq, hroom⟩ | ⟨evicted, state, hget, _, heq⟩
  · rw [heq]
    exact ⟨h, hroom⟩
  · rw [heq]
    refine ⟨h.evict evicted, .inr ?_⟩
    have hsize := OrdMap.size_erase hget
    have hle := h.streams_le
    show (r.streams.erase evicted).size < maxVideoStreamStates
    omega

theorem Requests.setStream (h : Requests r) {key : VideoStreamKey} (hroom : Room r key)
    (state : VideoReceiveState) : Requests (r.setStream key state) where
  streams_le := by
    show (r.streams.insert key state).size ≤ maxVideoStreamStates
    rcases hroom with hkey | hlt
    · obtain ⟨v, hv⟩ := OrdMap.contains_iff.mp hkey
      rw [OrdMap.size_insert_of_some _ hv]
      exact h.streams_le
    · exact le_trans (OrdMap.size_insert_le _ _ _) hlt
  pending := by
    intro k p hp
    obtain ⟨hk, hsource⟩ := h.pending k p hp
    exact ⟨by simp [VideoReceiveRecovery.setStream, hk], hsource⟩
  last := by
    intro k t ht
    simp [VideoReceiveRecovery.setStream, h.last k t ht]

theorem Tables.setStream {info : VideoSourceInfo} (h : Requests r) (hroom : Room r info.key)
    (hobs : r.lastObserved = some info) (state : VideoReceiveState) :
    Tables (r.setStream info.key state) where
  toRequests := h.setStream hroom state
  observed := by
    intro info' hinfo
    rw [show (r.setStream info.key state).lastObserved = some info from hobs] at hinfo
    cases hinfo
    simp [VideoReceiveRecovery.setStream]

/-- `Requests` does not read the observed source. -/
theorem Requests.observing (h : Requests r) (info : Option VideoSourceInfo) :
    Requests { r with lastObserved := info } where
  streams_le := h.streams_le
  pending := h.pending
  last := h.last

/-- A table that only lost pending requests. -/
theorem Requests.filterPending (h : Requests r)
    (p : RequestKey → PendingVideoRecovery → Bool) :
    Requests { r with pendingRequests := r.pendingRequests.filter p } where
  streams_le := h.streams_le
  pending := fun k q hq => h.pending k q (OrdMap.get?_filter_eq_some.mp hq).1
  last := h.last

theorem Requests.retireDisplay (h : Requests r) (key : VideoStreamKey) :
    Requests (r.retireDisplay key) := by
  -- a stream that keeps a request is one that the display filter keeps
  have hkeep : ∀ k, r.streams.contains k = true →
      (k.display = key.display → k.streamId = key.streamId) →
      (r.retireDisplay key).streams.contains k = true := by
    intro k hk hdisplay
    obtain ⟨v, hv⟩ := OrdMap.contains_iff.mp hk
    refine OrdMap.contains_iff.mpr ⟨v, OrdMap.get?_filter_eq_some.mpr ⟨hv, ?_⟩⟩
    by_cases hd : k.display = key.display
    · simp [hdisplay hd]
    · simp [hd]
  refine ⟨le_trans (OrdMap.size_filter_le _ _) h.streams_le, ?_, ?_⟩
  · intro k p hp
    obtain ⟨hp, hkept⟩ := OrdMap.get?_filter_eq_some.mp hp
    obtain ⟨hk, source, hsource, hkey⟩ := h.pending k p hp
    refine ⟨hkeep k hk ?_, source, hsource, hkey⟩
    intro hd
    rw [hsource, Option.any_some, hkey] at hkept
    by_contra hne
    have hneq : k ≠ key := fun heq => hne (by rw [heq])
    simp [hd, hneq] at hkept
  · intro k t ht
    have ht : (r.lastKeyframeRequestAt.filter (fun requestKey _ => keepsRequest key requestKey)).get?
        (k : RequestKey) = some t := by
      simp only [VideoReceiveRecovery.retireDisplay] at ht
      split at ht
      · rw [OrdMap.get?_erase, if_neg (coe_ne_legacyKey k)] at ht
        exact ht
      · exact ht
    obtain ⟨ht, hkept⟩ := OrdMap.get?_filter_eq_some.mp ht
    refine hkeep k (h.last k t ht) ?_
    intro hd
    have hkept : (decide (k.display ≠ key.display) || decide (k.streamId = key.streamId)) = true :=
      hkept
    simpa [hd] using hkept

/-! ## Calls -/

theorem Tables.noteSourceContext (h : Tables r) (info : VideoSourceInfo) :
    Tables (r.noteSourceContext info) := by
  unfold VideoReceiveRecovery.noteSourceContext
  split
  · exact h
  · obtain ⟨hprep, hroom⟩ := h.toRequests.prepareStream info.key
    exact Tables.setStream (hprep.observing (some info)) hroom rfl _

theorem Tables.observe (h : Tables r) (info : VideoSourceInfo) (strict : Bool) :
    Tables (r.observe info strict).1 := by
  unfold VideoReceiveRecovery.observe
  split
  · exact h
  · by_cases hkey : info.keyframe = true
    · simp only [hkey, if_true]
      obtain ⟨hprep, hroom⟩ := (h.toRequests.retireDisplay info.key).prepareStream info.key
      exact Tables.setStream ((hprep.observing (some info)).filterPending _) hroom rfl _
    · simp only [hkey, Bool.false_eq_true, if_false]
      obtain ⟨hprep, hroom⟩ := h.toRequests.prepareStream info.key
      exact Tables.setStream (hprep.observing (some info)) hroom rfl _

/-- The tables do not depend on the contents of the stream states. -/
theorem Tables.mapStreams (h : Tables r) (f : VideoStreamKey → VideoReceiveState → VideoReceiveState) :
    Tables { r with streams := r.streams.mapVals f } where
  streams_le := by simpa using h.streams_le
  pending := fun k p hp => by simpa using h.pending k p hp
  last := fun k t ht => by simpa using h.last k t ht
  observed := fun info hinfo => by simpa using h.observed info hinfo

theorem Tables.latestSource (h : Tables r) {source : VideoSourceInfo}
    (hsource : r.latestSource = some source) : r.streams.contains source.key = true := by
  unfold VideoReceiveRecovery.latestSource at hsource
  cases hobs : r.lastObserved with
  | some info =>
      rw [hobs] at hsource
      cases hsource
      exact h.observed _ hobs
  | none =>
      rw [hobs] at hsource
      obtain ⟨e, he, rfl⟩ := Option.map_eq_some_iff.mp hsource
      have hmem := List.mem_reverse.mp (List.mem_of_find?_eq_some he)
      exact OrdMap.contains_iff.mpr ⟨e.2, OrdMap.mem_entries_iff.mp hmem⟩

theorem Requests.insert (h : Requests r) {key : RequestKey} {pending : PendingVideoRecovery}
    (hkey : ∀ k : VideoStreamKey, key = (k : RequestKey) → r.streams.contains k = true ∧
      ∃ source, pending.source = some source ∧ source.key = k) (now : Time) :
    Requests { r with
      pendingRequests := r.pendingRequests.insert key pending
      lastKeyframeRequestAt := r.lastKeyframeRequestAt.insert key now } where
  streams_le := h.streams_le
  pending := by
    intro k p hp
    obtain ⟨heq, rfl⟩ | ⟨-, hp⟩ := OrdMap.get?_insert_eq_some hp
    · exact hkey k heq.symm
    · exact h.pending k p hp
  last := by
    intro k t ht
    obtain ⟨heq, -⟩ | ⟨-, ht⟩ := OrdMap.get?_insert_eq_some ht
    · exact (hkey k heq.symm).1
    · exact h.last k t ht

/-- A call either leaves the state as it is, or a request was due under its key
and is recorded. -/
theorem nextKeyframeRequestWithRecovery_cases (r : VideoReceiveRecovery) (now : Time)
    (scopedRefresh : Bool) (droppedFrames : Nat) (strictRecovery : Bool) :
    (r.nextKeyframeRequestWithRecovery now scopedRefresh droppedFrames strictRecovery = (r, none) ∧
      ∀ key, requestKey? r.latestSource scopedRefresh = some key →
        r.requestDue key r.latestSource now scopedRefresh strictRecovery = false) ∨
    ∃ key, requestKey? r.latestSource scopedRefresh = some key ∧
      r.requestDue key r.latestSource now scopedRefresh strictRecovery = true ∧
      r.nextKeyframeRequestWithRecovery now scopedRefresh droppedFrames strictRecovery =
        ({ r with
            pendingRequests := r.pendingRequests.insert key
              (r.nextPending key r.latestSource now scopedRefresh strictRecovery)
            lastKeyframeRequestAt := r.lastKeyframeRequestAt.insert key now },
          if scopedRefresh then
            (r.latestSource.bind (fun source => videoReferenceRefresh source droppedFrames
              (r.nextPending key r.latestSource now scopedRefresh strictRecovery).strictRecovery)).map
              .scopedTo
          else some .legacy) := by
  cases hkey : requestKey? r.latestSource scopedRefresh with
  | none =>
      refine .inl ⟨?_, fun key hk => by cases hk⟩
      simp only [nextKeyframeRequestWithRecovery, hkey]
  | some key =>
      cases hdue : r.requestDue key r.latestSource now scopedRefresh strictRecovery with
      | false =>
          refine .inl ⟨?_, ?_⟩
          · simp [nextKeyframeRequestWithRecovery, hkey, hdue]
          · rintro _ ⟨⟩
            exact hdue
      | true =>
          refine .inr ⟨key, rfl, hdue, ?_⟩
          simp [nextKeyframeRequestWithRecovery, hkey, hdue]

theorem Tables.nextKeyframeRequest (h : Tables r) (now : Time) (scopedRefresh : Bool)
    (droppedFrames : Nat) (strictRecovery : Bool) :
    Tables (r.nextKeyframeRequestWithRecovery now scopedRefresh droppedFrames strictRecovery).1 := by
  rcases nextKeyframeRequestWithRecovery_cases r now scopedRefresh droppedFrames strictRecovery with
    ⟨heq, _⟩ | ⟨key, hkey, _, heq⟩
  · rw [heq]
    exact h
  · rw [heq]
    refine ⟨h.toRequests.insert ?_ now, h.observed⟩
    rintro k rfl
    -- only scoped mode files a request under a stream
    unfold requestKey? at hkey
    split at hkey
    · obtain ⟨source, hsource, hk⟩ := Option.map_eq_some_iff.mp hkey
      rw [coe_inj] at hk
      subst hk
      exact ⟨h.latestSource hsource, source, hsource, rfl⟩
    · exact absurd (Option.some.inj hkey).symm (coe_ne_legacyKey k)

end VideoReceiveRecovery

/-! ## Runs -/

/-- The calls that change the recovery state. -/
inductive RecoveryCall
  | noteSourceContext (info : VideoSourceInfo)
  | observe (info : VideoSourceInfo) (strictGapRecovery : Bool)
  | markReferenceLoss
  | markStreamReferenceLoss (key : VideoStreamKey)
  | nextKeyframeRequest (now : Time) (scopedReferenceRefresh : Bool) (droppedFrames : Nat)
      (strictRecovery : Bool)
  deriving DecidableEq, Repr

namespace VideoReceiveRecovery

/-- The state after a call. -/
def after (r : VideoReceiveRecovery) : RecoveryCall → VideoReceiveRecovery
  | .noteSourceContext info => r.noteSourceContext info
  | .observe info strictGapRecovery => (r.observe info strictGapRecovery).1
  | .markReferenceLoss => r.markReferenceLoss
  | .markStreamReferenceLoss key => r.markStreamReferenceLoss key
  | .nextKeyframeRequest now scopedRefresh droppedFrames strictRecovery =>
      (r.nextKeyframeRequestWithRecovery now scopedRefresh droppedFrames strictRecovery).1

/-- The recovery state under calls in any order with any arguments. -/
def calls : TSys VideoReceiveRecovery RecoveryCall where
  init := .default
  step r call := some (r.after call)

theorem Tables.after {r : VideoReceiveRecovery} (h : Tables r) :
    ∀ call, Tables (r.after call)
  | .noteSourceContext info => h.noteSourceContext info
  | .observe info strict => h.observe info strict
  | .markReferenceLoss => h.mapStreams _
  | .markStreamReferenceLoss _ => h.mapStreams _
  | .nextKeyframeRequest now scopedRefresh droppedFrames strictRecovery =>
      h.nextKeyframeRequest now scopedRefresh droppedFrames strictRecovery

theorem tables_default : Tables VideoReceiveRecovery.default where
  streams_le := by decide
  pending := fun _ _ h => by cases h
  last := fun _ _ h => by cases h
  observed := fun _ h => by cases h

theorem tables_of_reach {r : VideoReceiveRecovery} (h : calls.Reach (fun _ _ => True) r) :
    Tables r := by
  refine h.invariant tables_default ?_
  intro s call t hs _ hstep
  cases hstep
  exact hs.after call

/-- After any calls: at most 16 streams are tracked, the source observed last is
one of them, and every request is for one of them, so neither request table has
more than 17 entries. -/
theorem recovery_tables_bounded (r : VideoReceiveRecovery)
    (h : calls.Reach (fun _ _ => True) r) :
    r.streams.size ≤ 16 ∧
    (∀ info, r.lastObserved = some info → r.streams.contains info.key = true) ∧
    (∀ (k : VideoStreamKey) (p : PendingVideoRecovery),
      r.pendingRequests.get? (k : RequestKey) = some p → r.streams.contains k = true ∧
      ∃ source, p.source = some source ∧ source.key = k) ∧
    (∀ (k : VideoStreamKey) (t : Time),
      r.lastKeyframeRequestAt.get? (k : RequestKey) = some t → r.streams.contains k = true) ∧
    r.pendingRequests.size ≤ 17 ∧ r.lastKeyframeRequestAt.size ≤ 17 := by
  have htables := tables_of_reach h
  have hstreams : r.streams.size ≤ 16 := htables.streams_le
  have hpending : r.pendingRequests.size ≤ r.streams.size + 1 :=
    OrdMap.size_le_succ_of_keys (fun k p hp => (htables.pending k p hp).1)
  have hlast : r.lastKeyframeRequestAt.size ≤ r.streams.size + 1 :=
    OrdMap.size_le_succ_of_keys htables.last
  exact ⟨hstreams, htables.observed, htables.pending, htables.last, by omega, by omega⟩

/-- Keyframe 1 of stream 1 of a display. -/
def displayKeyframe (display : Int) : VideoSourceInfo :=
  { key := { display := display, streamId := 1 }, frameId := 1, keyframe := true, codec := .h264 }

/-- Seventeen displays, each observed and asked for in scoped mode: the last one
evicts the first with its request. -/
def seventeenDisplays : List RecoveryCall :=
  (List.range 17).flatMap (fun d =>
    [.observe (displayKeyframe d) true, .nextKeyframeRequest 0 true 1 true])

theorem recovery_tables_bounded_evicting :
    ∃ r, calls.run seventeenDisplays = some r ∧ r.streams.size = 16 ∧
      r.streams.contains (displayKeyframe 0).key = false ∧ r.pendingRequests.size = 16 ∧
      r.pendingRequests.size ≤ 17 := by
  refine ⟨_, rfl, by decide +kernel, by decide +kernel, by decide +kernel, ?_⟩
  exact (recovery_tables_bounded _ (TSys.reach_of_any_run seventeenDisplays rfl)).2.2.2.2.1

end VideoReceiveRecovery

end HbbCommon.Transport
