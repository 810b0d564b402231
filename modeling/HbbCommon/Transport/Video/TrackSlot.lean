import HbbCommon.Transport.Video.Types

/-!
# The latest-frame slot (`TrackLatestSlot`)

One pending frame per track, bounded in frame size, total bytes and number of
tracks, and served by virtual finish time. The functions below are the bodies
that run under the slot mutex; `none` stands for the panic of an unsigned
subtraction that underflows.

`replaceWhenWith_cases` says everything a call can do: it may first retire the
display's older streams (`afterSource`), and then refuses, inserts or replaces.
-/

namespace HbbCommon.Transport

open HbbCommon.Base

structure PendingVideo where
  value : VideoOutbound
  finish : Nat
  deriving DecidableEq, Repr

/-- The bytes a pending frame is charged for. -/
def PendingVideo.charge (p : PendingVideo) : Nat := p.value.payload.length

/-- The state under the slot mutex. -/
structure TrackLatestState where
  pending : OrdMap VideoOutboundTrackKey PendingVideo
  lastTaken : Option VideoOutboundTrackKey
  virtualTime : Nat
  bytes : Nat
  newestStream : Fin maxVideoDisplays → Option Nat
  deriving DecidableEq

/-- `TrackLatestSlot::new` leaves this state. -/
def TrackLatestState.new : TrackLatestState :=
  { pending := ∅, lastTaken := none, virtualTime := 0, bytes := 0
    newestStream := fun _ => none }

/-- `TrackLatestSlot::new` stores at least one track. -/
def slotMaxTracks (maxTracks : Nat) : Nat := max maxTracks 1

/-- The index of a display in the per-display table, when it has one. -/
def displayIndex (display : Int) : Option (Fin maxVideoDisplays) :=
  if h : 0 ≤ display ∧ display.toNat < maxVideoDisplays then some ⟨display.toNat, h.2⟩
  else none

/-- What one `replace_when_with` call did; `replaced` carries the pending frame
that `on_replace` is shown. -/
inductive SlotOutcome
  | refused
  | inserted
  | replaced (old : VideoOutbound)
  deriving DecidableEq, Repr

/-- The boolean `replace_when_with` returns. -/
def SlotOutcome.queued : SlotOutcome → Bool
  | .refused => false
  | .inserted => true
  | .replaced _ => true

namespace TrackLatestState

/-- A pending frame of the display of `source`, but of another stream. -/
def obsolete (source : VideoStreamKey) (p : PendingVideo) : Bool :=
  p.value.sourceInfo.any fun old =>
    old.key.display == source.display && old.key.streamId != source.streamId

/-- Drop a display's pending frames of older streams and record its newest
stream. -/
def retire (s : TrackLatestState) (source : VideoStreamKey)
    (display : Fin maxVideoDisplays) : Option TrackLatestState := do
  let removedBytes := (s.pending.filter (fun _ p => obsolete source p)).total PendingVideo.charge
  let bytes ← checkedSub s.bytes removedBytes
  some { s with
    pending := s.pending.filter (fun _ p => !obsolete source p)
    bytes := bytes
    newestStream := Function.update s.newestStream display (some source.streamId) }

/-- The source check at the head of `replace_when_with`: refuse displays
outside the table and streams older than the newest one, and retire the older
streams of the display when the incoming stream is new. -/
def admitSource (s : TrackLatestState) (value : VideoOutbound) :
    Option (TrackLatestState × Bool) :=
  match value.sourceInfo with
  | none => some (s, true)
  | some source =>
      match displayIndex source.key.display with
      | none => some (s, false)
      | some display =>
          if (s.newestStream display).any (fun stream => decide (source.key.streamId < stream)) then
            some (s, false)
          else if s.newestStream display ≠ some source.key.streamId then
            (s.retire source.key display).map (fun t => (t, true))
          else some (s, true)

/-- The part of `replace_when_with` after the source check. -/
def store (maxTracks : Nat) (s : TrackLatestState) (key : VideoOutboundTrackKey)
    (value : VideoOutbound) (shouldReplace : VideoOutbound → VideoOutbound → Bool) :
    Option (TrackLatestState × SlotOutcome) := do
  let oldBytes := (s.pending.get? key).elim 0 PendingVideo.charge
  let bytes := value.payload.length
  if bytes > maxVideoFrameBytes then
    return (s, .refused)
  let others ← checkedSub s.bytes oldBytes
  if others + bytes > maxPendingVideoBytes then
    return (s, .refused)
  match s.pending.get? key with
  | some pending =>
      if !shouldReplace pending.value value then
        return (s, .refused)
      -- the waiting credit of the replaced snapshot is kept
      let credit ← checkedSub pending.finish oldBytes
      return ({ s with
        pending := s.pending.insert key { value := value, finish := credit + bytes }
        bytes := others + bytes }, .replaced pending.value)
  | none =>
      if s.pending.size ≥ maxTracks then
        return (s, .refused)
      return ({ s with
        pending := s.pending.insert key { value := value, finish := s.virtualTime + bytes }
        bytes := others + bytes }, .inserted)

/-- `TrackLatestSlot::replace_when_with`. -/
def replaceWhenWith (maxTracks : Nat) (s : TrackLatestState) (key : VideoOutboundTrackKey)
    (value : VideoOutbound) (shouldReplace : VideoOutbound → VideoOutbound → Bool) :
    Option (TrackLatestState × SlotOutcome) := do
  let (t, admitted) ← s.admitSource value
  if admitted then t.store maxTracks key value shouldReplace else return (t, .refused)

/-- Virtual finish time first, then the tracks after the last one taken, then
the track key. -/
def servicePriority (s : TrackLatestState) (e : VideoOutboundTrackKey × PendingVideo) :
    Nat ×ₗ Bool ×ₗ VideoOutboundTrackKey :=
  toLex (e.2.finish, toLex (s.lastTaken.any (fun last => decide (e.1 ≤ last)), e.1))

/-- The entry `take` serves next. -/
def next (s : TrackLatestState) : Option (VideoOutboundTrackKey × PendingVideo) :=
  s.pending.entries.argmin s.servicePriority

/-- `TrackLatestSlot::take`, one attempt: nothing is returned while nothing is
pending. -/
def take (s : TrackLatestState) : Option (TrackLatestState × Option VideoOutbound) :=
  match s.next with
  | none => some (s, none)
  | some (key, pending) => do
      let bytes ← checkedSub s.bytes pending.charge
      return ({ s with
        pending := s.pending.erase key
        lastTaken := some key
        bytes := bytes
        virtualTime := max s.virtualTime pending.finish }, some pending.value)

/-- `TrackLatestSlot::take_track`, one attempt. -/
def takeTrack (s : TrackLatestState) (key : VideoOutboundTrackKey) :
    Option (TrackLatestState × Option VideoOutbound) :=
  match s.pending.get? key with
  | none => some (s, none)
  | some pending => do
      let bytes ← checkedSub s.bytes pending.charge
      return ({ s with pending := s.pending.erase key, bytes := bytes }, some pending.value)

/-! ## What a call can do -/

/-- The state the source check leaves, by cases: unchanged, or with the older
streams of the incoming frame's display retired. -/
inductive AfterSource (s : TrackLatestState) (value : VideoOutbound) :
    TrackLatestState → Bool → Prop
  | unscoped : value.sourceInfo = none → AfterSource s value s true
  | outside {source} : value.sourceInfo = some source →
      displayIndex source.key.display = none → AfterSource s value s false
  | older {source display stream} : value.sourceInfo = some source →
      displayIndex source.key.display = some display →
      s.newestStream display = some stream → source.key.streamId < stream →
      AfterSource s value s false
  | current {source display} : value.sourceInfo = some source →
      displayIndex source.key.display = some display →
      s.newestStream display = some source.key.streamId → AfterSource s value s true
  | retired {source display bytes} : value.sourceInfo = some source →
      displayIndex source.key.display = some display →
      s.newestStream display ≠ some source.key.streamId →
      (∀ stream, s.newestStream display = some stream → stream < source.key.streamId) →
      checkedSub s.bytes
        ((s.pending.filter (fun _ p => obsolete source.key p)).total PendingVideo.charge) =
        some bytes →
      AfterSource s value
        { s with
          pending := s.pending.filter (fun _ p => !obsolete source.key p)
          bytes := bytes
          newestStream :=
            Function.update s.newestStream display (some source.key.streamId) } true

theorem afterSource_of_admitSource {s t : TrackLatestState} {value : VideoOutbound}
    {admitted : Bool} (h : s.admitSource value = some (t, admitted)) :
    AfterSource s value t admitted := by
  unfold admitSource at h
  cases hsrc : value.sourceInfo with
  | none =>
      rw [hsrc] at h
      cases h
      exact .unscoped hsrc
  | some source =>
      rw [hsrc] at h
      cases hdisp : displayIndex source.key.display with
      | none =>
          simp only [hdisp] at h
          cases h
          exact .outside hsrc hdisp
      | some display =>
          simp only [hdisp] at h
          split at h
          · rename_i hold
            cases h
            cases hnew : s.newestStream display with
            | none => simp [hnew] at hold
            | some stream => exact .older hsrc hdisp hnew (by simpa [hnew] using hold)
          · rename_i hold
            split at h
            · rename_i hne
              obtain ⟨u, hu, heq⟩ := Option.map_eq_some_iff.mp h
              obtain ⟨bytes, hbytes, hret⟩ := Option.bind_eq_some_iff.mp hu
              cases hret
              cases heq
              refine .retired hsrc hdisp hne ?_ hbytes
              intro stream hstream
              have hle : stream ≤ source.key.streamId := by
                simpa [hstream] using hold
              have hneq : stream ≠ source.key.streamId := by
                intro he
                exact hne (by rw [hstream, he])
              omega
            · rename_i heq
              cases h
              exact .current hsrc hdisp (by simpa using heq)

/-- What the storing half can do to the state the source check left. -/
inductive Stored (maxTracks : Nat) (t : TrackLatestState) (key : VideoOutboundTrackKey)
    (value : VideoOutbound) (shouldReplace : VideoOutbound → VideoOutbound → Bool) :
    TrackLatestState → SlotOutcome → Prop
  | refused : Stored maxTracks t key value shouldReplace t .refused
  | replaced {p others credit} : t.pending.get? key = some p →
      shouldReplace p.value value = true →
      value.payload.length ≤ maxVideoFrameBytes →
      checkedSub t.bytes p.charge = some others →
      others + value.payload.length ≤ maxPendingVideoBytes →
      checkedSub p.finish p.charge = some credit →
      Stored maxTracks t key value shouldReplace
        { t with
          pending := t.pending.insert key
            { value := value, finish := credit + value.payload.length }
          bytes := others + value.payload.length } (.replaced p.value)
  | inserted : t.pending.get? key = none →
      t.pending.size < maxTracks →
      value.payload.length ≤ maxVideoFrameBytes →
      t.bytes + value.payload.length ≤ maxPendingVideoBytes →
      Stored maxTracks t key value shouldReplace
        { t with
          pending := t.pending.insert key
            { value := value, finish := t.virtualTime + value.payload.length }
          bytes := t.bytes + value.payload.length } .inserted

theorem stored_of_store {maxTracks : Nat} {t u : TrackLatestState}
    {key : VideoOutboundTrackKey} {value : VideoOutbound}
    {shouldReplace : VideoOutbound → VideoOutbound → Bool} {outcome : SlotOutcome}
    (h : t.store maxTracks key value shouldReplace = some (u, outcome)) :
    Stored maxTracks t key value shouldReplace u outcome := by
  unfold store at h
  by_cases hlen : value.payload.length > maxVideoFrameBytes
  · simp only [hlen, if_true, pure, Option.some.injEq, Prod.mk.injEq] at h
    obtain ⟨rfl, rfl⟩ := h
    exact .refused
  · have hle : value.payload.length ≤ maxVideoFrameBytes := by omega
    simp only [hlen, if_false, Bind.bind, pure, Option.bind_eq_some_iff] at h
    obtain ⟨others, hothers, h⟩ := h
    by_cases htot : others + value.payload.length > maxPendingVideoBytes
    · simp only [htot, if_true, Option.some.injEq, Prod.mk.injEq] at h
      obtain ⟨rfl, rfl⟩ := h
      exact .refused
    · have htotle : others + value.payload.length ≤ maxPendingVideoBytes := by omega
      simp only [htot, if_false] at h
      cases hget : t.pending.get? key with
      | some p =>
          simp only [hget, Option.elim_some] at h hothers
          by_cases hrep : shouldReplace p.value value = true
          · simp only [hrep, Bool.not_true, Bool.false_eq_true, if_false,
              Option.bind_eq_some_iff, Option.some.injEq, Prod.mk.injEq] at h
            obtain ⟨credit, hcredit, rfl, rfl⟩ := h
            exact .replaced hget hrep hle hothers htotle hcredit
          · simp only [hrep, Bool.not_false, if_true, Option.some.injEq,
              Prod.mk.injEq] at h
            obtain ⟨rfl, rfl⟩ := h
            exact .refused
      | none =>
          have hsame : others = t.bytes := by
            simpa [hget, checkedSub, eq_comm] using hothers
          subst hsame
          simp only [hget] at h
          by_cases hsize : t.pending.size ≥ maxTracks
          · simp only [hsize, if_true, Option.some.injEq, Prod.mk.injEq] at h
            obtain ⟨rfl, rfl⟩ := h
            exact .refused
          · simp only [hsize, if_false, Option.some.injEq, Prod.mk.injEq] at h
            obtain ⟨rfl, rfl⟩ := h
            exact .inserted hget (by omega) hle htotle

/-- A call is the source check followed by a refusal or by the storing half. -/
theorem replaceWhenWith_cases {maxTracks : Nat} {s u : TrackLatestState}
    {key : VideoOutboundTrackKey} {value : VideoOutbound}
    {shouldReplace : VideoOutbound → VideoOutbound → Bool} {outcome : SlotOutcome}
    (h : s.replaceWhenWith maxTracks key value shouldReplace = some (u, outcome)) :
    ∃ t admitted, AfterSource s value t admitted ∧
      ((admitted = false ∧ u = t ∧ outcome = .refused) ∨
       (admitted = true ∧ Stored maxTracks t key value shouldReplace u outcome)) := by
  unfold replaceWhenWith at h
  obtain ⟨⟨t, admitted⟩, hadm, h⟩ := Option.bind_eq_some_iff.mp h
  refine ⟨t, admitted, afterSource_of_admitSource hadm, ?_⟩
  cases admitted with
  | false =>
      cases h
      exact .inl ⟨rfl, rfl, rfl⟩
  | true => exact .inr ⟨rfl, stored_of_store h⟩

theorem next_mem {s : TrackLatestState} {key : VideoOutboundTrackKey} {p : PendingVideo}
    (h : s.next = some (key, p)) : s.pending.get? key = some p :=
  OrdMap.mem_entries_iff.mp (List.argmin_mem h)

/-- The entry served next has the least virtual finish time. -/
theorem next_finish_le {s : TrackLatestState} {key : VideoOutboundTrackKey} {p : PendingVideo}
    (h : s.next = some (key, p)) {j : VideoOutboundTrackKey} {q : PendingVideo}
    (hj : s.pending.get? j = some q) : p.finish ≤ q.finish := by
  have hle : s.servicePriority (key, p) ≤ s.servicePriority (j, q) :=
    List.le_of_mem_argmin (OrdMap.mem_entries_iff.mpr hj) h
  rw [servicePriority, servicePriority, Prod.Lex.toLex_le_toLex] at hle
  rcases hle with hlt | ⟨heq, _⟩
  · exact le_of_lt hlt
  · exact le_of_eq heq

/-- A successful `take` removes the entry served next. -/
theorem take_cases {s u : TrackLatestState} {got : Option VideoOutbound}
    (h : s.take = some (u, got)) :
    (s.next = none ∧ u = s ∧ got = none) ∨
    ∃ key p bytes, s.next = some (key, p) ∧ checkedSub s.bytes p.charge = some bytes ∧
      got = some p.value ∧
      u = { s with
        pending := s.pending.erase key
        lastTaken := some key
        bytes := bytes
        virtualTime := max s.virtualTime p.finish } := by
  unfold take at h
  cases hnext : s.next with
  | none =>
      rw [hnext] at h
      cases h
      exact .inl ⟨rfl, rfl, rfl⟩
  | some e =>
      obtain ⟨key, p⟩ := e
      rw [hnext] at h
      obtain ⟨bytes, hbytes, hret⟩ := Option.bind_eq_some_iff.mp h
      cases hret
      exact .inr ⟨key, p, bytes, rfl, hbytes, rfl, rfl⟩

/-- A successful `take_track` removes the entry of its track. -/
theorem takeTrack_cases {s u : TrackLatestState} {key : VideoOutboundTrackKey}
    {got : Option VideoOutbound} (h : s.takeTrack key = some (u, got)) :
    (s.pending.get? key = none ∧ u = s ∧ got = none) ∨
    ∃ p bytes, s.pending.get? key = some p ∧ checkedSub s.bytes p.charge = some bytes ∧
      got = some p.value ∧
      u = { s with pending := s.pending.erase key, bytes := bytes } := by
  unfold takeTrack at h
  cases hget : s.pending.get? key with
  | none =>
      rw [hget] at h
      cases h
      exact .inl ⟨rfl, rfl, rfl⟩
  | some p =>
      rw [hget] at h
      obtain ⟨bytes, hbytes, hret⟩ := Option.bind_eq_some_iff.mp h
      cases hret
      exact .inr ⟨p, bytes, rfl, hbytes, rfl, rfl⟩

end TrackLatestState

end HbbCommon.Transport
