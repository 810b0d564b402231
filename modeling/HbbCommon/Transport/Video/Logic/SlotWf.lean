import HbbCommon.Base.TSys
import HbbCommon.Transport.Video.TrackSlot

/-!
# The slot's representation invariant

`TrackLatestState.Wf` is what every call on the latest-frame slot keeps, and
what makes each of its unsigned subtractions defined (`Wf.replaceWhenWith_defined`,
`Wf.take_defined`, `Wf.takeTrack_defined`). `SlotRun` adds the history of a run:
the virtual time at which each key was inserted, the frames admitted and the
frames taken. `slot_representation` reads the run-level facts off the invariant.
-/

namespace HbbCommon.Transport

open HbbCommon.Base

/-- The frame's stream is the newest one recorded for its display. -/
def OfNewestStream (s : TrackLatestState) (value : VideoOutbound) : Prop :=
  ∀ source, value.sourceInfo = some source →
    ∃ display, displayIndex source.key.display = some display ∧
      s.newestStream display = some source.key.streamId

/-- The representation invariant of the slot. -/
structure TrackLatestState.Wf (maxTracks : Nat) (s : TrackLatestState) : Prop where
  bytes_eq : s.bytes = s.pending.total PendingVideo.charge
  bytes_le : s.bytes ≤ maxPendingVideoBytes
  frame_le : ∀ k p, s.pending.get? k = some p → p.charge ≤ maxVideoFrameBytes
  size_le : s.pending.size ≤ maxTracks
  credit : ∀ k p, s.pending.get? k = some p → p.charge ≤ p.finish
  newest : ∀ k p, s.pending.get? k = some p → OfNewestStream s p.value

namespace TrackLatestState

variable {maxTracks : Nat} {s t u : TrackLatestState} {key : VideoOutboundTrackKey}
  {value : VideoOutbound} {shouldReplace : VideoOutbound → VideoOutbound → Bool}
  {outcome : SlotOutcome} {admitted : Bool} {got : Option VideoOutbound}

theorem wf_new (maxTracks : Nat) : Wf maxTracks TrackLatestState.new where
  bytes_eq := rfl
  bytes_le := Nat.zero_le _
  frame_le := fun _ _ h => by cases h
  size_le := Nat.zero_le _
  credit := fun _ _ h => by cases h
  newest := fun _ _ h => by cases h

/-! ## The source check -/

/-- The source check only drops pending frames. -/
theorem AfterSource.get? (h : AfterSource s value t admitted) {k : VideoOutboundTrackKey}
    {p : PendingVideo} (hp : t.pending.get? k = some p) : s.pending.get? k = some p := by
  cases h with
  | retired => exact (OrdMap.get?_filter_eq_some.mp hp).1
  | _ => exact hp

theorem AfterSource.virtualTime_eq (h : AfterSource s value t admitted) :
    t.virtualTime = s.virtualTime := by
  cases h <;> rfl

/-- A frame of another display survives the source check. -/
theorem AfterSource.get?_other (h : AfterSource s value t admitted)
    {k : VideoOutboundTrackKey} {p : PendingVideo} (hp : s.pending.get? k = some p)
    (hother : ∀ old source, p.value.sourceInfo = some old → value.sourceInfo = some source →
      old.key.display ≠ source.key.display) : t.pending.get? k = some p := by
  cases h with
  | @retired source _ _ hsrc _ _ _ _ =>
      refine OrdMap.get?_filter_eq_some.mpr ⟨hp, ?_⟩
      cases hold : p.value.sourceInfo with
      | none => simp [obsolete, hold]
      | some old => simp [obsolete, hold, hother old source hold hsrc]
  | _ => exact hp

/-- The newest streams only grow. -/
theorem AfterSource.newest_mono (h : AfterSource s value t admitted)
    {display : Fin maxVideoDisplays} {n : Nat} (hn : s.newestStream display = some n) :
    ∃ m, t.newestStream display = some m ∧ n ≤ m := by
  cases h with
  | @retired source d _ hsrc hd hne hlt _ =>
      by_cases hdd : display = d
      · subst hdd
        exact ⟨source.key.streamId, by simp, le_of_lt (hlt n hn)⟩
      · exact ⟨n, by simp [Function.update_of_ne hdd, hn], le_refl n⟩
  | _ => exact ⟨n, hn, le_refl n⟩

/-- An admitted frame is of the newest stream of its display. -/
theorem AfterSource.ofNewestStream (h : AfterSource s value t true) : OfNewestStream t value := by
  intro source hsource
  cases h with
  | unscoped hnone => rw [hnone] at hsource; cases hsource
  | @current src display hsrc hd hnew =>
      rw [hsrc] at hsource
      cases hsource
      exact ⟨display, hd, hnew⟩
  | @retired src display _ hsrc hd _ _ _ =>
      rw [hsrc] at hsource
      cases hsource
      exact ⟨display, hd, by simp⟩

/-- Displays with one table index are one display. -/
theorem displayIndex_inj {a b : Int} {d : Fin maxVideoDisplays}
    (ha : displayIndex a = some d) (hb : displayIndex b = some d) : a = b := by
  unfold displayIndex at ha hb
  split at ha
  · split at hb
    · rename_i h1 h2
      simp only [Option.some.injEq] at ha hb
      have := congrArg Fin.val (ha.trans hb.symm)
      simp only at this
      omega
    · cases hb
  · cases ha

theorem Wf.afterSource (hwf : Wf maxTracks s) (h : AfterSource s value t admitted) :
    Wf maxTracks t := by
  cases h with
  | @retired source display bytes hsrc hd hne hlt hbytes =>
      have hsplit := s.pending.total_filter_add (fun _ p => !obsolete source.key p)
        PendingVideo.charge
      simp only [Bool.not_not] at hsplit
      have hle : (s.pending.filter (fun _ p => obsolete source.key p)).total
          PendingVideo.charge ≤ s.bytes := by
        rw [hwf.bytes_eq]
        exact OrdMap.total_filter_le _ _ _
      rw [checkedSub_eq_some hle, Option.some.injEq] at hbytes
      have hbound := hwf.bytes_le
      have heq := hwf.bytes_eq
      refine ⟨?_, ?_, ?_, ?_, ?_, ?_⟩
      · show bytes = (s.pending.filter (fun _ p => !obsolete source.key p)).total _
        omega
      · show bytes ≤ _
        omega
      · exact fun k p hp => hwf.frame_le k p (OrdMap.get?_filter_eq_some.mp hp).1
      · exact le_trans (OrdMap.size_filter_le _ _) hwf.size_le
      · exact fun k p hp => hwf.credit k p (OrdMap.get?_filter_eq_some.mp hp).1
      · -- a kept frame of the incoming display is of the incoming stream
        intro k p hp old hold
        obtain ⟨hp', hkeep⟩ := OrdMap.get?_filter_eq_some.mp hp
        obtain ⟨d, hd', hnew⟩ := hwf.newest k p hp' old hold
        refine ⟨d, hd', ?_⟩
        by_cases hdd : d = display
        · subst hdd
          have hdisp : old.key.display = source.key.display := displayIndex_inj hd' hd
          have hstream : old.key.streamId = source.key.streamId := by
            simpa [obsolete, hold, hdisp] using hkeep
          simp [hstream]
        · simp [Function.update_of_ne hdd, hnew]
  | _ => exact hwf

/-! ## The storing half -/

theorem Stored.newestStream_eq (h : Stored maxTracks t key value shouldReplace u outcome) :
    u.newestStream = t.newestStream := by
  cases h <;> rfl

theorem Stored.virtualTime_eq (h : Stored maxTracks t key value shouldReplace u outcome) :
    u.virtualTime = t.virtualTime := by
  cases h <;> rfl

/-- Binding a key to an admissible frame keeps the invariant. -/
theorem Wf.insert (hwf : Wf maxTracks t) (hval : OfNewestStream t value)
    (hlen : value.payload.length ≤ maxVideoFrameBytes) {finish bytes : Nat}
    (hfinish : value.payload.length ≤ finish)
    (hbytes : bytes = value.payload.length + (t.pending.erase key).total PendingVideo.charge)
    (hle : bytes ≤ maxPendingVideoBytes)
    (hsize : (t.pending.erase key).size + 1 ≤ maxTracks) :
    Wf maxTracks { t with
      pending := t.pending.insert key { value := value, finish := finish }, bytes := bytes } := by
  have hcase : ∀ k q, (t.pending.insert key { value := value, finish := finish }).get? k = some q →
      q = { value := value, finish := finish } ∨ t.pending.get? k = some q := by
    intro k q hq
    exact (OrdMap.get?_insert_eq_some hq).imp And.right And.right
  refine ⟨?_, hle, ?_, ?_, ?_, ?_⟩
  · show bytes = (t.pending.insert _ _).total _
    rw [OrdMap.total_insert]
    exact hbytes
  · intro k q hq
    rcases hcase k q hq with rfl | hq
    · exact hlen
    · exact hwf.frame_le k q hq
  · show (t.pending.insert _ _).size ≤ _
    rw [OrdMap.size_insert]
    exact hsize
  · intro k q hq
    rcases hcase k q hq with rfl | hq
    · exact hfinish
    · exact hwf.credit k q hq
  · intro k q hq
    rcases hcase k q hq with rfl | hq
    · exact hval
    · exact hwf.newest k q hq

theorem Wf.charge_le (hwf : Wf maxTracks s) {p : PendingVideo}
    (hget : s.pending.get? key = some p) : p.charge ≤ s.bytes := by
  rw [hwf.bytes_eq]
  exact OrdMap.le_total _ hget

theorem Wf.stored (hwf : Wf maxTracks t) (hval : OfNewestStream t value)
    (h : Stored maxTracks t key value shouldReplace u outcome) : Wf maxTracks u := by
  have heq := hwf.bytes_eq
  cases h with
  | refused => exact hwf
  | @replaced p others credit hget _ hlen hothers htot hcredit =>
      rw [checkedSub_eq_some (hwf.charge_le hget), Option.some.injEq] at hothers
      have herase := OrdMap.total_erase PendingVideo.charge hget
      have hsize := OrdMap.size_erase hget
      have hmax := hwf.size_le
      exact hwf.insert hval hlen (Nat.le_add_left _ _) (by omega) htot (by omega)
  | inserted hget hsize hlen htot =>
      refine hwf.insert hval hlen (Nat.le_add_left _ _) ?_ htot ?_
      · rw [OrdMap.erase_eq_of_get?_none hget]
        omega
      · rw [OrdMap.erase_eq_of_get?_none hget]
        omega

/-! ## Whole calls -/

theorem Wf.replaceWhenWith (hwf : Wf maxTracks s)
    (h : s.replaceWhenWith maxTracks key value shouldReplace = some (u, outcome)) :
    Wf maxTracks u := by
  obtain ⟨t, admitted, hsrc, ⟨_, rfl, _⟩ | ⟨rfl, hst⟩⟩ := replaceWhenWith_cases h
  · exact hwf.afterSource hsrc
  · exact (hwf.afterSource hsrc).stored hsrc.ofNewestStream hst

/-- Erasing a pending entry and its bytes keeps the invariant; the virtual
time and the last key taken do not matter. -/
theorem Wf.erase (hwf : Wf maxTracks s) {p : PendingVideo} {bytes : Nat}
    (hget : s.pending.get? key = some p) (hbytes : checkedSub s.bytes p.charge = some bytes)
    (last : Option VideoOutboundTrackKey) (time : Nat) :
    Wf maxTracks { s with
      pending := s.pending.erase key, lastTaken := last, bytes := bytes, virtualTime := time } := by
  rw [checkedSub_eq_some (hwf.charge_le hget), Option.some.injEq] at hbytes
  have herase := OrdMap.total_erase PendingVideo.charge hget
  have hsize := OrdMap.size_erase hget
  have heq := hwf.bytes_eq
  have hbound := hwf.bytes_le
  have hmax := hwf.size_le
  have hsub : ∀ k q, (s.pending.erase key).get? k = some q → s.pending.get? k = some q := by
    intro k q hq
    by_cases hk : k = key
    · simp [hk] at hq
    · simpa [hk] using hq
  refine ⟨?_, ?_, ?_, ?_, ?_, ?_⟩
  · show bytes = (s.pending.erase key).total _
    omega
  · show bytes ≤ _
    omega
  · exact fun k q hq => hwf.frame_le k q (hsub k q hq)
  · show (s.pending.erase key).size ≤ _
    omega
  · exact fun k q hq => hwf.credit k q (hsub k q hq)
  · exact fun k q hq => hwf.newest k q (hsub k q hq)

theorem Wf.take (hwf : Wf maxTracks s) (h : s.take = some (u, got)) : Wf maxTracks u := by
  rcases take_cases h with ⟨_, rfl, _⟩ | ⟨k, p, bytes, hnext, hbytes, _, rfl⟩
  · exact hwf
  · exact hwf.erase (next_mem hnext) hbytes _ _

theorem Wf.takeTrack (hwf : Wf maxTracks s) (h : s.takeTrack key = some (u, got)) :
    Wf maxTracks u := by
  rcases takeTrack_cases h with ⟨_, rfl, _⟩ | ⟨p, bytes, hget, hbytes, _, rfl⟩
  · exact hwf
  · exact hwf.erase hget hbytes _ _

/-! ## No subtraction underflows -/

theorem Wf.admitSource_defined (hwf : Wf maxTracks s) (value : VideoOutbound) :
    ∃ r, s.admitSource value = some r := by
  unfold TrackLatestState.admitSource
  cases value.sourceInfo with
  | none => exact ⟨_, rfl⟩
  | some source =>
      simp only
      cases displayIndex source.key.display with
      | none => exact ⟨_, rfl⟩
      | some display =>
          simp only
          split
          · exact ⟨_, rfl⟩
          · split
            · have hle : (s.pending.filter (fun _ p => obsolete source.key p)).total
                  PendingVideo.charge ≤ s.bytes := by
                rw [hwf.bytes_eq]
                exact OrdMap.total_filter_le _ _ _
              simp [retire, checkedSub_eq_some hle]
            · exact ⟨_, rfl⟩

theorem Wf.store_defined (hwf : Wf maxTracks s) (key : VideoOutboundTrackKey)
    (value : VideoOutbound) (shouldReplace : VideoOutbound → VideoOutbound → Bool) :
    ∃ r, s.store maxTracks key value shouldReplace = some r := by
  unfold TrackLatestState.store
  by_cases hlen : value.payload.length > maxVideoFrameBytes
  · simp [hlen]
  · cases hget : s.pending.get? key with
    | none =>
        have hsub : checkedSub s.bytes 0 = some s.bytes := by simp [checkedSub]
        simp only [hlen, if_false, Option.elim_none, hsub, Option.bind_eq_bind, Option.bind_some]
        split
        · exact ⟨_, rfl⟩
        · split <;> exact ⟨_, rfl⟩
    | some p =>
        have hsub := checkedSub_eq_some (hwf.charge_le hget)
        have hcredit := checkedSub_eq_some (hwf.credit key p hget)
        simp only [hlen, if_false, Option.elim_some, hsub, hcredit, Option.bind_eq_bind,
          Option.bind_some]
        split
        · exact ⟨_, rfl⟩
        · split <;> exact ⟨_, rfl⟩

theorem Wf.replaceWhenWith_defined (hwf : Wf maxTracks s) (key : VideoOutboundTrackKey)
    (value : VideoOutbound) (shouldReplace : VideoOutbound → VideoOutbound → Bool) :
    ∃ r, s.replaceWhenWith maxTracks key value shouldReplace = some r := by
  obtain ⟨⟨t, admitted⟩, hadm⟩ := hwf.admitSource_defined value
  unfold TrackLatestState.replaceWhenWith
  rw [hadm]
  cases admitted with
  | false => exact ⟨_, rfl⟩
  | true =>
      exact (hwf.afterSource (afterSource_of_admitSource hadm)).store_defined key value
        shouldReplace

theorem Wf.take_defined (hwf : Wf maxTracks s) : ∃ r, s.take = some r := by
  unfold TrackLatestState.take
  cases hnext : s.next with
  | none => exact ⟨_, rfl⟩
  | some e =>
      simp [checkedSub_eq_some (hwf.charge_le (next_mem hnext))]

theorem Wf.takeTrack_defined (hwf : Wf maxTracks s) (key : VideoOutboundTrackKey) :
    ∃ r, s.takeTrack key = some r := by
  unfold TrackLatestState.takeTrack
  cases hget : s.pending.get? key with
  | none => exact ⟨_, rfl⟩
  | some p =>
      simp [checkedSub_eq_some (hwf.charge_le hget)]

/-- A refused call keeps the pending frames of every other display. -/
theorem refused_get? (h : s.replaceWhenWith maxTracks key value shouldReplace =
      some (u, .refused)) {k : VideoOutboundTrackKey} {p : PendingVideo}
    (hp : s.pending.get? k = some p)
    (hother : ∀ old source, p.value.sourceInfo = some old → value.sourceInfo = some source →
      old.key.display ≠ source.key.display) : u.pending.get? k = some p := by
  obtain ⟨t, admitted, hsrc, ⟨_, rfl, _⟩ | ⟨rfl, hst⟩⟩ := replaceWhenWith_cases h
  · exact hsrc.get?_other hp hother
  · cases hst with
    | refused => exact hsrc.get?_other hp hother

end TrackLatestState

/-! ## Runs -/

/-- One call on the slot, made with `should_replace_pending_video`. -/
inductive SlotCall
  | replace (key : VideoOutboundTrackKey) (value : VideoOutbound)
  | take
  | takeTrack (key : VideoOutboundTrackKey)

/-- A slot with its history, newest first. -/
structure SlotRun where
  slot : TrackLatestState
  /-- The virtual time at which each key was last inserted. -/
  insertedAt : VideoOutboundTrackKey → Nat
  admitted : List VideoOutbound
  taken : List VideoOutbound

namespace SlotRun

def new : SlotRun :=
  { slot := .new, insertedAt := fun _ => 0, admitted := [], taken := [] }

/-- Make one call and record what it did. -/
def step (maxTracks : Nat) (r : SlotRun) : SlotCall → Option SlotRun
  | .replace key value => do
      let (slot, outcome) ←
        r.slot.replaceWhenWith maxTracks key value shouldReplacePendingVideo
      return { r with
        slot := slot
        insertedAt :=
          if outcome = .inserted then Function.update r.insertedAt key r.slot.virtualTime
          else r.insertedAt
        admitted := if outcome.queued then value :: r.admitted else r.admitted }
  | .take => do
      let (slot, got) ← r.slot.take
      return { r with slot := slot, taken := got.toList ++ r.taken }
  | .takeTrack key => do
      let (slot, got) ← r.slot.takeTrack key
      return { r with slot := slot, taken := got.toList ++ r.taken }

/-- Every run of calls on a slot made by `TrackLatestSlot::new(max_tracks)`. -/
def system (maxTracks : Nat) : TSys SlotRun SlotCall :=
  { init := new, step := step (slotMaxTracks maxTracks) }

/-- The pending frames, in key order. -/
def pendingValues (s : TrackLatestState) : List VideoOutbound :=
  s.pending.entries.map (fun e => e.2.value)

/-- `later` was taken after `earlier` and is not of an older stream of the same
display. -/
def NotOlder (later earlier : VideoOutbound) : Prop :=
  ∀ a b, later.sourceInfo = some a → earlier.sourceInfo = some b →
    a.key.display = b.key.display → b.key.streamId ≤ a.key.streamId

/-- The frame's stream is at most the newest one recorded for its display. -/
def AtMostNewest (s : TrackLatestState) (value : VideoOutbound) : Prop :=
  ∀ source, value.sourceInfo = some source →
    ∃ display n, displayIndex source.key.display = some display ∧
      s.newestStream display = some n ∧ source.key.streamId ≤ n

/-- The invariant of a run: the slot is well formed and its history explains
every pending and every taken frame. -/
structure Inv (maxTracks : Nat) (r : SlotRun) : Prop where
  wf : r.slot.Wf maxTracks
  credit : ∀ k p, r.slot.pending.get? k = some p → p.finish = r.insertedAt k + p.charge
  accounted : (r.taken ++ pendingValues r.slot).Subperm r.admitted
  taken_newest : ∀ x ∈ r.taken, AtMostNewest r.slot x
  taken_order : r.taken.Pairwise NotOlder

theorem pendingValues_erase {s : TrackLatestState} {k : VideoOutboundTrackKey}
    {p : PendingVideo} (h : s.pending.get? k = some p) :
    (pendingValues s).Perm (p.value :: (s.pending.erase k).entries.map (fun e => e.2.value)) := by
  simpa [pendingValues] using
    (OrdMap.erase_perm h).map (fun e : VideoOutboundTrackKey × PendingVideo => e.2.value)

theorem pendingValues_afterSource {s t : TrackLatestState} {value : VideoOutbound}
    {admitted : Bool} (h : s.AfterSource value t admitted) :
    (pendingValues t).Sublist (pendingValues s) := by
  cases h with
  | retired => exact List.filter_sublist.map _
  | _ => exact List.Sublist.refl _

/-- Storing a frame adds it to the pending frames and only drops others. -/
theorem pendingValues_stored {maxTracks : Nat} {t u : TrackLatestState}
    {key : VideoOutboundTrackKey} {value : VideoOutbound} {outcome : SlotOutcome}
    {shouldReplace : VideoOutbound → VideoOutbound → Bool}
    (h : t.Stored maxTracks key value shouldReplace u outcome) :
    (pendingValues u).Subperm
      (if outcome.queued then value :: pendingValues t else pendingValues t) := by
  have hins : ∀ finish, ((t.pending.insert key { value := value, finish := finish }).entries.map
      (fun e => e.2.value)).Subperm (value :: pendingValues t) := by
    intro finish
    refine (((t.pending.insert_perm key _).map _).subperm).trans ?_
    exact (List.subperm_cons value).mpr (List.filter_sublist.map _).subperm
  cases h with
  | refused => exact List.Subperm.refl _
  | replaced => exact hins _
  | inserted => exact hins _

theorem AtMostNewest.mono {s t : TrackLatestState} {value x : VideoOutbound} {admitted : Bool}
    (hx : AtMostNewest s x) (h : s.AfterSource value t admitted) : AtMostNewest t x := by
  intro source hsource
  obtain ⟨display, n, hd, hn, hle⟩ := hx source hsource
  obtain ⟨m, hm, hnm⟩ := h.newest_mono hn
  exact ⟨display, m, hd, hm, hle.trans hnm⟩

theorem OfNewestStream.notOlder {s : TrackLatestState} {x y : VideoOutbound}
    (hx : OfNewestStream s x) (hy : AtMostNewest s y) : NotOlder x y := by
  intro a b ha hb hab
  obtain ⟨d, hd, hn⟩ := hx a ha
  obtain ⟨d', m, hd', hm, hle⟩ := hy b hb
  rw [hab, hd'] at hd
  cases hd
  rw [hm] at hn
  cases hn
  exact hle

theorem inv_new (maxTracks : Nat) : Inv maxTracks new where
  wf := TrackLatestState.wf_new maxTracks
  credit := fun _ _ h => by cases h
  accounted := List.Subperm.refl _
  taken_newest := fun _ h => by cases h
  taken_order := .nil

theorem Inv.replace {maxTracks : Nat} {r r' : SlotRun} {key : VideoOutboundTrackKey}
    {value : VideoOutbound} (hinv : Inv maxTracks r)
    (h : r.step maxTracks (.replace key value) = some r') : Inv maxTracks r' := by
  obtain ⟨⟨u, outcome⟩, hcall, hret⟩ := Option.bind_eq_some_iff.mp h
  cases hret
  obtain ⟨t, admitted, hsrc, hrest⟩ := TrackLatestState.replaceWhenWith_cases hcall
  have hold : ∀ k p, t.pending.get? k = some p → p.finish = r.insertedAt k + p.charge :=
    fun k p hp => hinv.credit k p (hsrc.get? hp)
  have hsub : (r.taken ++ pendingValues t).Subperm r.admitted :=
    (((pendingValues_afterSource hsrc).append_left r.taken).subperm).trans hinv.accounted
  have hnewest : ∀ x ∈ r.taken, AtMostNewest t x :=
    fun x hx => (hinv.taken_newest x hx).mono hsrc
  rcases hrest with ⟨_, rfl, rfl⟩ | ⟨rfl, hst⟩
  · exact ⟨hinv.wf.replaceWhenWith hcall, hold, hsub, hnewest, hinv.taken_order⟩
  · refine ⟨hinv.wf.replaceWhenWith hcall, ?_, ?_, ?_, hinv.taken_order⟩
    · -- the credit of a replaced entry is kept, that of an inserted one starts now
      intro k p hp
      cases hst with
      | refused => exact hold k p hp
      | @replaced q others credit hget _ _ _ _ hcredit =>
          by_cases hk : k = key
          · subst hk
            have hq := hold k q hget
            rw [checkedSub_eq_some (by omega), Option.some.injEq] at hcredit
            simp only [OrdMap.get?_insert, if_true, Option.some.injEq] at hp
            subst hp
            show credit + value.payload.length = r.insertedAt k + value.payload.length
            omega
          · exact hold k p (by simpa [hk] using hp)
      | inserted hget =>
          by_cases hk : k = key
          · subst hk
            simp only [OrdMap.get?_insert, if_true, Option.some.injEq] at hp
            subst hp
            simp [PendingVideo.charge, hsrc.virtualTime_eq]
          · have hp' : t.pending.get? k = some p := by simpa [hk] using hp
            simpa [Function.update_of_ne hk] using hold k p hp'
    · show (r.taken ++ pendingValues u).Subperm _
      refine ((List.subperm_append_left r.taken).mpr (pendingValues_stored hst)).trans ?_
      cases hq : outcome.queued with
      | false => simpa using hsub
      | true =>
          simp only [if_true]
          exact List.perm_middle.subperm.trans ((List.subperm_cons value).mpr hsub)
    · intro x hx source hsource
      show ∃ display n, _ ∧ u.newestStream display = some n ∧ _
      rw [hst.newestStream_eq]
      exact hnewest x hx source hsource

/-- Taking one pending entry keeps the invariant. -/
theorem Inv.takeEntry {maxTracks : Nat} {r : SlotRun} {key : VideoOutboundTrackKey}
    {p : PendingVideo} {bytes : Nat} (hinv : Inv maxTracks r)
    (hget : r.slot.pending.get? key = some p)
    (hbytes : checkedSub r.slot.bytes p.charge = some bytes)
    (last : Option VideoOutboundTrackKey) (time : Nat) :
    Inv maxTracks { r with
      slot := { r.slot with
        pending := r.slot.pending.erase key, lastTaken := last, bytes := bytes,
        virtualTime := time }
      taken := p.value :: r.taken } where
  wf := hinv.wf.erase hget hbytes last time
  credit := by
    intro k q hq
    by_cases hk : k = key
    · simp [hk] at hq
    · exact hinv.credit k q (by simpa [hk] using hq)
  accounted := by
    have hperm := (pendingValues_erase hget).append_left r.taken
    exact (List.perm_middle.symm.trans hperm.symm).subperm.trans hinv.accounted
  taken_newest := by
    intro x hx
    rcases List.mem_cons.mp hx with rfl | hx
    · intro source hsource
      obtain ⟨display, hd, hn⟩ := hinv.wf.newest key p hget source hsource
      exact ⟨display, _, hd, hn, le_refl _⟩
    · exact hinv.taken_newest x hx
  taken_order := by
    refine List.pairwise_cons.mpr ⟨?_, hinv.taken_order⟩
    intro y hy
    exact OfNewestStream.notOlder (hinv.wf.newest key p hget) (hinv.taken_newest y hy)

theorem Inv.step {maxTracks : Nat} {r r' : SlotRun} {call : SlotCall}
    (hinv : Inv maxTracks r) (h : r.step maxTracks call = some r') : Inv maxTracks r' := by
  cases call with
  | replace key value => exact hinv.replace h
  | take =>
      obtain ⟨⟨u, got⟩, hcall, hret⟩ := Option.bind_eq_some_iff.mp h
      cases hret
      rcases TrackLatestState.take_cases hcall with
        ⟨_, rfl, rfl⟩ | ⟨key, p, bytes, hnext, hbytes, rfl, rfl⟩
      · exact hinv
      · exact hinv.takeEntry (TrackLatestState.next_mem hnext) hbytes _ _
  | takeTrack key =>
      obtain ⟨⟨u, got⟩, hcall, hret⟩ := Option.bind_eq_some_iff.mp h
      cases hret
      rcases TrackLatestState.takeTrack_cases hcall with
        ⟨_, rfl, rfl⟩ | ⟨p, bytes, hget, hbytes, rfl, rfl⟩
      · exact hinv
      · exact hinv.takeEntry hget hbytes _ _

/-- The invariant holds after every run of calls. -/
theorem inv_of_reach {maxTracks : Nat} {r : SlotRun}
    (h : (system maxTracks).Reach (fun _ _ => True) r) : Inv (slotMaxTracks maxTracks) r :=
  h.invariant (inv_new _) (fun _ _ _ hinv _ hstep => hinv.step hstep)

/-- A well-formed slot answers every call. -/
theorem Inv.step_defined {maxTracks : Nat} {r : SlotRun} (hinv : Inv maxTracks r)
    (call : SlotCall) : ∃ r', r.step maxTracks call = some r' := by
  cases call with
  | replace key value =>
      obtain ⟨res, hres⟩ :=
        hinv.wf.replaceWhenWith_defined key value shouldReplacePendingVideo
      simp [SlotRun.step, hres]
  | take =>
      obtain ⟨res, hres⟩ := hinv.wf.take_defined
      simp [SlotRun.step, hres]
  | takeTrack key =>
      obtain ⟨res, hres⟩ := hinv.wf.takeTrack_defined key
      simp [SlotRun.step, hres]

/-- **Slot representation.** After every run of calls: the byte counter is the
sum of the pending payloads and within its limit, as are each payload and the
number of tracks; each entry's finish is the virtual time of its key's insertion
plus its current length, and no call underflows; every pending frame is of the
newest stream of its display. The frames taken are admitted frames, each taken
at most once, the stream ids taken for one display never decrease, and a refused
call leaves the pending frames of other displays alone. -/
theorem slot_representation (maxTracks : Nat) (r : SlotRun)
    (h : (system maxTracks).Reach (fun _ _ => True) r) :
    r.slot.bytes = r.slot.pending.total PendingVideo.charge ∧
    r.slot.bytes ≤ maxPendingVideoBytes ∧
    r.slot.pending.size ≤ slotMaxTracks maxTracks ∧
    (∀ k p, r.slot.pending.get? k = some p →
      p.charge ≤ maxVideoFrameBytes ∧
      p.charge ≤ p.finish ∧ p.finish - p.charge = r.insertedAt k ∧
      OfNewestStream r.slot p.value) ∧
    (∀ call, ∃ r', (system maxTracks).step r call = some r') ∧
    r.taken.Subperm r.admitted ∧
    r.taken.Pairwise NotOlder ∧
    (∀ key value u, r.slot.replaceWhenWith (slotMaxTracks maxTracks) key value
        shouldReplacePendingVideo = some (u, .refused) →
      ∀ k p, r.slot.pending.get? k = some p →
        (∀ old source, p.value.sourceInfo = some old → value.sourceInfo = some source →
          old.key.display ≠ source.key.display) →
        u.pending.get? k = some p) := by
  have hinv := inv_of_reach h
  refine ⟨hinv.wf.bytes_eq, hinv.wf.bytes_le, hinv.wf.size_le, ?_, hinv.step_defined, ?_,
    hinv.taken_order, ?_⟩
  · intro k p hp
    have hcredit := hinv.credit k p hp
    exact ⟨hinv.wf.frame_le k p hp, hinv.wf.credit k p hp, by omega, hinv.wf.newest k p hp⟩
  · exact (List.sublist_append_left _ _).subperm.trans hinv.accounted
  · intro key value u hcall k p hp hother
    exact TrackLatestState.refused_get? hcall hp hother

/-- Offer a two-byte keyframe of display 0. -/
def offerKeyframe : SlotCall :=
  .replace (.latest 7)
    { trackKey := .latest 7
      metadata := { frameId := 1, codec := .h264, flags := flagKeyframe,
                    presentationTimestampUs := 0 }
      sourceInfo := some
        { key := { display := 0, streamId := 7 }, frameId := 1, keyframe := true, codec := .h264 }
      payload := [1, 2]
      orderingEpoch := 0 }

/-- An admitted keyframe of two bytes is accounted for. -/
theorem slot_representation_one_frame :
    ∃ r, (system 16).run [offerKeyframe] = some r ∧ r.slot.bytes = 2 ∧
      r.slot.bytes = r.slot.pending.total PendingVideo.charge :=
  ⟨_, rfl, by decide, (slot_representation 16 _
    (TSys.reach_of_any_run [offerKeyframe] rfl)).1⟩

end SlotRun

end HbbCommon.Transport
