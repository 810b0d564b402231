import HbbCommon.Base.FairShare
import HbbCommon.Transport.Video.Logic.SlotWf

/-!
# Byte fairness of the slot

The slot, served only by `take`, simulates the abstract scheduler of
`Base.FairShare`: the start of an entry is its finish less its charge, a `take`
is a serve step, and a `replace_when_with` is a drop step (the source check)
followed by an enter, rewrite or skip step (`take_simulates`,
`replace_simulates`). The abstract bound then limits the bytes that another
track is served while a track waits.

The start of a waiting track survives a replacement, but not a replacement by a
newer stream under the same key: the source check retires the waiting entry and
the frame is inserted afresh. `KeepsStream` is the condition that this does not
happen to the waiting track.
-/

namespace HbbCommon.Transport

open HbbCommon.Base

/-- The calls of a slot that is served only by `take`. -/
inductive ServeCall
  | replace (key : VideoOutboundTrackKey) (value : VideoOutbound)
  | take

namespace ServeCall

/-- The offered payload, if any, is at most `B` bytes long. -/
def Within (B : Nat) : ServeCall → Prop
  | .replace _ value => value.payload.length ≤ B
  | .take => True

instance (B : Nat) (call : ServeCall) : Decidable (call.Within B) := by
  cases call <;> unfold Within <;> infer_instance

/-- The slot after a call. -/
def step (maxTracks : Nat) (s : TrackLatestState) : ServeCall → Option TrackLatestState
  | .replace key value =>
      (s.replaceWhenWith maxTracks key value shouldReplacePendingVideo).map Prod.fst
  | .take => s.take.map Prod.fst

/-- The runs of a slot made by `TrackLatestSlot::new(max_tracks)` and served
only by `take`. -/
def system (maxTracks : Nat) : TSys TrackLatestState ServeCall :=
  { init := .new, step := step (slotMaxTracks maxTracks) }

/-- The key and the bytes a call takes out of the slot. -/
def served (s : TrackLatestState) : ServeCall → Option (VideoOutboundTrackKey × Nat)
  | .replace _ _ => none
  | .take => s.next.map (fun e => (e.1, e.2.charge))

/-- The payload bytes that `take` returns for key `j` during a list of calls. -/
def servedBytes (maxTracks : Nat) (j : VideoOutboundTrackKey) :
    TrackLatestState → List ServeCall → Nat
  | _, [] => 0
  | s, call :: calls =>
      FairShare.servedTo j (served s call) +
        match (system maxTracks).step s call with
        | some t => servedBytes maxTracks j t calls
        | none => 0

/-- Key `i` has a pending entry before the first call and after each call. -/
def pendingThroughout (maxTracks : Nat) (i : VideoOutboundTrackKey) :
    TrackLatestState → List ServeCall → Bool
  | s, [] => s.pending.contains i
  | s, call :: calls =>
      s.pending.contains i &&
        match (system maxTracks).step s call with
        | some t => pendingThroughout maxTracks i t calls
        | none => true

/-- The frame is of a newer stream of the display of the frame pending under
`key`. -/
def newerStream (s : TrackLatestState) (key : VideoOutboundTrackKey) (value : VideoOutbound) :
    Bool :=
  (s.pending.get? key).any fun p => p.value.sourceInfo.any fun old =>
    value.sourceInfo.any fun source =>
      old.key.display == source.key.display && decide (old.key.streamId < source.key.streamId)

/-- A frame offered under key `i` is not of a newer stream of the display of the
frame then pending under key `i`. -/
def KeepsStream (i : VideoOutboundTrackKey) (s : TrackLatestState) : ServeCall → Prop
  | .take => True
  | .replace key value => key = i → newerStream s key value = false

instance (i : VideoOutboundTrackKey) (s : TrackLatestState) (call : ServeCall) :
    Decidable (KeepsStream i s call) := by
  cases call <;> unfold KeepsStream <;> infer_instance

end ServeCall

/-! ## The simulation -/

/-- The abstract scheduler state a slot represents. -/
def fairShareOf (s : TrackLatestState) : FairShare.State VideoOutboundTrackKey :=
  { time := s.virtualTime
    entries := fun k => (s.pending.get? k).map (fun p => ⟨p.finish - p.charge, p.charge⟩) }

theorem fairShareOf_entries {s : TrackLatestState} {k : VideoOutboundTrackKey}
    {e : FairShare.Entry} :
    (fairShareOf s).entries k = some e ↔
      ∃ p, s.pending.get? k = some p ∧ e = ⟨p.finish - p.charge, p.charge⟩ := by
  rw [fairShareOf, Option.map_eq_some_iff]
  exact exists_congr (fun p => and_congr_right (fun _ => eq_comm))

namespace TrackLatestState

variable {maxTracks B : Nat} {s t u : TrackLatestState} {key i j : VideoOutboundTrackKey}
  {value : VideoOutbound} {outcome : SlotOutcome} {admitted : Bool}
  {got : Option VideoOutbound} {shouldReplace : VideoOutbound → VideoOutbound → Bool}

/-- `take` serves the entry of least finish. -/
theorem take_simulates (hwf : Wf maxTracks s) (h : s.take = some (u, got)) :
    FairShare.Step B (fairShareOf s) (ServeCall.take.served s) (fairShareOf u) := by
  rcases take_cases h with ⟨hnext, rfl, _⟩ | ⟨k, p, bytes, hnext, _, _, rfl⟩
  · simp only [ServeCall.served, hnext, Option.map_none]
    exact .skip
  · have hget := next_mem hnext
    have hcredit := hwf.credit k p hget
    have hserve : FairShare.Step B (fairShareOf s) (some (k, p.charge)) _ :=
      .serve (fairShareOf_entries.mpr ⟨p, hget, rfl⟩) (by
        intro j f hf
        obtain ⟨q, hq, rfl⟩ := fairShareOf_entries.mp hf
        have hle := next_finish_le hnext hq
        have hqc := hwf.credit j q hq
        simp only [FairShare.Entry.finish]
        omega)
    simp only [ServeCall.served, hnext, Option.map_some]
    convert hserve using 1
    simp only [fairShareOf, FairShare.State.mk.injEq, FairShare.Entry.finish]
    refine ⟨by rw [Nat.sub_add_cancel hcredit], ?_⟩
    funext j
    by_cases hj : j = k <;> simp [hj]

/-- The source check drops entries. -/
theorem AfterSource.simulates (h : AfterSource s value t admitted) :
    FairShare.Step B (fairShareOf s) none (fairShareOf t) := by
  have hdrop : FairShare.Step B (fairShareOf s) none
      { fairShareOf s with entries := (fairShareOf t).entries } := .drop (by
    intro k e he
    obtain ⟨p, hp, rfl⟩ := fairShareOf_entries.mp he
    exact fairShareOf_entries.mpr ⟨p, h.get? hp, rfl⟩)
  convert hdrop using 1
  simp only [fairShareOf, h.virtualTime_eq]

/-- Storing a frame enters it, rewrites the entry of its key, or does nothing. -/
theorem Stored.simulates (hwf : Wf maxTracks t) (hB : value.payload.length ≤ B)
    (h : Stored maxTracks t key value shouldReplace u outcome) :
    FairShare.Step B (fairShareOf t) none (fairShareOf u) := by
  cases h with
  | refused => exact .skip
  | @replaced p others credit hget _ _ _ _ hcredit =>
      rw [checkedSub_eq_some (hwf.credit key p hget), Option.some.injEq] at hcredit
      have hre : FairShare.Step B (fairShareOf t) none _ :=
        .rewrite (fairShareOf_entries.mpr ⟨p, hget, rfl⟩) hB
      convert hre using 1
      simp only [fairShareOf, FairShare.State.mk.injEq, true_and]
      funext j
      by_cases hj : j = key
      · simp [hj, PendingVideo.charge, ← hcredit]
      · simp [hj]
  | inserted hget =>
      have hen : FairShare.Step B (fairShareOf t) none _ :=
        .enter (k := key) (by simp [fairShareOf, hget]) hB
      convert hen using 1
      simp only [fairShareOf, FairShare.State.mk.injEq, true_and]
      funext j
      by_cases hj : j = key
      · simp [hj, PendingVideo.charge]
      · simp [hj]

/-- `replace_when_with` is a drop step and then a storing step. -/
theorem replace_simulates (hwf : Wf maxTracks s) (hB : value.payload.length ≤ B)
    (h : s.replaceWhenWith maxTracks key value shouldReplace = some (u, outcome)) :
    ∃ t admitted, AfterSource s value t admitted ∧
      FairShare.Step B (fairShareOf s) none (fairShareOf t) ∧
      FairShare.Step B (fairShareOf t) none (fairShareOf u) ∧
      (u = t ∨ Stored maxTracks t key value shouldReplace u outcome) := by
  obtain ⟨t, admitted, hsrc, ⟨_, rfl, _⟩ | ⟨_, hst⟩⟩ := replaceWhenWith_cases h
  · exact ⟨u, admitted, hsrc, hsrc.simulates, .skip, .inl rfl⟩
  · exact ⟨t, admitted, hsrc, hsrc.simulates, hst.simulates (hwf.afterSource hsrc) hB, .inr hst⟩

/-! ## The waiting track keeps its start -/

theorem waits_iff {V : Nat} : FairShare.Waits i V (fairShareOf s) ↔
    ∃ p, s.pending.get? i = some p ∧ p.finish - p.charge = V := by
  unfold FairShare.Waits
  constructor
  · rintro ⟨e, he, rfl⟩
    obtain ⟨p, hp, rfl⟩ := fairShareOf_entries.mp he
    exact ⟨p, hp, rfl⟩
  · rintro ⟨p, hp, rfl⟩
    exact ⟨_, fairShareOf_entries.mpr ⟨p, hp, rfl⟩, rfl⟩

/-- The source check does not retire the entry of a key that keeps its
stream. -/
theorem AfterSource.get?_of_keeps (hwf : Wf maxTracks s) (h : AfterSource s value t admitted)
    (hkeep : ServeCall.KeepsStream i s (.replace i value)) {p : PendingVideo}
    (hp : s.pending.get? i = some p) : t.pending.get? i = some p := by
  cases h with
  | @retired source display bytes hsrc hd _ hlt _ =>
      refine OrdMap.get?_filter_eq_some.mpr ⟨hp, ?_⟩
      cases hold : p.value.sourceInfo with
      | none => simp [obsolete, hold]
      | some old =>
          by_cases hdisp : old.key.display = source.key.display
          · obtain ⟨d, hd', hnew⟩ := hwf.newest i p hp old hold
            rw [hdisp, hd] at hd'
            cases hd'
            have hle := hkeep rfl
            simp only [ServeCall.newerStream, hp, hold, hsrc, hdisp, Option.any_some,
              beq_self_eq_true, Bool.true_and, decide_eq_false_iff_not] at hle
            exact absurd (hlt _ hnew) hle
          · simp [obsolete, hold, hdisp]
  | _ => exact hp

/-- A stored frame keeps the start of a key that was pending. -/
theorem Stored.waits {V : Nat} (hwf : Wf maxTracks t)
    (h : Stored maxTracks t key value shouldReplace u outcome)
    (hwait : FairShare.Waits i V (fairShareOf t)) : FairShare.Waits i V (fairShareOf u) := by
  obtain ⟨p, hp, hV⟩ := waits_iff.mp hwait
  cases h with
  | refused => exact hwait
  | @replaced q others credit hget _ _ _ _ hcredit =>
      rw [checkedSub_eq_some (hwf.credit key q hget), Option.some.injEq] at hcredit
      by_cases hi : i = key
      · subst hi
        rw [hget] at hp
        cases hp
        exact waits_iff.mpr ⟨_, by simp; rfl, by simp only [PendingVideo.charge] at *; omega⟩
      · exact waits_iff.mpr ⟨p, by simp [hi, hp], hV⟩
  | inserted hget =>
      have hi : i ≠ key := by
        rintro rfl
        rw [hget] at hp
        cases hp
      exact waits_iff.mpr ⟨p, by simp [hi, hp], hV⟩

/-- The entry of a key other than the stored one, pending after the call, was
pending after the source check. -/
theorem Stored.get?_other (h : Stored maxTracks t key value shouldReplace u outcome)
    (hi : i ≠ key) : u.pending.get? i = t.pending.get? i := by
  cases h <;> simp [hi]

end TrackLatestState

/-! ## The bound -/

namespace ServeCall

variable {maxTracks B V : Nat} {s t : TrackLatestState} {i j : VideoOutboundTrackKey}
  {call : ServeCall}

/-- One call of the interval, as a run of the abstract scheduler. -/
theorem run_of_step (hwf : s.Wf (slotMaxTracks maxTracks)) (hB : call.Within B)
    (hstep : (system maxTracks).step s call = some t)
    (hwait : FairShare.Waits i V (fairShareOf s)) (hpend : t.pending.contains i = true)
    (hkeep : KeepsStream i s call) :
    FairShare.Run B i j V (fairShareOf s) (fairShareOf t)
      (FairShare.servedTo j (served s call)) ∧
    FairShare.Waits i V (fairShareOf t) := by
  obtain ⟨q, hq⟩ := OrdMap.contains_iff.mp hpend
  cases call with
  | take =>
      obtain ⟨⟨u, got⟩, hcall, rfl⟩ := Option.map_eq_some_iff.mp hstep
      have hsim := TrackLatestState.take_simulates (B := B) hwf hcall
      have hwait' : FairShare.Waits i V (fairShareOf u) := by
        obtain ⟨p, hp, hV⟩ := TrackLatestState.waits_iff.mp hwait
        rcases TrackLatestState.take_cases hcall with
          ⟨_, rfl, _⟩ | ⟨k, p', bytes, hnext, _, _, rfl⟩
        · exact hwait
        · have hik : i ≠ k := by
            rintro rfl
            simp at hq
          exact TrackLatestState.waits_iff.mpr ⟨p, by simp [hik, hp], hV⟩
      refine ⟨?_, hwait'⟩
      simpa using (FairShare.Run.nil (j := j) hwait).step hsim hwait'
  | replace key value =>
      obtain ⟨⟨u, outcome⟩, hcall, rfl⟩ := Option.map_eq_some_iff.mp hstep
      obtain ⟨m, admitted, hsrc, hsim1, hsim2, hlast⟩ :=
        TrackLatestState.replace_simulates hwf hB hcall
      obtain ⟨p, hp, hV⟩ := TrackLatestState.waits_iff.mp hwait
      -- the entry survives the source check: otherwise the interval has ended
      have hpm : m.pending.get? i = some p := by
        by_cases hik : i = key
        · subst hik
          exact hsrc.get?_of_keeps hwf hkeep hp
        · have hqm : m.pending.get? i = some q := by
            rcases hlast with rfl | hst
            · exact hq
            · rw [← hst.get?_other hik]
              exact hq
          rw [hsrc.get? hqm] at hp
          cases hp
          exact hqm
      have hwaitm : FairShare.Waits i V (fairShareOf m) :=
        TrackLatestState.waits_iff.mpr ⟨p, hpm, hV⟩
      have hwait' : FairShare.Waits i V (fairShareOf u) := by
        rcases hlast with rfl | hst
        · exact hwaitm
        · exact hst.waits (hwf.afterSource hsrc) hwaitm
      refine ⟨?_, hwait'⟩
      simpa [served, FairShare.servedTo] using
        ((FairShare.Run.nil (j := j) hwait).step hsim1 hwaitm).step hsim2 hwait'

theorem wf_step (hwf : s.Wf (slotMaxTracks maxTracks))
    (hstep : (system maxTracks).step s call = some t) : t.Wf (slotMaxTracks maxTracks) := by
  cases call with
  | take =>
      obtain ⟨⟨u, got⟩, hcall, rfl⟩ := Option.map_eq_some_iff.mp hstep
      exact hwf.take hcall
  | replace key value =>
      obtain ⟨⟨u, outcome⟩, hcall, rfl⟩ := Option.map_eq_some_iff.mp hstep
      exact hwf.replaceWhenWith hcall

/-- Reachable slots are well formed, and represent well-formed schedulers. -/
theorem wf_of_reach (h : (system maxTracks).Reach (fun _ c => c.Within B) s) :
    s.Wf (slotMaxTracks maxTracks) ∧ FairShare.Wf B (fairShareOf s) := by
  refine h.invariant (I := fun s : TrackLatestState =>
    s.Wf (slotMaxTracks maxTracks) ∧ FairShare.Wf B (fairShareOf s)) ?_ ?_
  · refine ⟨TrackLatestState.wf_new _, ?_, ?_⟩ <;> intro k e he <;> cases he
  · rintro s call t ⟨hwf, hfair⟩ hB hstep
    refine ⟨wf_step hwf hstep, ?_⟩
    cases call with
    | take =>
        obtain ⟨⟨u, got⟩, hcall, rfl⟩ := Option.map_eq_some_iff.mp hstep
        exact hfair.step (TrackLatestState.take_simulates hwf hcall)
    | replace key value =>
        obtain ⟨⟨u, outcome⟩, hcall, rfl⟩ := Option.map_eq_some_iff.mp hstep
        obtain ⟨m, _, _, hsim1, hsim2, _⟩ := TrackLatestState.replace_simulates hwf hB hcall
        exact (hfair.step hsim1).step hsim2

theorem pending_head {calls : List ServeCall}
    (h : pendingThroughout maxTracks i s calls = true) : s.pending.contains i = true := by
  cases calls with
  | nil => exact h
  | cons call calls => exact (Bool.and_eq_true _ _ ▸ h).1

/-- The calls of an interval, as a run of the abstract scheduler. -/
theorem run_of_calls {calls : List ServeCall} (hwf : s.Wf (slotMaxTracks maxTracks))
    (hB : ∀ c ∈ calls, c.Within B) (hwait : FairShare.Waits i V (fairShareOf s))
    (hpend : pendingThroughout maxTracks i s calls = true)
    (hkeep : (system maxTracks).Follows (KeepsStream i) s calls) :
    ∃ t, FairShare.Run B i j V (fairShareOf s) t (servedBytes maxTracks j s calls) := by
  induction calls generalizing s with
  | nil => exact ⟨_, .nil hwait⟩
  | cons call calls ih =>
      obtain ⟨hkeep0, hkeep⟩ := hkeep
      simp only [pendingThroughout, Bool.and_eq_true] at hpend
      cases hstep : (system maxTracks).step s call with
      | none =>
          -- a well-formed slot answers every call
          exfalso
          cases call with
          | take =>
              obtain ⟨r, hr⟩ := hwf.take_defined
              simp [system, step, hr] at hstep
          | replace key value =>
              obtain ⟨r, hr⟩ := hwf.replaceWhenWith_defined key value shouldReplacePendingVideo
              simp [system, step, hr] at hstep
      | some t =>
          simp only [hstep] at hpend
          obtain ⟨hrun, hwait'⟩ := run_of_step (j := j) hwf (hB call List.mem_cons_self) hstep
            hwait (pending_head hpend.2) hkeep0
          obtain ⟨e, hrest⟩ := ih (wf_step hwf hstep)
            (fun c hc => hB c (List.mem_cons_of_mem _ hc)) hwait' hpend.2 (hkeep t hstep)
          refine ⟨e, ?_⟩
          simp only [servedBytes, hstep]
          exact hrun.trans hrest

/-- **Byte fairness.** While a track waits, and no frame of a newer stream of
its display is offered under its key, `take` returns at most twice the largest
payload for any other track. -/
theorem byte_fairness (maxTracks B : Nat) (s : TrackLatestState)
    (hreach : (system maxTracks).Reach (fun _ c => c.Within B) s)
    (i j : VideoOutboundTrackKey) (hij : i ≠ j) (calls : List ServeCall)
    (hB : ∀ c ∈ calls, c.Within B)
    (hpend : pendingThroughout maxTracks i s calls = true)
    (hkeep : (system maxTracks).Follows (KeepsStream i) s calls) :
    servedBytes maxTracks j s calls ≤ 2 * B := by
  obtain ⟨hwf, hfair⟩ := wf_of_reach hreach
  obtain ⟨p, hp⟩ := OrdMap.contains_iff.mp (pending_head hpend)
  have hwait : FairShare.Waits i (p.finish - p.charge) (fairShareOf s) :=
    TrackLatestState.waits_iff.mpr ⟨p, hp, rfl⟩
  obtain ⟨t, hrun⟩ := run_of_calls (j := j) hwf hB hwait hpend hkeep
  exact hrun.served_le hij hfair

/-- A frame of `length` bytes of one stream of a display, keyed by the
display. -/
def sized (display streamId length : Nat) : ServeCall :=
  .replace (.latest display)
    { trackKey := .latest display
      metadata := { frameId := 1, codec := .h264, flags := flagKeyframe,
                    presentationTimestampUs := 0 }
      sourceInfo := some
        { key := { display := display, streamId := streamId }, frameId := 1
          keyframe := true, codec := .h264 }
      payload := List.replicate length 0
      orderingEpoch := 0 }

/-- A three-byte frame waits, replaced within its stream, while one-byte frames
of another display are served: two bytes, within the bound of six. -/
theorem byte_fairness_one_stream :
    ∃ s, (system 2).run [sized 0 1 3] = some s ∧
      servedBytes 2 (.latest 1) s
        [sized 1 1 1, .take, sized 0 1 3, sized 1 1 1, .take, sized 0 1 3] = 2 ∧
      servedBytes 2 (.latest 1) s
        [sized 1 1 1, .take, sized 0 1 3, sized 1 1 1, .take, sized 0 1 3] ≤ 2 * 3 :=
  ⟨_, rfl, by decide, byte_fairness 2 3 _
    (TSys.reach_of_run [sized 0 1 3] (by decide) rfl) (.latest 0) (.latest 1)
    (by decide) _ (by decide) (by decide) (by decide)⟩

/-- Each frame offered under the waiting key is of a newer stream: the waiting
frame is retired and inserted afresh every time, and the other display is served
five bytes where twice the largest payload is four. -/
theorem byte_fairness_new_streams :
    ∃ s, (system 2).Reach (fun _ c => c.Within 2) s ∧
      (∀ c ∈ [sized 1 1 1, .take, sized 0 2 2, sized 1 1 1, .take, sized 0 3 2,
          sized 1 1 1, .take, sized 0 4 2, sized 1 1 1, .take, sized 0 5 2,
          sized 1 1 1, .take], c.Within 2) ∧
      pendingThroughout 2 (.latest 0) s
        [sized 1 1 1, .take, sized 0 2 2, sized 1 1 1, .take, sized 0 3 2,
          sized 1 1 1, .take, sized 0 4 2, sized 1 1 1, .take, sized 0 5 2,
          sized 1 1 1, .take] = true ∧
      ¬ servedBytes 2 (.latest 1) s
        [sized 1 1 1, .take, sized 0 2 2, sized 1 1 1, .take, sized 0 3 2,
          sized 1 1 1, .take, sized 0 4 2, sized 1 1 1, .take, sized 0 5 2,
          sized 1 1 1, .take] ≤ 2 * 2 :=
  ⟨_, TSys.reach_of_run [sized 0 1 2] (by decide) rfl, by decide, by decide, by decide⟩

end ServeCall

end HbbCommon.Transport
