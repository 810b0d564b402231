import HbbCommon.Transport.Video.Logic.RecoveryTables

/-!
# The frame a delta may follow

`reference k` is the id of the frame that the next delta of stream `k` has to
follow: the last accepted frame, while the stream is tracked and does not wait
for a keyframe. Every operation of the recovery state either forgets it or leaves
it (`Forgets`), except `observe` of a frame of the stream itself: a keyframe sets
it, and a delta moves it from `n` to `n + 1`.
-/

namespace HbbCommon.Transport

open HbbCommon.Base

namespace VideoReceiveRecovery

variable {r r' : VideoReceiveRecovery} {k : VideoStreamKey} {info : VideoSourceInfo}

/-- The frame that a stream state accepts a delta after. -/
def referenceOf (state : VideoReceiveState) : Option Nat :=
  if state.awaitingKeyframe || decide (state.lastFrameId = 0) then none
  else some state.lastFrameId

/-- The id of the frame that the next delta of `k` has to follow. -/
def reference (r : VideoReceiveRecovery) (k : VideoStreamKey) : Option Nat :=
  (r.streams.get? k).bind referenceOf

/-- The reference of `k` is lost or unchanged. -/
def Forgets (k : VideoStreamKey) (r r' : VideoReceiveRecovery) : Prop :=
  r'.reference k = none ∨ r'.reference k = r.reference k

theorem Forgets.refl (k : VideoStreamKey) (r : VideoReceiveRecovery) : Forgets k r r := .inr rfl

theorem Forgets.trans {r₁ r₂ r₃ : VideoReceiveRecovery} (h₁ : Forgets k r₁ r₂)
    (h₂ : Forgets k r₂ r₃) : Forgets k r₁ r₃ := by
  rcases h₂ with h | h
  · exact .inl h
  · exact h₁.imp h.trans h.trans

theorem Forgets.of_get? (h : r'.streams.get? k = none ∨ r'.streams.get? k = r.streams.get? k) :
    Forgets k r r' := by
  rcases h with h | h
  · exact .inl (by simp [reference, h])
  · exact .inr (by simp [reference, h])

theorem forgets_evict (r : VideoReceiveRecovery) (k key : VideoStreamKey) :
    Forgets k r (r.evict key) := by
  apply Forgets.of_get?
  show (r.streams.erase key).get? k = none ∨ (r.streams.erase key).get? k = r.streams.get? k
  rw [OrdMap.get?_erase]
  split
  · exact .inl rfl
  · exact .inr rfl

theorem forgets_prepareStream (r : VideoReceiveRecovery) (k key : VideoStreamKey) :
    Forgets k r (r.prepareStream key) := by
  rcases prepareStream_cases r key with ⟨heq, _⟩ | ⟨evicted, _, _, _, heq⟩
  · rw [heq]
    exact .refl k r
  · rw [heq]
    exact forgets_evict r k evicted

/-- Making room for a stream does not touch the stream itself. -/
theorem get?_prepareStream (r : VideoReceiveRecovery) (key : VideoStreamKey) :
    (r.prepareStream key).streams.get? key = r.streams.get? key := by
  rcases prepareStream_cases r key with ⟨heq, _⟩ | ⟨evicted, state, hget, habsent, heq⟩
  · rw [heq]
  · rw [heq]
    have hnone := OrdMap.contains_eq_false_iff.mp habsent
    have hne : key ≠ evicted := by
      rintro rfl
      rw [hnone] at hget
      cases hget
    show (r.streams.erase evicted).get? key = r.streams.get? key
    rw [OrdMap.get?_erase, if_neg hne]

theorem forgets_retireDisplay (r : VideoReceiveRecovery) (k key : VideoStreamKey) :
    Forgets k r (r.retireDisplay key) := by
  apply Forgets.of_get?
  simp only [retireDisplay, OrdMap.get?_filter]
  cases r.streams.get? k with
  | none => exact .inl rfl
  | some state =>
      rw [Option.filter_some]
      split
      · exact .inr rfl
      · exact .inl rfl

theorem forgets_setStream_of_ne {key : VideoStreamKey} (hne : k ≠ key) (state : VideoReceiveState) :
    Forgets k r (r.setStream key state) := by
  apply Forgets.of_get?
  simp [setStream, hne]

theorem reference_setStream (r : VideoReceiveRecovery) (k : VideoStreamKey)
    (state : VideoReceiveState) : (r.setStream k state).reference k = referenceOf state := by
  simp [reference, setStream]

/-- A new state for a stream keeps its reference or drops it. -/
theorem forgets_setStream_self {state : VideoReceiveState}
    (h : referenceOf state = none ∨ referenceOf state = r.reference k) :
    Forgets k r (r.setStream k state) := by
  unfold Forgets
  rw [reference_setStream]
  exact h

theorem forgets_mapStreams (r : VideoReceiveRecovery) (k : VideoStreamKey)
    {f : VideoStreamKey → VideoReceiveState → VideoReceiveState}
    (hf : ∀ j state, referenceOf (f j state) = none ∨
      referenceOf (f j state) = referenceOf state) :
    Forgets k r { r with streams := r.streams.mapVals f } := by
  unfold Forgets reference
  rw [OrdMap.get?_mapVals]
  cases r.streams.get? k with
  | none => exact .inl rfl
  | some state => exact hf k state

theorem forgets_markReferenceLoss (r : VideoReceiveRecovery) (k : VideoStreamKey) :
    Forgets k r r.markReferenceLoss :=
  forgets_mapStreams r k (fun _ _ => .inl rfl)

theorem forgets_markStreamReferenceLoss (r : VideoReceiveRecovery) (k key : VideoStreamKey) :
    Forgets k r (r.markStreamReferenceLoss key) := by
  apply forgets_mapStreams r k
  intro j state
  split
  · exact .inl rfl
  · exact .inr rfl

/-- A stream that lost a frame waits for a keyframe. -/
theorem reference_markStreamReferenceLoss (r : VideoReceiveRecovery) (k : VideoStreamKey) :
    (r.markStreamReferenceLoss k).reference k = none := by
  unfold reference markStreamReferenceLoss
  rw [OrdMap.get?_modify, if_pos rfl]
  cases r.streams.get? k with
  | none => rfl
  | some state => rfl

/-- The state that `entry(key).or_default()` finds has the stream's reference. -/
theorem referenceOf_stream (r : VideoReceiveRecovery) (k : VideoStreamKey) :
    referenceOf (r.stream k) = r.reference k := by
  unfold stream reference
  cases r.streams.get? k with
  | none => rfl
  | some state => rfl

theorem reference_prepareStream (r : VideoReceiveRecovery) (k : VideoStreamKey) :
    (r.prepareStream k).reference k = r.reference k := by
  unfold reference
  rw [get?_prepareStream]

theorem forgets_noteSourceContext (r : VideoReceiveRecovery) (k : VideoStreamKey)
    (info : VideoSourceInfo) : Forgets k r (r.noteSourceContext info) := by
  unfold noteSourceContext
  split
  · exact .refl k r
  · refine (forgets_prepareStream r k info.key).trans ?_
    by_cases hne : k = info.key
    · subst hne
      refine forgets_setStream_self (r := { r.prepareStream info.key with
        lastObserved := some info }) (.inr ?_)
      rw [← referenceOf_stream]
      rfl
    · exact forgets_setStream_of_ne hne _

theorem forgets_nextKeyframeRequest (r : VideoReceiveRecovery) (k : VideoStreamKey) (now : Time)
    (scopedRefresh : Bool) (dropped : Nat) (strict : Bool) :
    Forgets k r (r.nextKeyframeRequestWithRecovery now scopedRefresh dropped strict).1 := by
  rcases nextKeyframeRequestWithRecovery_cases r now scopedRefresh dropped strict with
    ⟨heq, _⟩ | ⟨key, _, _, heq⟩
  · rw [heq]
    exact .refl k r
  · rw [heq]
    exact .inr rfl

/-! ## `observe` -/

theorem observe_unstamped (h : unstamped info = true) (strict : Bool) :
    r.observe info strict = (r, .accept) :=
  if_pos h

/-- A frame of another stream. -/
theorem forgets_observe_of_ne (hne : k ≠ info.key) (strict : Bool) :
    Forgets k r (r.observe info strict).1 := by
  unfold observe
  split
  · exact .refl k r
  · by_cases hkey : info.keyframe = true
    · simp only [hkey, if_true]
      exact ((forgets_retireDisplay r k info.key).trans
        (forgets_prepareStream _ k info.key)).trans
        (forgets_setStream_of_ne (r := (r.retireDisplay info.key).prepareStream info.key) hne _)
    · simp only [hkey, Bool.false_eq_true, if_false]
      exact (forgets_prepareStream r k info.key).trans
        (forgets_setStream_of_ne (r := r.prepareStream info.key) hne _)

/-- A keyframe is accepted and becomes the reference of its stream. -/
theorem observe_keyframe (hstamped : unstamped info = false) (hkey : info.keyframe = true)
    (strict : Bool) : (r.observe info strict).2 = .accept ∧
      (r.observe info strict).1.reference info.key = some info.frameId := by
  have hid : info.frameId ≠ 0 := by
    intro hzero
    simp [unstamped, hzero] at hstamped
  simp only [observe, hstamped, hkey, if_true, Bool.false_eq_true, if_false]
  exact ⟨trivial, by rw [reference_setStream]; simp [referenceOf, hid]⟩

/-- What `observe` does with a delta, in terms of the reference. -/
theorem observeDelta_cases (state : VideoReceiveState) (info : VideoSourceInfo) (strict : Bool)
    (hid : info.frameId ≠ 0) :
    ((observeDelta state info strict).2 = .accept ∧
      (∃ last, referenceOf state = some last ∧ info.frameId = last + 1) ∧
      referenceOf (observeDelta state info strict).1 = some info.frameId) ∨
    ((observeDelta state info strict).2 = .acceptAfterGap ∧ strict = false ∧
      referenceOf (observeDelta state info strict).1 = some info.frameId) ∨
    (((observeDelta state info strict).2 = .suppress ∨
        (observeDelta state info strict).2 = .suppressAfterGap) ∧
      (referenceOf (observeDelta state info strict).1 = none ∨
        referenceOf (observeDelta state info strict).1 = referenceOf state)) := by
  by_cases hwait : (state.awaitingKeyframe || decide (state.lastFrameId = 0)) = true
  · simp [observeDelta, referenceOf, hwait]
  · have href : referenceOf state = some state.lastFrameId := if_neg hwait
    rw [Bool.not_eq_true, Bool.or_eq_false_iff] at hwait
    obtain ⟨hawait, hlast⟩ := hwait
    by_cases hold : info.frameId ≤ state.lastFrameId
    · simp [observeDelta, referenceOf, hawait, hlast, hold]
    · by_cases hnext : info.frameId = satAdd state.lastFrameId 1
      · -- a frame after the last one cannot be the saturated maximum itself
        have hsucc : info.frameId = state.lastFrameId + 1 := by
          have := satAdd_le_add state.lastFrameId 1
          omega
        refine .inl ⟨?_, ⟨_, href, hsucc⟩, ?_⟩
        · simp [observeDelta, hawait, hlast, hold, ← hnext]
        · simp [observeDelta, referenceOf, hawait, hlast, hold, ← hnext, hid]
      · cases strict with
        | true => simp [observeDelta, referenceOf, hawait, hlast, hold, hnext]
        | false => simp [observeDelta, referenceOf, hawait, hlast, hold, hnext, hid]

/-- A delta of the stream itself. -/
theorem observe_delta (hstamped : unstamped info = false) (hkey : info.keyframe = false)
    (strict : Bool) :
    ((r.observe info strict).2 = .accept ∧
      (∃ last, r.reference info.key = some last ∧ info.frameId = last + 1) ∧
      (r.observe info strict).1.reference info.key = some info.frameId) ∨
    ((r.observe info strict).2 = .acceptAfterGap ∧ strict = false ∧
      (r.observe info strict).1.reference info.key = some info.frameId) ∨
    (((r.observe info strict).2 = .suppress ∨ (r.observe info strict).2 = .suppressAfterGap) ∧
      Forgets info.key r (r.observe info strict).1) := by
  have hid : info.frameId ≠ 0 := by
    intro hzero
    simp [unstamped, hzero] at hstamped
  have hstate : referenceOf ((r.prepareStream info.key).stream info.key) =
      r.reference info.key := by
    rw [referenceOf_stream, reference_prepareStream]
  simp only [observe, hstamped, hkey, Bool.false_eq_true, if_false, Forgets, reference_setStream,
    ← hstate]
  exact observeDelta_cases _ info strict hid

end VideoReceiveRecovery

end HbbCommon.Transport
