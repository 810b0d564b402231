import HbbCommon.Transport.Video.Receiver
import HbbCommon.Transport.Video.Logic.RecoveryTables

/-!
# Accounting of keyframe requests

`next_keyframe_request_with_recovery` records a request before it is built and
before `request_video_keyframe` offers it to the control channel. A request that
is due is therefore always accounted for (`due_changes_pending`), and it is sent
exactly when it can be built and the channel takes it.

In a reachable state the latest source carries a stream and a frame id, so only a
negative display keeps a scoped request from being built.
-/

namespace HbbCommon.Transport

open HbbCommon.Base

namespace VideoReceiveRecovery

variable {r : VideoReceiveRecovery}

/-- The source observed last and all tracked streams carry their ids. -/
structure AllStamped (r : VideoReceiveRecovery) : Prop where
  observed : ∀ info ∈ r.lastObserved, unstamped info = false
  tracked : ∀ k, r.streams.contains k = true → k.streamId ≠ 0

/-- A table with fewer streams. -/
theorem AllStamped.shrink (h : AllStamped r) {r' : VideoReceiveRecovery}
    (hobs : r'.lastObserved = r.lastObserved)
    (hsub : ∀ k state, r'.streams.get? k = some state → r.streams.contains k = true) :
    AllStamped r' where
  observed := by
    rw [hobs]
    exact h.observed
  tracked := by
    intro k hk
    obtain ⟨state, hstate⟩ := OrdMap.contains_iff.mp hk
    exact h.tracked k (hsub k state hstate)

theorem AllStamped.evict (h : AllStamped r) (key : VideoStreamKey) : AllStamped (r.evict key) := by
  refine h.shrink rfl ?_
  intro k state hstate
  exact OrdMap.contains_iff.mpr ⟨state, (OrdMap.get?_erase_eq_some.mp hstate).2⟩

theorem AllStamped.prepareStream (h : AllStamped r) (key : VideoStreamKey) :
    AllStamped (r.prepareStream key) := by
  rcases prepareStream_cases r key with ⟨heq, _⟩ | ⟨evicted, _, _, _, heq⟩
  · rw [heq]
    exact h
  · rw [heq]
    exact h.evict evicted

theorem AllStamped.retireDisplay (h : AllStamped r) (key : VideoStreamKey) :
    AllStamped (r.retireDisplay key) := by
  refine h.shrink rfl ?_
  intro k state hstate
  exact OrdMap.contains_iff.mpr ⟨state, (OrdMap.get?_filter_eq_some.mp hstate).1⟩

/-- A stamped frame becomes the source observed last, and its stream is tracked. -/
theorem AllStamped.record (h : AllStamped r) {info : VideoSourceInfo}
    (hstamped : unstamped info = false) (pending : OrdMap RequestKey PendingVideoRecovery)
    (state : VideoReceiveState) :
    AllStamped { r with
      streams := r.streams.insert info.key state
      lastObserved := some info
      pendingRequests := pending } where
  observed := by
    rintro _ ⟨⟩
    exact hstamped
  tracked := by
    intro k hk
    simp only [OrdMap.contains_insert, Bool.or_eq_true, decide_eq_true_eq] at hk
    rcases hk with rfl | hk
    · intro hzero
      simp [unstamped, hzero] at hstamped
    · exact h.tracked k hk

theorem AllStamped.after (h : AllStamped r) (call : RecoveryCall) : AllStamped (r.after call) := by
  cases call with
  | noteSourceContext info =>
      simp only [VideoReceiveRecovery.after, VideoReceiveRecovery.noteSourceContext]
      split
      · exact h
      · rename_i hstamped
        exact (h.prepareStream info.key).record (by simpa using hstamped) _ _
  | observe info strict =>
      simp only [VideoReceiveRecovery.after, VideoReceiveRecovery.observe]
      split
      · exact h
      · rename_i hstamped
        rw [Bool.not_eq_true] at hstamped
        by_cases hkey : info.keyframe = true
        · simp only [hkey, if_true]
          exact ((h.retireDisplay info.key).prepareStream info.key).record hstamped _ _
        · simp only [hkey, Bool.false_eq_true, if_false]
          exact (h.prepareStream info.key).record hstamped _ _
  | markReferenceLoss =>
      refine ⟨h.observed, fun k hk => h.tracked k ?_⟩
      simpa [VideoReceiveRecovery.after, markReferenceLoss] using hk
  | markStreamReferenceLoss key =>
      refine ⟨h.observed, fun k hk => h.tracked k ?_⟩
      simpa [VideoReceiveRecovery.after, markStreamReferenceLoss, OrdMap.modify] using hk
  | nextKeyframeRequest now scopedRefresh dropped strict =>
      simp only [VideoReceiveRecovery.after]
      rcases nextKeyframeRequestWithRecovery_cases r now scopedRefresh dropped strict with
        ⟨heq, _⟩ | ⟨key, _, _, heq⟩
      · rw [heq]
        exact h
      · rw [heq]
        exact ⟨h.observed, h.tracked⟩

theorem allStamped_of_reach (h : calls.Reach (fun _ _ => True) r) : AllStamped r := by
  refine h.invariant ⟨(fun _ hinfo => by cases hinfo), (fun _ hk => by cases hk)⟩ ?_
  intro s call t hs _ hstep
  cases hstep
  exact hs.after call

theorem AllStamped.latestSource (h : AllStamped r) {source : VideoSourceInfo}
    (hsource : r.latestSource = some source) : unstamped source = false := by
  unfold VideoReceiveRecovery.latestSource at hsource
  cases hobs : r.lastObserved with
  | some info =>
      rw [hobs] at hsource
      cases hsource
      exact h.observed _ hobs
  | none =>
      rw [hobs] at hsource
      obtain ⟨e, he, rfl⟩ := Option.map_eq_some_iff.mp hsource
      have hmem := List.mem_reverse.mp (List.mem_of_find?_eq_some he)
      have hstream := h.tracked e.1
        (OrdMap.contains_iff.mpr ⟨e.2, OrdMap.mem_entries_iff.mp hmem⟩)
      have hid : e.2.lastFrameId > 0 := by simpa using List.find?_some he
      simp [unstamped, hstream, Nat.pos_iff_ne_zero.mp hid]

/-! ## A request that is due is recorded -/

/-- A keyframe request is due now. -/
def RequestIsDue (r : VideoReceiveRecovery) (now : Time) (scopedRefresh strictRecovery : Bool) :
    Prop :=
  ∃ key, requestKey? r.latestSource scopedRefresh = some key ∧
    r.requestDue key r.latestSource now scopedRefresh strictRecovery = true

theorem isNewStream_self {pending : PendingVideoRecovery} (source : Option VideoSourceInfo)
    (h : pending.source = source) : isNewStream (some pending) source = false := by
  subst h
  cases hsource : pending.source <;> simp [isNewStream, hsource]

theorem not_retryDue_now {pending : PendingVideoRecovery} {now : Time}
    (h : pending.requestedAt = now) : retryDue pending now = false := by
  have hdelay : 0 < videoKeyframeRetryInitialDelay * 2 ^ pending.retries :=
    Nat.mul_pos (by decide) (Nat.two_pow_pos _)
  have hcooldown : 0 < videoKeyframeRecoveryCycleCooldown := by decide
  have hnow : now - pending.requestedAt = 0 := by
    rw [h]
    exact Nat.sub_self now
  simp only [retryDue, hnow]
  split
  · exact decide_eq_false (Nat.not_le.mpr hdelay)
  · exact decide_eq_false (Nat.not_le.mpr hcooldown)

/-- Recording a request that is due always changes the pending requests: a new
stream changes the source, a retry the time, an escalation the strictness. -/
theorem due_changes_pending {key : RequestKey} {source : Option VideoSourceInfo} {now : Time}
    {scopedRefresh strict : Bool} (hdue : r.requestDue key source now scopedRefresh strict = true) :
    r.pendingRequests.get? key ≠ some (r.nextPending key source now scopedRefresh strict) := by
  intro hget
  have hsame : isNewStream (r.pendingRequests.get? key) source = false := by
    rw [hget]
    exact isNewStream_self source rfl
  have hretry : (r.pendingRequests.get? key).all (fun pending => retryDue pending now) = false := by
    rw [hget]
    exact not_retryDue_now rfl
  -- neither a new stream nor a retry: the request was an escalation
  simp only [requestDue, hsame, hretry, Bool.false_or, Bool.and_eq_true, Bool.not_eq_true'] at hdue
  obtain ⟨_, ⟨_, hstrict⟩, hadvisory⟩ := hdue
  rw [hget, Option.any_some] at hadvisory
  simp [nextPending, hstrict] at hadvisory

/-! ## `request_video_keyframe` -/

/-- The refresh message for `source` can be built. -/
theorem videoReferenceRefresh_isSome {source : VideoSourceInfo} (h : unstamped source = false)
    (dropped : Nat) (strict : Bool) :
    (videoReferenceRefresh source dropped strict).isSome = true ↔ 0 ≤ source.key.display := by
  simp only [unstamped, Bool.or_eq_false_iff, decide_eq_false_iff_not] at h
  unfold videoReferenceRefresh
  split
  · rename_i hnone
    rcases hnone with hneg | hzero | hzero
    · simp [hneg]
    · exact absurd hzero h.1
    · exact absurd hzero h.2
  · rename_i hsome
    simp only [not_or, not_lt] at hsome
    simp [hsome.1]

/-- Whether the message of a request that is due can be built. -/
def Buildable (r : VideoReceiveRecovery) (scopedRefresh : Bool) : Prop :=
  scopedRefresh = true → ∀ source ∈ r.latestSource, 0 ≤ source.key.display

/-- The request that is made when one is due. -/
theorem request_isSome_iff (h : AllStamped r) {key : RequestKey} {scopedRefresh : Bool}
    (hkey : requestKey? r.latestSource scopedRefresh = some key) (dropped : Nat) (strict : Bool) :
    (if scopedRefresh then
        (r.latestSource.bind (fun source => videoReferenceRefresh source dropped strict)).map
          VideoKeyframeRequest.scopedTo
      else some .legacy).isSome = true ↔ Buildable r scopedRefresh := by
  cases scopedRefresh with
  | false => simp [Buildable]
  | true =>
      obtain ⟨source, hsource, _⟩ := Option.map_eq_some_iff.mp hkey
      simp only [if_true, hsource, Option.bind_some, Option.isSome_map, Buildable,
        videoReferenceRefresh_isSome (h.latestSource hsource)]
      simp

/-- In every reachable state: a call changes the accounting of requests only if it
queues a refresh, exactly when no request is due, or the control channel has room
and, in scoped mode, the display of the latest source is not negative. -/
theorem request_accounted_when_sent (r : VideoReceiveRecovery)
    (h : calls.Reach (fun _ _ => True) r) (control : TrySend) (scopedRefresh : Bool) (now : Time)
    (dropped : Nat) (strict : Bool) :
    (((requestVideoKeyframe r control scopedRefresh now dropped strict).1.pendingRequests ≠
          r.pendingRequests ∨
        (requestVideoKeyframe r control scopedRefresh now dropped strict).1.lastKeyframeRequestAt ≠
          r.lastKeyframeRequestAt) →
      (requestVideoKeyframe r control scopedRefresh now dropped strict).2.2.isSome = true) ↔
    (¬ RequestIsDue r now scopedRefresh strict ∨
      (control = .ok ∧ Buildable r scopedRefresh)) := by
  rcases nextKeyframeRequestWithRecovery_cases r now scopedRefresh dropped strict with
    ⟨heq, hnot⟩ | ⟨key, hkey, hdue, heq⟩
  · -- nothing is due and nothing changes
    have hidle : ¬ RequestIsDue r now scopedRefresh strict := by
      rintro ⟨key, hkey, hdue⟩
      rw [hnot key hkey] at hdue
      cases hdue
    simp [requestVideoKeyframe, heq, hidle]
  · have hisDue : RequestIsDue r now scopedRefresh strict := ⟨key, hkey, hdue⟩
    have hbuild := request_isSome_iff (allStamped_of_reach h) hkey dropped
      (r.nextPending key r.latestSource now scopedRefresh strict).strictRecovery
    have hchanged : r.pendingRequests.insert key
        (r.nextPending key r.latestSource now scopedRefresh strict) ≠ r.pendingRequests := by
      intro hsame
      apply due_changes_pending hdue
      rw [← hsame, OrdMap.get?_insert, if_pos rfl]
    generalize hmessage : (if scopedRefresh then _ else _ : Option VideoKeyframeRequest) = message
      at heq hbuild
    rw [← hbuild]
    cases message with
    | none => simp [requestVideoKeyframe, heq, hchanged, hisDue]
    | some message => cases control <;> simp [requestVideoKeyframe, heq, hchanged, hisDue]

/-- A first request for display 0 that the control channel takes. -/
theorem request_accounted_when_sent_first :
    ∃ r, calls.run [.observe (displayKeyframe 0) true] = some r ∧
      ((requestVideoKeyframe r .ok true 0 1 true).1.pendingRequests ≠ r.pendingRequests ∨
          (requestVideoKeyframe r .ok true 0 1 true).1.lastKeyframeRequestAt ≠
            r.lastKeyframeRequestAt →
        (requestVideoKeyframe r .ok true 0 1 true).2.2.isSome = true) := by
  refine ⟨_, rfl, ?_⟩
  refine (request_accounted_when_sent _ (TSys.reach_of_any_run
    [.observe (displayKeyframe 0) true] rfl) .ok true 0 1 true).mpr (.inr ⟨rfl, ?_⟩)
  rintro _ _ ⟨⟩
  decide

/-- A first request that finds the control channel full is recorded, and so is one
for a display with a negative number, although nothing is sent. The next call
within the second then asks for nothing. -/
theorem request_accounted_unsent :
    (∃ r, calls.Reach (fun _ _ => True) r ∧
      (requestVideoKeyframe r .full true 0 1 true).1.pendingRequests ≠ r.pendingRequests ∧
      (requestVideoKeyframe r .full true 0 1 true).2.2 = none ∧
      (requestVideoKeyframe (requestVideoKeyframe r .full true 0 1 true).1 .ok true (millis 999) 1
        true).2.2 = none) ∧
    ∃ r, calls.Reach (fun _ _ => True) r ∧
      (requestVideoKeyframe r .ok true 0 1 true).1.pendingRequests ≠ r.pendingRequests ∧
      (requestVideoKeyframe r .ok true 0 1 true).2.2 = none :=
  ⟨⟨_, TSys.reach_of_any_run [.observe (displayKeyframe 0) true] rfl, by decide, by decide,
      by decide⟩,
    ⟨_, TSys.reach_of_any_run [.observe (displayKeyframe (-1)) true] rfl, by decide, by decide⟩⟩

end VideoReceiveRecovery

end HbbCommon.Transport
