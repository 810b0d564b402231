import HbbCommon.Transport.Video.Receiver
import HbbCommon.Transport.Video.Logic.RecoveryReference

/-!
# The receiver's reference chain in barrier mode

The frames that reach the decoder of a stream form a chain: every delta follows
the frame before it. The hold-back only chooses which frames are offered and in
which order; the chain itself is kept by the recovery state, whose `reference` is
the frame pushed last (`ChainInv`). An eviction forgets the reference, a full
queue drops it, and a keyframe starts the chain again, so what the two tables
evict does not matter.

Once the queue is closed nothing more is pushed, and nothing is asked of the
recovery state.
-/

namespace HbbCommon.Transport

open HbbCommon.Base

/-- The frames of `k` that were pushed, newest first, without those that carry no
frame id. -/
def Inbound.streamFrames (q : Inbound) (k : VideoStreamKey) : List VideoSourceInfo :=
  (q.frames.map Prod.fst).filter
    (fun info => decide (info.key = k) && decide (info.frameId ≠ 0))

/-- All frames of `k` that were pushed use a reference-sensitive codec. -/
def Inbound.Sensitive (q : Inbound) (k : VideoStreamKey) : Prop :=
  ∀ info ∈ q.streamFrames k, info.codec.isReferenceSensitive = true

instance (q : Inbound) (k : VideoStreamKey) : Decidable (q.Sensitive k) :=
  inferInstanceAs (Decidable (∀ info ∈ q.streamFrames k, info.codec.isReferenceSensitive = true))

/-- Every delta directly follows the frame with the id before its own. The list
is newest first. -/
def Chained : List VideoSourceInfo → Prop
  | [] => True
  | frame :: older =>
      (frame.keyframe = false → ∃ before ∈ older.head?, before.frameId + 1 = frame.frameId) ∧
      Chained older

namespace Receiver

open VideoReceiveRecovery

variable {k : VideoStreamKey} {r r' : VideoReceiveRecovery} {q : Inbound}

/-- The frames of `k` form a chain, and the reference of `k` is the newest of
them. -/
def ChainInv (k : VideoStreamKey) (r : VideoReceiveRecovery) (q : Inbound) : Prop :=
  q.Sensitive k → Chained (q.streamFrames k) ∧
    (q.closed = false → ∀ last, r.reference k = some last →
      ∃ before ∈ (q.streamFrames k).head?, before.frameId = last)

/-! ## Pushes -/

theorem streamFrames_push_other {info : VideoSourceInfo} (payload : Bytes)
    (h : info.key ≠ k ∨ info.frameId = 0) :
    Inbound.streamFrames { q with frames := (info, payload) :: q.frames } k = q.streamFrames k := by
  unfold Inbound.streamFrames
  rw [List.map_cons, List.filter_cons_of_neg]
  rcases h with h | h <;> simp [h]

theorem streamFrames_push_own {info : VideoSourceInfo} (payload : Bytes) (hk : info.key = k)
    (hid : info.frameId ≠ 0) :
    Inbound.streamFrames { q with frames := (info, payload) :: q.frames } k =
      info :: q.streamFrames k := by
  unfold Inbound.streamFrames
  rw [List.map_cons, List.filter_cons_of_pos (by simp [hk, hid])]

theorem ChainInv.forget (h : ChainInv k r q) (hforgets : Forgets k r r') : ChainInv k r' q := by
  intro hsensitive
  obtain ⟨hchained, hreference⟩ := h hsensitive
  refine ⟨hchained, fun hopen last hlast => ?_⟩
  rcases hforgets with hnone | hsame
  · rw [hnone] at hlast
    cases hlast
  · exact hreference hopen last (hsame ▸ hlast)

/-- Nothing is asked of the recovery state of a closed queue. -/
theorem ChainInv.closed (h : ChainInv k r q) (r' : VideoReceiveRecovery) :
    ChainInv k r' { q with closed := true } := by
  intro hsensitive
  exact ⟨(h hsensitive).1, fun hopen => by cases hopen⟩

theorem ChainInv.pushOther (h : ChainInv k r q) (hforgets : Forgets k r r')
    {info : VideoSourceInfo} (payload : Bytes) (hother : info.key ≠ k ∨ info.frameId = 0) :
    ChainInv k r' { q with frames := (info, payload) :: q.frames } := by
  unfold ChainInv Inbound.Sensitive
  rw [streamFrames_push_other payload hother]
  exact h.forget hforgets

/-- A frame of the stream that is a keyframe or follows the newest frame. -/
theorem ChainInv.pushOwn (h : ChainInv k r q) {info : VideoSourceInfo} (payload : Bytes)
    (hk : info.key = k) (hid : info.frameId ≠ 0)
    (hnext : info.codec.isReferenceSensitive = true → info.keyframe = false →
      q.closed = false ∧ ∃ last, r.reference k = some last ∧ info.frameId = last + 1)
    (href : r'.reference k = some info.frameId) :
    ChainInv k r' { q with frames := (info, payload) :: q.frames } := by
  unfold ChainInv Inbound.Sensitive
  rw [streamFrames_push_own payload hk hid]
  intro hsensitive
  obtain ⟨hchained, hreference⟩ := h (fun i hi => hsensitive i (List.mem_cons_of_mem _ hi))
  refine ⟨⟨?_, hchained⟩, ?_⟩
  · intro hdelta
    obtain ⟨hopen, last, hlast, hsucc⟩ := hnext (hsensitive info List.mem_cons_self) hdelta
    obtain ⟨before, hbefore, heq⟩ := hreference hopen last hlast
    exact ⟨before, hbefore, by rw [heq, hsucc]⟩
  · intro _ last hlast
    rw [href] at hlast
    cases hlast
    exact ⟨info, rfl, rfl⟩

/-! ## Deliveries -/

/-- What a decision about a frame says about the chain of `k`: the frame is not
one of `k`, or it is a keyframe or a successor and becomes the reference. -/
theorem observe_accepts (k : VideoStreamKey) (r : VideoReceiveRecovery) (info : VideoSourceInfo)
    {strict : Bool} (hstream : k.streamId ≠ 0)
    (haccept : (r.observe info strict).2 = .accept ∨ (r.observe info strict).2 = .acceptAfterGap) :
    ((info.key ≠ k ∨ info.frameId = 0) ∧ Forgets k r (r.observe info strict).1) ∨
    (info.key = k ∧ info.frameId ≠ 0 ∧
      (strict = true → info.keyframe = false →
        ∃ last, r.reference k = some last ∧ info.frameId = last + 1) ∧
      (r.observe info strict).1.reference k = some info.frameId) := by
  by_cases hk : info.key = k
  · subst hk
    by_cases hid : info.frameId = 0
    · refine .inl ⟨.inr hid, ?_⟩
      rw [observe_unstamped (by simp [unstamped, hid])]
      exact .refl _ r
    · have hstamped : unstamped info = false := by simp [unstamped, hstream, hid]
      refine .inr ⟨rfl, hid, ?_⟩
      cases hkey : info.keyframe with
      | true => exact ⟨(fun _ h => by cases h), (observe_keyframe hstamped hkey strict).2⟩
      | false =>
          rcases observe_delta (r := r) hstamped hkey strict with
            ⟨_, hlast, href⟩ | ⟨_, hloose, href⟩ | ⟨hsuppress, _⟩
          · exact ⟨fun _ _ => hlast, href⟩
          · -- a gap is only accepted where gaps are not strict
            refine ⟨fun hstrict _ => ?_, href⟩
            rw [hstrict] at hloose
            cases hloose
          · rcases haccept with h | h <;> rcases hsuppress with h' | h' <;> rw [h] at h' <;> cases h'
  · exact .inl ⟨.inl hk, forgets_observe_of_ne (Ne.symm hk) strict⟩

theorem observe_suppresses (k : VideoStreamKey) (r : VideoReceiveRecovery) (info : VideoSourceInfo)
    {strict : Bool}
    (hsuppress : (r.observe info strict).2 = .suppress ∨
      (r.observe info strict).2 = .suppressAfterGap) :
    Forgets k r (r.observe info strict).1 := by
  by_cases hk : k = info.key
  · subst hk
    by_cases hstamped : unstamped info = true
    · rw [observe_unstamped hstamped]
      exact .refl _ r
    · rw [Bool.not_eq_true] at hstamped
      cases hkey : info.keyframe with
      | true =>
          have haccept := (observe_keyframe (r := r) hstamped hkey strict).1
          rcases hsuppress with h | h <;> rw [haccept] at h <;> cases h
      | false =>
          rcases observe_delta (r := r) hstamped hkey strict with
            ⟨haccept, _⟩ | ⟨haccept, _⟩ | ⟨_, hforgets⟩
          · rcases hsuppress with h | h <;> rw [haccept] at h <;> cases h
          · rcases hsuppress with h | h <;> rw [haccept] at h <;> cases h
          · exact hforgets
  · exact forgets_observe_of_ne hk strict

/-- An accepted frame is offered to the queue. -/
theorem ChainInv.offer (h : ChainInv k r q) (hstream : k.streamId ≠ 0) (info : VideoSourceInfo)
    (payload : Bytes) {strict : Bool}
    (hstrict : info.codec.isReferenceSensitive = true → strict = true)
    (haccept : (r.observe info strict).2 = .accept ∨ (r.observe info strict).2 = .acceptAfterGap)
    (answer : TrySend) :
    ChainInv k (if (q.trySend info payload answer).2 = .full then
        (r.observe info strict).1.markStreamReferenceLoss info.key
      else (r.observe info strict).1) (q.trySend info payload answer).1 := by
  have haccepts := observe_accepts k r info hstream haccept
  by_cases hclosed : q.closed = true
  · simp only [Inbound.trySend, hclosed, if_true, reduceCtorEq, if_false]
    have := h.closed (r.observe info strict).1
    rwa [show ({ q with closed := true } : Inbound) = q by rw [← hclosed]] at this
  · simp only [Inbound.trySend, if_neg hclosed]
    cases answer with
    | ok =>
        simp only [reduceCtorEq, if_false]
        rcases haccepts with ⟨hother, hforgets⟩ | ⟨hk, hid, hnext, href⟩
        · exact h.pushOther hforgets payload hother
        · refine h.pushOwn payload hk hid (fun hs hd => ⟨?_, hnext (hstrict hs) hd⟩) href
          simpa using hclosed
    | full =>
        simp only [if_true]
        rcases haccepts with ⟨_, hforgets⟩ | ⟨hk, _⟩
        · exact h.forget (hforgets.trans (forgets_markStreamReferenceLoss _ k _))
        · refine h.forget (.inl ?_)
          rw [← hk]
          exact reference_markStreamReferenceLoss _ _
    | closed =>
        simp only [reduceCtorEq, if_false]
        exact h.closed _

theorem ChainInv.deliverVideoPayload (h : ChainInv k r q) (hstream : k.streamId ≠ 0)
    (info : VideoSourceInfo) (payload : Bytes) (strictGap : Bool) (answer : TrySend) :
    ChainInv k (deliverVideoPayload r q info payload strictGap answer).1
      (deliverVideoPayload r q info payload strictGap answer).2.1 := by
  have hstrict : info.codec.isReferenceSensitive = true →
      (strictGap || info.codec.isReferenceSensitive) = true := by
    intro hsensitive
    simp [hsensitive]
  unfold Transport.deliverVideoPayload
  cases hdecision : (r.observe info (strictGap || info.codec.isReferenceSensitive)).2 with
  | accept =>
      have hoffer := h.offer hstream info payload hstrict (.inl hdecision) answer
      simp only [hdecision]
      cases hsend : q.trySend info payload answer with
      | mk q' result => cases result <;> simpa [hsend] using hoffer
  | acceptAfterGap =>
      have hoffer := h.offer hstream info payload hstrict (.inr hdecision) answer
      simp only [hdecision]
      cases hsend : q.trySend info payload answer with
      | mk q' result => cases result <;> simpa [hsend] using hoffer
  | suppress =>
      simp only [hdecision]
      exact h.forget (observe_suppresses k r info (.inl hdecision))
  | suppressAfterGap =>
      simp only [hdecision]
      exact h.forget (observe_suppresses k r info (.inr hdecision))

theorem ChainInv.deliverReady (hstream : k.streamId ≠ 0) (strictGap : Bool) :
    ∀ (ready : List (VideoSourceInfo × Bytes)) (answers : List TrySend) (d : Delivering),
      ChainInv k d.recovery d.inbound →
      ChainInv k (deliverReady strictGap ready answers d).recovery
        (deliverReady strictGap ready answers d).inbound := by
  intro ready
  induction ready with
  | nil => exact fun _ _ h => h
  | cons frame ready ih =>
      intro answers d h
      obtain ⟨info, payload⟩ := frame
      have hfirst := h.deliverVideoPayload hstream info payload strictGap (answers.headD .ok)
      rcases hdeliver : Transport.deliverVideoPayload d.recovery d.inbound info payload strictGap
        (answers.headD .ok) with ⟨recovery, inbound, delivery⟩
      rw [hdeliver] at hfirst
      simp only [Transport.deliverReady, hdeliver]
      split
      · exact hfirst
      · exact ih _ _ hfirst

theorem forgets_requestVideoKeyframe (r : VideoReceiveRecovery) (k : VideoStreamKey)
    (control : TrySend) (scopedRefresh : Bool) (now : Time) (dropped : Nat) (strict : Bool) :
    Forgets k r (requestVideoKeyframe r control scopedRefresh now dropped strict).1 := by
  have hforgets := forgets_nextKeyframeRequest r k now scopedRefresh dropped strict
  rcases hrequest : r.nextKeyframeRequestWithRecovery now scopedRefresh dropped strict with
    ⟨recovery, request⟩
  rw [hrequest] at hforgets
  simp only [requestVideoKeyframe, hrequest]
  cases request with
  | none => exact hforgets
  | some request => cases control <;> exact hforgets

theorem ChainInv.deliverAndRequest (h : ChainInv k r q) (hstream : k.streamId ≠ 0)
    (ready : List (VideoSourceInfo × Bytes)) (needs strict strictGap : Bool) (dropped : Nat)
    (ctx : EventContext) :
    ChainInv k (deliverAndRequest r q ready needs strict strictGap dropped ctx).1
      (deliverAndRequest r q ready needs strict strictGap dropped ctx).2.1 := by
  have hdelivered := ChainInv.deliverReady hstream strictGap ready ctx.inboundAnswers
    { recovery := r, inbound := q
      outcome := { alive := true, needsKeyframe := needs, strictRecovery := strict } } h
  simp only [Receiver.deliverAndRequest]
  split
  · exact hdelivered
  · split
    · exact hdelivered
    · exact hdelivered.forget (forgets_requestVideoKeyframe _ k _ _ _ _ _)

/-! ## Events -/

theorem forgets_markReassemblyLoss (r : VideoReceiveRecovery) (k : VideoStreamKey) (dropped : Nat)
    (barrier : Bool) : Forgets k r (markReassemblyLoss r dropped barrier) := by
  unfold markReassemblyLoss
  split
  · exact forgets_markReferenceLoss r k
  · exact .refl k r

theorem forgets_holdOutcome (holdback : VideoEpochHoldback) (r : VideoReceiveRecovery)
    (k : VideoStreamKey) (frame : Option ReassembledFrame) (now window : Time) :
    Forgets k r (holdOutcome holdback r frame now window).2.1 := by
  unfold holdOutcome
  split
  · exact forgets_noteSourceContext r k _
  · exact .refl k r
  · exact .refl k r

theorem forgets_markIf (r : VideoReceiveRecovery) (k : VideoStreamKey) (strict : Bool) :
    Forgets k r (if strict then r.markReferenceLoss else r) := by
  split
  · exact forgets_markReferenceLoss r k
  · exact .refl k r

theorem ChainInv.step {s t : Receiver} {event : ReceiverEvent} (hstream : k.streamId ≠ 0)
    (h : ChainInv k s.recovery s.inbound) (hstep : s.step event = some t) :
    ChainInv k t.recovery t.inbound := by
  cases event with
  | datagram outcome ctx =>
      simp only [Receiver.step] at hstep
      split at hstep
      · cases hstep
      · cases hstep
        have hmarked : ChainInv k _ s.inbound :=
          ((h.forget (forgets_markReassemblyLoss _ k outcome.droppedFrames true)).forget
            (forgets_holdOutcome s.holdback _ k outcome.frame ctx.now ctx.reorderWindow)).forget
            (forgets_markIf _ k (holdOutcome s.holdback
              (markReassemblyLoss s.recovery outcome.droppedFrames true) outcome.frame ctx.now
              ctx.reorderWindow).2.2.strictRecoveryRequired)
        exact hmarked.deliverAndRequest hstream _ _ _ _ _ ctx
  | reliable source payload ctx =>
      simp only [Receiver.step] at hstep
      split at hstep
      · cases hstep
      · split at hstep
        · rename_i info
          split at hstep
          · cases hstep
            exact (h.forget (forgets_markIf _ k (s.holdback.acceptKeyframe info payload ctx.now
              ctx.reorderWindow).2.strictRecoveryRequired)).deliverAndRequest hstream _ _ _ _ _ ctx
          · cases hstep
            exact h
        · cases hstep
          exact h

theorem chained_split {frames : List VideoSourceInfo} (h : Chained frames)
    {newer older : List VideoSourceInfo} {frame : VideoSourceInfo}
    (hsplit : frames = newer ++ frame :: older) :
    Chained (frame :: older) := by
  induction newer generalizing frames with
  | nil =>
      subst hsplit
      exact h
  | cons f newer ih =>
      subst hsplit
      exact ih h.2 rfl

/-- In barrier mode, after any events of the two readers in any order and with any
answers of the queues: of a stream with a stream id whose frames use a
reference-sensitive codec, every delta that was pushed was pushed right after the
frame with the id before its own, and the first frame that was pushed is a
keyframe. -/
theorem receiver_chain (s : Receiver) (h : system.Reach (fun _ _ => True) s)
    (k : VideoStreamKey) (hstream : k.streamId ≠ 0) (hsensitive : s.inbound.Sensitive k) :
    (∀ newer delta older, s.inbound.streamFrames k = newer ++ delta :: older →
      delta.keyframe = false → ∃ before rest, older = before :: rest ∧
        before.frameId + 1 = delta.frameId) ∧
    (∀ newer first, s.inbound.streamFrames k = newer ++ [first] → first.keyframe = true) := by
  have hinv : ChainInv k s.recovery s.inbound := by
    refine h.invariant (I := fun s => ChainInv k s.recovery s.inbound) ?_ ?_
    · exact fun _ => ⟨trivial, fun _ last hlast => by cases hlast⟩
    · exact fun _ _ _ hs _ hstep => hs.step hstream hstep
  have hchained := (hinv hsensitive).1
  have hdelta : ∀ newer delta older, s.inbound.streamFrames k = newer ++ delta :: older →
      delta.keyframe = false → ∃ before ∈ older.head?, before.frameId + 1 = delta.frameId :=
    fun newer delta older hsplit => (chained_split hchained hsplit).1
  constructor
  · intro newer delta older hsplit hkey
    obtain ⟨before, hmem, heq⟩ := hdelta newer delta older hsplit hkey
    exact ⟨before, _, List.eq_cons_of_mem_head? hmem, heq⟩
  · intro newer first hsplit
    by_contra hkey
    obtain ⟨before, hmem, _⟩ := hdelta newer first [] hsplit (by simpa using hkey)
    cases hmem

/-- A frame of stream 1 of display 0. -/
def barrierFrame (id : Nat) (keyframe : Bool) : VideoSourceInfo :=
  { key := { display := 0, streamId := 1 }, frameId := id, keyframe := keyframe, codec := .h264 }

/-- An event at time 0 with the given answers of the inbound queue. -/
def barrierContext (answers : List TrySend) : EventContext :=
  { now := 0, reorderWindow := millis 40, inboundAnswers := answers, controlAnswer := .ok
    scopedReferenceRefresh := true }

/-- A delta of epoch 1. -/
def barrierDelta (id : Nat) (answers : List TrySend) : ReceiverEvent :=
  .datagram
    { frame := some
        { source := some (barrierFrame id false), presentationTimestampUs := 1, payload := [7] }
      droppedFrames := 0, requestKeyframe := false }
    (barrierContext answers)

/-- Keyframe 1 and delta 2 are pushed; delta 3 finds the queue full, and delta 4
is suppressed. -/
def barrierRun : List ReceiverEvent :=
  [.reliable (some (barrierFrame 1 true)) [7] (barrierContext []), barrierDelta 2 [],
    barrierDelta 3 [.full], barrierDelta 4 []]

theorem receiver_chain_full_queue :
    ∃ s, system.run barrierRun = some s ∧
      s.inbound.streamFrames ⟨0, 1⟩ = [] ++ barrierFrame 2 false :: [barrierFrame 1 true] ∧
      ∃ before rest, [barrierFrame 1 true] = before :: rest ∧
        before.frameId + 1 = (barrierFrame 2 false).frameId := by
  refine ⟨_, rfl, by decide, ?_⟩
  exact (receiver_chain _ (TSys.reach_of_any_run barrierRun rfl) ⟨0, 1⟩ (by decide)
    (by decide)).1 [] _ _ (by decide) rfl

end Receiver

end HbbCommon.Transport
