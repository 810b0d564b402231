import HbbCommon.Transport.Video.ReceiverTasks
import HbbCommon.Transport.Video.Logic.ReceiverChain

/-!
# The reference chain without the keyframe barrier

The chain of a stream breaks where the two tasks overlap on it. While a reliable
keyframe is pushed but not yet recorded, the datagram reader still accepts the
delta after the old reference and pushes it behind the keyframe; and a keyframe
that is pushed while the datagram reader holds an accepted delta comes between
that delta and its reference. `Separate` excludes these two overlaps, and frames
of a stream that carry no frame id, which are not tracked at all.

The invariant follows the newest frame of the stream: it is the unrecorded
keyframe while there is one, the frame before an accepted delta while one is
held, and the reference otherwise.
-/

namespace HbbCommon.Transport

open HbbCommon.Base

/-- The frames of `k` that were pushed, newest first. -/
def Inbound.framesOf (q : Inbound) (k : VideoStreamKey) : List VideoSourceInfo :=
  (q.frames.map Prod.fst).filter (fun info => decide (info.key = k))

/-- The frame that the datagram reader has accepted and not offered yet. -/
def DatagramPc.acceptedFrame : DatagramPc → Option VideoSourceInfo
  | .accepted info _ _ _ => some info
  | _ => none

/-- The frame that the datagram reader has accepted and neither pushed nor
recorded as lost. -/
def DatagramPc.openFrame : DatagramPc → Option VideoSourceInfo
  | .accepted info _ _ _ => some info
  | .refused info _ => some info
  | _ => none

/-- The frame that the datagram reader will observe. -/
def DatagramPc.comingFrame : DatagramPc → Option VideoSourceInfo
  | .begun outcome => (ReceiverTasks.frameOf outcome).map Prod.fst
  | .assessed outcome _ => (ReceiverTasks.frameOf outcome).map Prod.fst
  | .marked outcome _ => (ReceiverTasks.frameOf outcome).map Prod.fst
  | _ => none

/-- The keyframe that the reliable reader will push. -/
def ReliablePc.sendingFrame : ReliablePc → Option VideoSourceInfo
  | .sending info _ => some info
  | _ => none

/-- The keyframe that the reliable reader has received and not recorded. -/
def ReliablePc.heldKeyframe : ReliablePc → Option VideoSourceInfo
  | .sending info _ => some info
  | .pushed info => some info
  | _ => none

/-- The keyframe that the reliable reader has pushed and not recorded. -/
def ReliablePc.unrecorded : ReliablePc → Option VideoSourceInfo
  | .pushed info => some info
  | _ => none

namespace ReceiverTasks

open VideoReceiveRecovery Receiver

variable {k : VideoStreamKey} {s t : ReceiverTasks}

/-! ## What a step can do -/

/-- The steps, one constructor for each branch. -/
inductive Steps (s : ReceiverTasks) : TaskAction → ReceiverTasks → Prop
  | receiveOutcome {outcome} (hpc : s.datagram = .idle) :
      Steps s (.receiveOutcome outcome) { s with datagram := .begun outcome }
  | assess {outcome} (hpc : s.datagram = .begun outcome) (strictLoss : Bool) :
      Steps s .assess { s with datagram := .assessed outcome strictLoss }
  | markLoss {outcome strictLoss r} (hpc : s.datagram = .assessed outcome strictLoss)
      (hforgets : ∀ k, Forgets k s.recovery r) :
      Steps s .markLoss { s with recovery := r, datagram := .marked outcome strictLoss }
  | observeNothing {outcome strictLoss carry} (hpc : s.datagram = .marked outcome strictLoss) :
      Steps s .observe { s with datagram := .finishing carry }
  | observeAccepted {outcome strictLoss info payload afterGap carry}
      (hpc : s.datagram = .marked outcome strictLoss)
      (hframe : frameOf outcome = some (info, payload))
      (haccept : (s.recovery.observe info true).2 = .accept ∨
        (s.recovery.observe info true).2 = .acceptAfterGap) :
      Steps s .observe { s with
        recovery := (s.recovery.observe info true).1
        datagram := .accepted info payload afterGap carry }
  | observeSuppressed {outcome strictLoss info payload carry}
      (hpc : s.datagram = .marked outcome strictLoss)
      (hframe : frameOf outcome = some (info, payload))
      (hsuppress : (s.recovery.observe info true).2 = .suppress ∨
        (s.recovery.observe info true).2 = .suppressAfterGap) :
      Steps s .observe { s with
        recovery := (s.recovery.observe info true).1, datagram := .finishing carry }
  | offerPushed {info payload afterGap carry answer}
      (hpc : s.datagram = .accepted info payload afterGap carry)
      (hopen : s.inbound.closed = false) :
      Steps s (.offer answer) { s with
        inbound := { s.inbound with frames := (info, payload) :: s.inbound.frames }
        datagram := .pushed info afterGap carry }
  | offerRefused {info payload afterGap carry answer}
      (hpc : s.datagram = .accepted info payload afterGap carry) :
      Steps s (.offer answer) { s with datagram := .refused info carry }
  | offerClosed {info payload afterGap carry answer}
      (hpc : s.datagram = .accepted info payload afterGap carry) :
      Steps s (.offer answer) { s with
        inbound := { s.inbound with closed := true }, datagram := .stopped }
  | recordRefused {info carry carry'} (hpc : s.datagram = .refused info carry) :
      Steps s .recordRefused { s with
        recovery := s.recovery.markStreamReferenceLoss info.key, datagram := .finishing carry' }
  | checkAwaiting {info afterGap carry carry'} (hpc : s.datagram = .pushed info afterGap carry) :
      Steps s .checkAwaiting { s with datagram := .finishing carry' }
  | request {carry r pc now control scopedRefresh} (hpc : s.datagram = .finishing carry)
      (hforgets : ∀ k, Forgets k s.recovery r) (hidle : pc = .idle ∨ pc = .stopped) :
      Steps s (.request now control scopedRefresh) { s with recovery := r, datagram := pc }
  | receiveKeyframe {info payload} (hpc : s.reliable = .idle) (hkey : info.keyframe = true) :
      Steps s (.receiveKeyframe (some info) payload) { s with reliable := .sending info payload }
  | receiveOther {source payload} (hpc : s.reliable = .idle) :
      Steps s (.receiveKeyframe source payload) { s with reliable := .stopped }
  | sendPushed {info payload answer} (hpc : s.reliable = .sending info payload)
      (hopen : s.inbound.closed = false) :
      Steps s (.send answer) { s with
        inbound := { s.inbound with frames := (info, payload) :: s.inbound.frames }
        reliable := .pushed info }
  | sendClosed {info payload answer} (hpc : s.reliable = .sending info payload) :
      Steps s (.send answer) { s with
        inbound := { s.inbound with closed := true }, reliable := .stopped }
  | observeKeyframe {info} (hpc : s.reliable = .pushed info) :
      Steps s .observeKeyframe { s with
        recovery := (s.recovery.observe info false).1, reliable := .idle }

theorem close_eq {q : Inbound} (h : q.closed = true) : q = { q with closed := true } := by
  rw [← h]

theorem steps_of_observe {outcome : DecodedOutcome} {strictLoss : Bool}
    (hpc : s.datagram = .marked outcome strictLoss) (hstep : s.step .observe = some t) :
    Steps s .observe t := by
  simp only [step, hpc] at hstep
  cases hframe : frameOf outcome with
  | none =>
      simp only [hframe] at hstep
      cases hstep
      exact .observeNothing hpc
  | some frame =>
      obtain ⟨info, payload⟩ := frame
      simp only [hframe, observeFrame] at hstep
      cases hdecision : (s.recovery.observe info true).2 with
      | accept =>
          simp only [hdecision] at hstep
          cases hstep
          exact .observeAccepted hpc hframe (.inl hdecision)
      | acceptAfterGap =>
          simp only [hdecision] at hstep
          cases hstep
          exact .observeAccepted hpc hframe (.inr hdecision)
      | suppress =>
          simp only [hdecision] at hstep
          cases hstep
          exact .observeSuppressed hpc hframe (.inl hdecision)
      | suppressAfterGap =>
          simp only [hdecision] at hstep
          cases hstep
          exact .observeSuppressed hpc hframe (.inr hdecision)

theorem steps_of_offer {info : VideoSourceInfo} {payload : Bytes} {afterGap : Bool}
    {carry : OutcomeCarry} {answer : TrySend}
    (hpc : s.datagram = .accepted info payload afterGap carry)
    (hstep : s.step (.offer answer) = some t) : Steps s (.offer answer) t := by
  simp only [step, hpc, offerFrame, Inbound.trySend] at hstep
  by_cases hclosed : s.inbound.closed = true
  · simp only [hclosed, if_true] at hstep
    cases hstep
    have hstop : Steps s (.offer answer) _ := .offerClosed hpc
    rwa [← close_eq hclosed] at hstop
  · simp only [if_neg hclosed] at hstep
    cases answer with
    | ok =>
        cases hstep
        exact .offerPushed hpc (by simpa using hclosed)
    | full =>
        cases hstep
        exact .offerRefused hpc
    | closed =>
        cases hstep
        exact .offerClosed hpc

theorem steps_of_send {info : VideoSourceInfo} {payload : Bytes} {answer : TrySend}
    (hpc : s.reliable = .sending info payload) (hstep : s.step (.send answer) = some t) :
    Steps s (.send answer) t := by
  simp only [step, hpc, sendKeyframe, Inbound.trySend] at hstep
  by_cases hclosed : s.inbound.closed = true
  · simp only [hclosed, if_true] at hstep
    cases hstep
    have hstop : Steps s (.send answer) _ := .sendClosed hpc
    rwa [← close_eq hclosed] at hstop
  · simp only [if_neg hclosed] at hstep
    cases answer with
    | ok =>
        cases hstep
        exact .sendPushed hpc (by simpa using hclosed)
    | full => cases hstep
    | closed =>
        cases hstep
        exact .sendClosed hpc

theorem steps_of_request {carry : OutcomeCarry} {now : Time} {control : TrySend}
    {scopedRefresh : Bool} (hpc : s.datagram = .finishing carry)
    (hstep : s.step (.request now control scopedRefresh) = some t) :
    Steps s (.request now control scopedRefresh) t := by
  simp only [step, hpc] at hstep
  split at hstep
  · cases hstep
    refine .request hpc (fun k => forgets_requestVideoKeyframe _ k _ _ _ _ _) ?_
    split
    · exact .inl rfl
    · exact .inr rfl
  · cases hstep
    exact .request hpc (fun k => .refl k _) (.inl rfl)

theorem steps_of_step {a : TaskAction} (hstep : s.step a = some t) : Steps s a t := by
  cases a with
  | receiveOutcome outcome =>
      cases hpc : s.datagram <;> simp only [step, hpc] at hstep <;> cases hstep
      exact .receiveOutcome hpc
  | assess =>
      cases hpc : s.datagram <;> simp only [step, hpc] at hstep <;> cases hstep
      exact .assess hpc _
  | markLoss =>
      cases hpc : s.datagram <;> simp only [step, hpc] at hstep <;> cases hstep
      refine .markLoss hpc (fun k => ?_)
      split
      · exact forgets_markReferenceLoss _ k
      · exact .refl k _
  | observe =>
      cases hpc : s.datagram
      case marked outcome strictLoss => exact steps_of_observe hpc hstep
      all_goals simp only [step, hpc] at hstep; cases hstep
  | offer answer =>
      cases hpc : s.datagram
      case accepted info payload afterGap carry => exact steps_of_offer hpc hstep
      all_goals simp only [step, hpc] at hstep; cases hstep
  | recordRefused =>
      cases hpc : s.datagram <;> simp only [step, hpc] at hstep <;> cases hstep
      exact .recordRefused hpc
  | checkAwaiting =>
      cases hpc : s.datagram <;> simp only [step, hpc] at hstep <;> cases hstep
      exact .checkAwaiting hpc
  | request now control scopedRefresh =>
      cases hpc : s.datagram
      case finishing carry => exact steps_of_request hpc hstep
      all_goals simp only [step, hpc] at hstep; cases hstep
  | receiveKeyframe source payload =>
      cases hpc : s.reliable
      case idle =>
        simp only [step, hpc] at hstep
        split at hstep
        · split at hstep
          · cases hstep
            rename_i hkey
            exact .receiveKeyframe hpc hkey
          · cases hstep
            exact .receiveOther hpc
        · cases hstep
          exact .receiveOther hpc
      all_goals simp only [step, hpc] at hstep; cases hstep
  | send answer =>
      cases hpc : s.reliable
      case sending info payload => exact steps_of_send hpc hstep
      all_goals simp only [step, hpc] at hstep; cases hstep
  | observeKeyframe =>
      cases hpc : s.reliable <;> simp only [step, hpc] at hstep <;> cases hstep
      exact .observeKeyframe hpc

/-! ## Overlaps -/

/-- The frame continues the chain as the recovery state sees it. -/
def follows (r : VideoReceiveRecovery) (info : VideoSourceInfo) : Bool :=
  info.keyframe || (r.reference info.key).any (fun last => decide (info.frameId = last + 1))

/-- A frame of a stream carries a frame id. -/
def CarriesId (info : VideoSourceInfo) : Prop := info.key.streamId ≠ 0 → info.frameId ≠ 0

/-- The two tasks do not overlap on a stream: the datagram reader accepts no frame
of a stream whose keyframe is pushed and not recorded, and no keyframe of a stream
is pushed while the datagram reader holds an accepted frame of it. -/
def Separate (s : ReceiverTasks) : TaskAction → Prop
  | .receiveOutcome outcome => ∀ frame ∈ frameOf outcome, CarriesId frame.1
  | .receiveKeyframe source _ => ∀ info ∈ source, CarriesId info
  | .observe => ∀ info ∈ s.datagram.comingFrame, ∀ keyframe ∈ s.reliable.unrecorded,
      keyframe.key = info.key → follows s.recovery info = false
  | .send _ => ∀ keyframe ∈ s.reliable.sendingFrame, ∀ info ∈ s.datagram.acceptedFrame,
      info.key ≠ keyframe.key
  | _ => True

instance (info : VideoSourceInfo) : Decidable (CarriesId info) :=
  inferInstanceAs (Decidable (_ → _))

instance (s : ReceiverTasks) : (a : TaskAction) → Decidable (Separate s a)
  | .receiveOutcome outcome =>
      inferInstanceAs (Decidable (∀ frame ∈ frameOf outcome, CarriesId frame.1))
  | .receiveKeyframe source _ => inferInstanceAs (Decidable (∀ info ∈ source, CarriesId info))
  | .observe => inferInstanceAs (Decidable (∀ info ∈ s.datagram.comingFrame,
      ∀ keyframe ∈ s.reliable.unrecorded,
        keyframe.key = info.key → follows s.recovery info = false))
  | .send _ => inferInstanceAs (Decidable (∀ keyframe ∈ s.reliable.sendingFrame,
      ∀ info ∈ s.datagram.acceptedFrame, info.key ≠ keyframe.key))
  | .assess | .markLoss | .offer _ | .recordRefused | .checkAwaiting | .request .. |
    .observeKeyframe => .isTrue trivial

/-- The newest frame of `k` in the queue has id `n`. -/
def Newest (k : VideoStreamKey) (q : Inbound) (n : Nat) : Prop :=
  ∃ before ∈ (q.framesOf k).head?, before.frameId = n

structure TasksInv (k : VideoStreamKey) (s : ReceiverTasks) : Prop where
  chained : Chained (s.inbound.framesOf k)
  coming : ∀ info ∈ s.datagram.comingFrame, info.key = k → info.frameId ≠ 0
  keyframe : ∀ info ∈ s.reliable.heldKeyframe,
    info.keyframe = true ∧ (info.key = k → info.frameId ≠ 0)
  unrecorded : s.inbound.closed = false → ∀ p ∈ s.reliable.unrecorded, p.key = k →
    Newest k s.inbound p.frameId ∧ ∀ info ∈ s.datagram.acceptedFrame, info.key ≠ k
  accepted : s.inbound.closed = false → ∀ info ∈ s.datagram.acceptedFrame, info.key = k →
    (info.keyframe = false → ∃ n, Newest k s.inbound n ∧ n + 1 = info.frameId) ∧
    ∀ last, s.recovery.reference k = some last → last = info.frameId
  settled : s.inbound.closed = false → (∀ p ∈ s.reliable.unrecorded, p.key ≠ k) →
    (∀ info ∈ s.datagram.openFrame, info.key ≠ k) →
    ∀ last, s.recovery.reference k = some last → Newest k s.inbound last

theorem acceptedFrame_of_openFrame {pc : DatagramPc} (h : pc.openFrame = none) :
    pc.acceptedFrame = none := by
  cases pc <;> first | rfl | cases h

theorem reference_of_forgets {r r' : VideoReceiveRecovery} (h : Forgets k r r') {last : Nat}
    (hlast : r'.reference k = some last) : r.reference k = some last := by
  rcases h with hnone | hsame
  · rw [hnone] at hlast
    cases hlast
  · rw [← hsame]
    exact hlast

theorem framesOf_push_other {q : Inbound} {info : VideoSourceInfo} (payload : Bytes)
    (hk : info.key ≠ k) :
    Inbound.framesOf { q with frames := (info, payload) :: q.frames } k = q.framesOf k := by
  unfold Inbound.framesOf
  rw [List.map_cons, List.filter_cons_of_neg (by simp [hk])]

theorem framesOf_push_own {q : Inbound} {info : VideoSourceInfo} (payload : Bytes)
    (hk : info.key = k) :
    Inbound.framesOf { q with frames := (info, payload) :: q.frames } k =
      info :: q.framesOf k := by
  unfold Inbound.framesOf
  rw [List.map_cons, List.filter_cons_of_pos (by simp [hk])]

theorem newest_push_own {q : Inbound} {info : VideoSourceInfo} (payload : Bytes)
    (hk : info.key = k) :
    Newest k { q with frames := (info, payload) :: q.frames } info.frameId := by
  unfold Newest
  rw [framesOf_push_own payload hk]
  exact ⟨info, rfl, rfl⟩

theorem newest_push_other {q : Inbound} {info : VideoSourceInfo} {n : Nat} (payload : Bytes)
    (hk : info.key ≠ k) :
    Newest k { q with frames := (info, payload) :: q.frames } n ↔ Newest k q n := by
  unfold Newest
  rw [framesOf_push_other payload hk]

/-! ## One lemma for each kind of step -/

/-- A step of the datagram reader that neither starts nor ends with an open frame. -/
theorem TasksInv.move (h : TasksInv k s) {r : VideoReceiveRecovery} {pc : DatagramPc}
    (hopen : s.datagram.openFrame = none) (hopen' : pc.openFrame = none)
    (hcoming : ∀ info ∈ pc.comingFrame, info.key = k → info.frameId ≠ 0)
    (hforgets : Forgets k s.recovery r) :
    TasksInv k { s with recovery := r, datagram := pc } where
  chained := h.chained
  coming := hcoming
  keyframe := h.keyframe
  unrecorded := by
    intro hq p hp hk
    refine ⟨(h.unrecorded hq p hp hk).1, ?_⟩
    rw [acceptedFrame_of_openFrame hopen']
    exact fun _ hinfo => by cases hinfo
  accepted := by
    intro _ info hinfo
    rw [acceptedFrame_of_openFrame hopen'] at hinfo
    cases hinfo
  settled := by
    intro hq hun _ last hlast
    refine h.settled hq hun ?_ last (reference_of_forgets hforgets hlast)
    rw [hopen]
    exact fun _ hinfo => by cases hinfo

/-- `observe` has accepted a frame. -/
theorem TasksInv.accept (h : TasksInv k s) (hstream : k.streamId ≠ 0) {info : VideoSourceInfo}
    {payload : Bytes} {afterGap : Bool} {carry : OutcomeCarry}
    (hopen : s.datagram.openFrame = none) (hid : info.key = k → info.frameId ≠ 0)
    (haccept : (s.recovery.observe info true).2 = .accept ∨
      (s.recovery.observe info true).2 = .acceptAfterGap)
    (hseparate : ∀ p ∈ s.reliable.unrecorded, p.key = info.key → follows s.recovery info = false) :
    TasksInv k { s with
      recovery := (s.recovery.observe info true).1
      datagram := .accepted info payload afterGap carry } := by
  have hnone : ∀ info ∈ s.datagram.openFrame, info.key ≠ k := by
    rw [hopen]
    exact fun _ hinfo => by cases hinfo
  rcases observe_accepts k s.recovery info hstream haccept with
    ⟨hother, hforgets⟩ | ⟨hk, _, hnext, href⟩
  · -- a frame of another stream: nothing changes for `k`
    have hne : info.key ≠ k := fun hk => hother.elim (fun hne => hne hk) (hid hk)
    refine ⟨h.chained, (fun _ hinfo => by cases hinfo), h.keyframe, ?_, ?_, ?_⟩
    · intro hq p hp hk
      refine ⟨(h.unrecorded hq p hp hk).1, ?_⟩
      rintro _ ⟨⟩
      exact hne
    · rintro _ _ ⟨⟩ hk
      exact absurd hk hne
    · intro hq hun _ last hlast
      exact h.settled hq hun hnone last (reference_of_forgets hforgets hlast)
  · -- a frame of `k` follows the reference, so no keyframe of `k` is unrecorded
    have hfollows : follows s.recovery info = true := by
      cases hkey : info.keyframe with
      | true => simp [follows, hkey]
      | false =>
          obtain ⟨last, hlast, hsucc⟩ := hnext rfl hkey
          simp [follows, hk, hlast, hsucc]
    have hun : ∀ p ∈ s.reliable.unrecorded, p.key ≠ k := by
      intro p hp hpk
      rw [hseparate p hp (hpk.trans hk.symm)] at hfollows
      cases hfollows
    refine ⟨h.chained, (fun _ hinfo => by cases hinfo), h.keyframe, ?_, ?_, ?_⟩
    · intro _ p hp hpk
      exact absurd hpk (hun p hp)
    · rintro hq _ ⟨⟩ _
      refine ⟨fun hdelta => ?_, fun last hlast => ?_⟩
      · obtain ⟨last, hlast, hsucc⟩ := hnext rfl hdelta
        exact ⟨last, h.settled hq hun hnone last hlast, hsucc.symm⟩
      · have hlast : (s.recovery.observe info true).1.reference k = some last := hlast
        rw [href] at hlast
        exact (Option.some.inj hlast).symm
    · intro _ _ hopen'
      exact absurd hk (hopen' info rfl)

theorem TasksInv.push (h : TasksInv k s) {info : VideoSourceInfo} {payload : Bytes}
    {afterGap : Bool} {carry : OutcomeCarry}
    (hpc : s.datagram = .accepted info payload afterGap carry) (hq : s.inbound.closed = false) :
    TasksInv k { s with
      inbound := { s.inbound with frames := (info, payload) :: s.inbound.frames }
      datagram := .pushed info afterGap carry } := by
  have hheld : info ∈ s.datagram.acceptedFrame := by
    rw [hpc]
    rfl
  by_cases hk : info.key = k
  · obtain ⟨hnext, hreference⟩ := h.accepted hq info hheld hk
    refine ⟨?_, (fun _ hinfo => by cases hinfo), h.keyframe, ?_, (fun _ _ hinfo => by cases hinfo),
      ?_⟩
    · show Chained (Inbound.framesOf _ k)
      rw [framesOf_push_own payload hk]
      refine ⟨fun hdelta => ?_, h.chained⟩
      obtain ⟨n, ⟨before, hbefore, rfl⟩, hsucc⟩ := hnext hdelta
      exact ⟨before, hbefore, hsucc⟩
    · intro _ p hp hpk
      exact absurd hk ((h.unrecorded hq p hp hpk).2 info hheld)
    · intro _ _ _ last hlast
      rw [hreference last hlast]
      exact newest_push_own payload hk
  · refine ⟨?_, (fun _ hinfo => by cases hinfo), h.keyframe, ?_, (fun _ _ hinfo => by cases hinfo),
      ?_⟩
    · show Chained (Inbound.framesOf _ k)
      rw [framesOf_push_other payload hk]
      exact h.chained
    · intro _ p hp hpk
      exact ⟨(newest_push_other payload hk).mpr (h.unrecorded hq p hp hpk).1,
        fun _ hinfo => by cases hinfo⟩
    · intro _ hun _ last hlast
      refine (newest_push_other payload hk).mpr (h.settled hq hun ?_ last hlast)
      rw [hpc]
      rintro _ ⟨⟩
      exact hk

/-- The frame did not fit; the loss is recorded in a step of its own. -/
theorem TasksInv.refuse (h : TasksInv k s) {info : VideoSourceInfo} {payload : Bytes}
    {afterGap : Bool} {carry : OutcomeCarry}
    (hpc : s.datagram = .accepted info payload afterGap carry) :
    TasksInv k { s with datagram := .refused info carry } where
  chained := h.chained
  coming := fun _ hinfo => by cases hinfo
  keyframe := h.keyframe
  unrecorded := fun hq p hp hk =>
    ⟨(h.unrecorded hq p hp hk).1, fun _ hinfo => by cases hinfo⟩
  accepted := fun _ _ hinfo => by cases hinfo
  settled := by
    intro hq hun hopen
    refine h.settled hq hun ?_
    rw [hpc]
    exact hopen

theorem TasksInv.recordRefused (h : TasksInv k s) {info : VideoSourceInfo} {carry carry' : OutcomeCarry}
    (hpc : s.datagram = .refused info carry) :
    TasksInv k { s with
      recovery := s.recovery.markStreamReferenceLoss info.key
      datagram := .finishing carry' } where
  chained := h.chained
  coming := fun _ hinfo => by cases hinfo
  keyframe := h.keyframe
  unrecorded := fun hq p hp hk =>
    ⟨(h.unrecorded hq p hp hk).1, fun _ hinfo => by cases hinfo⟩
  accepted := fun _ _ hinfo => by cases hinfo
  settled := by
    intro hq hun _ last hlast
    by_cases hk : info.key = k
    · -- the stream of the refused frame has no reference any more
      have hnone := reference_markStreamReferenceLoss s.recovery info.key
      rw [hk] at hnone
      rw [show (s.recovery.markStreamReferenceLoss info.key).reference k = none by
        rw [hk]; exact hnone] at hlast
      cases hlast
    · refine h.settled hq hun ?_ last
        (reference_of_forgets (forgets_markStreamReferenceLoss _ k info.key) hlast)
      rw [hpc]
      rintro _ ⟨⟩
      exact hk

/-- Nothing is asked once the queue is closed. -/
theorem TasksInv.close (h : TasksInv k s) {pc : DatagramPc} {rpc : ReliablePc}
    (hcoming : ∀ info ∈ pc.comingFrame, info.key = k → info.frameId ≠ 0)
    (hkeyframe : ∀ info ∈ rpc.heldKeyframe,
      info.keyframe = true ∧ (info.key = k → info.frameId ≠ 0)) :
    TasksInv k { s with
      inbound := { s.inbound with closed := true }, datagram := pc, reliable := rpc } where
  chained := h.chained
  coming := hcoming
  keyframe := hkeyframe
  unrecorded := fun hq => by cases hq
  accepted := fun hq => by cases hq
  settled := fun hq => by cases hq

/-- The reliable reader without an unrecorded keyframe. -/
theorem TasksInv.receive (h : TasksInv k s) {rpc : ReliablePc}
    (hun : s.reliable.unrecorded = none) (hun' : rpc.unrecorded = none)
    (hkeyframe : ∀ info ∈ rpc.heldKeyframe,
      info.keyframe = true ∧ (info.key = k → info.frameId ≠ 0)) :
    TasksInv k { s with reliable := rpc } where
  chained := h.chained
  coming := h.coming
  keyframe := hkeyframe
  unrecorded := by
    intro _ p hp
    rw [hun'] at hp
    cases hp
  accepted := h.accepted
  settled := by
    intro hq _
    refine h.settled hq ?_
    rw [hun]
    exact fun _ hp => by cases hp

theorem TasksInv.send (h : TasksInv k s) {keyframe : VideoSourceInfo} {payload : Bytes}
    (hpc : s.reliable = .sending keyframe payload) (hq : s.inbound.closed = false)
    (hseparate : ∀ info ∈ s.datagram.acceptedFrame, info.key ≠ keyframe.key) :
    TasksInv k { s with
      inbound := { s.inbound with frames := (keyframe, payload) :: s.inbound.frames }
      reliable := .pushed keyframe } := by
  have hheld : keyframe ∈ s.reliable.heldKeyframe := by
    rw [hpc]
    rfl
  have hun : ∀ p ∈ s.reliable.unrecorded, p.key ≠ k := by
    rw [hpc]
    exact fun _ hp => by cases hp
  obtain ⟨hkey, hid⟩ := h.keyframe keyframe hheld
  have hheld' : ∀ info ∈ (ReliablePc.pushed keyframe).heldKeyframe,
      info.keyframe = true ∧ (info.key = k → info.frameId ≠ 0) := by
    rintro _ ⟨⟩
    exact ⟨hkey, hid⟩
  by_cases hk : keyframe.key = k
  · refine ⟨?_, h.coming, hheld', ?_, ?_, ?_⟩
    · show Chained (Inbound.framesOf _ k)
      rw [framesOf_push_own payload hk]
      refine ⟨fun hdelta => ?_, h.chained⟩
      rw [hkey] at hdelta
      cases hdelta
    · rintro _ _ ⟨⟩ _
      exact ⟨newest_push_own payload hk, fun info hinfo => hk ▸ hseparate info hinfo⟩
    · intro _ info hinfo hinfok
      exact absurd (hinfok.trans hk.symm) (hseparate info hinfo)
    · intro _ hun'
      exact absurd hk (hun' keyframe rfl)
  · refine ⟨?_, h.coming, hheld', ?_, ?_, ?_⟩
    · show Chained (Inbound.framesOf _ k)
      rw [framesOf_push_other payload hk]
      exact h.chained
    · rintro _ _ ⟨⟩ hpk
      exact absurd hpk hk
    · intro _ info hinfo hinfok
      obtain ⟨hnext, hreference⟩ := h.accepted hq info hinfo hinfok
      refine ⟨fun hdelta => ?_, hreference⟩
      obtain ⟨n, hnewest, hsucc⟩ := hnext hdelta
      exact ⟨n, (newest_push_other payload hk).mpr hnewest, hsucc⟩
    · intro _ _ hopen last hlast
      exact (newest_push_other payload hk).mpr (h.settled hq hun hopen last hlast)

theorem TasksInv.record (h : TasksInv k s) (hstream : k.streamId ≠ 0) {keyframe : VideoSourceInfo}
    (hpc : s.reliable = .pushed keyframe) :
    TasksInv k { s with
      recovery := (s.recovery.observe keyframe false).1, reliable := .idle } := by
  have hun : keyframe ∈ s.reliable.unrecorded := by
    rw [hpc]
    rfl
  obtain ⟨hkey, hid⟩ := h.keyframe keyframe (by rw [hpc]; rfl)
  by_cases hk : keyframe.key = k
  · have hstamped : unstamped keyframe = false := by
      simp [unstamped, hk, hstream, hid hk]
    have href := (observe_keyframe (r := s.recovery) hstamped hkey false).2
    rw [hk] at href
    refine ⟨h.chained, h.coming, (fun _ hinfo => by cases hinfo), (fun _ _ hp => by cases hp),
      ?_, ?_⟩
    · intro hq info hinfo hinfok
      exact absurd hinfok ((h.unrecorded hq keyframe hun hk).2 info hinfo)
    · intro hq _ _ last hlast
      have hlast : (s.recovery.observe keyframe false).1.reference k = some last := hlast
      rw [href] at hlast
      cases hlast
      exact (h.unrecorded hq keyframe hun hk).1
  · have hforgets := forgets_observe_of_ne (r := s.recovery) (Ne.symm hk) false
    refine ⟨h.chained, h.coming, (fun _ hinfo => by cases hinfo), (fun _ _ hp => by cases hp),
      ?_, ?_⟩
    · intro hq info hinfo hinfok
      obtain ⟨hnext, hreference⟩ := h.accepted hq info hinfo hinfok
      exact ⟨hnext, fun last hlast => hreference last (reference_of_forgets hforgets hlast)⟩
    · intro hq _ hopen last hlast
      refine h.settled hq ?_ hopen last (reference_of_forgets hforgets hlast)
      rw [hpc]
      rintro _ ⟨⟩
      exact hk

/-! ## Runs -/

theorem TasksInv.step {a : TaskAction} (h : TasksInv k s) (hstream : k.streamId ≠ 0)
    (hseparate : Separate s a) (hsteps : Steps s a t) : TasksInv k t := by
  cases hsteps with
  | @receiveOutcome outcome hpc =>
      refine h.move (by rw [hpc]; rfl) rfl ?_ (.refl k _)
      intro info hinfo hk
      obtain ⟨frame, hframe, rfl⟩ := Option.map_eq_some_iff.mp hinfo
      exact hseparate frame hframe (hk ▸ hstream)
  | @assess outcome hpc _ =>
      refine h.move (by rw [hpc]; rfl) rfl ?_ (.refl k _)
      have hcoming := h.coming
      rwa [hpc] at hcoming
  | @markLoss outcome strictLoss r hpc hforgets =>
      refine h.move (by rw [hpc]; rfl) rfl ?_ (hforgets k)
      have hcoming := h.coming
      rwa [hpc] at hcoming
  | observeNothing hpc =>
      exact h.move (by rw [hpc]; rfl) rfl (fun _ hinfo => by cases hinfo) (.refl k _)
  | @observeAccepted outcome strictLoss info payload afterGap carry hpc hframe haccept =>
      have hinfo : info ∈ s.datagram.comingFrame := by
        rw [hpc]
        exact Option.map_eq_some_iff.mpr ⟨_, hframe, rfl⟩
      exact h.accept hstream (by rw [hpc]; rfl) (h.coming info hinfo) haccept
        (hseparate info hinfo)
  | observeSuppressed hpc _ hsuppress =>
      exact h.move (by rw [hpc]; rfl) rfl (fun _ hinfo => by cases hinfo)
        (observe_suppresses k _ _ hsuppress)
  | offerPushed hpc hopen => exact h.push hpc hopen
  | offerRefused hpc => exact h.refuse hpc
  | offerClosed hpc => exact h.close (fun _ hinfo => by cases hinfo) h.keyframe
  | recordRefused hpc => exact h.recordRefused hpc
  | checkAwaiting hpc =>
      exact h.move (by rw [hpc]; rfl) rfl (fun _ hinfo => by cases hinfo) (.refl k _)
  | request hpc hforgets hidle =>
      rcases hidle with rfl | rfl
      · exact h.move (by rw [hpc]; rfl) rfl (fun _ hinfo => by cases hinfo) (hforgets k)
      · exact h.move (by rw [hpc]; rfl) rfl (fun _ hinfo => by cases hinfo) (hforgets k)
  | @receiveKeyframe info payload hpc hkey =>
      refine h.receive (by rw [hpc]; rfl) rfl ?_
      rintro _ ⟨⟩
      exact ⟨hkey, fun hk => hseparate info rfl (hk ▸ hstream)⟩
  | receiveOther hpc =>
      exact h.receive (by rw [hpc]; rfl) rfl (fun _ hinfo => by cases hinfo)
  | @sendPushed info payload answer hpc hopen =>
      exact h.send hpc hopen (fun i hi => hseparate info (by rw [hpc]; rfl) i hi)
  | sendClosed hpc => exact h.close h.coming (fun _ hinfo => by cases hinfo)
  | observeKeyframe hpc => exact h.record hstream hpc

theorem tasksInv_new (k : VideoStreamKey) : TasksInv k ReceiverTasks.new where
  chained := trivial
  coming := fun _ hinfo => by cases hinfo
  keyframe := fun _ hinfo => by cases hinfo
  unrecorded := fun _ _ hp => by cases hp
  accepted := fun _ _ hinfo => by cases hinfo
  settled := fun _ _ _ _ hlast => by cases hlast

/-- Without the barrier, in every run in which the two tasks do not overlap on a
stream: every delta of a stream with a stream id was pushed right after the frame
with the id before its own. -/
theorem tasks_chain (s : ReceiverTasks) (h : system.Reach Separate s) (k : VideoStreamKey)
    (hstream : k.streamId ≠ 0) (newer older : List VideoSourceInfo) (delta : VideoSourceInfo)
    (hsplit : s.inbound.framesOf k = newer ++ delta :: older) (hdelta : delta.keyframe = false) :
    ∃ before rest, older = before :: rest ∧ before.frameId + 1 = delta.frameId := by
  have hinv : TasksInv k s :=
    h.invariant (tasksInv_new k)
      (fun _ _ _ hs hseparate hstep => hs.step hstream hseparate (steps_of_step hstep))
  obtain ⟨before, hmem, heq⟩ := (chained_split hinv.chained hsplit).1 hdelta
  exact ⟨before, _, List.eq_cons_of_mem_head? hmem, heq⟩

/-- The steps of the reliable reader for keyframe `id` of stream 1 of display 0. -/
def reliableSteps (id : Nat) : List TaskAction :=
  [.receiveKeyframe (some (barrierFrame id true)) [7], .send .ok, .observeKeyframe]

/-- The datagram reader has received delta `id` and is about to observe it. -/
def deltaReceived (id : Nat) : List TaskAction :=
  [.receiveOutcome
    { frame := some
        { source := some (barrierFrame id false), presentationTimestampUs := 1, payload := [7] }
      droppedFrames := 0, requestKeyframe := false },
    .assess, .markLoss]

/-- Keyframe 4 is pushed and recorded, then delta 5. -/
def separateRun : List TaskAction :=
  reliableSteps 4 ++ deltaReceived 5 ++ [.observe, .offer .ok, .checkAwaiting]

theorem tasks_chain_separate :
    ∃ s, system.run separateRun = some s ∧
      s.inbound.framesOf ⟨0, 1⟩ = [] ++ barrierFrame 5 false :: [barrierFrame 4 true] ∧
      ∃ before rest, [barrierFrame 4 true] = before :: rest ∧
        before.frameId + 1 = (barrierFrame 5 false).frameId := by
  refine ⟨_, rfl, by decide, ?_⟩
  exact tasks_chain _ (TSys.reach_of_run separateRun (by decide) rfl) ⟨0, 1⟩ (by decide) [] _ _
    (by decide) rfl

/-- After keyframe 4 the reliable reader pushes keyframe 7; before it records it,
the datagram reader accepts and pushes delta 5. -/
theorem tasks_chain_overlap :
    ∃ s, system.Reach (fun _ _ => True) s ∧
      s.inbound.framesOf ⟨0, 1⟩ =
        [] ++ barrierFrame 5 false :: [barrierFrame 7 true, barrierFrame 4 true] ∧
      (barrierFrame 5 false).keyframe = false ∧
      (barrierFrame 7 true).frameId + 1 ≠ (barrierFrame 5 false).frameId :=
  ⟨_, TSys.reach_of_any_run
    (reliableSteps 4 ++ deltaReceived 5 ++
      [.receiveKeyframe (some (barrierFrame 7 true)) [7], .send .ok, .observe, .offer .ok]) rfl,
    by decide, rfl, by decide⟩

end ReceiverTasks

end HbbCommon.Transport
