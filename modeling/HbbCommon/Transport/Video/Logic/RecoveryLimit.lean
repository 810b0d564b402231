import HbbCommon.Transport.Video.Logic.RecoveryTables

/-!
# The rate limit of legacy keyframe requests

In legacy mode all requests share one key, and the time of the last one stays in
the table until a keyframe replaces the stream of a tracked display: eviction and
the other calls only touch the entries of streams. A second request inside the
minimum interval therefore needs the exemption for a new stream, which compares
the stream of the pending request with the stream observed last. With several
displays that comparison holds without any new stream, and the limit is lost;
`SameStream` keeps a run away from it.
-/

namespace HbbCommon.Transport

open HbbCommon.Base

/-- What a run records of its calls. -/
inductive RecoveryEvent
  | requested (now : Time)
  | replaced
  deriving DecidableEq, Repr

/-- The recovery state with the events so far, newest first. -/
structure RecoveryRun where
  recovery : VideoReceiveRecovery
  log : List RecoveryEvent
  deriving DecidableEq

namespace VideoReceiveRecovery

variable {r : VideoReceiveRecovery}

/-- A keyframe of another stream than the one tracked for its display. -/
def replaces (r : VideoReceiveRecovery) (info : VideoSourceInfo) : Bool :=
  !unstamped info && info.keyframe && r.streams.entries.any
    (fun e => decide (e.1.display = info.key.display) && decide (e.1 ≠ info.key))

/-- The events of a call. -/
def events (r : VideoReceiveRecovery) : RecoveryCall → List RecoveryEvent
  | .observe info _ => if r.replaces info then [.replaced] else []
  | .nextKeyframeRequest now scopedRefresh droppedFrames strictRecovery =>
      match (r.nextKeyframeRequestWithRecovery now scopedRefresh droppedFrames strictRecovery).2 with
      | some .legacy => [.requested now]
      | _ => []
  | _ => []

/-! ## The time of the last legacy request -/

theorem legacy_evict (r : VideoReceiveRecovery) (key : VideoStreamKey) :
    (r.evict key).lastKeyframeRequestAt.get? legacyKey =
      r.lastKeyframeRequestAt.get? legacyKey := by
  show (r.lastKeyframeRequestAt.erase (key : RequestKey)).get? legacyKey = _
  rw [OrdMap.get?_erase, if_neg (coe_ne_legacyKey key).symm]

theorem legacy_prepareStream (r : VideoReceiveRecovery) (key : VideoStreamKey) :
    (r.prepareStream key).lastKeyframeRequestAt.get? legacyKey =
      r.lastKeyframeRequestAt.get? legacyKey := by
  rcases prepareStream_cases r key with ⟨heq, _⟩ | ⟨evicted, _, _, _, heq⟩
  · rw [heq]
  · rw [heq]
    exact legacy_evict r evicted

theorem legacy_retireDisplay {key : VideoStreamKey}
    (h : r.streams.entries.any
      (fun e => decide (e.1.display = key.display) && decide (e.1 ≠ key)) = false) :
    (r.retireDisplay key).lastKeyframeRequestAt.get? legacyKey =
      r.lastKeyframeRequestAt.get? legacyKey := by
  simp only [retireDisplay, h, Bool.false_eq_true, if_false, OrdMap.get?_filter]
  cases r.lastKeyframeRequestAt.get? legacyKey with
  | none => rfl
  | some t => simp [keepsRequest, legacyKey]

theorem legacy_observe {info : VideoSourceInfo} (h : r.replaces info = false) (strict : Bool) :
    (r.observe info strict).1.lastKeyframeRequestAt.get? legacyKey =
      r.lastKeyframeRequestAt.get? legacyKey := by
  unfold observe
  split
  · rfl
  · rename_i hstamped
    by_cases hkey : info.keyframe = true
    · simp only [hkey, if_true]
      have hnone : r.streams.entries.any
          (fun e => decide (e.1.display = info.key.display) && decide (e.1 ≠ info.key)) = false := by
        simpa [replaces, hstamped, hkey] using h
      exact (legacy_prepareStream _ _).trans (legacy_retireDisplay hnone)
    · simp only [hkey, Bool.false_eq_true, if_false]
      exact legacy_prepareStream _ _

theorem legacy_noteSourceContext (r : VideoReceiveRecovery) (info : VideoSourceInfo) :
    (r.noteSourceContext info).lastKeyframeRequestAt.get? legacyKey =
      r.lastKeyframeRequestAt.get? legacyKey := by
  unfold noteSourceContext
  split
  · rfl
  · exact legacy_prepareStream _ _

/-! ## Runs of legacy requests -/

/-- Calls in legacy mode. -/
def Unscoped : RecoveryCall → Prop
  | .nextKeyframeRequest _ scopedRefresh _ _ => scopedRefresh = false
  | _ => True

/-- A request inside the minimum interval is for the stream of the pending
request. -/
def SameStream (r : VideoReceiveRecovery) : RecoveryCall → Prop
  | .nextKeyframeRequest now _ _ _ =>
      isNewStream (r.pendingRequests.get? legacyKey) r.latestSource = true →
      ∀ last ∈ r.lastKeyframeRequestAt.get? legacyKey,
        videoKeyframeRequestMinInterval ≤ now - last
  | _ => True

instance : (call : RecoveryCall) → Decidable (Unscoped call)
  | .nextKeyframeRequest _ scopedRefresh _ _ => inferInstanceAs (Decidable (scopedRefresh = false))
  | .noteSourceContext _ | .observe _ _ | .markReferenceLoss | .markStreamReferenceLoss _ =>
      .isTrue trivial

instance (r : VideoReceiveRecovery) : (call : RecoveryCall) → Decidable (SameStream r call)
  | .nextKeyframeRequest now _ _ _ => inferInstanceAs (Decidable
      (isNewStream (r.pendingRequests.get? legacyKey) r.latestSource = true →
        ∀ last ∈ r.lastKeyframeRequestAt.get? legacyKey,
          videoKeyframeRequestMinInterval ≤ now - last))
  | .noteSourceContext _ | .observe _ _ | .markReferenceLoss | .markStreamReferenceLoss _ =>
      .isTrue trivial

/-- A saturating difference that reaches a positive gap is a real one. -/
theorem spaced_of_le_sub {now last gap : Nat} (hgap : 0 < gap) (h : gap ≤ now - last) :
    last + gap ≤ now := by
  omega

/-- A request that is due in legacy mode is outside the minimum interval. -/
theorem legacy_due_spaced {now last : Time} {dropped : Nat} {strict : Bool}
    (hsame : SameStream r (.nextKeyframeRequest now false dropped strict))
    (hdue : r.requestDue legacyKey r.latestSource now false strict = true)
    (hlast : r.lastKeyframeRequestAt.get? legacyKey = some last) :
    last + videoKeyframeRequestMinInterval ≤ now := by
  cases hnew : isNewStream (r.pendingRequests.get? legacyKey) r.latestSource with
  | true => exact spaced_of_le_sub (by decide) (hsame hnew last hlast)
  | false =>
      -- without the exemption the limit itself was passed
      simp only [requestDue, hnew, hlast, Bool.not_false, Bool.false_and, Bool.true_and,
        Option.any_some, Bool.and_eq_true, Bool.not_eq_true', decide_eq_false_iff_not] at hdue
      exact spaced_of_le_sub (by decide) (Nat.le_of_not_lt hdue.1)

end VideoReceiveRecovery

namespace RecoveryRun

open VideoReceiveRecovery

/-- The recovery state under calls, with the record of its events. -/
def system : TSys RecoveryRun RecoveryCall where
  init := { recovery := .default, log := [] }
  step s call :=
    some { recovery := s.recovery.after call, log := s.recovery.events call ++ s.log }

/-- Two requests with no request between them are a minimum interval apart,
unless a stream was replaced between them. -/
def Spaced (log : List RecoveryEvent) : Prop :=
  ∀ post t₂ mid t₁ pre, log = post ++ .requested t₂ :: (mid ++ .requested t₁ :: pre) →
    (∀ t, .requested t ∉ mid) → .replaced ∈ mid ∨ t₁ + videoKeyframeRequestMinInterval ≤ t₂

/-- The invariant of legacy mode: the table knows the last request, unless a
stream was replaced since. -/
structure LimitInv (s : RecoveryRun) : Prop where
  last : ∀ mid t pre, s.log = mid ++ .requested t :: pre → (∀ t', .requested t' ∉ mid) →
    .replaced ∈ mid ∨ s.recovery.lastKeyframeRequestAt.get? legacyKey = some t
  spaced : Spaced s.log

variable {s : RecoveryRun}

/-- A call that neither requests nor replaces. -/
theorem LimitInv.quiet (h : LimitInv s) {r : VideoReceiveRecovery}
    (hlast : r.lastKeyframeRequestAt.get? legacyKey =
      s.recovery.lastKeyframeRequestAt.get? legacyKey) :
    LimitInv { recovery := r, log := s.log } where
  last := by
    intro mid t pre hlog hmid
    rw [hlast]
    exact h.last mid t pre hlog hmid
  spaced := h.spaced

theorem LimitInv.replace (h : LimitInv s) (r : VideoReceiveRecovery) :
    LimitInv { recovery := r, log := .replaced :: s.log } where
  last := by
    intro mid t pre hlog _
    cases mid with
    | nil => cases hlog
    | cons e mid =>
        obtain ⟨rfl, _⟩ := List.cons.inj hlog
        exact .inl List.mem_cons_self
  spaced := by
    intro post t₂ mid t₁ pre hlog hmid
    cases post with
    | nil => cases hlog
    | cons e post => exact h.spaced post t₂ mid t₁ pre (List.cons.inj hlog).2 hmid

theorem LimitInv.request (h : LimitInv s) {r : VideoReceiveRecovery} {now : Time}
    (hlast : r.lastKeyframeRequestAt.get? legacyKey = some now)
    (hspaced : ∀ t, s.recovery.lastKeyframeRequestAt.get? legacyKey = some t →
      t + videoKeyframeRequestMinInterval ≤ now) :
    LimitInv { recovery := r, log := .requested now :: s.log } where
  last := by
    intro mid t pre hlog hmid
    cases mid with
    | nil =>
        cases hlog
        exact .inr hlast
    | cons e mid =>
        obtain ⟨rfl, _⟩ := List.cons.inj hlog
        exact absurd List.mem_cons_self (hmid now)
  spaced := by
    intro post t₂ mid t₁ pre hlog hmid
    cases post with
    | nil =>
        obtain ⟨he, htail⟩ := List.cons.inj hlog
        cases he
        exact (h.last mid t₁ pre htail hmid).imp id (hspaced t₁)
    | cons e post => exact h.spaced post t₂ mid t₁ pre (List.cons.inj hlog).2 hmid

theorem LimitInv.step {call : RecoveryCall} (h : LimitInv s) (hunscoped : Unscoped call)
    (hsame : SameStream s.recovery call) :
    LimitInv { recovery := s.recovery.after call, log := s.recovery.events call ++ s.log } := by
  cases call with
  | noteSourceContext info => exact h.quiet (legacy_noteSourceContext _ info)
  | observe info strict =>
      simp only [events]
      cases hrep : s.recovery.replaces info with
      | true => exact h.replace _
      | false => exact h.quiet (legacy_observe hrep strict)
  | markReferenceLoss => exact h.quiet rfl
  | markStreamReferenceLoss key => exact h.quiet rfl
  | nextKeyframeRequest now scopedRefresh dropped strict =>
      cases hunscoped
      simp only [events, after]
      rcases nextKeyframeRequestWithRecovery_cases s.recovery now false dropped strict with
        ⟨heq, _⟩ | ⟨key, hkey, hdue, heq⟩
      · rw [heq]
        exact h.quiet rfl
      · cases hkey
        rw [heq]
        refine h.request ?_ (fun t ht => legacy_due_spaced hsame hdue ht)
        simp

theorem limitInv_init : LimitInv system.init where
  last := by
    intro mid t pre hlog
    cases mid <;> cases hlog
  spaced := by
    intro post t₂ mid t₁ pre hlog
    cases post <;> cases hlog

/-- In legacy mode, in every run in which a request inside the minimum interval
is for the stream of the pending request, two consecutive requests are a second
apart unless a display's stream was replaced between them. -/
theorem legacy_requests_spaced (s : RecoveryRun)
    (h : system.Reach (fun s call => Unscoped call ∧ SameStream s.recovery call) s)
    (post mid pre : List RecoveryEvent) (t₁ t₂ : Time)
    (hlog : s.log = post ++ .requested t₂ :: (mid ++ .requested t₁ :: pre))
    (hmid : ∀ t, .requested t ∉ mid) : .replaced ∈ mid ∨ t₁ + secs 1 ≤ t₂ := by
  have hinv : LimitInv s := by
    refine h.invariant limitInv_init ?_
    rintro s call t hs ⟨hunscoped, hsame⟩ hstep
    cases hstep
    exact hs.step hunscoped hsame
  exact hinv.spaced post t₂ mid t₁ pre hlog hmid

/-- One display: a request, a refused one half a second later, and the retry. -/
def oneDisplay : List RecoveryCall :=
  [.observe (displayKeyframe 0) true, .nextKeyframeRequest 0 false 1 false,
    .nextKeyframeRequest (millis 500) false 1 false, .nextKeyframeRequest (secs 1) false 1 false]

theorem legacy_requests_spaced_retry :
    ∃ s, system.run oneDisplay = some s ∧ s.log = [.requested (secs 1), .requested 0] ∧
      0 + secs 1 ≤ secs 1 := by
  refine ⟨_, rfl, by decide, ?_⟩
  exact (legacy_requests_spaced _ (TSys.reach_of_run oneDisplay (by decide) rfl) [] [] []
    0 (secs 1) (by decide) (by simp)).resolve_left (by simp)

/-- Two displays, each with its first stream: after the request for display 0 a
frame of display 1 is observed, and the next request follows a nanosecond later. -/
theorem legacy_requests_alternating :
    ∃ s, system.Reach (fun _ call => Unscoped call) s ∧
      s.log = [] ++ .requested 1 :: ([] ++ .requested 0 :: []) ∧ ¬ 0 + secs 1 ≤ 1 := by
  exact ⟨_, TSys.reach_of_run
    [.observe (displayKeyframe 0) true, .nextKeyframeRequest 0 false 1 false,
      .observe (displayKeyframe 1) true, .nextKeyframeRequest 1 false 1 false]
    (by decide) rfl, by decide, by decide⟩

end RecoveryRun

end HbbCommon.Transport
