import HbbCommon.Transport.Video.Logic.SenderSteps

/-!
# The ordering gate

A frame is stamped with the ordering epoch requested so far, and the writer
passes it when the acknowledged epoch has reached its stamp. The acknowledged
epoch is a maximum, raised both by acknowledgements and by `cancel_epoch`, which
`enqueue_with_latest_key` calls when the control queue refuses an ordering
message. A refusal therefore opens the gate for every earlier epoch as well,
acknowledged or not.

The gate is safe in every run in which the maximum is raised only past epochs
that are acknowledged: `RaisesInOrder` says so of the two kinds of step that
raise it.
-/

namespace HbbCommon.Transport

open HbbCommon.Base

/-- The events that the gate's safety is about. -/
def SenderEvent.isGate : SenderEvent → Bool
  | .ordered _ => true
  | .acknowledged _ => true
  | .passed _ => true
  | _ => false

/-- The epoch of a queued ordering message. -/
def SenderEvent.orderedEpoch : SenderEvent → Option Nat
  | .ordered epoch => some epoch
  | _ => none

namespace Sender

variable {c : SenderConfig} {s t : Sender}

/-- Every ordering message queued up to `epoch` has been acknowledged. -/
def AcknowledgedUpTo (epoch : Nat) (log : List SenderEvent) : Prop :=
  ∀ e, e ≤ epoch → .ordered e ∈ log → .acknowledged e ∈ log

/-- An ordering message is refused, or an acknowledgement arrives, only when
every ordering message queued before is acknowledged. -/
def RaisesInOrder (s : Sender) : SenderAction → Prop
  | .order false => ∀ e, .ordered e ∈ s.log → .acknowledged e ∈ s.log
  | .peerAcknowledge epoch => ∀ e, .ordered e ∈ s.log → e < epoch → .acknowledged e ∈ s.log
  | _ => True

theorem mem_orderedEpochs {log : List SenderEvent} {e : Nat} :
    e ∈ log.filterMap SenderEvent.orderedEpoch ↔ .ordered e ∈ log := by
  rw [List.mem_filterMap]
  constructor
  · rintro ⟨ev, hev, heq⟩
    cases ev with
    | ordered e' => cases heq; exact hev
    | _ => cases heq
  · intro h
    exact ⟨_, h, rfl⟩

instance (log : List SenderEvent) (p : Nat → Prop) [DecidablePred p] :
    Decidable (∀ e, .ordered e ∈ log → p e) :=
  decidable_of_iff (∀ e ∈ log.filterMap SenderEvent.orderedEpoch, p e)
    ⟨fun h e he => h e (mem_orderedEpochs.mpr he), fun h e he => h e (mem_orderedEpochs.mp he)⟩

instance (s : Sender) : (a : SenderAction) → Decidable (RaisesInOrder s a)
  | .order false => inferInstanceAs (Decidable (∀ e, .ordered e ∈ s.log → .acknowledged e ∈ s.log))
  | .peerAcknowledge epoch => inferInstanceAs
      (Decidable (∀ e, .ordered e ∈ s.log → e < epoch → .acknowledged e ∈ s.log))
  | .order true | .enqueue .. | .offer | .recordRefused | .take _ | .gate | .wake | .takeTrack
  | .merge | .check | .send _ | .recordRejected | .keyframeSent | .close | .peerReceive _ =>
      .isTrue trivial

/-- The invariant of the gate. Once the writer has stopped nothing more passes,
so nothing is asked of the gate. -/
structure GateInv (s : Sender) : Prop where
  ordered_le : ∀ e, .ordered e ∈ s.log → e ≤ s.gate.requestedEpoch
  acknowledged_le : s.writer ≠ .stopped → s.gate.acknowledgedEpoch ≤ s.gate.requestedEpoch
  acknowledged : s.writer ≠ .stopped → AcknowledgedUpTo s.gate.acknowledgedEpoch s.log
  passed : ∀ post item pre, s.log = post ++ .passed item :: pre →
    AcknowledgedUpTo item.orderingEpoch pre

/-- A log that grows by events the gate does not look at. -/
theorem mem_append_of_isGate {new log : List SenderEvent} {e : SenderEvent}
    (hnew : ∀ e ∈ new, e.isGate = false) (he : e.isGate = true) :
    e ∈ new ++ log ↔ e ∈ log := by
  rw [List.mem_append]
  refine ⟨fun h => h.resolve_left (fun hmem => ?_), .inr⟩
  rw [hnew e hmem] at he
  cases he

/-- A step that leaves the gate alone. -/
theorem GateInv.quiet {new : List SenderEvent} (h : GateInv s) (hgate : t.gate = s.gate)
    (hlog : t.log = new ++ s.log) (hnew : ∀ e ∈ new, e.isGate = false)
    (hwriter : t.writer ≠ .stopped → s.writer ≠ .stopped) : GateInv t := by
  refine ⟨?_, ?_, ?_, ?_⟩
  · intro e he
    rw [hlog, mem_append_of_isGate hnew rfl] at he
    rw [hgate]
    exact h.ordered_le e he
  · intro hw
    rw [hgate]
    exact h.acknowledged_le (hwriter hw)
  · intro hw e hle he
    rw [hlog, mem_append_of_isGate hnew rfl] at he ⊢
    rw [hgate] at hle
    exact h.acknowledged (hwriter hw) e hle he
  · intro post item pre heq
    rw [hlog] at heq
    have hmem : .passed item ∉ new := fun hmem => by cases hnew _ hmem
    obtain ⟨post', heq'⟩ := split_of_append hmem heq
    exact h.passed post' item pre heq'

/-- A step that only stops the writer. -/
theorem GateInv.stop (h : GateInv s) (hrequested : t.gate.requestedEpoch = s.gate.requestedEpoch)
    (hlog : t.log = s.log) (hwriter : t.writer = .stopped) : GateInv t := by
  refine ⟨?_, fun hw => absurd hwriter hw, fun hw => absurd hwriter hw, ?_⟩
  · rw [hlog, hrequested]
    exact h.ordered_le
  · rw [hlog]
    exact h.passed

theorem GateInv.enter (h : GateInv s) (item : VideoOutbound) : GateInv (s.enter c item) := by
  obtain ⟨new, hlog, hnew⟩ := s.enter_log (c := c) item
  refine h.quiet rfl hlog ?_ (fun hw => hw)
  intro e he
  obtain ⟨refresh, rfl⟩ := hnew e he
  rfl

/-- The gate opens for a frame whose epoch is acknowledged. -/
theorem GateInv.pass (h : GateInv s) {item : VideoOutbound} (hw : s.writer = .gated item)
    (hopen : item.orderingEpoch ≤ s.gate.acknowledgedEpoch) :
    GateInv { s with writer := .passed item, log := .passed item :: s.log } := by
  have hrun : s.writer ≠ .stopped := by simp [hw]
  refine ⟨?_, fun _ => h.acknowledged_le hrun, ?_, ?_⟩
  · intro e he
    exact h.ordered_le e (by simpa using he)
  · intro _ e hle he
    exact List.mem_cons_of_mem _ (h.acknowledged hrun e hle (by simpa using he))
  · intro post other pre heq
    cases post with
    | nil =>
        -- the frame that passes now
        obtain ⟨hitem, rfl⟩ := List.cons.inj heq
        cases hitem
        exact fun e hle he => h.acknowledged hrun e (hle.trans hopen) he
    | cons e post' => exact h.passed post' other pre (List.cons.inj heq).2

/-- A new epoch is queued: it is beyond what the gate has acknowledged. -/
theorem GateInv.queue (h : GateInv s) :
    GateInv { s with
      gate := { s.gate with requestedEpoch := s.gate.requestedEpoch + 1 }
      log := .ordered (s.gate.requestedEpoch + 1) :: s.log } := by
  refine ⟨?_, fun hw => Nat.le_succ_of_le (h.acknowledged_le hw), ?_, ?_⟩
  · intro e he
    rcases List.mem_cons.mp he with heq | he
    · cases heq
      exact le_refl _
    · exact Nat.le_succ_of_le (h.ordered_le e he)
  · intro hw e hle he
    rcases List.mem_cons.mp he with heq | he
    · cases heq
      have hack : s.gate.acknowledgedEpoch ≤ s.gate.requestedEpoch := h.acknowledged_le hw
      exact absurd (hle.trans hack) (by omega)
    · exact List.mem_cons_of_mem _ (h.acknowledged hw e hle he)
  · intro post other pre heq
    cases post with
    | nil => cases heq
    | cons e post' => exact h.passed post' other pre (List.cons.inj heq).2

/-- A refused epoch raises the maximum past every epoch queued before. -/
theorem GateInv.refuse (h : GateInv s)
    (hall : ∀ e, .ordered e ∈ s.log → .acknowledged e ∈ s.log) :
    GateInv { s with
      gate :=
        { requestedEpoch := s.gate.requestedEpoch + 1
          acknowledgedEpoch := max s.gate.acknowledgedEpoch (s.gate.requestedEpoch + 1) } } where
  ordered_le := fun e he => Nat.le_succ_of_le (h.ordered_le e he)
  acknowledged_le := fun hw => max_le (Nat.le_succ_of_le (h.acknowledged_le hw)) (le_refl _)
  acknowledged := fun _ e _ he => hall e he
  passed := h.passed

theorem GateInv.acknowledge {epoch : Nat} (h : GateInv s)
    (hrequested : epoch ≤ s.gate.requestedEpoch)
    (hall : ∀ e, .ordered e ∈ s.log → e < epoch → .acknowledged e ∈ s.log) :
    GateInv { s with
      gate := s.gate.acknowledge epoch, log := .acknowledged epoch :: s.log } := by
  refine ⟨?_, fun hw => max_le (h.acknowledged_le hw) hrequested, ?_, ?_⟩
  · intro e he
    exact h.ordered_le e (by simpa using he)
  · intro hw e hle he
    replace he : .ordered e ∈ s.log := by simpa using he
    rcases le_max_iff.mp hle with hold | hnew
    · exact List.mem_cons_of_mem _ (h.acknowledged hw e hold he)
    · rcases eq_or_lt_of_le hnew with rfl | hlt
      · exact List.mem_cons_self
      · exact List.mem_cons_of_mem _ (hall e he hlt)
  · intro post other pre heq
    cases post with
    | nil => cases heq
    | cons e post' => exact h.passed post' other pre (List.cons.inj heq).2

/-- A log entry of the writer or the producer that the gate does not look at. -/
theorem GateInv.logged {e : SenderEvent} (h : GateInv s) (hgate : t.gate = s.gate)
    (hlog : t.log = e :: s.log) (he : e.isGate = false)
    (hwriter : t.writer ≠ .stopped → s.writer ≠ .stopped) : GateInv t :=
  h.quiet hgate (by rw [hlog]; exact (List.singleton_append).symm)
    (by intro e' he'; rw [List.mem_singleton.mp he']; exact he) hwriter

/-- A step of the writer that leaves the gate and the log alone. -/
theorem GateInv.moved (h : GateInv s) (hgate : t.gate = s.gate) (hlog : t.log = s.log)
    (hwriter : t.writer ≠ .stopped → s.writer ≠ .stopped) : GateInv t :=
  h.quiet hgate (by rw [hlog]; exact (List.nil_append _).symm) (by simp) hwriter

theorem GateInv.step {a : SenderAction} (h : GateInv s) (hguard : RaisesInOrder s a)
    (hstep : Steps c s a t) : GateInv t := by
  cases hstep with
  | orderQueued _ => exact h.queue
  | orderRefused _ => exact h.refuse hguard
  | enqueueSuppressed _ _ _ _ _ => exact h.logged rfl rfl rfl (fun hw => hw)
  | enqueueOffering _ _ _ => exact h.moved rfl rfl (fun hw => hw)
  | offerRefused _ _ => exact h.logged rfl rfl rfl (fun hw => hw)
  | offerInserted _ _ => exact h.logged rfl rfl rfl (fun hw => hw)
  | offerReplacedKeyframe _ _ _ => exact h.logged rfl rfl rfl (fun hw => hw)
  | @offerReplacedDelta item slot _ _ _ _ =>
      have hoffered : GateInv { s with
          slot := slot, log := .enqueued item.tag :: s.log, producer := .idle } :=
        h.logged rfl rfl rfl (fun hw => hw)
      exact hoffered.enter item
  | @recordRefused item _ =>
      have hidle : GateInv { s with producer := .idle } := h.moved rfl rfl (fun hw => hw)
      exact hidle.enter item
  | take hw _ => exact h.moved rfl rfl (fun _ => by simp [hw])
  | takeClosing _ _ => exact h.stop rfl rfl rfl
  | gateOpen hw hopen => exact h.pass hw hopen
  | gateShut hw => exact h.moved rfl rfl (fun _ => by simp [hw])
  | wake hw => exact h.moved rfl rfl (fun _ => by simp [hw])
  | takeTrack hw _ => exact h.moved rfl rfl (fun _ => by simp [hw])
  | mergeKeyframe hw _ _ => exact h.moved rfl rfl (fun _ => by simp [hw])
  | @mergeDelta _ newer hw _ _ =>
      have hmerged : GateInv { s with writer := .gated newer } :=
        h.moved rfl rfl (fun _ => by simp [hw])
      exact hmerged.enter newer
  | @mergeDiscarded item newer hw _ =>
      have hmerged : GateInv { s with writer := .gated item } :=
        h.moved rfl rfl (fun _ => by simp [hw])
      exact hmerged.enter newer
  | checkSuppressed hw _ _ _ => exact h.moved rfl rfl (fun _ => by simp [hw])
  | checkSending hw _ => exact h.moved rfl rfl (fun _ => by simp [hw])
  | sendKeyframe hw _ => exact h.logged rfl rfl rfl (fun _ => by simp [hw])
  | sendDelta hw _ => exact h.logged rfl rfl rfl (fun _ => by simp [hw])
  | sendNoSpace hw => exact h.moved rfl rfl (fun _ => by simp [hw])
  | sendClosing _ => exact h.stop rfl rfl rfl
  | sendFailed _ => exact h.stop rfl rfl rfl
  | @recordRejected item hw =>
      have hidle : GateInv { s with writer := .idle } := h.moved rfl rfl (fun _ => by simp [hw])
      exact hidle.enter item
  | keyframeSent hw => exact h.moved rfl rfl (fun _ => by simp [hw])
  | closeIdle _ => exact h.stop rfl rfl rfl
  | closeWaiting _ => exact h.stop rfl rfl rfl
  | peerReceive _ => exact h.logged rfl rfl rfl (fun hw => hw)
  | peerAcknowledge _ hle => exact h.acknowledge hle hguard

theorem gateInv_new : GateInv Sender.new where
  ordered_le := fun _ h => by cases h
  acknowledged_le := fun _ => le_refl _
  acknowledged := fun _ _ _ h => by cases h
  passed := fun post _ _ h => by cases post <;> cases h

/-- **The ordering gate.** In every run in which ordering messages are refused,
and acknowledgements arrive, only when all ordering messages queued before are
acknowledged: when the writer passes a frame stamped with epoch `e`, every
ordering message queued with an epoch of at most `e` has been acknowledged. -/
theorem ordering_gate (c : SenderConfig) (s : Sender)
    (h : (system c).Reach RaisesInOrder s) (post pre : List SenderEvent)
    (item : VideoOutbound) (hlog : s.log = post ++ .passed item :: pre) :
    AcknowledgedUpTo item.orderingEpoch pre := by
  have hinv : GateInv s :=
    h.invariant gateInv_new (fun _ _ _ hinv hguard hstep => hinv.step hguard (steps_of_step hstep))
  exact hinv.passed post item pre hlog

/-- A keyframe of stream 1 of display 0. -/
def gateFrame : VideoFrame :=
  { union := some (.h264s [true]), display := 0, streamId := 1, frameId := 1, captureTimeMs := 0 }

/-- The sender's defaults. -/
def gateConfig : SenderConfig :=
  { maxTracks := maxPendingVideoTracks, reliableKeyframes := true, keyframeBarrier := true
    scopedReferenceRefresh := true }

/-- An ordering message is queued, received and acknowledged before the frame
after it passes. -/
def orderedRun : List SenderAction :=
  [.order true, .enqueue none gateFrame [7], .offer, .peerReceive 1, .peerAcknowledge 1,
    .take false, .gate]

/-- In `orderedRun` the frame passes after its epoch is acknowledged. -/
theorem ordering_gate_one_epoch :
    ∃ s item pre, (system gateConfig).run orderedRun = some s ∧
      s.log = [] ++ .passed item :: pre ∧ item.orderingEpoch = 1 ∧ .ordered 1 ∈ pre ∧
      AcknowledgedUpTo 1 pre := by
  refine ⟨_, _, _, rfl, rfl, rfl, by decide, ?_⟩
  exact ordering_gate gateConfig _ (TSys.reach_of_run orderedRun (by decide) rfl) [] _ _ rfl

/-- Epoch 1 is queued and never acknowledged; epoch 2 is refused, and the frame
after it passes. -/
theorem ordering_gate_refused_epoch :
    ∃ s item pre, (system gateConfig).Reach (fun _ _ => True) s ∧
      s.log = [] ++ .passed item :: pre ∧ ¬ AcknowledgedUpTo item.orderingEpoch pre := by
  refine ⟨_, _, _, TSys.reach_of_any_run
    [.order true, .order false, .enqueue none gateFrame [7], .offer, .take false, .gate] rfl,
    rfl, ?_⟩
  intro h
  exact absurd (h 1 (by decide) (by decide)) (by decide)

end Sender

end HbbCommon.Transport
