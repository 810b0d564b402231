import HbbCommon.Outbound.Logic.QueueOrder
import HbbCommon.Transport.Video.Logic.SlotWf

/-!
# Obsolete video streams in the two outboxes

`TrackLatestSlot` remembers the newest stream of each display, `OutboundQueue` looks at the
frames that are pending. They refuse the same frames until the newest one has been taken.
-/

namespace HbbCommon.Outbound

open HbbCommon.Base
open HbbCommon.Transport (VideoOutbound SlotRun)

/-- In the order of the list, the streams of each display never decrease. -/
def NeverDecrease (streams : List (Int × Nat)) : Prop :=
  streams.Pairwise (fun earlier later => earlier.1 = later.1 → earlier.2 ≤ later.2)

instance (streams : List (Int × Nat)) : Decidable (NeverDecrease streams) :=
  inferInstanceAs (Decidable (List.Pairwise _ _))

theorem NeverDecrease.concat {streams : List (Int × Nat)} {stream : Int × Nat}
    (h : NeverDecrease streams)
    (hlast : ∀ earlier ∈ streams, earlier.1 = stream.1 → earlier.2 ≤ stream.2) :
    NeverDecrease (streams ++ [stream]) := by
  refine List.pairwise_append.mpr ⟨h, List.pairwise_singleton _ _, ?_⟩
  intro earlier hearlier later hlater
  rw [List.mem_singleton.mp hlater]
  exact hlast earlier hearlier

namespace OutboundState

def entryStream : OutboundEntry → Option (Int × Nat)
  | .video display key _ => some (display, key)
  | _ => none

def Place.stream : Place → Option (Int × Nat)
  | .video display key => some (display, key)
  | _ => none

/-- The streams of the pending frames, in the order of the deque. -/
def pendingStreams (q : OutboundState) : List (Int × Nat) := q.entries.filterMap entryStream

variable {q : OutboundState}

theorem pendingStreams_pushBack (entry : OutboundEntry) :
    (q.pushBack entry).1.pendingStreams = q.pendingStreams ++ (entryStream entry).toList := by
  simp only [pushBack, pendingStreams, List.filterMap_append]
  cases entry <;> rfl

theorem pendingStreams_retireVideo (display : Int) (key : Nat) :
    (q.retireVideo display key).pendingStreams.Sublist q.pendingStreams :=
  List.filter_sublist.filterMap _

/-- The frames of the deque leave it in their order, whatever became of the replaceable
messages between them. -/
theorem popFront_streams (latest : OrdMap LatestKey OutboundMessage)
    (entries : List OutboundEntry) :
    entries.filterMap entryStream =
      ((popFront latest entries).2.2.bind (fun item => item.1.stream)).toList ++
        (popFront latest entries).1.filterMap entryStream := by
  induction entries with
  | nil => rfl
  | cons entry entries ih =>
      cases entry with
      | reliable message => rfl
      | video display key message => rfl
      | latest key =>
          rw [List.filterMap_cons_none rfl, popFront]
          cases latest.get? key with
          | none => exact ih
          | some message => rfl

end OutboundState

namespace OutboundRun

open OutboundState (Place newerVideo)

def streamsOf (items : List OutboundItem) : List (Int × Nat) :=
  items.filterMap (fun item => item.1.stream)

def dequeuedStreams (s : OutboundRun) : List (Int × Nat) := streamsOf s.dequeued

def admittedStreams (s : OutboundRun) : List (Int × Nat) := streamsOf (s.accepted.map Prod.fst)

/-- When a frame is older than one that was admitted for its display, a newer one is still
pending. -/
def NewerPending (s : OutboundRun) : OutboundCall → Prop
  | .enqueueVideo display key _ =>
      (∃ stream ∈ s.admittedStreams, stream.1 = display ∧ key < stream.2) →
        s.queue.entries.any (newerVideo display key) = true
  | _ => True

instance (s : OutboundRun) : ∀ call, Decidable (s.NewerPending call)
  | .enqueueVideo display key _ =>
      inferInstanceAs (Decidable
        ((∃ stream ∈ s.admittedStreams, stream.1 = display ∧ key < stream.2) →
          s.queue.entries.any (newerVideo display key) = true))
  | .enqueue _ | .enqueueBarrier _ | .enqueueLatest _ _ | .dequeue => .isTrue trivial

structure StreamInv (s : OutboundRun) : Prop where
  order : NeverDecrease (s.dequeuedStreams ++ s.queue.pendingStreams)
  admitted : NeverDecrease s.admittedStreams
  accounted : ∀ stream ∈ s.dequeuedStreams ++ s.queue.pendingStreams, stream ∈ s.admittedStreams

variable {s s' : OutboundRun}

theorem streamInv_new (capacity : Nat) : StreamInv (new capacity) where
  order := List.Pairwise.nil
  admitted := List.Pairwise.nil
  accounted := fun _ hstream => nomatch hstream

/-- A call that admits no frame. -/
theorem StreamInv.kept (h : StreamInv s)
    (hsub : (s'.dequeuedStreams ++ s'.queue.pendingStreams).Sublist
      (s.dequeuedStreams ++ s.queue.pendingStreams))
    (hadmitted : s'.admittedStreams = s.admittedStreams) : StreamInv s' where
  order := h.order.sublist hsub
  admitted := hadmitted ▸ h.admitted
  accounted := fun stream hstream => hadmitted ▸ h.accounted stream (hsub.subset hstream)

/-- A call that admits one frame, the newest of its display. -/
theorem StreamInv.admits (h : StreamInv s) {line : List (Int × Nat)} {stream : Int × Nat}
    (hline : s'.dequeuedStreams ++ s'.queue.pendingStreams = line ++ [stream])
    (hsub : line.Sublist (s.dequeuedStreams ++ s.queue.pendingStreams))
    (hadmitted : s'.admittedStreams = s.admittedStreams ++ [stream])
    (hnewest : ∀ earlier ∈ s.admittedStreams, earlier.1 = stream.1 → earlier.2 ≤ stream.2) :
    StreamInv s' := by
  refine ⟨?_, ?_, ?_⟩
  · rw [hline]
    refine NeverDecrease.concat (h.order.sublist hsub) ?_
    intro earlier hearlier
    exact hnewest earlier (h.accounted earlier (hsub.subset hearlier))
  · rw [hadmitted]
    exact h.admitted.concat hnewest
  · rw [hline, hadmitted]
    intro member hmember
    obtain hmember | hmember := List.mem_append.mp hmember
    · exact List.mem_append_left _ (h.accounted member (hsub.subset hmember))
    · exact List.mem_append_right _ hmember

theorem admittedStreams_record {queue : OutboundState} {result : EnqueueResult}
    {item : OutboundItem} {barrier : Bool} {dropped : List OutboundItem}
    (h : item.1.stream = none) :
    (s.record queue result item barrier dropped).admittedStreams = s.admittedStreams := by
  cases result <;> simp [admittedStreams, streamsOf, record, h]

/-- A call that is not about frames leaves them as they are. -/
theorem StreamInv.other (h : StreamInv s) {queue : OutboundState} {result : EnqueueResult}
    {item : OutboundItem} {barrier : Bool} {dropped : List OutboundItem}
    (hitem : item.1.stream = none) (hpending : queue.pendingStreams = s.queue.pendingStreams) :
    StreamInv (s.record queue result item barrier dropped) := by
  refine h.kept ?_ (admittedStreams_record hitem)
  show (s.dequeuedStreams ++ queue.pendingStreams).Sublist _
  rw [hpending]

theorem pendingStreams_enqueue (q : OutboundState) (message : OutboundMessage) :
    (q.enqueue message).1.pendingStreams = q.pendingStreams := by
  obtain ⟨error, hcase⟩ | ⟨-, hcase⟩ := q.enqueue_cases message
  · rw [hcase]
    rfl
  · rw [hcase, OutboundState.pendingStreams_pushBack]
    exact List.append_nil _

theorem pendingStreams_enqueueBarrier (q : OutboundState) (message : OutboundMessage) :
    (q.enqueueBarrier message).1.pendingStreams = q.pendingStreams := by
  obtain ⟨error, hcase⟩ | ⟨-, hcase⟩ := q.enqueueBarrier_cases message
  · rw [hcase]
    rfl
  · rw [hcase, OutboundState.pendingStreams_pushBack]
    exact List.append_nil _

theorem pendingStreams_enqueueLatest (q : OutboundState) (key : Nat) (message : OutboundMessage) :
    (q.enqueueLatest key message).1.pendingStreams = q.pendingStreams := by
  obtain ⟨error, hcase, -⟩ | ⟨-, -, hcase⟩ | ⟨-, -, -, hcase⟩ := q.enqueueLatest_cases key message
  · rw [hcase]
    rfl
  · rw [hcase]
    rfl
  · rw [hcase, OutboundState.pendingStreams_pushBack]
    exact List.append_nil _

/-- A frame is admitted only behind frames of its display that are not newer. -/
theorem StreamInv.enqueueVideo (h : StreamInv s) {display : Int} {key : Nat}
    {message : OutboundMessage} (hguard : s.NewerPending (.enqueueVideo display key message)) :
    StreamInv (s.record (s.queue.enqueueVideo display key message).1
      (s.queue.enqueueVideo display key message).2 (.video display key, message) false
      (retiredBy s.queue display key)) := by
  obtain ⟨-, error, hcase⟩ | ⟨hpassed, ⟨error, hcase⟩ | ⟨-, -, -, -, hcase⟩⟩ :=
    s.queue.enqueueVideo_cases display key message
  · rw [hcase]
    exact h.kept (List.Sublist.refl _) rfl
  · rw [hcase]
    exact h.kept ((OutboundState.pendingStreams_retireVideo display key).append_left _) rfl
  · rw [hcase]
    obtain ⟨-, hnewer⟩ := Bool.or_eq_false_iff.mp hpassed
    -- the check passed, so by the guard nothing newer was admitted
    have hnewest : ∀ stream ∈ s.admittedStreams, stream.1 = display → stream.2 ≤ key := by
      intro stream hstream hdisplay
      by_contra hlt
      have hpending := hguard ⟨stream, hstream, hdisplay, Nat.lt_of_not_le hlt⟩
      rw [hnewer] at hpending
      cases hpending
    have hsub : (s.dequeuedStreams ++
        (s.queue.retireVideo display key).pendingStreams).Sublist
        (s.dequeuedStreams ++ s.queue.pendingStreams) :=
      (OutboundState.pendingStreams_retireVideo display key).append_left _
    have hline : s.dequeuedStreams ++ ((s.queue.retireVideo display key).pushBack
        (.video display key message)).1.pendingStreams =
        s.dequeuedStreams ++ (s.queue.retireVideo display key).pendingStreams ++
          [(display, key)] := by
      rw [OutboundState.pendingStreams_pushBack, ← List.append_assoc]
      rfl
    have hadmitted : (s.record ((s.queue.retireVideo display key).pushBack
        (.video display key message)).1 .pushed (.video display key, message) false
        (retiredBy s.queue display key)).admittedStreams =
        s.admittedStreams ++ [(display, key)] := by
      simp [admittedStreams, streamsOf, record, Place.stream]
    exact h.admits hline hsub hadmitted hnewest

theorem StreamInv.dequeue (h : StreamInv s) :
    StreamInv { s with
      queue := s.queue.dequeue.1, dequeued := s.dequeued ++ s.queue.dequeue.2.toList } := by
  have hpop := OutboundState.popFront_streams s.queue.latest s.queue.entries
  have hdequeued : streamsOf (s.dequeued ++ s.queue.dequeue.2.toList) = s.dequeuedStreams ++
      (s.queue.dequeue.2.bind (fun item => item.1.stream)).toList := by
    rw [dequeuedStreams, streamsOf, streamsOf, List.filterMap_append]
    cases s.queue.dequeue.2 with
    | none => rfl
    | some item =>
        cases hitem : item.1.stream <;> simp [hitem]
  have hline : streamsOf (s.dequeued ++ s.queue.dequeue.2.toList) ++
      s.queue.dequeue.1.pendingStreams = s.dequeuedStreams ++ s.queue.pendingStreams := by
    rw [hdequeued, List.append_assoc, OutboundState.pendingStreams, OutboundState.pendingStreams,
      hpop]
    rfl
  exact h.kept (hline ▸ List.Sublist.refl _) rfl

theorem StreamInv.step (h : StreamInv s) {call : OutboundCall} (hguard : s.NewerPending call)
    (hstep : s.step call = some s') : StreamInv s' := by
  cases call with
  | enqueue message =>
      cases hstep
      exact h.other rfl (pendingStreams_enqueue s.queue message)
  | enqueueBarrier message =>
      cases hstep
      exact h.other rfl (pendingStreams_enqueueBarrier s.queue message)
  | enqueueLatest key message =>
      cases hstep
      exact h.other rfl (pendingStreams_enqueueLatest s.queue key message)
  | enqueueVideo display key message =>
      cases hstep
      exact h.enqueueVideo hguard
  | dequeue =>
      cases hstep
      exact h.dequeue

end OutboundRun

/-- The streams of the frames taken from a slot, in the order in which they were taken. -/
def takenStreams (r : SlotRun) : List (Int × Nat) :=
  r.taken.reverse.filterMap (fun value =>
    value.sourceInfo.map (fun source => (source.key.display, source.key.streamId)))

theorem neverDecrease_takenStreams {maxTracks : Nat} {r : SlotRun}
    (h : (SlotRun.system maxTracks).Reach (fun _ _ => True) r) :
    NeverDecrease (takenStreams r) := by
  have horder := List.pairwise_reverse.mpr (SlotRun.inv_of_reach h).taken_order
  refine horder.filterMap _ ?_
  intro earlier later hnotOlder a ha b hb hdisplay
  obtain ⟨source, hsource, rfl⟩ := Option.map_eq_some_iff.mp ha
  obtain ⟨source', hsource', rfl⟩ := Option.map_eq_some_iff.mp hb
  exact hnotOlder source' source hsource' hsource hdisplay.symm

namespace OutboundRun

/-- While no frame arrives after the newer frame of its display has been taken, the queue
admits and returns the streams of each display in order, as the slot always does. -/
theorem neverDecrease_of_newerPending {capacity : Nat} {s : OutboundRun}
    (h : (system capacity).Reach NewerPending s) :
    NeverDecrease s.admittedStreams ∧ NeverDecrease s.dequeuedStreams ∧
      ∀ maxTracks r, (SlotRun.system maxTracks).Reach (fun _ _ => True) r →
        NeverDecrease (takenStreams r) := by
  have hinv : StreamInv s := h.invariant (streamInv_new capacity)
    (fun _ _ _ hs hguard hstep => hs.step hguard hstep)
  exact ⟨hinv.admitted, hinv.order.sublist (List.sublist_append_left _ _),
    fun _ _ => neverDecrease_takenStreams⟩

def switchedCalls : List OutboundCall :=
  [.enqueueVideo 0 1 (sampleMessage [1]), .dequeue, .enqueueVideo 0 2 (sampleMessage [2]),
    .enqueueVideo 0 1 (sampleMessage [3]), .dequeue]

def switchedRun : OutboundRun := ((system 8).run switchedCalls).getD (new 8)

theorem neverDecrease_switchedRun :
    (system 8).run switchedCalls = some switchedRun ∧
      switchedRun.dequeuedStreams = [(0, 1), (0, 2)] ∧
      NeverDecrease switchedRun.dequeuedStreams := by
  have hrun : (system 8).run switchedCalls = some switchedRun := by decide +kernel
  exact ⟨hrun, by decide +kernel, (neverDecrease_of_newerPending
    (TSys.reach_of_run switchedCalls (by decide +kernel) hrun)).2.1⟩

def lateCalls : List OutboundCall :=
  [.enqueueVideo 0 2 (sampleMessage [2]), .dequeue, .enqueueVideo 0 1 (sampleMessage [1]), .dequeue]

def lateRun : OutboundRun := ((system 8).run lateCalls).getD (new 8)

/-- A frame of an older stream is admitted once the newer frame has left. -/
theorem older_stream_dequeued :
    ¬ ∀ capacity s, (system capacity).Reach (fun _ _ => True) s →
      NeverDecrease s.admittedStreams ∧ NeverDecrease s.dequeuedStreams := by
  intro hall
  have hrun : (system 8).run lateCalls = some lateRun := by decide +kernel
  have hdecreased : ¬ NeverDecrease lateRun.dequeuedStreams := by decide +kernel
  exact hdecreased (hall 8 lateRun (TSys.reach_of_any_run lateCalls hrun)).2

end OutboundRun

end HbbCommon.Outbound
