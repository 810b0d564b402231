import HbbCommon.Transport.Video.Logic.SenderFlight

/-!
# Every frame in flight

What holds of a frame when it is built, and of a frame that the slot has let in,
holds of every frame on its way to the transport: the steps of the sender only move
frames, drop them, or replace the timestamp of one.
-/

namespace HbbCommon.Transport

open HbbCommon.Base

namespace Sender

variable {c : SenderConfig} {s t : Sender} {Made Kept : VideoOutbound → Prop}

/-- `Made` of the frame the producer holds, `Kept` of the frames behind the slot. -/
structure AllItems (Made Kept : VideoOutbound → Prop) (s : Sender) : Prop where
  held : ∀ item ∈ s.writer.held, Kept item
  pending : ∀ k p, s.slot.pending.get? k = some p → Kept p.value
  producer : ∀ item ∈ s.producer.held, Made item

theorem allItems_new : AllItems Made Kept Sender.new where
  held := fun _ h => by cases h
  pending := fun _ _ h => by cases h
  producer := fun _ h => by cases h

/-- The slot lets in no frame that is too long. -/
theorem length_le_of_offer {maxTracks : Nat} {slot u : TrackLatestState} {item : VideoOutbound}
    {outcome : SlotOutcome}
    (h : slot.replaceWhenWith maxTracks item.trackKey item shouldReplacePendingVideo =
      some (u, outcome)) (hout : outcome ≠ .refused) :
    item.payload.length ≤ maxVideoFrameBytes := by
  obtain ⟨v, admitted, hsrc, ⟨_, rfl, rfl⟩ | ⟨rfl, hst⟩⟩ :=
    TrackLatestState.replaceWhenWith_cases h
  · exact absurd rfl hout
  · cases hst with
    | refused => exact absurd rfl hout
    | replaced _ _ hle => exact hle
    | inserted _ _ hle => exact hle

/-- The writer keeps a part of what it holds. -/
theorem AllItems.move (h : AllItems Made Kept s) (hslot : t.slot = s.slot)
    (hproducer : ∀ x ∈ t.producer.held, x ∈ s.producer.held)
    (hheld : ∀ x ∈ t.writer.held, x ∈ s.writer.held) : AllItems Made Kept t where
  held := fun x hx => h.held x (hheld x hx)
  pending := by rw [hslot]; exact h.pending
  producer := fun x hx => h.producer x (hproducer x hx)

theorem AllItems.offer (h : AllItems Made Kept s)
    (hkept : ∀ item, Made item → item.payload.length ≤ maxVideoFrameBytes → Kept item)
    {item : VideoOutbound} (hp : s.producer = .offering item) {slot : TrackLatestState}
    {outcome : SlotOutcome} {maxTracks : Nat}
    (hslot : s.slot.replaceWhenWith maxTracks item.trackKey item shouldReplacePendingVideo =
      some (slot, outcome)) {producer : Producer}
    (hproducer : producer = .idle ∨ producer = .refused item) (log : List SenderEvent) :
    AllItems Made Kept { s with slot := slot, log := log, producer := producer } where
  held := h.held
  pending := by
    intro k p hpend
    rcases pending_of_offer hslot k p hpend with hold | ⟨_, hval, hout⟩
    · exact h.pending k p hold
    · rw [hval]
      exact hkept item (h.producer item (by rw [hp]; exact List.mem_cons_self))
        (length_le_of_offer hslot hout)
  producer := by
    intro x hx
    change x ∈ producer.held at hx
    rcases hproducer with rfl | rfl
    · cases hx
    · rw [Producer.held, List.mem_singleton] at hx
      rw [hx]
      exact h.producer item (by rw [hp]; exact List.mem_cons_self)

theorem AllItems.fetch (h : AllItems Made Kept s) {slot : TrackLatestState}
    {writer : Writer} {k₀ : VideoOutboundTrackKey} {p₀ : PendingVideo}
    (hpend : s.slot.pending.get? k₀ = some p₀)
    (hget : ∀ j, slot.pending.get? j = if j = k₀ then none else s.slot.pending.get? j)
    (hheld : ∀ x ∈ writer.held, x ∈ s.writer.held ∨ x = p₀.value) (gate : VideoOrderingGate) :
    AllItems Made Kept { s with slot := slot, writer := writer, gate := gate } where
  held := by
    intro x hx
    rcases hheld x hx with hold | rfl
    · exact h.held x hold
    · exact h.pending k₀ p₀ hpend
  pending := fun k p hp => h.pending k p (pending_of_fetched hget hp)
  producer := h.producer

/-- One step, where `Kept` does not look at the timestamp and the frame that an
enqueue call builds is `Made`. -/
theorem AllItems.step {a : SenderAction} (h : AllItems Made Kept s)
    (hkept : ∀ item, Made item → item.payload.length ≤ maxVideoFrameBytes → Kept item)
    (hepoch : ∀ item epochs, Kept item →
      Kept (applyVideoReferenceEpoch item epochs c.keyframeBarrier).1)
    (hstep : Steps c s a t)
    (hmade : ∀ latestKey frame payload item, a = .enqueue latestKey frame payload →
      t.producer = .offering item → Made item) :
    AllItems Made Kept t := by
  cases hstep with
  | @enqueueOffering _ _ _ item _ _ _ =>
      refine ⟨h.held, h.pending, ?_⟩
      intro x hx
      rw [Producer.held, List.mem_singleton] at hx
      rw [hx]
      exact hmade _ _ _ item rfl rfl
  | offerRefused hp hslot => exact h.offer hkept hp hslot (.inr rfl) _
  | offerInserted hp hslot => exact h.offer hkept hp hslot (.inl rfl) _
  | offerReplacedKeyframe hp hslot _ => exact h.offer hkept hp hslot (.inl rfl) _
  | offerReplacedDelta hp hslot _ =>
      have hoffered := h.offer hkept hp hslot (.inl rfl) s.log
      exact hoffered.move rfl (fun _ hx => hx) (fun _ hx => hx)
  | recordRefused _ => exact h.move rfl (fun _ hx => by cases hx) (fun _ hx => hx)
  | take hw hslot =>
      obtain ⟨k, p, hpend, rfl, _, hget⟩ := take_effect hslot
      refine h.fetch hpend hget (fun x hx => ?_) _
      exact .inr (List.mem_singleton.mp hx)
  | takeClosing hw hslot =>
      obtain ⟨k, p, hpend, rfl, _, hget⟩ := take_effect hslot
      exact h.fetch hpend hget (fun x hx => by cases hx) _
  | takeTrack hw hslot =>
      obtain ⟨p, hpend, rfl, _, hget⟩ := takeTrack_effect hslot
      refine h.fetch hpend hget (fun x hx => ?_) _
      rw [Writer.held, List.mem_cons, List.mem_singleton] at hx
      exact hx.imp_left (fun heq => by rw [hw, heq]; exact List.mem_cons_self)
  | gateOpen hw _ => exact h.move rfl (fun _ hx => hx) (fun _ hx => by rw [hw]; exact hx)
  | gateShut hw => exact h.move rfl (fun _ hx => hx) (fun _ hx => by rw [hw]; exact hx)
  | wake hw => exact h.move rfl (fun _ hx => hx) (fun _ hx => by rw [hw]; exact hx)
  | mergeKeyframe hw _ _ =>
      exact h.move rfl (fun _ hx => hx)
        (fun _ hx => by rw [hw]; exact List.mem_cons_of_mem _ hx)
  | mergeDelta hw _ _ =>
      exact h.move rfl (fun _ hx => hx)
        (fun _ hx => by rw [hw]; exact List.mem_cons_of_mem _ hx)
  | mergeDiscarded hw _ =>
      refine h.move rfl (fun _ hx => hx) (fun _ hx => ?_)
      rw [hw, List.mem_singleton.mp hx]
      exact List.mem_cons_self
  | @checkSending item hw _ =>
      refine ⟨?_, h.pending, h.producer⟩
      intro x hx
      rw [Writer.held, List.mem_singleton] at hx
      rw [hx]
      exact hepoch item _ (h.held item (by rw [hw]; exact List.mem_cons_self))
  | sendNoSpace hw => exact h.move rfl (fun _ hx => hx) (fun _ hx => by rw [hw]; exact hx)
  | orderQueued _ | orderRefused _ | enqueueSuppressed _ _ _ _ _ | peerReceive _
  | peerAcknowledge _ _ => exact ⟨h.held, h.pending, h.producer⟩
  | checkSuppressed _ _ _ _ | sendKeyframe _ _ | sendDelta _ _ | sendClosing _ | sendFailed _
  | recordRejected _ | keyframeSent _ | closeIdle _ | closeWaiting _ =>
      exact h.move rfl (fun _ hx => hx) (fun _ hx => by cases hx)

end Sender

end HbbCommon.Transport
