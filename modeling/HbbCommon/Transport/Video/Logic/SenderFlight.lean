import HbbCommon.Transport.Video.Logic.SenderSteps
import HbbCommon.Transport.Video.Logic.SlotWf

/-!
# Frames in flight

Between the enqueue call and the transport, the frames of one track are held by
the writer, then by the slot, then by the producer. `flight s k` is that list,
oldest first; a step drops frames from it or appends the frame that is enqueued
(`flight_sublist`). `Ledger` is what follows for frame ids: frames in flight are
in order, after every frame handed over, and the log is in order as well.
-/

namespace HbbCommon.Transport

open HbbCommon.Base

/-- What the order of a track is about: the frame and its ordering epoch. -/
def VideoOutbound.mark (item : VideoOutbound) : FrameTag × Nat := (item.tag, item.orderingEpoch)

/-- The frames the writer holds, oldest first. A frame that was handed over is
not held any more. -/
def Writer.held : Writer → List VideoOutbound
  | .gated item | .waiting item | .passed item | .sending item | .rejected item => [item]
  | .merging item newer => [item, newer]
  | .idle | .sent _ | .stopped => []

def Producer.held : Producer → List VideoOutbound
  | .offering item | .refused item => [item]
  | .idle => []

/-- The events that record frames. -/
def SenderEvent.isFrame : SenderEvent → Bool
  | .enqueued _ => true
  | .handed _ => true
  | _ => false

/-- Frames are enqueued in the order of their ids, and those of one track are
handed over in that order. -/
def LogOrder : SenderEvent → SenderEvent → Prop
  | .enqueued newer, .enqueued older => older.frameId < newer.frameId
  | .handed newer, .handed older => newer.trackKey = older.trackKey → older.frameId < newer.frameId
  | _, _ => True

/-- One frame of a track precedes another. -/
def Precedes (a b : FrameTag × Nat) : Prop := a.1.frameId < b.1.frameId ∧ a.2 ≤ b.2

namespace Sender

variable {c : SenderConfig} {s t : Sender}

/-- The frame pending for a track. -/
def pendingOf (slot : TrackLatestState) (k : VideoOutboundTrackKey) : List VideoOutbound :=
  (slot.pending.get? k).toList.map PendingVideo.value

/-- The marks of the frames of track `k` among `items`. -/
def marksOf (k : VideoOutboundTrackKey) (items : List VideoOutbound) : List (FrameTag × Nat) :=
  (items.map VideoOutbound.mark).filter (fun m => decide (m.1.trackKey = k))

/-- The frames of track `k` in flight, oldest first. -/
def flight (s : Sender) (k : VideoOutboundTrackKey) : List (FrameTag × Nat) :=
  marksOf k s.writer.held ++ marksOf k (pendingOf s.slot k) ++ marksOf k s.producer.held

theorem mem_marksOf {k : VideoOutboundTrackKey} {items : List VideoOutbound}
    {m : FrameTag × Nat} :
    m ∈ marksOf k items ↔ ∃ item ∈ items, item.mark = m ∧ item.trackKey = k := by
  unfold marksOf
  rw [List.mem_filter, List.mem_map, decide_eq_true_eq]
  constructor
  · rintro ⟨⟨item, hitem, rfl⟩, hk⟩
    exact ⟨item, hitem, rfl, hk⟩
  · rintro ⟨item, hitem, rfl, hk⟩
    exact ⟨⟨item, hitem, rfl⟩, hk⟩

theorem marksOf_sublist {k : VideoOutboundTrackKey} {xs ys : List VideoOutbound}
    (h : (xs.map VideoOutbound.mark).Sublist (ys.map VideoOutbound.mark)) :
    (marksOf k xs).Sublist (marksOf k ys) := h.filter _

theorem marksOf_own {k : VideoOutboundTrackKey} {item : VideoOutbound} (h : item.trackKey = k) :
    marksOf k [item] = [item.mark] := by
  simp [marksOf, VideoOutbound.mark, VideoOutbound.tag, h]

theorem marksOf_other {k : VideoOutboundTrackKey} {item : VideoOutbound} (h : item.trackKey ≠ k) :
    marksOf k [item] = [] := by
  simp [marksOf, VideoOutbound.mark, VideoOutbound.tag, h]

theorem flight_sublist {k : VideoOutboundTrackKey}
    (hwriter : (marksOf k t.writer.held).Sublist (marksOf k s.writer.held))
    (hslot : (marksOf k (pendingOf t.slot k)).Sublist (marksOf k (pendingOf s.slot k)))
    (hproducer : (marksOf k t.producer.held).Sublist (marksOf k s.producer.held)) :
    (t.flight k).Sublist (s.flight k) :=
  (hwriter.append hslot).append hproducer

theorem mem_pendingOf {slot : TrackLatestState} {k : VideoOutboundTrackKey}
    {item : VideoOutbound} :
    item ∈ pendingOf slot k ↔ ∃ p, slot.pending.get? k = some p ∧ p.value = item := by
  simp [pendingOf]

/-! ## The ledger -/

/-- The order of frame ids in the log and in flight. -/
structure Ledger (s : Sender) : Prop where
  pending_key : ∀ k p, s.slot.pending.get? k = some p → p.value.trackKey = k
  sorted : s.log.Pairwise LogOrder
  enqueued_lt : ∀ f, .enqueued f ∈ s.log → f.frameId < s.nextTransportFrameId
  offering_lt : ∀ item, s.producer = .offering item →
    item.metadata.frameId < s.nextTransportFrameId
  offering_new : ∀ item, s.producer = .offering item →
    ∀ f, .enqueued f ∈ s.log → f.frameId < item.metadata.frameId
  in_order : ∀ k, (s.flight k).Pairwise Precedes
  epoch_le : ∀ k, ∀ m ∈ s.flight k, m.2 ≤ s.gate.requestedEpoch
  held_enqueued : ∀ item ∈ s.writer.held, .enqueued item.tag ∈ s.log
  pending_enqueued : ∀ k p, s.slot.pending.get? k = some p → .enqueued p.value.tag ∈ s.log
  refused_enqueued : ∀ item, s.producer = .refused item → .enqueued item.tag ∈ s.log
  handed_enqueued : ∀ f, .handed f ∈ s.log → .enqueued f ∈ s.log
  handed_before : ∀ k, ∀ m ∈ s.flight k, ∀ f, .handed f ∈ s.log → f.trackKey = k →
    f.frameId < m.1.frameId
  sent_handed : ∀ item, s.writer = .sent item → .handed item.tag ∈ s.log

theorem ledger_new : Ledger Sender.new where
  pending_key := fun _ _ h => by cases h
  sorted := .nil
  enqueued_lt := fun _ h => by cases h
  offering_lt := fun _ h => by cases h
  offering_new := fun _ h => by cases h
  in_order := fun _ => .nil
  epoch_le := fun _ _ h => by cases h
  held_enqueued := fun _ h => by cases h
  pending_enqueued := fun _ _ h => by cases h
  refused_enqueued := fun _ h => by cases h
  handed_enqueued := fun _ h => by cases h
  handed_before := fun _ _ h => by cases h
  sent_handed := fun _ h => by cases h

/-- Events that record no frame are in order with every event. -/
theorem logOrder_of_not_isFrame {e e' : SenderEvent} (h : e.isFrame = false) : LogOrder e e' := by
  cases e <;> first | exact trivial | cases h

theorem mem_append_of_isFrame {new log : List SenderEvent} {e : SenderEvent}
    (hnew : ∀ e ∈ new, e.isFrame = false) (he : e.isFrame = true) :
    e ∈ new ++ log ↔ e ∈ log := by
  rw [List.mem_append]
  refine ⟨fun h => h.resolve_left (fun hmem => ?_), .inr⟩
  rw [hnew e hmem] at he
  cases he

theorem sorted_append {new log : List SenderEvent} (hnew : ∀ e ∈ new, e.isFrame = false)
    (h : log.Pairwise LogOrder) : (new ++ log).Pairwise LogOrder := by
  refine List.pairwise_append.mpr ⟨?_, h, ?_⟩
  · exact List.pairwise_iff_forall_sublist.mpr fun hsub =>
      logOrder_of_not_isFrame (hnew _ (hsub.subset List.mem_cons_self))
  · intro e he e' _
    exact logOrder_of_not_isFrame (hnew e he)

/-- A step that records no frame, leaves the slot alone and takes no new frame
into flight. -/
theorem Ledger.quiet {new : List SenderEvent} (h : Ledger s) (hslot : t.slot = s.slot)
    (hnext : t.nextTransportFrameId = s.nextTransportFrameId)
    (hgate : s.gate.requestedEpoch ≤ t.gate.requestedEpoch)
    (hproducer : t.producer = s.producer ∨ t.producer = .idle)
    (hlog : t.log = new ++ s.log) (hnew : ∀ e ∈ new, e.isFrame = false)
    (hheld : (t.writer.held.map VideoOutbound.mark).Sublist
      (s.writer.held.map VideoOutbound.mark))
    (hsent : ∀ item, t.writer = .sent item → s.writer = .sent item) : Ledger t := by
  have hmem : ∀ e : SenderEvent, e.isFrame = true → (e ∈ t.log ↔ e ∈ s.log) := by
    intro e he
    rw [hlog, mem_append_of_isFrame hnew he]
  have hsame : ∀ item, t.producer = .offering item ∨ t.producer = .refused item →
      t.producer = s.producer := by
    rintro item (hp | hp) <;> rcases hproducer with heq | hidle
    · exact heq
    · rw [hidle] at hp; cases hp
    · exact heq
    · rw [hidle] at hp; cases hp
  have hflight : ∀ k, (t.flight k).Sublist (s.flight k) := by
    intro k
    refine flight_sublist (marksOf_sublist hheld) (by rw [hslot]) ?_
    rcases hproducer with heq | hidle
    · rw [heq]
    · rw [hidle]
      exact List.nil_sublist _
  refine
    { pending_key := by rw [hslot]; exact h.pending_key
      sorted := by rw [hlog]; exact sorted_append hnew h.sorted
      enqueued_lt := fun f hf => by rw [hnext]; exact h.enqueued_lt f ((hmem _ rfl).mp hf)
      offering_lt := ?_
      offering_new := ?_
      in_order := fun k => (h.in_order k).sublist (hflight k)
      epoch_le := fun k m hm => (h.epoch_le k m ((hflight k).subset hm)).trans hgate
      held_enqueued := ?_
      pending_enqueued := fun k p hp => (hmem _ rfl).mpr (h.pending_enqueued k p (hslot ▸ hp))
      refused_enqueued := ?_
      handed_enqueued := fun f hf => (hmem _ rfl).mpr (h.handed_enqueued f ((hmem _ rfl).mp hf))
      handed_before := fun k m hm f hf =>
        h.handed_before k m ((hflight k).subset hm) f ((hmem _ rfl).mp hf)
      sent_handed := fun item hw => (hmem _ rfl).mpr (h.sent_handed item (hsent item hw)) }
  · intro item hp
    rw [hnext]
    exact h.offering_lt item (hsame item (.inl hp) ▸ hp)
  · intro item hp f hf
    exact h.offering_new item (hsame item (.inl hp) ▸ hp) f ((hmem _ rfl).mp hf)
  · intro item hitem
    have hmark := hheld.subset (List.mem_map_of_mem hitem)
    obtain ⟨old, hold, heq⟩ := List.mem_map.mp hmark
    have htag : old.tag = item.tag := congrArg Prod.fst heq
    rw [← htag]
    exact (hmem _ rfl).mpr (h.held_enqueued old hold)
  · intro item hp
    exact (hmem _ rfl).mpr (h.refused_enqueued item (hsame item (.inr hp) ▸ hp))

/-- A frame with a new id is recorded as enqueued. -/
theorem Ledger.log_enqueued (h : Ledger s) {f : FrameTag}
    (hnew : ∀ g, .enqueued g ∈ s.log → g.frameId < f.frameId) :
    (SenderEvent.enqueued f :: s.log).Pairwise LogOrder := by
  refine List.pairwise_cons.mpr ⟨?_, h.sorted⟩
  intro e he
  cases e with
  | enqueued g => exact hnew g he
  | _ => exact trivial

/-- Frames in flight have older ids than the next frame. -/
theorem Ledger.flight_lt (h : Ledger s) (hidle : s.producer = .idle)
    {k : VideoOutboundTrackKey} {m : FrameTag × Nat} (hm : m ∈ s.flight k) :
    m.1.frameId < s.nextTransportFrameId := by
  unfold flight at hm
  rw [hidle, List.mem_append, List.mem_append, mem_marksOf, mem_marksOf, mem_marksOf] at hm
  rcases hm with (⟨item, hitem, rfl, _⟩ | ⟨item, hitem, rfl, _⟩) | ⟨item, hitem, _, _⟩
  · exact h.enqueued_lt _ (h.held_enqueued item hitem)
  · obtain ⟨p, hp, rfl⟩ := mem_pendingOf.mp hitem
    exact h.enqueued_lt _ (h.pending_enqueued k p hp)
  · cases hitem

/-- A delta of a track in recovery is swallowed at once. -/
theorem Ledger.suppress (h : Ledger s) (hidle : s.producer = .idle) {f : FrameTag}
    (hid : f.frameId = s.nextTransportFrameId) (recovery : VideoSendRecoveryState) :
    Ledger { s with
      nextTransportFrameId := s.nextTransportFrameId + 1
      recovery := recovery
      log := .enqueued f :: s.log } where
  pending_key := h.pending_key
  sorted := h.log_enqueued (fun g hg => hid ▸ h.enqueued_lt g hg)
  enqueued_lt := by
    intro g hg
    rcases List.mem_cons.mp hg with heq | hg
    · cases heq
      exact hid ▸ Nat.lt_succ_self _
    · exact Nat.lt_succ_of_lt (h.enqueued_lt g hg)
  offering_lt := fun item hp => by
    change s.producer = .offering item at hp
    rw [hidle] at hp
    cases hp
  offering_new := fun item hp => by
    change s.producer = .offering item at hp
    rw [hidle] at hp
    cases hp
  in_order := h.in_order
  epoch_le := h.epoch_le
  held_enqueued := fun item hitem => List.mem_cons_of_mem _ (h.held_enqueued item hitem)
  pending_enqueued := fun k p hp => List.mem_cons_of_mem _ (h.pending_enqueued k p hp)
  refused_enqueued := fun item hp => List.mem_cons_of_mem _ (h.refused_enqueued item hp)
  handed_enqueued := fun g hg =>
    List.mem_cons_of_mem _ (h.handed_enqueued g (by simpa using hg))
  handed_before := fun k m hm g hg => h.handed_before k m hm g (by simpa using hg)
  sent_handed := fun item hw => List.mem_cons_of_mem _ (h.sent_handed item hw)

/-- A new frame enters flight behind every other frame. -/
theorem Ledger.start (h : Ledger s) (hidle : s.producer = .idle) {item : VideoOutbound}
    (hid : item.metadata.frameId = s.nextTransportFrameId)
    (hepoch : item.orderingEpoch = s.gate.requestedEpoch) :
    Ledger { s with
      nextTransportFrameId := s.nextTransportFrameId + 1, producer := .offering item } := by
  -- the producer held nothing before
  have hflight : ∀ k, flight { s with
      nextTransportFrameId := s.nextTransportFrameId + 1, producer := .offering item } k =
      s.flight k ++ marksOf k [item] := by
    intro k
    have hnone : marksOf k s.producer.held = [] := by rw [hidle]; rfl
    unfold flight
    rw [hnone, List.append_nil]
    rfl
  have hmem : ∀ k m, m ∈ marksOf k [item] → m = item.mark := by
    intro k m hm
    obtain ⟨x, hx, rfl, _⟩ := mem_marksOf.mp hm
    rw [List.mem_singleton.mp hx]
  refine { h with
    enqueued_lt := fun f hf => Nat.lt_succ_of_lt (h.enqueued_lt f hf)
    offering_lt := ?_, offering_new := ?_, in_order := ?_, epoch_le := ?_
    refused_enqueued := fun _ hp => by cases hp
    handed_before := ?_ }
  · intro x hx
    cases hx
    exact hid ▸ Nat.lt_succ_self _
  · intro x hx f hf
    cases hx
    exact hid ▸ h.enqueued_lt f hf
  · intro k
    rw [hflight]
    refine List.pairwise_append.mpr ⟨h.in_order k, ?_, ?_⟩
    · by_cases hk : item.trackKey = k
      · rw [marksOf_own hk]
        exact List.pairwise_singleton _ _
      · rw [marksOf_other hk]
        exact .nil
    · intro a ha b hb
      rw [hmem k b hb]
      refine ⟨?_, ?_⟩
      · show a.1.frameId < item.metadata.frameId
        exact hid ▸ h.flight_lt hidle ha
      · show a.2 ≤ item.orderingEpoch
        exact hepoch ▸ h.epoch_le k a ha
  · intro k m hm
    rw [hflight, List.mem_append] at hm
    rcases hm with hm | hm
    · exact h.epoch_le k m hm
    · rw [hmem k m hm]
      exact le_of_eq hepoch
  · intro k m hm f hf hk
    rw [hflight, List.mem_append] at hm
    rcases hm with hm | hm
    · exact h.handed_before k m hm f hf hk
    · rw [hmem k m hm]
      show f.frameId < item.metadata.frameId
      exact hid ▸ h.enqueued_lt f (h.handed_enqueued f hf)

/-- The offered frame is recorded as enqueued, whatever the slot does with it. -/
theorem Ledger.offer (h : Ledger s) {item : VideoOutbound} (hp : s.producer = .offering item)
    {slot : TrackLatestState} {producer : Producer}
    (hproducer : producer = .idle ∨ producer = .refused item)
    (hslot : ∀ k p, slot.pending.get? k = some p →
      s.slot.pending.get? k = some p ∨ (k = item.trackKey ∧ p.value = item))
    (hflight : ∀ k, (flight { s with
      slot := slot, log := .enqueued item.tag :: s.log, producer := producer } k).Sublist
      (s.flight k)) :
    Ledger { s with
      slot := slot, log := .enqueued item.tag :: s.log, producer := producer } where
  pending_key := by
    intro k p hk
    rcases hslot k p hk with hold | ⟨rfl, hval⟩
    · exact h.pending_key k p hold
    · rw [hval]
  sorted := h.log_enqueued (h.offering_new item hp)
  enqueued_lt := by
    intro f hf
    rcases List.mem_cons.mp hf with heq | hf
    · cases heq
      exact h.offering_lt item hp
    · exact h.enqueued_lt f hf
  offering_lt := by
    intro x hx
    change producer = .offering x at hx
    rcases hproducer with hq | hq <;> rw [hq] at hx <;> cases hx
  offering_new := by
    intro x hx
    change producer = .offering x at hx
    rcases hproducer with hq | hq <;> rw [hq] at hx <;> cases hx
  in_order := fun k => (h.in_order k).sublist (hflight k)
  epoch_le := fun k m hm => h.epoch_le k m ((hflight k).subset hm)
  held_enqueued := fun x hx => List.mem_cons_of_mem _ (h.held_enqueued x hx)
  pending_enqueued := by
    intro k p hk
    rcases hslot k p hk with hold | ⟨_, hval⟩
    · exact List.mem_cons_of_mem _ (h.pending_enqueued k p hold)
    · rw [hval]
      exact List.mem_cons_self
  refused_enqueued := by
    intro x hx
    change producer = .refused x at hx
    rcases hproducer with hq | hq
    · rw [hq] at hx
      cases hx
    · rw [hq] at hx
      cases hx
      exact List.mem_cons_self
  handed_enqueued := fun g hg =>
    List.mem_cons_of_mem _ (h.handed_enqueued g (by simpa using hg))
  handed_before := fun k m hm g hg =>
    h.handed_before k m ((hflight k).subset hm) g (by simpa using hg)
  sent_handed := fun x hw => List.mem_cons_of_mem _ (h.sent_handed x hw)

/-- The writer takes a pending frame behind those it holds. -/
theorem Ledger.fetch (h : Ledger s) {slot : TrackLatestState} {writer : Writer}
    (hslot : ∀ k p, slot.pending.get? k = some p → s.slot.pending.get? k = some p)
    (hheld : ∀ x ∈ writer.held, x ∈ s.writer.held ∨
      ∃ k p, s.slot.pending.get? k = some p ∧ p.value = x)
    (hsent : ∀ item, writer ≠ .sent item)
    (hflight : ∀ k, (flight { s with slot := slot, writer := writer } k).Sublist (s.flight k)) :
    Ledger { s with slot := slot, writer := writer } :=
  { h with
    pending_key := fun k p hk => h.pending_key k p (hslot k p hk)
    in_order := fun k => (h.in_order k).sublist (hflight k)
    epoch_le := fun k m hm => h.epoch_le k m ((hflight k).subset hm)
    held_enqueued := by
      intro x hx
      rcases hheld x hx with hold | ⟨k, p, hk, rfl⟩
      · exact h.held_enqueued x hold
      · exact h.pending_enqueued k p hk
    pending_enqueued := fun k p hk => h.pending_enqueued k p (hslot k p hk)
    handed_before := fun k m hm => h.handed_before k m ((hflight k).subset hm)
    sent_handed := fun item hw => absurd hw (hsent item) }

/-- The frame that the writer sends is the oldest of its track in flight. -/
theorem flight_sending {item : VideoOutbound} (hw : s.writer = .sending item)
    {writer : Writer} (hidle : writer.held = []) (k : VideoOutboundTrackKey)
    (log : List SenderEvent) :
    s.flight k = marksOf k [item] ++ flight { s with writer := writer, log := log } k := by
  have hheld : marksOf k s.writer.held = marksOf k [item] := by rw [hw]; rfl
  have hnone : marksOf k writer.held = [] := by rw [hidle]; rfl
  unfold flight
  rw [hheld, hnone]
  simp only [List.nil_append, List.append_assoc]

/-- The oldest frame of a track is handed over. -/
theorem Ledger.hand (h : Ledger s) {item : VideoOutbound} (hw : s.writer = .sending item)
    {writer : Writer} (hidle : writer.held = [])
    (hsent : ∀ x, writer = .sent x → x = item) :
    Ledger { s with writer := writer, log := .handed item.tag :: s.log } := by
  have hflight := fun k => flight_sending hw hidle k (.handed item.tag :: s.log)
  have hsub : ∀ k, (flight { s with writer := writer, log := .handed item.tag :: s.log } k).Sublist
      (s.flight k) := fun k => by
    rw [hflight k]
    exact List.sublist_append_right _ _
  have hitem : item.mark ∈ s.flight item.trackKey := by
    rw [hflight, marksOf_own rfl]
    exact List.mem_cons_self
  refine { h with
    sorted := ?_
    enqueued_lt := fun f hf => h.enqueued_lt f (by simpa using hf)
    offering_new := fun x hx f hf => h.offering_new x hx f (by simpa using hf)
    in_order := fun k => (h.in_order k).sublist (hsub k)
    epoch_le := fun k m hm => h.epoch_le k m ((hsub k).subset hm)
    held_enqueued := fun x hx => by
      change x ∈ writer.held at hx
      rw [hidle] at hx
      cases hx
    pending_enqueued := fun k p hp => List.mem_cons_of_mem _ (h.pending_enqueued k p hp)
    refused_enqueued := fun x hx => List.mem_cons_of_mem _ (h.refused_enqueued x hx)
    handed_enqueued := ?_
    handed_before := ?_
    sent_handed := ?_ }
  · refine List.pairwise_cons.mpr ⟨?_, h.sorted⟩
    intro e he
    cases e with
    | handed g => exact fun hk => h.handed_before _ _ hitem g he hk.symm
    | _ => exact trivial
  · intro f hf
    rcases List.mem_cons.mp hf with heq | hf
    · cases heq
      exact List.mem_cons_of_mem _ (h.held_enqueued item (by rw [hw]; exact List.mem_cons_self))
    · exact List.mem_cons_of_mem _ (h.handed_enqueued f hf)
  · intro k m hm f hf hk
    rcases List.mem_cons.mp hf with heq | hf
    · -- the frame handed over now precedes what stays in flight
      cases heq
      have horder := h.in_order k
      rw [hflight k, marksOf_own hk, List.singleton_append] at horder
      exact ((List.pairwise_cons.mp horder).1 m hm).1
    · exact h.handed_before k m ((hsub k).subset hm) f hf hk
  · intro x hx
    rw [hsent x hx]
    exact List.mem_cons_self

/-! ## The slot -/

/-- What an offer does to the pending frames: the offered frame may become the
pending frame of its track, and other frames may be retired. -/
theorem pending_of_offer {maxTracks : Nat} {slot u : TrackLatestState} {item : VideoOutbound}
    {outcome : SlotOutcome}
    (h : slot.replaceWhenWith maxTracks item.trackKey item shouldReplacePendingVideo =
      some (u, outcome)) (k : VideoOutboundTrackKey) (p : PendingVideo)
    (hp : u.pending.get? k = some p) :
    slot.pending.get? k = some p ∨
      (k = item.trackKey ∧ p.value = item ∧ outcome ≠ .refused) := by
  obtain ⟨v, admitted, hsrc, ⟨_, rfl, rfl⟩ | ⟨rfl, hst⟩⟩ :=
    TrackLatestState.replaceWhenWith_cases h
  · exact .inl (hsrc.get? hp)
  · cases hst with
    | refused => exact .inl (hsrc.get? hp)
    | replaced =>
        obtain ⟨hk, rfl⟩ | ⟨-, hp⟩ := OrdMap.get?_insert_eq_some hp
        · exact .inr ⟨hk, rfl, by simp⟩
        · exact .inl (hsrc.get? hp)
    | inserted =>
        obtain ⟨hk, rfl⟩ | ⟨-, hp⟩ := OrdMap.get?_insert_eq_some hp
        · exact .inr ⟨hk, rfl, by simp⟩
        · exact .inl (hsrc.get? hp)

/-- A frame that is not refused becomes the pending frame of its track. -/
theorem pending_self_of_offer {maxTracks : Nat} {slot u : TrackLatestState}
    {item : VideoOutbound} {outcome : SlotOutcome}
    (h : slot.replaceWhenWith maxTracks item.trackKey item shouldReplacePendingVideo =
      some (u, outcome)) (hout : outcome ≠ .refused) :
    ∃ p, u.pending.get? item.trackKey = some p ∧ p.value = item := by
  obtain ⟨v, admitted, hsrc, ⟨_, rfl, rfl⟩ | ⟨rfl, hst⟩⟩ :=
    TrackLatestState.replaceWhenWith_cases h
  · exact absurd rfl hout
  · cases hst with
    | refused => exact absurd rfl hout
    | replaced => exact ⟨_, (OrdMap.get?_insert _ _ _ _).trans (if_pos rfl), rfl⟩
    | inserted => exact ⟨_, (OrdMap.get?_insert _ _ _ _).trans (if_pos rfl), rfl⟩

theorem pendingOf_sublist {slot u : TrackLatestState} {k : VideoOutboundTrackKey}
    (h : ∀ p, u.pending.get? k = some p → slot.pending.get? k = some p) :
    (pendingOf u k).Sublist (pendingOf slot k) := by
  unfold pendingOf
  cases hu : u.pending.get? k with
  | none => exact List.nil_sublist _
  | some p => rw [h p hu]

theorem flight_offer {maxTracks : Nat} {slot : TrackLatestState} {item : VideoOutbound}
    {outcome : SlotOutcome} {producer : Producer} {log : List SenderEvent}
    (hp : s.producer = .offering item)
    (h : s.slot.replaceWhenWith maxTracks item.trackKey item shouldReplacePendingVideo =
      some (slot, outcome))
    (hproducer : if outcome = .refused then producer = .refused item else producer = .idle)
    (k : VideoOutboundTrackKey) :
    (flight { s with slot := slot, log := log, producer := producer } k).Sublist (s.flight k) := by
  have hcases := pending_of_offer h k
  by_cases hmoved : k = item.trackKey ∧ outcome ≠ .refused
  · -- the frame moves from the producer to the slot
    obtain ⟨rfl, hout⟩ := hmoved
    rw [if_neg hout] at hproducer
    obtain ⟨p, hpend, hval⟩ := pending_self_of_offer h hout
    have hslot : pendingOf slot item.trackKey = [item] := by
      unfold pendingOf
      rw [hpend]
      simp [hval]
    have hold : marksOf item.trackKey s.producer.held = marksOf item.trackKey [item] := by
      rw [hp]
      rfl
    unfold flight
    rw [hproducer, hslot, hold, marksOf_own rfl]
    simp only [Producer.held, marksOf, List.map_nil, List.filter_nil, List.append_nil,
      List.append_assoc]
    exact List.Sublist.append (List.Sublist.refl _) (List.sublist_append_right _ _)
  · refine flight_sublist (List.Sublist.refl _) (marksOf_sublist (List.Sublist.map _ ?_)) ?_
    · refine pendingOf_sublist (fun p hpend => ?_)
      rcases hcases p hpend with hold | ⟨hk, _, hout⟩
      · exact hold
      · exact absurd ⟨hk, hout⟩ hmoved
    · rw [hp]
      show (marksOf k producer.held).Sublist (marksOf k [item])
      split at hproducer
      · rw [hproducer]
        exact List.Sublist.refl _
      · rw [hproducer]
        exact List.nil_sublist _

/-- A frame that leaves the slot was pending for its track. -/
theorem flight_fetch {slot : TrackLatestState} {writer : Writer} {k₀ : VideoOutboundTrackKey}
    {p : PendingVideo} (hkey : p.value.trackKey = k₀) (hpend : s.slot.pending.get? k₀ = some p)
    (hslot : ∀ k, slot.pending.get? k = if k = k₀ then none else s.slot.pending.get? k)
    (hheld : writer.held = s.writer.held ++ [p.value]) (k : VideoOutboundTrackKey) :
    flight { s with slot := slot, writer := writer } k = s.flight k := by
  have hsplit : marksOf k (s.writer.held ++ [p.value]) =
      marksOf k s.writer.held ++ marksOf k [p.value] := by
    simp [marksOf, List.filter_append]
  unfold flight
  show marksOf k writer.held ++ marksOf k (pendingOf slot k) ++ _ = _
  rw [hheld, hsplit]
  by_cases hk : k = k₀
  · subst hk
    have hnone : pendingOf slot k = [] := by simp [pendingOf, hslot]
    have hold : pendingOf s.slot k = [p.value] := by simp [pendingOf, hpend]
    rw [hnone, hold]
    simp only [marksOf, List.map_nil, List.filter_nil, List.append_nil]
  · have hsame : pendingOf slot k = pendingOf s.slot k := by simp [pendingOf, hslot, hk]
    rw [hsame, marksOf_other (fun he => hk (he.symm.trans hkey)), List.append_nil]

theorem take_effect {slot u : TrackLatestState} {item : VideoOutbound}
    (h : slot.take = some (u, some item)) :
    ∃ k p, slot.pending.get? k = some p ∧ p.value = item ∧ u.newestStream = slot.newestStream ∧
      ∀ j, u.pending.get? j = if j = k then none else slot.pending.get? j := by
  rcases TrackLatestState.take_cases h with ⟨_, _, hgot⟩ | ⟨k, p, bytes, hnext, _, hgot, rfl⟩
  · cases hgot
  · cases hgot
    exact ⟨k, p, TrackLatestState.next_mem hnext, rfl, rfl, fun j => by simp⟩

theorem takeTrack_effect {slot u : TrackLatestState} {k : VideoOutboundTrackKey}
    {item : VideoOutbound} (h : slot.takeTrack k = some (u, some item)) :
    ∃ p, slot.pending.get? k = some p ∧ p.value = item ∧ u.newestStream = slot.newestStream ∧
      ∀ j, u.pending.get? j = if j = k then none else slot.pending.get? j := by
  rcases TrackLatestState.takeTrack_cases h with ⟨_, _, hgot⟩ | ⟨p, bytes, hpend, _, hgot, rfl⟩
  · cases hgot
  · cases hgot
    exact ⟨p, hpend, rfl, rfl, fun j => by simp⟩

/-- What is left after one frame is fetched was there before. -/
theorem pending_of_fetched {slot u : TrackLatestState} {k j : VideoOutboundTrackKey}
    {q : PendingVideo}
    (hget : ∀ j, u.pending.get? j = if j = k then none else slot.pending.get? j)
    (hq : u.pending.get? j = some q) : slot.pending.get? j = some q := by
  rw [hget] at hq
  split at hq
  · cases hq
  · exact hq

/-! ## One step -/

/-- The reference epoch changes the timestamp only. -/
theorem applyVideoReferenceEpoch_mark (item : VideoOutbound) (epochs : OrdMap VideoStreamKey Nat)
    (barrier : Bool) : (applyVideoReferenceEpoch item epochs barrier).1.mark = item.mark := by
  unfold applyVideoReferenceEpoch
  split
  · rfl
  · split
    · rfl
    · split <;> rfl

/-- The writer moves on with a part of what it holds. -/
theorem Ledger.move (h : Ledger s) {writer : Writer}
    (hheld : (writer.held.map VideoOutbound.mark).Sublist
      (s.writer.held.map VideoOutbound.mark))
    (hsent : ∀ item, writer ≠ .sent item) (recovery : VideoSendRecoveryState)
    (epochs : OrdMap VideoStreamKey Nat) (acknowledged : Nat) :
    Ledger { s with
      writer := writer, recovery := recovery, referenceEpochs := epochs
      gate := { s.gate with acknowledgedEpoch := acknowledged } } :=
  h.quiet rfl rfl (le_refl _) (.inl rfl) (List.nil_append _).symm (by simp) hheld
    (fun item hw => absurd hw (hsent item))

/-- The writer lets go of what it holds. -/
theorem Ledger.drop (h : Ledger s) {writer : Writer} (hheld : writer.held = [])
    (hsent : ∀ item, writer ≠ .sent item) (recovery : VideoSendRecoveryState)
    (epochs : OrdMap VideoStreamKey Nat) (acknowledged : Nat) :
    Ledger { s with
      writer := writer, recovery := recovery, referenceEpochs := epochs
      gate := { s.gate with acknowledgedEpoch := acknowledged } } :=
  h.move (by rw [hheld]; exact List.nil_sublist _) hsent recovery epochs acknowledged

theorem Ledger.enter (h : Ledger s) (item : VideoOutbound) : Ledger (s.enter c item) := by
  obtain ⟨new, hlog, hnew⟩ := s.enter_log (c := c) item
  refine h.quiet rfl rfl (le_refl _) (.inl rfl) hlog ?_ (List.Sublist.refl _) (fun _ hw => hw)
  intro e he
  obtain ⟨refresh, rfl⟩ := hnew e he
  rfl

theorem Ledger.take (h : Ledger s) {slot : TrackLatestState} {item : VideoOutbound}
    (hw : s.writer = .idle) (hslot : s.slot.take = some (slot, some item)) :
    Ledger { s with slot := slot, writer := .gated item } := by
  obtain ⟨k, p, hpend, rfl, _, hget⟩ := take_effect hslot
  have hheld : (Writer.gated p.value).held = s.writer.held ++ [p.value] := by rw [hw]; rfl
  refine h.fetch (fun _ _ => pending_of_fetched hget) ?_ (by simp)
    (fun j => by rw [flight_fetch (h.pending_key k p hpend) hpend hget hheld])
  intro x hx
  exact .inr ⟨k, p, hpend, (List.mem_singleton.mp hx).symm⟩

theorem Ledger.step {a : SenderAction} (h : Ledger s) (hstep : Steps c s a t) : Ledger t := by
  have hlogged : ∀ {t : Sender} {e : SenderEvent}, t.slot = s.slot →
      t.nextTransportFrameId = s.nextTransportFrameId →
      s.gate.requestedEpoch ≤ t.gate.requestedEpoch → t.producer = s.producer →
      t.log = e :: s.log → e.isFrame = false →
      (t.writer.held.map VideoOutbound.mark).Sublist (s.writer.held.map VideoOutbound.mark) →
      (∀ item, t.writer = .sent item → s.writer = .sent item) → Ledger t := by
    intro t e hslot hnext hgate hproducer hlog he hheld hsent
    refine h.quiet hslot hnext hgate (.inl hproducer)
      (hlog.trans (List.singleton_append).symm) ?_ hheld hsent
    intro e' he'
    rw [List.mem_singleton.mp he']
    exact he
  cases hstep with
  | orderQueued _ =>
      exact hlogged rfl rfl (Nat.le_succ _) rfl rfl rfl (List.Sublist.refl _) (fun _ hw => hw)
  | orderRefused _ =>
      exact h.quiet rfl rfl (Nat.le_succ _) (.inl rfl) (List.nil_append _).symm (by simp)
        (List.Sublist.refl _) (fun _ hw => hw)
  | enqueueSuppressed hp hitem _ _ _ => exact h.suppress hp hitem.frameId _
  | enqueueOffering hp hitem _ => exact h.start hp hitem.frameId hitem.orderingEpoch
  | offerRefused hp hslot =>
      refine h.offer hp (.inr rfl) ?_ (flight_offer hp hslot rfl)
      intro k p hk
      rcases pending_of_offer hslot k p hk with hold | ⟨_, _, hout⟩
      · exact .inl hold
      · exact absurd rfl hout
  | offerInserted hp hslot =>
      refine h.offer hp (.inl rfl) ?_ (flight_offer hp hslot rfl)
      exact fun k p hk => (pending_of_offer hslot k p hk).imp_right (fun hnew => ⟨hnew.1, hnew.2.1⟩)
  | offerReplacedKeyframe hp hslot _ =>
      refine h.offer hp (.inl rfl) ?_ (flight_offer hp hslot rfl)
      exact fun k p hk => (pending_of_offer hslot k p hk).imp_right (fun hnew => ⟨hnew.1, hnew.2.1⟩)
  | offerReplacedDelta hp hslot _ =>
      refine Ledger.enter (h.offer hp (.inl rfl) ?_ (flight_offer hp hslot rfl)) _
      exact fun k p hk => (pending_of_offer hslot k p hk).imp_right (fun hnew => ⟨hnew.1, hnew.2.1⟩)
  | recordRefused hp =>
      refine Ledger.enter ?_ _
      exact h.quiet rfl rfl (le_refl _) (.inr rfl) (List.nil_append _).symm (by simp)
        (List.Sublist.refl _) (fun _ hw => hw)
  | take hw hslot => exact h.take hw hslot
  | takeClosing hw hslot => exact (h.take hw hslot).drop rfl (by simp) _ _ _
  | @gateOpen item hw _ =>
      exact hlogged rfl rfl (le_refl _) rfl rfl rfl (by rw [hw]; exact List.Sublist.refl _)
        (fun _ hw' => by cases hw')
  | gateShut hw => exact h.move (by rw [hw]; exact List.Sublist.refl _) (by simp) _ _ _
  | wake hw => exact h.move (by rw [hw]; exact List.Sublist.refl _) (by simp) _ _ _
  | @takeTrack item newer _ hw hslot =>
      obtain ⟨p, hpend, rfl, _, hget⟩ := takeTrack_effect hslot
      have hheld : (Writer.merging item p.value).held = s.writer.held ++ [p.value] := by
        rw [hw]; rfl
      refine h.fetch (fun _ _ => pending_of_fetched hget) ?_ (by simp)
        (fun j => by rw [flight_fetch (h.pending_key _ p hpend) hpend hget hheld])
      intro x hx
      rw [hheld, List.mem_append, List.mem_singleton] at hx
      exact hx.imp_right (fun heq => ⟨_, p, hpend, heq.symm⟩)
  | mergeKeyframe hw _ _ =>
      exact h.move (by rw [hw]; exact List.sublist_cons_self _ _) (by simp) _ _ _
  | mergeDelta hw _ _ =>
      refine Ledger.enter ?_ _
      exact h.move (by rw [hw]; exact List.sublist_cons_self _ _) (by simp) _ _ _
  | @mergeDiscarded item newer hw _ =>
      refine Ledger.enter ?_ _
      refine h.move ?_ (by simp) _ _ _
      rw [hw]
      exact (List.nil_sublist [newer.mark]).cons_cons item.mark
  | checkSuppressed hw _ _ _ => exact h.drop rfl (by simp) _ _ _
  | @checkSending item hw _ =>
      refine h.move ?_ (by simp) _ _ _
      rw [hw]
      show [(applyVideoReferenceEpoch item _ _).1.mark].Sublist [item.mark]
      rw [applyVideoReferenceEpoch_mark]
  | sendKeyframe hw _ => exact h.hand hw rfl (fun x hx => by cases hx; rfl)
  | sendDelta hw _ => exact h.hand hw rfl (fun x hx => by cases hx)
  | sendNoSpace hw => exact h.move (by rw [hw]; exact List.Sublist.refl _) (by simp) _ _ _
  | sendClosing hw => exact h.drop rfl (by simp) _ _ _
  | sendFailed hw => exact h.drop rfl (by simp) _ _ _
  | recordRejected hw =>
      refine Ledger.enter ?_ _
      exact h.drop rfl (by simp) _ _ _
  | keyframeSent hw => exact h.drop rfl (by simp) _ _ _
  | closeIdle hw => exact h.drop rfl (by simp) _ _ _
  | closeWaiting hw => exact h.drop rfl (by simp) _ _ _
  | peerReceive _ =>
      exact hlogged rfl rfl (le_refl _) rfl rfl rfl (List.Sublist.refl _) (fun _ hw => hw)
  | peerAcknowledge _ _ =>
      exact hlogged rfl rfl (le_refl _) rfl rfl rfl (List.Sublist.refl _) (fun _ hw => hw)

/-- A frame that arrives during the ordering wait is of the track waited for. -/
def MergesTrack (s : Sender) : Prop :=
  ∀ item newer, s.writer = .merging item newer → newer.trackKey = item.trackKey

theorem MergesTrack.step {a : SenderAction} (h : MergesTrack s) (hledger : Ledger s)
    (hstep : Steps c s a t) : MergesTrack t := by
  cases hstep with
  | takeTrack hw hslot =>
      intro x y hxy
      cases hxy
      obtain ⟨p, hpend, rfl, _⟩ := takeTrack_effect hslot
      exact hledger.pending_key _ p hpend
  | orderQueued _ | orderRefused _ | enqueueSuppressed _ _ _ _ _ | enqueueOffering _ _ _
  | offerRefused _ _ | offerInserted _ _ | offerReplacedKeyframe _ _ _ | offerReplacedDelta _ _ _
  | recordRefused _ | peerReceive _ | peerAcknowledge _ _ => exact h
  | _ => intro x y hxy; cases hxy

end Sender

end HbbCommon.Transport
