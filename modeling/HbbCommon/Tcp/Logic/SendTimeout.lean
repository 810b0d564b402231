import HbbCommon.Tcp.SendTimeout
import HbbCommon.Tcp.Logic.Sides
import HbbCommon.Tcp.Logic.Streaming

/-!
# What abandoned send calls leave on the socket

As long as no local buffer is dropped in the middle of a frame, the bytes on the socket and
those that are framed and not written are the frames of some of the payloads, in call order.
A short frame of the framed stream may be abandoned anywhere: the rest of it stays in the
write buffer. A long frame, and any frame of the split writer, may be abandoned only before
its first byte or behind its last.
-/

namespace HbbCommon.Tcp

open HbbCommon.Base
open HbbCommon.Transport (Bytes)

namespace BytesCodec

/-- Frames can be told apart from the front. -/
theorem frame_append_inj {p q rest rest' : Bytes} (hp : p.length ≤ 0x3FFFFFFF)
    (hq : q.length ≤ 0x3FFFFFFF) (h : frame p ++ rest = frame q ++ rest') :
    p = q ∧ rest = rest' := by
  let c : BytesCodec := { state := .head, raw := false, maxPacketLength := 0x3FFFFFFF }
  have hhead := c.decodeHead_header hp hp (p ++ rest)
  have hhead' := c.decodeHead_header hq hq (q ++ rest')
  rw [frame, frame, List.append_assoc, List.append_assoc] at h
  rw [h, hhead'] at hhead
  obtain ⟨hlength, hbytes⟩ := by simpa only [Except.ok.injEq, Prod.mk.injEq, Option.some.injEq]
    using hhead
  exact ⟨(List.append_inj hbytes hlength).1.symm, (List.append_inj hbytes hlength).2.symm⟩

/-- Whole frames at the front of frames are the first of them. -/
theorem prefix_of_frames {ps qs : List Bytes} {rest : Bytes}
    (hps : ∀ p ∈ ps, p.length ≤ 0x3FFFFFFF) (hqs : ∀ q ∈ qs, q.length ≤ 0x3FFFFFFF)
    (h : (qs.map frame).flatten ++ rest = (ps.map frame).flatten) : qs <+: ps := by
  induction qs generalizing ps with
  | nil => exact List.nil_prefix
  | cons q qs ih =>
      cases ps with
      | nil =>
          rw [List.map_cons, List.flatten_cons, List.append_assoc] at h
          exact absurd (List.append_eq_nil_iff.mp h).1 (frame_ne_nil q)
      | cons p ps =>
          rw [List.map_cons, List.flatten_cons, List.append_assoc, List.map_cons,
            List.flatten_cons] at h
          obtain ⟨rfl, hrest⟩ := frame_append_inj (hqs q List.mem_cons_self)
            (hps p List.mem_cons_self) h
          rw [List.cons_prefix_cons]
          exact ⟨rfl, ih (fun p hp => hps p (List.mem_cons_of_mem _ hp))
            (fun q hq => hqs q (List.mem_cons_of_mem _ hq)) hrest⟩

/-- A stream that stops anywhere returns the first of its payloads. -/
theorem feed_prefix {c : BytesCodec} {buf rest : Bytes} {chunks frames : List Bytes}
    (hraw : c.raw = false) (htakes : ∀ data ∈ frames, c.Takes data)
    (howes : c.Owes (buf ++ (chunks.flatten ++ rest)) frames) :
    ∃ c' buf' now, c.feed buf chunks = (c', buf', now, none) ∧ now <+: frames := by
  induction chunks generalizing c buf frames with
  | nil => exact ⟨c, buf, [], rfl, List.nil_prefix⟩
  | cons chunk chunks ih =>
      rw [List.flatten_cons, List.append_assoc, ← List.append_assoc] at howes
      obtain ⟨settings, ⟨later, hframes, howes', -⟩, herror⟩ :=
        decodeAll_decodesAll hraw htakes howes
      generalize hall : c.decodeAll (buf ++ chunk) = result at *
      obtain ⟨c₁, buf₁, now₁, error₁⟩ := result
      dsimp only at settings hframes howes' herror
      subst herror hframes
      obtain ⟨c₂, buf₂, now₂, hfeed, later₂, hlater⟩ := ih (settings.1.trans hraw) (by
        intro data hdata
        rw [Takes, settings.2]
        exact htakes data (List.mem_append_right _ hdata)) howes'
      refine ⟨c₂, buf₂, now₁ ++ now₂, ?_, later₂, ?_⟩
      · simp only [feed, hall, hfeed]
      · rw [List.append_assoc, hlater]

/-- A frame is made unless the payload is too long. -/
theorem encodeFrame_cases (data buf : Bytes) :
    data.length ≤ 0x3FFFFFFF ∧ encodeFrame false data buf = .ok (buf ++ frame data) ∨
      encodeFrame false data buf = .error .overflow := by
  by_cases hlength : data.length ≤ 0x3FFFFFFF
  · exact .inl ⟨hlength, encodeFrame_eq hlength buf⟩
  · refine .inr ?_
    rw [encodeFrame, if_neg Bool.false_ne_true, if_neg (by omega), if_neg (by omega),
      if_neg (by omega), if_neg hlength]

end BytesCodec

/-- The bytes are the frames of some of the payloads, in order, cut anywhere in the last. -/
def WellFramed (written : Bytes) (called : List Bytes) : Prop :=
  ∃ ps : List Bytes, ps.Sublist called ∧ (∀ p ∈ ps, p.length ≤ 0x3FFFFFFF) ∧
    written <+: (ps.map BytesCodec.frame).flatten

/-- A reader of such bytes decodes payloads that were passed to send calls, in call order. -/
theorem WellFramed.decodes {written : Bytes} {called : List Bytes} (h : WellFramed written called)
    {maxPacketLength : Nat} (hmax : ∀ p ∈ called, p.length ≤ maxPacketLength)
    {chunks : List Bytes} (hchunks : chunks.flatten = written) :
    ∃ c buf decoded,
      (BytesCodec.new.setMaxPacketLength maxPacketLength).feed [] chunks = (c, buf, decoded, none) ∧
        decoded.Sublist called := by
  obtain ⟨ps, hsub, hframable, rest, hrest⟩ := h
  have howes : (BytesCodec.new.setMaxPacketLength maxPacketLength).Owes
      ([] ++ (chunks.flatten ++ rest)) ps := by
    rw [hchunks]
    exact hrest
  obtain ⟨c, buf, decoded, hfeed, hnow⟩ := BytesCodec.feed_prefix rfl
    (fun p hp => ⟨hmax p (hsub.subset hp), hframable p hp⟩) howes
  exact ⟨c, buf, decoded, hfeed, hnow.sublist.trans hsub⟩

/-! ## What is framed -/

/-- The bytes are whole frames. -/
def AtFrameEnd (bytes : Bytes) : Prop :=
  ∃ qs : List Bytes, (∀ q ∈ qs, q.length ≤ 0x3FFFFFFF) ∧ bytes = (qs.map BytesCodec.frame).flatten

/-- The bytes are the frames of some of the payloads, in order, and `payload` is a later
one that is still to be framed. -/
def Queued (bytes : Bytes) (payload : Option Bytes) (called : List Bytes) : Prop :=
  ∃ ps : List Bytes, (ps ++ payload.toList).Sublist called ∧ (∀ p ∈ ps, p.length ≤ 0x3FFFFFFF) ∧
    bytes = (ps.map BytesCodec.frame).flatten

namespace Queued

variable {bytes written rest : Bytes} {payload : Option Bytes} {called : List Bytes} {p : Bytes}

theorem drop (h : Queued bytes payload called) : Queued bytes none called := by
  obtain ⟨ps, hsub, hframable, hbytes⟩ := h
  exact ⟨ps, (List.sublist_append_left _ _).trans (by simpa using hsub), hframable, hbytes⟩

theorem frame (h : Queued bytes (some p) called) (hp : p.length ≤ 0x3FFFFFFF) :
    Queued (bytes ++ BytesCodec.frame p) none called := by
  obtain ⟨ps, hsub, hframable, rfl⟩ := h
  refine ⟨ps ++ [p], by simpa using hsub, ?_, ?_⟩
  · intro q hq
    obtain hq | hq := List.mem_append.mp hq
    · exact hframable q hq
    · rw [List.mem_singleton.mp hq]
      exact hp
  · rw [List.map_append, List.flatten_append, List.map_singleton, List.flatten_singleton]

theorem call (h : Queued bytes none called) (p : Bytes) :
    Queued bytes (some p) (called ++ [p]) := by
  obtain ⟨ps, hsub, hframable, hbytes⟩ := h
  refine ⟨ps, ?_, hframable, hbytes⟩
  exact List.Sublist.append (by simpa using hsub) (List.Sublist.refl _)

theorem wellFramed (h : Queued (written ++ rest) payload called) : WellFramed written called := by
  obtain ⟨ps, hsub, hframable, hbytes⟩ := h.drop
  exact ⟨ps, by simpa using hsub, hframable, rest, hbytes⟩

/-- Behind a whole frame the rest may be dropped. -/
theorem cut (h : Queued (written ++ rest) payload called) (hend : AtFrameEnd written) :
    Queued written none called := by
  obtain ⟨ps, hsub, hframable, hbytes⟩ := h.drop
  obtain ⟨qs, hqs, rfl⟩ := hend
  have hfirst := BytesCodec.prefix_of_frames hframable hqs hbytes
  exact ⟨qs, by simpa using hfirst.sublist.trans (by simpa using hsub), hqs, rfl⟩

end Queued

namespace Sending

/-- The bytes that are framed and not written. -/
def committed (buffered : Bytes) : Sending → Bytes
  | .idle | .flushing _ => buffered
  | .draining chunks _ | .writing chunks => chunks.flatten ++ buffered

/-- The payload that the call has still to frame. -/
def payload : Sending → Option Bytes
  | .flushing bytes | .draining _ bytes => some bytes
  | .idle | .writing _ => none

/-- The bytes that are framed and not written are in local buffers. -/
def isLocal : Sending → Bool
  | .idle | .flushing _ => false
  | .draining _ _ | .writing _ => true

end Sending

/-- A short payload is framed at once, a long one waits for the flush. -/
theorem FramedStream.sendBytes_cases (stream : FramedStream) (hraw : stream.codec.raw = false)
    (bytes : Bytes) :
    stream.sendBytes bytes = (stream, .ok (.flushing bytes)) ∨
      bytes.length ≤ 0x3FFFFFFF ∧ stream.sendBytes bytes =
        ({ stream with writeBuf := stream.writeBuf ++ BytesCodec.frame bytes }, .ok .idle) := by
  by_cases hlength : bytes.length ≤ 0x3FFFFFFF
  · exact (stream.sendBytes_spec hraw hlength).imp_right (fun hsend => ⟨hlength, hsend⟩)
  · have hbounded : stream.shouldSendBounded bytes.length = true := by
      have hlong : tcpFramedWriteChunkLimit < bytes.length :=
        lt_of_lt_of_le (by decide) (Nat.le_of_not_le hlength)
      rw [shouldSendBounded, hraw, decide_eq_true hlong]
      rfl
    exact .inl (by rw [sendBytes, if_pos hbounded])

namespace Writer

/-- What is on the socket and what is framed behind it are whole frames of payloads that
were passed to calls, in order. -/
structure Inv (s : Writer) : Prop where
  raw : s.side.endpoint.raw = false
  localOnly : s.side.sending.isLocal = true → s.side.endpoint.buffered = []
  queued : Queued (s.written ++ s.side.sending.committed s.side.endpoint.buffered)
    s.side.sending.payload s.called

variable {s s' : Writer}

theorem inv_new : Inv .new where
  raw := rfl
  localOnly := fun _ => rfl
  queued := ⟨[], List.Sublist.refl _, by simp, rfl⟩

theorem Inv.sendBytes (h : Inv s) {bytes : Bytes} {side : Side}
    (hstep : s.side.sendBytes bytes = some side) : Inv { s with side := side } := by
  unfold Side.sendBytes at hstep
  split at hstep
  · rename_i hidle
    have hqueued := h.queued
    have hraw := h.raw
    rw [hidle] at hqueued
    cases hend : s.side.endpoint with
    | joined stream =>
        rw [hend] at hqueued hraw hstep
        obtain hsend | ⟨hlength, hsend⟩ := stream.sendBytes_cases hraw bytes
        · simp only [Endpoint.sendBytes, hsend] at hstep
          cases hstep
          exact ⟨hraw, nofun, hqueued.call bytes⟩
        · simp only [Endpoint.sendBytes, hsend] at hstep
          cases hstep
          refine ⟨hraw, nofun, ?_⟩
          have hframe := (hqueued.call bytes).frame hlength
          rwa [List.append_assoc] at hframe
    | split read write =>
        rw [hend] at hqueued hraw hstep
        obtain ⟨chunks, hsend, hchunks⟩ := write.sendBytes_spec bytes
        simp only [Endpoint.sendBytes, hsend] at hstep
        cases hstep
        refine ⟨hraw, fun _ => rfl, ?_⟩
        have hcall := hqueued.call bytes
        simp only [Sending.committed, Endpoint.buffered, Sending.payload, called, hchunks,
          List.append_nil] at hcall ⊢
        exact hcall
  · cases hstep

theorem Inv.write (h : Inv s) {n : Nat} {side : Side} {bytes : Bytes}
    (hstep : s.side.write n = some (side, bytes)) :
    Inv { side := side, written := s.written ++ bytes } := by
  have hqueued := h.queued
  have hlocal := h.localOnly
  have hraw := h.raw
  unfold Side.write at hstep
  split at hstep
  · rename_i stream hsending hend
    split at hstep
    · cases hstep
      rw [hsending, hend] at hqueued
      rw [hend] at hraw
      refine ⟨hraw, by rw [hsending]; exact Bool.noConfusion, ?_⟩
      simpa only [hsending, Sending.committed, Endpoint.buffered, Sending.payload, called,
        List.append_assoc, List.take_append_drop] using hqueued
    · cases hstep
  · rename_i payload stream hsending hend
    split at hstep
    · cases hstep
      rw [hsending, hend] at hqueued
      rw [hend] at hraw
      refine ⟨hraw, by rw [hsending]; exact Bool.noConfusion, ?_⟩
      simpa only [hsending, Sending.committed, Endpoint.buffered, Sending.payload, called,
        List.append_assoc, List.take_append_drop] using hqueued
    · cases hstep
  · rename_i chunk chunks payload hsending
    split at hstep
    · cases hstep
      rw [hsending] at hqueued hlocal
      refine ⟨hraw, hlocal, ?_⟩
      simpa only [Sending.committed, Sending.payload, called, List.flatten_cons,
        List.append_assoc, ← List.append_assoc (chunk.take n), List.take_append_drop] using hqueued
    · cases hstep
  · rename_i chunk chunks hsending
    split at hstep
    · cases hstep
      rw [hsending] at hqueued hlocal
      refine ⟨hraw, hlocal, ?_⟩
      simpa only [Sending.committed, Sending.payload, called, List.flatten_cons,
        List.append_assoc, ← List.append_assoc (chunk.take n), List.take_append_drop] using hqueued
    · cases hstep
  · cases hstep

/-- Behind the flush, or behind the pending bytes, the payload is framed. -/
theorem Inv.frameBytes (h : Inv s) {payload : Bytes} (bounded : Bool)
    (hpayload : s.side.sending.payload = some payload)
    (hcommitted : s.side.sending.committed s.side.endpoint.buffered = [])
    (hbuffered : s.side.endpoint.buffered = []) :
    (payload.length ≤ 0x3FFFFFFF → Inv { s with side := { s.side with
      sending := .writing (writeWireBytes (BytesCodec.frame payload) bounded) } }) ∧
    Inv { s with side := { s.side with sending := .idle } } := by
  have hqueued := h.queued
  rw [hpayload, hcommitted] at hqueued
  constructor
  · intro hlength
    refine ⟨h.raw, fun _ => hbuffered, ?_⟩
    simpa only [Sending.committed, Sending.payload, called, flatten_writeWireBytes, hbuffered,
      List.append_nil] using hqueued.frame hlength
  · refine ⟨h.raw, nofun, ?_⟩
    simpa only [Sending.committed, Sending.payload, called, hbuffered] using hqueued.drop

theorem Inv.resume (h : Inv s) {side : Side} (hstep : s.side.resume = some side) :
    Inv { s with side := side } := by
  have hqueued := h.queued
  have hlocal := h.localOnly
  have hraw := h.raw
  unfold Side.resume at hstep
  split at hstep
  · rename_i payload stream hsending hend
    split at hstep
    · rename_i hempty
      have hbuffered : s.side.endpoint.buffered = [] := by
        rw [hend]
        exact List.isEmpty_iff.mp hempty
      have hraw' : stream.codec.raw = false := by rw [hend] at hraw; exact hraw
      obtain ⟨hframed, hdropped⟩ := h.frameBytes true
        (by rw [hsending]; rfl) (by rw [hsending]; exact hbuffered) hbuffered
      obtain ⟨hlength, hframe⟩ | hframe := BytesCodec.encodeFrame_cases payload []
      · rw [FramedStream.frameBytes, hraw', hframe] at hstep
        cases hstep
        exact hframed hlength
      · rw [FramedStream.frameBytes, hraw', hframe] at hstep
        cases hstep
        exact hdropped
    · cases hstep
  · rename_i chunks payload hsending
    cases hstep
    rw [hsending] at hqueued hlocal
    exact ⟨hraw, hlocal, hqueued⟩
  · rename_i payload read write hsending hend
    rw [hsending] at hlocal
    have hbuffered := hlocal rfl
    have hraw' : write.raw = false := by rw [hend] at hraw; exact hraw
    obtain ⟨hframed, hdropped⟩ := h.frameBytes
      (decide (payload.length > tcpFramedWriteChunkLimit) && !write.raw)
      (by rw [hsending]; rfl) (by rw [hsending]; exact hbuffered) hbuffered
    obtain ⟨hlength, hframe⟩ | hframe := BytesCodec.encodeFrame_cases payload []
    · rw [FramedWriteHalf.frameBytes, hraw', hframe] at hstep
      rw [hraw'] at hframed
      cases hstep
      exact hframed hlength
    · rw [FramedWriteHalf.frameBytes, hraw', hframe] at hstep
      cases hstep
      exact hdropped
  · rename_i chunks hsending
    cases hstep
    rw [hsending] at hqueued hlocal
    exact ⟨hraw, hlocal, hqueued⟩
  · rename_i hsending
    cases hstep
    rw [hsending] at hqueued
    exact ⟨hraw, Bool.noConfusion, hqueued⟩
  · cases hstep

theorem Inv.intoSplit (h : Inv s) {side : Side} (hstep : s.side.intoSplit = some side) :
    Inv { s with side := side } := by
  have hqueued := h.queued
  have hraw := h.raw
  unfold Side.intoSplit at hstep
  split at hstep
  · rename_i stream hend hsending
    cases hstep
    rw [hend] at hraw hqueued
    rw [hsending] at hqueued
    refine ⟨hraw, by rw [hsending]; nofun, ?_⟩
    simp only [hsending]
    exact hqueued
  · cases hstep

/-- A call with local buffers is abandoned only behind a whole frame. -/
def Clean (s : Writer) : WriterAction → Prop
  | .abandon => s.side.sending.isLocal = true → AtFrameEnd s.written
  | _ => True

theorem Inv.abandon (h : Inv s) (hclean : Clean s .abandon) :
    Inv { s with side := s.side.abandon } := by
  refine ⟨h.raw, nofun, ?_⟩
  have hqueued := h.queued
  have hlocal := h.localOnly
  simp only [Clean] at hclean
  simp only [Side.abandon, Sending.committed, Sending.payload, called]
  cases hsending : s.side.sending with
  | idle =>
      rw [hsending] at hqueued
      exact hqueued
  | flushing bytes =>
      rw [hsending] at hqueued
      exact hqueued.drop
  | draining chunks bytes =>
      rw [hsending] at hlocal hclean
      rw [hlocal rfl, List.append_nil]
      exact hqueued.cut (hclean rfl)
  | writing chunks =>
      rw [hsending] at hlocal hclean
      rw [hlocal rfl, List.append_nil]
      exact hqueued.cut (hclean rfl)

theorem Inv.step (h : Inv s) {a : WriterAction} (hclean : Clean s a)
    (hstep : step s a = some s') : Inv s' := by
  cases a with
  | sendBytes bytes =>
      obtain ⟨side, hside, rfl⟩ := Option.map_eq_some_iff.mp hstep
      exact h.sendBytes hside
  | sendNothing bytes =>
      simp only [Writer.step] at hstep
      split at hstep
      · rename_i hidle
        cases hstep
        have hqueued := h.queued
        rw [hidle] at hqueued
        refine ⟨h.raw, h.localOnly, ?_⟩
        simp only [hidle]
        exact (hqueued.call bytes).drop
      · cases hstep
  | write n =>
      obtain ⟨⟨side, bytes⟩, hside, rfl⟩ := Option.map_eq_some_iff.mp hstep
      exact h.write hside
  | resume =>
      obtain ⟨side, hside, rfl⟩ := Option.map_eq_some_iff.mp hstep
      exact h.resume hside
  | abandon =>
      cases hstep
      exact h.abandon hclean
  | intoSplit =>
      obtain ⟨side, hside, rfl⟩ := Option.map_eq_some_iff.mp hstep
      exact h.intoSplit hside

/-! ## Every run -/

theorem resume_eq {s side : Side} (h : s.resume = some side) :
    ∃ sending, side = { s with sending := sending } := by
  unfold Side.resume at h
  split at h
  · split at h
    · split at h <;> exact ⟨_, (Option.some.inj h).symm⟩
    · cases h
  · exact ⟨_, (Option.some.inj h).symm⟩
  · split at h <;> exact ⟨_, (Option.some.inj h).symm⟩
  · exact ⟨_, (Option.some.inj h).symm⟩
  · exact ⟨_, (Option.some.inj h).symm⟩
  · cases h

/-- Only a write puts bytes on the socket. -/
theorem written_of_not_write {a : WriterAction} (ha : ∀ n, a ≠ .write n)
    (hstep : step s a = some s') : s'.written = s.written ∧ s.called <+: s'.called := by
  cases a with
  | sendBytes bytes =>
      obtain ⟨side, hside, rfl⟩ := Option.map_eq_some_iff.mp hstep
      refine ⟨rfl, ?_⟩
      unfold Side.sendBytes at hside
      split at hside
      · cases hside
        exact List.prefix_append _ _
      · cases hside
  | sendNothing bytes =>
      simp only [Writer.step] at hstep
      split at hstep
      · cases hstep
        exact ⟨rfl, List.prefix_append _ _⟩
      · cases hstep
  | write n => exact absurd rfl (ha n)
  | resume =>
      obtain ⟨side, hside, rfl⟩ := Option.map_eq_some_iff.mp hstep
      refine ⟨rfl, ?_⟩
      obtain ⟨sending, rfl⟩ := resume_eq hside
      exact List.prefix_refl _
  | abandon =>
      cases hstep
      exact ⟨rfl, List.prefix_refl _⟩
  | intoSplit =>
      obtain ⟨side, hside, rfl⟩ := Option.map_eq_some_iff.mp hstep
      refine ⟨rfl, ?_⟩
      unfold Side.intoSplit at hside
      split at hside
      · cases hside
        exact List.prefix_refl _
      · cases hside

theorem wellFramed_of_no_write (h : WellFramed s.written s.called) {as : List WriterAction}
    (has : ∀ a ∈ as, ∀ n, a ≠ .write n) (hrun : system.runFrom s as = some s') :
    WellFramed s'.written s'.called := by
  induction as generalizing s with
  | nil =>
      cases hrun
      exact h
  | cons a as ih =>
      obtain ⟨t, hstep, hrest⟩ := Option.bind_eq_some_iff.mp hrun
      obtain ⟨hwritten, hcalled⟩ := written_of_not_write (has a List.mem_cons_self) hstep
      refine ih ?_ (fun b hb => has b (List.mem_cons_of_mem _ hb)) hrest
      obtain ⟨ps, hsub, hps⟩ := h
      rw [hwritten]
      exact ⟨ps, hsub.trans hcalled.sublist, hps⟩

/-- For every run in which a call with local buffers is abandoned only behind a whole frame:
the bytes on the socket are frames of payloads in call order, the last one perhaps cut, and
a reader decodes such payloads without an error. This stays so after any abandoned call, as
long as nothing more is written. -/
theorem written_wellFramed {s : Writer} (hreach : system.Reach Clean s) :
    WellFramed s.written s.called ∧
    (∀ maxPacketLength, (∀ p ∈ s.called, p.length ≤ maxPacketLength) →
      ∀ chunks : List Bytes, chunks.flatten = s.written → ∃ c buf decoded,
        (BytesCodec.new.setMaxPacketLength maxPacketLength).feed [] chunks =
          (c, buf, decoded, none) ∧ decoded.Sublist s.called) ∧
    ∀ as s', (∀ a ∈ as, ∀ n, a ≠ .write n) → system.runFrom s as = some s' →
      WellFramed s'.written s'.called := by
  have hinv : Inv s := hreach.invariant inv_new (fun _ _ _ h hclean hstep => h.step hclean hstep)
  have hframed := hinv.queued.wellFramed
  exact ⟨hframed, fun _ hmax _ hchunks => hframed.decodes hmax hchunks,
    fun _ _ has hrun => wellFramed_of_no_write hframed has hrun⟩

/-- A short frame that is abandoned in the middle, and another one. -/
def sampleShort : List WriterAction :=
  [.sendBytes [1, 2, 3], .write 2, .abandon, .sendBytes [7], .write 4]

theorem written_wellFramed_short :
    ∃ s, system.run sampleShort = some s ∧ s.written = [12, 1, 2, 3, 4, 7] ∧
      s.called = [[1, 2, 3], [7]] ∧ WellFramed s.written s.called := by
  have hrun : (system.run sampleShort).map (fun s => decide (s.written = [12, 1, 2, 3, 4, 7] ∧
      s.called = [[1, 2, 3], [7]])) = some true := by
    decide +kernel
  obtain ⟨s, hs, hstate⟩ := Option.map_eq_some_iff.mp hrun
  obtain ⟨hwritten, hcalled⟩ := of_decide_eq_true hstate
  refine ⟨s, hs, hwritten, hcalled, (written_wellFramed ?_).1⟩
  refine TSys.reach_of_run sampleShort ?_ hs
  refine ⟨trivial, fun _ h₁ => ⟨trivial, fun _ h₂ => ⟨?_, fun _ _ => ⟨trivial, fun _ _ =>
    ⟨trivial, fun _ _ => trivial⟩⟩⟩⟩⟩
  cases h₁
  cases h₂
  exact nofun

/-- A frame of the split writer that is abandoned in the middle, and another one: together
they decode to a payload that nobody sent. -/
def sampleTorn : List WriterAction :=
  [.intoSplit, .sendBytes [1, 2, 3], .resume, .write 2, .abandon, .sendBytes [7], .resume, .write 2]

theorem torn_frame :
    ∃ s, system.run sampleTorn = some s ∧ s.called = [[1, 2, 3], [7]] ∧
      s.written = BytesCodec.frame [1, 4, 7] ∧ ¬ WellFramed s.written s.called := by
  have hrun : (system.run sampleTorn).map (fun s => decide (s.called = [[1, 2, 3], [7]] ∧
      s.written = BytesCodec.frame [1, 4, 7])) = some true := by
    decide +kernel
  obtain ⟨s, hs, hstate⟩ := Option.map_eq_some_iff.mp hrun
  obtain ⟨hcalled, hwritten⟩ := of_decide_eq_true hstate
  refine ⟨s, hs, hcalled, hwritten, ?_⟩
  rintro ⟨ps, hsub, -, hfirst⟩
  rw [hwritten] at hfirst
  rw [hcalled] at hsub
  have hnone : ∀ ps ∈ [[1, 2, 3], [7]].sublists,
      ¬ BytesCodec.frame [1, 4, 7] <+: (ps.map BytesCodec.frame).flatten := by
    decide
  exact hnone ps (List.mem_sublists.mpr hsub) hfirst

end Writer

end HbbCommon.Tcp
