import HbbCommon.Tcp.Logic.Reader

/-!
# What the split withholds

The reader that `into_split` makes starts with the socket, so its first chunk joins the
buffer, and without a chunk the frames of the buffer stay where they are. In the framed
mode only the second matters, and only when the reader before the split was about to
decode its buffer.
-/

namespace HbbCommon.Tcp

open HbbCommon.Base
open HbbCommon.Transport (Bytes)

variable {box : Secretbox}

namespace Incoming

open FramedRead (Returnable Yields framesOf)

/-- The end of the stream is read only when it is reached, and each read returns bytes. -/
structure Inv (s : Incoming) : Prop where
  eof : s.eof = true → s.closed = true ∧ s.arrived = []
  arrived : ∀ chunk ∈ s.arrived, chunk ≠ []

/-- The messages that the buffer holds: the frames in it that open. -/
def held (box : Secretbox) (s : Incoming) : List Bytes :=
  (openAll box s.stream.encrypt (s.stream.codec.decodeAll s.stream.readBuf).2.2.1).2

/-- The reader decodes its buffer before it reads the socket. -/
def DecodesFirst (s : Incoming) : Prop := s.isReadable = true ∧ s.hasErrored = false

/-- Where the split withholds nothing and regroups nothing. -/
structure SplitKeeps (box : Secretbox) (s : Incoming) : Prop where
  /-- bytes or the end of the stream are there to be read, or the buffer holds no message -/
  waits : s.DecodesFirst → s.arrived = [] → s.closed = false → s.held box = []
  /-- after the end of the stream the buffer holds no message any more -/
  ended : ¬ s.DecodesFirst → s.eof = true → s.held box = []
  /-- raw bytes in front of a chunk open alike with it and without it -/
  raw : s.stream.codec.raw = true → s.DecodesFirst → s.stream.readBuf ≠ [] →
    ∀ chunk arrived, s.arrived = chunk :: arrived →
      (openAll box s.stream.encrypt (s.stream.readBuf :: chunk :: arrived)).2 =
        (openAll box s.stream.encrypt ((s.stream.readBuf ++ chunk) :: arrived)).2

theorem inv_init : (system box).init.Inv where
  eof h := absurd h Bool.false_ne_true
  arrived := by simp [system]

theorem Inv.step {s s' : Incoming} {a : IncomingAction} (h : s.Inv)
    (hstep : (system box).step s a = some s') : s'.Inv := by
  cases a with
  | arrive chunk =>
      replace hstep : (if s.closed || chunk.isEmpty then none
        else some { s with arrived := s.arrived ++ [chunk] }) = some s' := hstep
      split at hstep
      · cases hstep
      · rename_i hopen
        cases hstep
        rw [Bool.or_eq_true, not_or] at hopen
        refine ⟨fun heof => absurd (h.eof heof).1 hopen.1, fun c hc => ?_⟩
        rcases List.mem_append.mp hc with hc | hc
        · exact h.arrived c hc
        · rw [List.mem_singleton.mp hc]
          exact fun hnil => hopen.2 (by rw [hnil]; rfl)
  | close =>
      cases hstep
      exact ⟨fun heof => ⟨rfl, (h.eof heof).2⟩, h.arrived⟩
  | next =>
      cases hstep
      obtain ⟨hsuffix, hend⟩ := FramedRead.poll_spec box (r := s.reader) h.eof
      exact ⟨hend, fun chunk hchunk => h.arrived chunk (hsuffix.subset hchunk)⟩
  | sendRaw msg =>
      cases hstep
      exact ⟨h.eof, h.arrived⟩
  | setKey key mode =>
      cases hstep
      exact ⟨h.eof, h.arrived⟩
  | setRaw =>
      cases hstep
      exact ⟨h.eof, h.arrived⟩

theorem reach_inv {s : Incoming} (h : (system box).Reach (fun _ _ => True) s) : s.Inv :=
  h.invariant inv_init (fun _ _ _ hinv _ hstep => hinv.step hstep)

/-- The frames that the reader of the split decodes. -/
def splitFrames (s : Incoming) : List Bytes :=
  match s.arrived with
  | [] => if s.closed then (s.stream.codec.decodeAll s.stream.readBuf).2.2.1 else []
  | chunk :: arrived => framesOf s.stream.codec s.stream.readBuf (chunk :: arrived)

/-- What comes of a reader that reads the socket first and has not reached its end. -/
theorem yields_reading {s : Incoming} {r : FramedRead} (hhalf : r.half = s.stream.readHalf)
    (hreading : r.isReadable = false ∧ r.hasErrored = false) (heof : r.eof = false) :
    Yields box s.closed r s.arrived (openAll box s.stream.encrypt s.splitFrames).2 := by
  have hdecrypt : r.half.decrypt = s.stream.encrypt := by rw [hhalf]; rfl
  have hcodec : r.half.codec = s.stream.codec := by rw [hhalf]; rfl
  have hbuf : r.half.readBuf = s.stream.readBuf := by rw [hhalf]; rfl
  unfold splitFrames
  rw [← hdecrypt, ← hcodec, ← hbuf]
  cases s.arrived with
  | nil =>
      cases s.closed with
      | false => exact .waiting hreading
      | true => exact .closing box hreading heof
  | cons chunk arrived => exact .reading hreading chunk

theorem yields_split (s : Incoming) :
    Yields box s.closed s.splitReader s.arrived (openAll box s.stream.encrypt s.splitFrames).2 :=
  yields_reading rfl ⟨rfl, rfl⟩ rfl

instance (s : Incoming) : Decidable s.DecodesFirst :=
  inferInstanceAs (Decidable (_ ∧ _))

/-- The frames that the reader inside the stream decodes. -/
def frames (s : Incoming) : List Bytes :=
  if s.DecodesFirst then framesOf s.stream.codec [] (s.stream.readBuf :: s.arrived)
  else if s.eof then [] else s.splitFrames

theorem yields_reader {s : Incoming} (h : s.Inv) :
    Yields box s.closed s.reader s.arrived (openAll box s.stream.encrypt s.frames).2 := by
  unfold frames
  split
  · rename_i hfirst
    cases heof : s.eof with
    | false => exact .readable hfirst heof
    | true =>
        obtain ⟨hclosed, harrived⟩ := h.eof heof
        rw [hclosed, harrived, FramedRead.framesOf_cons, List.nil_append]
        simp only [framesOf, BytesCodec.feed, ite_self, List.append_nil]
        exact .atEnd hfirst heof
  · rename_i hfirst
    -- a reader that is not about to decode is one that reads the socket, up to an end it returns
    have hsocket : ∀ r : FramedRead, r.half = s.stream.readHalf → r.eof = s.eof →
        r.isReadable = false ∧ r.hasErrored = false →
        Yields box s.closed r s.arrived
          (openAll box s.stream.encrypt (if s.eof then [] else s.splitFrames)).2 := by
      intro r hhalf hreof hreading
      cases heof : s.eof with
      | true =>
          obtain ⟨hclosed, harrived⟩ := h.eof heof
          rw [hclosed, harrived]
          exact .ended (hreof.trans heof) (fun htrue => absurd (hreading.1.symm.trans htrue)
            Bool.false_ne_true)
      | false => exact yields_reading hhalf hreading (hreof.trans heof)
    cases herrored : s.hasErrored with
    | true => exact .errored herrored (hsocket _ rfl rfl ⟨rfl, rfl⟩)
    | false =>
        cases hreadable : s.isReadable with
        | true => exact absurd ⟨hreadable, herrored⟩ hfirst
        | false => exact hsocket _ rfl rfl ⟨hreadable, herrored⟩

/-- Two readers return the same lists of messages when the same comes of them. -/
theorem returnable_iff_of_yields {closed : Bool} {r r' : FramedRead}
    {arrived arrived' msgs msgs' : List Bytes} (h : Yields box closed r arrived msgs)
    (h' : Yields box closed r' arrived' msgs') :
    (∀ some_, Returnable box closed r arrived some_ ↔ Returnable box closed r' arrived' some_) ↔
      msgs = msgs' := by
  constructor
  · intro hsame
    refine List.IsPrefix.eq_of_length_le ?_ ?_
    · exact (h'.returnable_iff _).mp ((hsame _).mp ((h.returnable_iff _).mpr List.prefix_rfl))
    · exact ((h.returnable_iff _).mp ((hsame _).mpr
        ((h'.returnable_iff _).mpr List.prefix_rfl))).length_le
  · rintro rfl some_
    rw [h.returnable_iff, h'.returnable_iff]

/-- Without a chunk the frames are those of the buffer. -/
theorem framesOf_buffer (s : Incoming) :
    (openAll box s.stream.encrypt (framesOf s.stream.codec [] [s.stream.readBuf])).2 =
      s.held box := by
  rw [held, FramedRead.framesOf_cons, List.nil_append]
  simp only [framesOf, BytesCodec.feed, ite_self, List.append_nil]

/-- Behind an empty buffer the first chunk is decoded alone. -/
theorem framesOf_empty {c : BytesCodec} (hraw : c.raw = true) (chunk : Bytes)
    (chunks : List Bytes) : framesOf c [] ([] :: chunk :: chunks) = framesOf c [] (chunk :: chunks) := by
  have hempty : c.decode [] = (c, [], .ok none) := by
    rw [BytesCodec.decode, if_pos hraw]
    rfl
  rw [FramedRead.framesOf_cons c [] [], List.nil_append, BytesCodec.decodeAll_of_wait hempty]
  rfl

/-- A reader that is about to decode, with chunks behind its buffer. -/
theorem join_eq_iff {s : Incoming} (h : s.Inv) {chunk : Bytes} {arrived : List Bytes}
    (harrived : s.arrived = chunk :: arrived) :
    (openAll box s.stream.encrypt
        (framesOf s.stream.codec s.stream.readBuf (chunk :: arrived))).2 =
      (openAll box s.stream.encrypt
        (framesOf s.stream.codec [] (s.stream.readBuf :: chunk :: arrived))).2 ↔
    (s.stream.codec.raw = true → s.stream.readBuf ≠ [] →
      (openAll box s.stream.encrypt (s.stream.readBuf :: chunk :: arrived)).2 =
        (openAll box s.stream.encrypt ((s.stream.readBuf ++ chunk) :: arrived)).2) := by
  cases hraw : s.stream.codec.raw with
  | false =>
      rw [FramedRead.framesOf_join hraw]
      exact iff_of_true rfl (fun htrue => absurd htrue Bool.false_ne_true)
  | true =>
      by_cases hbuf : s.stream.readBuf = []
      · simp only [hbuf, framesOf_empty hraw, ne_eq, not_true_eq_false, false_implies,
          implies_true]
      · have hchunks : ∀ c ∈ chunk :: arrived, c ≠ [] := by
          rw [← harrived]
          exact h.arrived
        have hlater : ∀ c ∈ arrived, c ≠ [] := fun c hc => hchunks c (List.mem_cons_of_mem _ hc)
        rw [← FramedRead.framesOf_chunk,
          FramedRead.framesOf_raw hraw (List.forall_mem_cons.mpr ⟨by simp [hbuf], hlater⟩),
          FramedRead.framesOf_raw hraw (List.forall_mem_cons.mpr ⟨hbuf, hchunks⟩)]
        exact ⟨fun heq _ _ => heq.symm, fun heq => (heq rfl hbuf).symm⟩

/-- The same frames come of both readers where the split keeps them. -/
theorem frames_eq_iff {s : Incoming} (h : s.Inv) :
    (openAll box s.stream.encrypt s.splitFrames).2 = (openAll box s.stream.encrypt s.frames).2 ↔
      s.SplitKeeps box := by
  unfold frames splitFrames
  by_cases hfirst : s.DecodesFirst
  · rw [if_pos hfirst]
    cases harrived : s.arrived with
    | nil =>
        rw [framesOf_buffer]
        cases hclosed : s.closed with
        | true =>
            refine iff_of_true rfl ⟨?_, fun hnot => absurd hfirst hnot, ?_⟩
            · intro _ _ hopen
              exact absurd (hclosed.symm.trans hopen) Bool.true_eq_false.mp
            · intro _ _ _ chunk arrived hcons
              rw [harrived] at hcons
              cases hcons
        | false =>
            constructor
            · intro hheld
              refine ⟨fun _ _ _ => hheld.symm, fun hnot => absurd hfirst hnot, ?_⟩
              intro _ _ _ chunk arrived hcons
              rw [harrived] at hcons
              cases hcons
            · intro hkeeps
              exact (hkeeps.waits hfirst harrived hclosed).symm
    | cons chunk arrived =>
        refine (join_eq_iff h harrived).trans ⟨fun hjoin => ⟨?_, fun hnot => absurd hfirst hnot, ?_⟩,
          fun hkeeps hraw hbuf => hkeeps.raw hraw hfirst hbuf chunk arrived harrived⟩
        · intro _ hnil
          rw [harrived] at hnil
          cases hnil
        · intro hraw _ hbuf chunk' arrived' hcons
          rw [harrived] at hcons
          cases hcons
          exact hjoin hraw hbuf
  · rw [if_neg hfirst]
    cases heof : s.eof with
    | false =>
        refine iff_of_true rfl ⟨fun hyes => absurd hyes hfirst, ?_, fun _ hyes => absurd hyes hfirst⟩
        intro _ htrue
        exact absurd (heof.symm.trans htrue) Bool.false_ne_true
    | true =>
        obtain ⟨hclosed, harrived⟩ := h.eof heof
        rw [harrived, hclosed]
        exact ⟨fun hheld => ⟨fun hyes => absurd hyes hfirst, fun _ _ => hheld,
          fun _ hyes => absurd hyes hfirst⟩, fun hkeeps => hkeeps.ended hfirst heof⟩

/-- At any point of any run, the messages that calls of `next` return when nothing more
arrives are the same with the split and without it exactly where it keeps them. -/
theorem split_keeps_iff (box : Secretbox) {s : Incoming}
    (h : (system box).Reach (fun _ _ => True) s) :
    (∀ msgs, Returnable box s.closed s.splitReader s.arrived msgs ↔
      Returnable box s.closed s.reader s.arrived msgs) ↔ s.SplitKeeps box := by
  rw [returnable_iff_of_yields (yields_split s) (yields_reader (reach_inv h))]
  exact frames_eq_iff (reach_inv h)

/-! ## Two frames in one segment -/

/-- A box for a stream without a key, which opens nothing. -/
def plainBox : Secretbox where
  sealBox message _ _ := message
  openBox _ _ _ := none

/-- One segment holds two frames, and the first of them is returned. -/
def sampleSegment : List IncomingAction := [.arrive [4, 7, 4, 9], .next]

/-- Split before the first call, the stream keeps both messages. -/
theorem split_keeps_iff_fresh :
    ∃ s, (system plainBox).run [.arrive [4, 7, 4, 9]] = some s ∧
      Returnable plainBox s.closed s.splitReader s.arrived [[7], [9]] := by
  refine ⟨_, rfl, ?_⟩
  have hreach := TSys.reach_of_any_run (M := system plainBox) [.arrive [4, 7, 4, 9]] rfl
  refine ((split_keeps_iff plainBox hreach).mpr ⟨?_, ?_, ?_⟩ [[7], [9]]).mpr ⟨2, by decide⟩
  · exact fun hfirst => absurd hfirst.1 Bool.false_ne_true
  · exact fun _ heof => absurd heof Bool.false_ne_true
  · exact fun hraw => absurd hraw Bool.false_ne_true

/-- Split after the first call, it keeps back the second message until the peer sends more. -/
theorem split_withholds :
    ¬ ∀ s, (system plainBox).Reach (fun _ _ => True) s → ∀ msgs,
      (Returnable plainBox s.closed s.splitReader s.arrived msgs ↔
        Returnable plainBox s.closed s.reader s.arrived msgs) := by
  intro hsame
  have hreach := TSys.reach_of_any_run (M := system plainBox) sampleSegment rfl
  have hreturned := (hsame _ hreach [[9]]).mpr ⟨1, by decide⟩
  have hprefix := ((yields_split _).returnable_iff _).mp hreturned
  revert hprefix
  decide

end Incoming

end HbbCommon.Tcp
