import HbbCommon.Transport.Video.Fragment

/-!
# What `fragment_video_frame` sends

The datagrams of a frame: how many there are, how long each is, and that each
decodes to its fragment header and its chunk. The chunks, in order, are the frame.
-/

namespace HbbCommon.Transport

open HbbCommon.Base

/-! ## Chunks -/

section Chunks

variable {frame : Bytes} {size : Nat}

theorem length_chunk (frame : Bytes) (size i : Nat) :
    (chunk frame size i).length = min size (frame.length - i * size) := by
  simp [chunk]

theorem length_chunk_le (frame : Bytes) (size i : Nat) : (chunk frame size i).length ≤ size := by
  rw [length_chunk]
  exact min_le_left _ _

/-- The chunks cover the frame and no more. -/
theorem lt_chunkCount_iff (frame : Bytes) (hsize : 0 < size) (i : Nat) :
    i < chunkCount frame size ↔ i * size < frame.length := by
  unfold chunkCount
  rw [Nat.lt_div_iff_mul_lt hsize]
  omega

theorem chunk_ne_nil (hsize : 0 < size) {i : Nat} (hi : i < chunkCount frame size) :
    chunk frame size i ≠ [] := by
  have hlt := (lt_chunkCount_iff frame hsize i).mp hi
  intro hnil
  have hlength := length_chunk frame size i
  rw [hnil, List.length_nil] at hlength
  omega

/-- The first `n` chunks are the first `n * size` bytes. -/
theorem flatten_chunks_take (frame : Bytes) (size n : Nat) :
    ((List.range n).map (chunk frame size)).flatten = frame.take (n * size) := by
  induction n with
  | zero => simp
  | succ n ih =>
      rw [List.range_succ, List.map_append, List.flatten_append, ih]
      simp only [List.map_cons, List.map_nil, List.flatten_cons, List.flatten_nil, List.append_nil,
        chunk]
      rw [Nat.succ_mul, List.take_add]

theorem flatten_chunks (hsize : 0 < size) :
    ((List.range (chunkCount frame size)).map (chunk frame size)).flatten = frame := by
  rw [flatten_chunks_take]
  apply List.take_of_length_le
  by_contra hlt
  have := (lt_chunkCount_iff frame hsize (chunkCount frame size)).mpr (by omega)
  omega

end Chunks

/-! ## The fragment header -/

/-- A fragment header whose numbers fit their fields. -/
structure FragmentHeader.Fits (header : FragmentHeader) : Prop where
  frameId : header.metadata.frameId < 256 ^ 8
  flags : header.metadata.flags < 256
  timestamp : header.metadata.presentationTimestampUs < 256 ^ 8
  index : header.fragmentIndex < 256 ^ 2
  count : header.fragmentCount < 256 ^ 2
  size : header.frameSize < 256 ^ 4

theorem FragmentHeader.length_fields (header : FragmentHeader) :
    header.fields.flatten.length = videoFragmentHeaderLen := by
  simp [FragmentHeader.fields, videoFragmentHeaderLen]

/-- Decoding reads the fragment header and the chunk back. -/
theorem decodeFragmentPayload_fields {header : FragmentHeader} (hfits : header.Fits)
    {fragment : Bytes} (hfragment : fragment ≠ []) :
    (decodeFragmentPayload (header.fields.flatten ++ fragment)).run =
      some (.ok (header, fragment)) := by
  have hread : ∀ {i w n : Nat}, header.fields[i]? = some (toBeBytes w n) → n < 256 ^ w →
      readBe w (header.fields.flatten ++ fragment) (fieldOffset header.fields i) = some n :=
    fun hfield hn => readBe_fields fragment hfield hn
  have hid : readBe 8 (header.fields.flatten ++ fragment) 0 = some header.metadata.frameId :=
    hread (i := 0) rfl hfits.frameId
  have hindex : readBe 2 (header.fields.flatten ++ fragment) 8 = some header.fragmentIndex :=
    hread (i := 1) rfl hfits.index
  have hcount : readBe 2 (header.fields.flatten ++ fragment) 10 = some header.fragmentCount :=
    hread (i := 2) rfl hfits.count
  have hcodec : readBe 1 (header.fields.flatten ++ fragment) 12 =
      some header.metadata.codec.code := hread (i := 3) rfl header.metadata.codec.code_lt
  have hflags : readBe 1 (header.fields.flatten ++ fragment) 13 = some header.metadata.flags :=
    hread (i := 4) rfl hfits.flags
  have hreserved : readBe 2 (header.fields.flatten ++ fragment) 14 = some 0 :=
    hread (i := 5) rfl (by decide)
  have htimestamp : readBe 8 (header.fields.flatten ++ fragment) 16 =
      some header.metadata.presentationTimestampUs := hread (i := 6) rfl hfits.timestamp
  have hframeSize : readBe 4 (header.fields.flatten ++ fragment) 24 = some header.frameSize :=
    hread (i := 7) rfl hfits.size
  have hpos : 0 < fragment.length := List.length_pos_iff.mpr hfragment
  have hlength : (header.fields.flatten ++ fragment).length =
      videoFragmentHeaderLen + fragment.length := by
    rw [List.length_append, header.length_fields]
  unfold decodeFragmentPayload
  rw [if_neg (by omega)]
  simp only [hreserved, hid, hcodec, hflags, htimestamp, hindex, hcount, hframeSize,
    liftM_some_bind, liftM_ok_bind, VideoCodec.tryFrom_code, ne_eq, not_true_eq_false, if_false,
    List.drop_left' header.length_fields]
  rfl

/-- A datagram carries one fragment. -/
theorem Carries.unique {datagram : Bytes} {header header' : FragmentHeader}
    {fragment fragment' : Bytes} (h : Carries datagram header fragment)
    (h' : Carries datagram header' fragment') : header = header' ∧ fragment = fragment' := by
  obtain ⟨message, hmessage, _, hfragment⟩ := h
  obtain ⟨message', hmessage', _, hfragment'⟩ := h'
  rw [hmessage] at hmessage'
  cases hmessage'
  rw [hfragment] at hfragment'
  cases hfragment'
  exact ⟨rfl, rfl⟩

/-- No payload makes `decode_fragment_payload` index out of range. -/
theorem decodeFragmentPayload_defined (payload : Bytes) :
    Defined (decodeFragmentPayload payload) := by
  unfold decodeFragmentPayload
  refine .ite (defined_throw _) (fun hlen => ?_)
  have hlen : 28 < payload.length := Nat.lt_of_not_le hlen
  have hread : ∀ w offset, offset + w ≤ 28 →
      Defined (liftM (readBe w payload offset) : ExceptT VideoDatagramError Option Nat) :=
    fun w offset h => defined_lift (readBe_isSome (by omega))
  refine (hread 2 14 (by decide)).bind (fun _ _ => .ite (defined_throw _) (fun _ => ?_))
  refine (hread 8 0 (by decide)).bind (fun _ _ => ?_)
  refine (hread 1 12 (by decide)).bind (fun _ _ => (defined_except _).bind (fun _ _ => ?_))
  refine (hread 1 13 (by decide)).bind (fun _ _ => ?_)
  refine (hread 8 16 (by decide)).bind (fun _ _ => ?_)
  refine (hread 2 8 (by decide)).bind (fun _ _ => ?_)
  refine (hread 2 10 (by decide)).bind (fun _ _ => ?_)
  exact (hread 4 24 (by decide)).bind (fun _ _ => defined_pure _)

/-! ## The datagrams of a frame -/

namespace VideoTransmission

variable {t : VideoTransmission} {datagrams : List Bytes}

/-- The 64-bit arguments are 64-bit values. -/
structure Fits (t : VideoTransmission) : Prop where
  monotonicTimestampUs : t.monotonicTimestampUs ≤ u64Max
  frameId : t.metadata.frameId ≤ u64Max
  presentationTimestampUs : t.metadata.presentationTimestampUs ≤ u64Max

instance (t : VideoTransmission) : Decidable t.Fits :=
  decidable_of_iff (t.monotonicTimestampUs ≤ u64Max ∧ t.metadata.frameId ≤ u64Max ∧
    t.metadata.presentationTimestampUs ≤ u64Max)
    ⟨fun h => ⟨h.1, h.2.1, h.2.2⟩, fun h => ⟨h.1, h.2, h.3⟩⟩

/-- What is known when `fragment_video_frame` has returned datagrams. -/
structure Fragmented (t : VideoTransmission) (datagrams : List Bytes) : Prop where
  frameId : t.metadata.frameId ≠ 0
  flags : t.metadata.flags < firstUnknownFrameFlag
  nonempty : t.frame ≠ []
  length_le : t.frame.length ≤ maxDatagramFrameBytes
  room : 0 < t.fragmentPayloadSize
  count_pos : 0 < t.fragmentCount
  count_le : t.fragmentCount ≤ maxVideoFragments
  sequence : t.firstSequenceNumber + (t.fragmentCount - 1) ≤ u64Max
  length : datagrams.length = t.fragmentCount
  datagram : ∀ i d, datagrams[i]? = some d → i < t.fragmentCount ∧ t.encodeFragment i = .ok d

theorem fragmented (h : t.fragmentVideoFrame = .ok datagrams) : t.Fragmented datagrams := by
  unfold fragmentVideoFrame validateFrameMetadata at h
  split at h
  · cases h
  split at h
  · cases h
  rename_i hid hflags
  simp only [bind, Except.bind] at h
  split at h
  · cases h
  split at h
  · cases h
  split at h
  · cases h
  split at h
  · cases h
  rename_i hframe hroom hcount hsequence
  have hturns := mapM_eq_ok h
  have hlength : datagrams.length = t.fragmentCount := by
    simpa using hturns.length_eq.symm
  refine ⟨hid, ?_, by tauto, by omega, by omega, by omega, by omega, by omega, hlength, ?_⟩
  · have hzero := not_not.mp hflags
    simpa [Nat.div_eq_zero_iff, firstUnknownFrameFlag] using hzero
  · intro i d hd
    obtain ⟨hi, rfl⟩ := List.getElem?_eq_some_iff.mp hd
    have hi' : i < (List.range t.fragmentCount).length := by simpa [hlength] using hi
    have hturn := hturns.get hi' hi
    simp only [List.get_eq_getElem, List.getElem_range] at hturn
    exact ⟨by simpa using hi', hturn⟩

/-- A datagram is its two headers and its chunk. -/
theorem encodeFragment_eq_ok {i : Nat} {d : Bytes} (h : t.encodeFragment i = .ok d) :
    t.fragment i ≠ [] ∧ (t.fragmentHeader i).frameSize < 2 ^ 32 ∧
    ∃ header : MessageHeader, header.messageType = .videoFragment ∧ header.flags = 0 ∧
      header.sequenceNumber = t.firstSequenceNumber + i ∧
      header.monotonicTimestampUs = t.monotonicTimestampUs ∧
      encodeMessage header ((t.fragmentHeader i).fields.flatten ++ t.fragment i) = .ok d := by
  unfold encodeFragment encodeFragmentPayload at h
  split at h
  · cases h
  split at h
  · cases h
  split at h
  · cases h
  split at h
  · cases h
  rename_i hnil hindex hcount hsize
  simp only [bind, Except.bind] at h
  split at h
  · cases h
  · rename_i header hheader
    cases hnew : MessageHeader.new .videoFragment 0 t.sessionId (t.firstSequenceNumber + i)
        ((t.fragmentHeader i).fields.flatten ++ t.fragment i).length t.monotonicTimestampUs with
    | error e =>
        rw [hnew] at hheader
        cases hheader
    | ok header' =>
        rw [hnew] at hheader
        cases hheader
        obtain ⟨_, rfl⟩ := MessageHeader.new_eq_ok_iff.mp hnew
        cases hencode : encodeMessage _ ((t.fragmentHeader i).fields.flatten ++ t.fragment i) with
        | error e =>
            rw [hencode] at h
            cases h
        | ok d' =>
            rw [hencode] at h
            cases h
            exact ⟨hnil, Nat.lt_of_not_le hsize, _, rfl, rfl, rfl, rfl, hencode⟩

/-- A fragment that is small enough for a message can be sent. -/
theorem encodeFragment_ok {i : Nat} (hi : i < t.fragmentCount) (hroom : 0 < t.fragmentPayloadSize)
    (hlength : t.frame.length ≤ maxDatagramFrameBytes) (hcount : t.fragmentCount ≤ maxVideoFragments)
    (hpayload : t.fragmentPayloadSize + videoFragmentHeaderLen ≤
      MessageType.videoFragment.maxPayloadLen)
    (hsession : t.sessionId.val.all (fun byte => byte == 0) = false)
    (hsequence : t.firstSequenceNumber ≠ 0) : ∃ d, t.encodeFragment i = .ok d := by
  have hmax : maxVideoFragments < 2 ^ 16 := by decide
  have hmax' : maxDatagramFrameBytes < 2 ^ 32 := by decide
  have hindex : ¬ (t.fragmentHeader i).fragmentIndex ≥ 2 ^ 16 :=
    Nat.not_le.mpr (lt_trans hi (lt_of_le_of_lt hcount hmax))
  have hcount' : ¬ (t.fragmentHeader i).fragmentCount ≥ 2 ^ 16 :=
    Nat.not_le.mpr (lt_of_le_of_lt hcount hmax)
  have hsize : ¬ (t.fragmentHeader i).frameSize ≥ 2 ^ 32 :=
    Nat.not_le.mpr (lt_of_le_of_lt hlength hmax')
  have hvalid : validateFields .videoFragment 0 MessageType.videoFragment.channel t.sessionId
      (t.firstSequenceNumber + i)
      ((t.fragmentHeader i).fields.flatten ++ t.fragment i).length = .ok () := by
    refine validateFields_eq_ok_iff.mpr ⟨by decide, rfl, hsession, by omega, ?_⟩
    have hchunk : (t.fragment i).length ≤ t.fragmentPayloadSize := length_chunk_le _ _ _
    rw [List.length_append, FragmentHeader.length_fields]
    omega
  have hnil : t.fragment i ≠ [] := chunk_ne_nil hroom hi
  unfold encodeFragment encodeFragmentPayload
  rw [if_neg hnil, if_neg hindex, if_neg hcount', if_neg hsize]
  simp only [bind, Except.bind, MessageHeader.new_eq_ok_iff.mpr ⟨hvalid, rfl⟩, Except.mapError]
  rw [encodeMessage_eq_ok_iff.mpr ⟨hvalid, rfl, rfl⟩]
  exact ⟨_, rfl⟩

theorem length_encodeFragment {i : Nat} {d : Bytes} (h : t.encodeFragment i = .ok d) :
    d.length = headerLen + videoFragmentHeaderLen + (t.fragment i).length := by
  obtain ⟨_, _, header, _, _, _, _, hencode⟩ := encodeFragment_eq_ok h
  obtain ⟨_, _, rfl⟩ := encodeMessage_eq_ok_iff.mp hencode
  rw [List.length_append, List.length_append, header.length_bytes, FragmentHeader.length_fields]
  omega

/-- A frame that passes the checks is fragmented. -/
theorem exists_datagrams (hid : t.metadata.frameId ≠ 0)
    (hflags : t.metadata.flags < firstUnknownFrameFlag) (hframe : t.frame ≠ [])
    (hlength : t.frame.length ≤ maxDatagramFrameBytes) (hroom : 0 < t.fragmentPayloadSize)
    (hcount : t.fragmentCount ≤ maxVideoFragments)
    (hpayload : t.fragmentPayloadSize + videoFragmentHeaderLen ≤
      MessageType.videoFragment.maxPayloadLen)
    (hsession : t.sessionId.val.all (fun byte => byte == 0) = false)
    (hsequence : t.firstSequenceNumber ≠ 0)
    (hlast : t.firstSequenceNumber + (t.fragmentCount - 1) ≤ u64Max) :
    ∃ datagrams, t.fragmentVideoFrame = .ok datagrams := by
  have hflags' : ¬ t.metadata.flags / firstUnknownFrameFlag ≠ 0 := by
    simpa [Nat.div_eq_zero_iff, firstUnknownFrameFlag] using hflags
  have hpos : t.fragmentCount ≠ 0 := by
    have hlt := (lt_chunkCount_iff t.frame hroom 0).mpr
      (by rw [Nat.zero_mul]; exact List.length_pos_iff.mpr hframe)
    exact Nat.ne_of_gt hlt
  unfold fragmentVideoFrame validateFrameMetadata
  rw [if_neg hid, if_neg hflags']
  simp only [bind, Except.bind]
  rw [if_neg (not_or.mpr ⟨hframe, by omega⟩), if_neg (by omega), if_neg (by omega),
    if_neg (by omega)]
  apply mapM_ok
  intro i hi
  exact encodeFragment_ok (List.mem_range.mp hi) hroom hlength hcount hpayload hsession hsequence

/-- No datagram is longer than the path allows. -/
theorem Fragmented.length_datagram (h : t.Fragmented datagrams) :
    ∀ d ∈ datagrams, d.length ≤ t.maxDatagramSize := by
  intro d hd
  obtain ⟨i, hi⟩ := List.mem_iff_getElem?.mp hd
  obtain ⟨_, hencode⟩ := h.datagram i d hi
  have hchunk : (t.fragment i).length ≤ t.fragmentPayloadSize := length_chunk_le _ _ _
  have hroom : 0 < t.maxDatagramSize - (headerLen + videoFragmentHeaderLen) := h.room
  have hsize : t.fragmentPayloadSize = t.maxDatagramSize - (headerLen + videoFragmentHeaderLen) :=
    rfl
  rw [length_encodeFragment hencode]
  omega

/-- Datagram `i` carries fragment `i`. -/
theorem Fragmented.carries (h : t.Fragmented datagrams) (hfits : t.Fits) {i : Nat} {d : Bytes}
    (hd : datagrams[i]? = some d) : Carries d (t.fragmentHeader i) (t.fragment i) := by
  obtain ⟨hi, hencode⟩ := h.datagram i d hd
  obtain ⟨hnil, hsize, header, htype, hflags, hsequence, htimestamp, hmessage⟩ :=
    encodeFragment_eq_ok hencode
  have hu64 : u64Max < 256 ^ 8 := by decide
  have hcount := h.count_le
  have hmax : maxVideoFragments < 256 ^ 2 := by decide
  obtain ⟨hvalid, hlength, _⟩ := encodeMessage_eq_ok_iff.mp hmessage
  have hpayload : header.payloadLength < 256 ^ 4 := by
    obtain ⟨_, _, _, _, hle⟩ := validateFields_eq_ok_iff.mp hvalid
    have hlimit := header.messageType.maxPayloadLen_le
    rw [hlength]
    omega
  have hheader : header.Fits := by
    refine ⟨by rw [hflags]; decide, ?_, hpayload, ?_⟩
    · have := h.sequence
      rw [hsequence]
      omega
    · have := hfits.monotonicTimestampUs
      rw [htimestamp]
      omega
  have hfragment : (t.fragmentHeader i).Fits := by
    refine ⟨lt_of_le_of_lt hfits.frameId hu64, ?_,
      lt_of_le_of_lt hfits.presentationTimestampUs hu64, ?_, lt_of_le_of_lt hcount hmax, hsize⟩
    · exact lt_trans h.flags (by decide)
    · exact lt_trans hi (lt_of_le_of_lt hcount hmax)
  exact ⟨_, decodeMessage_encode hheader hmessage, htype,
    decodeFragmentPayload_fields hfragment hnil⟩

/-- The chunks put together in order. -/
theorem Fragmented.flatten (h : t.Fragmented datagrams) :
    ((List.range t.fragmentCount).map t.fragment).flatten = t.frame :=
  flatten_chunks h.room

end VideoTransmission

end HbbCommon.Transport
