import HbbCommon.Transport.Session

/-!
# The session codecs are exact

What a decoder of `session.rs` accepts is what the encoder writes for the value it
returns: the reads at fixed offsets cover the payload, the counts are the lengths
of the codec lists, and the flag bits of an agreement are its Booleans.
-/

namespace HbbCommon.Transport

open HbbCommon.Base

/-! ## Valid offers -/

theorem containsDuplicatesFrom_eq_false_iff {seen values : List Nat} :
    containsDuplicatesFrom seen values = false ↔ values.Nodup ∧ ∀ v ∈ values, v ∉ seen := by
  induction values generalizing seen with
  | nil => simp [containsDuplicatesFrom]
  | cons value values ih =>
      unfold containsDuplicatesFrom
      by_cases hseen : value ∈ seen
      · simp [hseen]
      · rw [if_neg (by simpa using hseen), ih]
        simp only [List.nodup_cons, List.mem_cons, not_or, forall_eq_or_imp]
        constructor
        · rintro ⟨hnodup, hfresh⟩
          exact ⟨⟨fun hmem => (hfresh value hmem).1 rfl, hnodup⟩, hseen,
            fun v hv => (hfresh v hv).2⟩
        · rintro ⟨⟨hnew, hnodup⟩, -, hfresh⟩
          exact ⟨hnodup, fun v hv => ⟨fun heq => hnew (heq ▸ hv), hfresh v hv⟩⟩

theorem containsDuplicates_eq_false_iff {values : List Nat} :
    containsDuplicates values = false ↔ values.Nodup := by
  rw [containsDuplicates, containsDuplicatesFrom_eq_false_iff]
  simp

/-- What `validate_offer` checks. -/
structure SessionOffer.Valid (offer : SessionOffer) : Prop where
  version : offer.minimumProtocolVersion ≠ 0
  range : offer.minimumProtocolVersion ≤ offer.maximumProtocolVersion
  capabilities : offer.capabilities &&& ~~~knownCapabilities = 0
  color : offer.colorFormats ≠ 0
  colors : offer.colorFormats &&& ~~~knownColorFormats = 0
  video : offer.videoCodecs ≠ []
  videoCount : offer.videoCodecs.length ≤ maxOfferedVideoCodecs
  videoNodup : (offer.videoCodecs.map VideoCodec.code).Nodup
  audio : offer.audioCodecs ≠ []
  audioCount : offer.audioCodecs.length ≤ maxOfferedAudioCodecs
  audioNodup : (offer.audioCodecs.map AudioCodec.code).Nodup
  width : 320 ≤ offer.maxWidth ∧ offer.maxWidth ≤ 16384
  height : 200 ≤ offer.maxHeight ∧ offer.maxHeight ≤ 16384
  fps : 1 ≤ offer.maxFps ∧ offer.maxFps ≤ 240
  datagram : 256 ≤ offer.maxDatagramPayload ∧ offer.maxDatagramPayload ≤ 65000
  videoBitrate : offer.maxVideoBitrateKbps ≠ 0 ∧ offer.maxVideoBitrateKbps ≤ 1000000
  fileBitrate : hasBits offer.capabilities capFileTransfer = true →
    offer.maxFileBitrateKbps ≠ 0
  barrier : hasBits offer.capabilities capReliableKeyframeBarrier = true →
    hasBits offer.capabilities capReliableKeyframes = true

theorem validateOffer_eq_ok_iff {offer : SessionOffer} :
    validateOffer offer = .ok () ↔ offer.Valid := by
  simp only [validateOffer, check_eq_ok, not_or, not_not, ne_eq, and_true, Bool.not_eq_true,
    containsDuplicates_eq_false_iff, List.isEmpty_eq_false_iff, gt_iff_lt, Nat.not_lt,
    UInt16.not_lt, UInt32.not_lt]
  constructor
  · rintro ⟨⟨h1, h2⟩, h3, ⟨h4, h5⟩, ⟨h6, h7, h8⟩, ⟨h9, h10, h11⟩, ⟨h12, h13, h14⟩, h15,
      h16, h17, h18⟩
    refine ⟨h1, h2, h3, h4, h5, h6, h7, h8, h9, h10, h11, h12, h13, h14, h15, h16, ?_, ?_⟩
    · intro hfile hzero
      exact h17 ⟨hfile, hzero⟩
    · intro hbarrier
      cases hkeyframes : hasBits offer.capabilities capReliableKeyframes with
      | true => rfl
      | false => exact absurd ⟨hbarrier, hkeyframes⟩ h18
  · rintro ⟨h1, h2, h3, h4, h5, h6, h7, h8, h9, h10, h11, h12, h13, h14, h15, h16, h17, h18⟩
    refine ⟨⟨h1, h2⟩, h3, ⟨h4, h5⟩, ⟨h6, h7, h8⟩, ⟨h9, h10, h11⟩, ⟨h12, h13, h14⟩, h15, h16,
      fun h => h17 h.1 h.2, ?_⟩
    rintro ⟨hbarrier, hkeyframes⟩
    rw [h18 hbarrier] at hkeyframes
    cases hkeyframes

/-! ## Codec bytes -/

theorem decodeVideoCodec_eq_ok_iff {value : UInt8} {codec : VideoCodec} :
    decodeVideoCodec value = .ok codec ↔ value = UInt8.ofNat codec.code := by
  unfold decodeVideoCodec
  constructor
  · intro h
    split at h
    · rename_i codec' hcodec
      cases h
      rw [← VideoCodec.code_of_tryFrom hcodec, UInt8.ofNat_toNat]
    · cases h
  · rintro rfl
    cases codec <;> rfl

theorem decodeAudioCodec_eq_ok_iff {value : UInt8} {codec : AudioCodec} :
    decodeAudioCodec value = .ok codec ↔ value = UInt8.ofNat codec.code := by
  unfold decodeAudioCodec
  constructor
  · intro h
    split at h
    · rename_i codec' hcodec
      cases h
      rw [← AudioCodec.code_of_tryFrom hcodec, UInt8.ofNat_toNat]
    · cases h
  · rintro rfl
    cases codec
    rfl

theorem decodeVideoCodecs_eq_ok_iff {values : Bytes} {codecs : List VideoCodec} :
    decodeVideoCodecs values = .ok codecs ↔
      values = codecs.map (fun codec => UInt8.ofNat codec.code) :=
  mapM_eq_ok_iff_map (fun _ _ => decodeVideoCodec_eq_ok_iff)

theorem decodeAudioCodecs_eq_ok_iff {values : Bytes} {codecs : List AudioCodec} :
    decodeAudioCodecs values = .ok codecs ↔
      values = codecs.map (fun codec => UInt8.ofNat codec.code) :=
  mapM_eq_ok_iff_map (fun _ _ => decodeAudioCodec_eq_ok_iff)

/-! ## Offers -/

theorem encodeSessionOffer_eq_ok_iff {offer : SessionOffer} {payload : Bytes} :
    encodeSessionOffer offer = .ok payload ↔ offer.Valid ∧ payload = offer.fields.flatten := by
  unfold encodeSessionOffer
  rw [bind_eq_ok]
  constructor
  · rintro ⟨_, hvalid, hpayload⟩
    cases hpayload
    exact ⟨validateOffer_eq_ok_iff.mp hvalid, rfl⟩
  · rintro ⟨hvalid, rfl⟩
    exact ⟨(), validateOffer_eq_ok_iff.mpr hvalid, rfl⟩

/-- The fields as the decoder reads them: the reserved word in two halves. -/
theorem SessionOffer.flatten_fields (offer : SessionOffer) :
    offer.fields.flatten =
      (offer.fields.take 14 ++ [toBeBytes 2 0, toBeBytes 2 0] ++ offer.fields.drop 15).flatten :=
  rfl

@[simp] theorem SessionOffer.length_fields (offer : SessionOffer) :
    offer.fields.flatten.length =
      sessionOfferHeaderLen + offer.videoCodecs.length + offer.audioCodecs.length := by
  simp only [SessionOffer.fields, List.flatten_cons, List.flatten_nil, List.length_append,
    length_toBeBytes, List.length_map, List.length_nil, sessionOfferHeaderLen]
  omega

/-- `decode_session_offer` accepts what `encode_session_offer` writes and nothing
else. -/
theorem decodeSessionOffer_eq_ok_iff {payload : Bytes} {offer : SessionOffer} :
    (decodeSessionOffer payload).run = some (.ok offer) ↔
      encodeSessionOffer offer = .ok payload := by
  rw [encodeSessionOffer_eq_ok_iff]
  constructor
  · intro h
    simp only [decodeSessionOffer, run_check_eq_ok, run_bind_eq_ok, run_liftM_eq_ok,
      run_except_eq_ok, run_pure_eq_ok, not_or, not_not, ne_eq, readU8_eq_some_iff,
      readU16_eq_some_iff, readU32_eq_some_iff, decodeVideoCodecs_eq_ok_iff,
      decodeAudioCodecs_eq_ok_iff, LatencyMode.tryFrom_eq_ok_iff] at h
    obtain ⟨_, _, h9, _, h28, _, h30, ⟨rfl, rfl, rfl⟩, videoCount, h7, audioCount, h8, hlength, _,
      hvideo, videoCodecs, rfl, _, haudio, audioCodecs, rfl, _, h0, _, h2, _, h4, _, h6, _, rfl, _,
      h10, _, h12, _, h14, _, h16, _, h18, _, h20, _, h24, _, hvalid, rfl⟩ := h
    -- the counts are the lengths of the lists
    have hvideoCount : videoCount.toNat = videoCodecs.length := by
      have := length_of_slice hvideo
      rw [List.length_map] at this
      exact this.symm
    have haudioCount : audioCount.toNat = audioCodecs.length := by
      have := length_of_slice haudio
      rw [List.length_map] at this
      omega
    have haudioLength : payload.length - (sessionOfferHeaderLen + videoCount.toNat) =
        audioCodecs.length := by omega
    rw [hvideoCount] at h7 hvideo
    rw [haudioCount] at h8
    rw [haudioLength, hvideoCount] at haudio
    refine ⟨validateOffer_eq_ok_iff.mp hvalid, ?_⟩
    rw [SessionOffer.flatten_fields]
    apply FieldsAt.eq_flatten
    · simp only [SessionOffer.fields, List.take_succ_cons, List.take_zero, List.drop_succ_cons,
        List.drop_zero, List.cons_append, List.nil_append, FieldsAt, length_toBeBytes,
        List.length_map]
      exact ⟨h0, h2, h4, h6, h7, h8, h9, h10, h12, h14, h16, h18, h20, h24, h28, h30, hvideo,
        haudio, trivial⟩
    · rw [← SessionOffer.flatten_fields, SessionOffer.length_fields, hlength, hvideoCount,
        haudioCount]
  · rintro ⟨hvalid, rfl⟩
    have hvideoByte : (UInt8.ofNat offer.videoCodecs.length).toNat = offer.videoCodecs.length :=
      UInt8.toNat_ofNat_of_lt (lt_of_le_of_lt hvalid.videoCount (by decide))
    have haudioByte : (UInt8.ofNat offer.audioCodecs.length).toNat = offer.audioCodecs.length :=
      UInt8.toNat_ofNat_of_lt (lt_of_le_of_lt hvalid.audioCount (by decide))
    have hlength := offer.length_fields
    have hfields := fieldsAt_flatten
      (offer.fields.take 14 ++ [toBeBytes 2 0, toBeBytes 2 0] ++ offer.fields.drop 15)
    rw [← SessionOffer.flatten_fields] at hfields
    generalize offer.fields.flatten = payload at hfields hlength
    simp only [SessionOffer.fields, List.take_succ_cons, List.take_zero, List.drop_succ_cons,
      List.drop_zero, List.cons_append, List.nil_append, FieldsAt, length_toBeBytes,
      List.length_map] at hfields
    obtain ⟨h0, h2, h4, h6, h7, h8, h9, h10, h12, h14, h16, h18, h20, h24, h28, h30, hvideo,
      haudio, -⟩ := hfields
    have haudioLength : payload.length - (sessionOfferHeaderLen + offer.videoCodecs.length) =
        offer.audioCodecs.length := by omega
    simp only [decodeSessionOffer, run_check_eq_ok, run_bind_eq_ok, run_liftM_eq_ok,
      run_except_eq_ok, run_pure_eq_ok, not_or, not_not, ne_eq, readU8_eq_some_iff,
      readU16_eq_some_iff, readU32_eq_some_iff, decodeVideoCodecs_eq_ok_iff,
      decodeAudioCodecs_eq_ok_iff, LatencyMode.tryFrom_eq_ok_iff]
    refine ⟨by omega, 0, h9, 0, h28, 0, h30, ⟨rfl, rfl, rfl⟩, UInt8.ofNat offer.videoCodecs.length,
      by rw [hvideoByte]; exact h7, UInt8.ofNat offer.audioCodecs.length,
      by rw [haudioByte]; exact h8, by rw [hvideoByte, haudioByte, hlength], _,
      by rw [hvideoByte]; exact hvideo, _, rfl, _,
      by rw [hvideoByte, haudioLength]; exact haudio, _, rfl, _, h0, _, h2, _, h4, _, h6, _, rfl,
      _, h10, _, h12, _, h14, _, h16, _, h18, _, h20, _, h24, (),
      validateOffer_eq_ok_iff.mpr hvalid, rfl⟩

/-! ## Flags -/

/-- Flags without an unknown bit are one of 256 values. -/
theorem toNat_lt_of_known {flags : UInt16} (h : flags &&& ~~~knownCapabilities = 0) :
    flags.toNat < 256 := by
  have hmask : flags.toNat &&& 65280 = 0 := congrArg UInt16.toNat h
  have hshift : flags.toNat >>> 8 &&& 255 = 0 := by
    rw [show (255 : Nat) = 65280 >>> 8 from rfl, ← Nat.shiftRight_and_distrib, hmask,
      Nat.zero_shiftRight]
  have hlt : flags.toNat < 65536 := flags.toNat_lt
  rw [Nat.shiftRight_eq_div_pow, show (255 : Nat) = 2 ^ 8 - 1 from rfl,
    Nat.and_two_pow_sub_one_eq_mod] at hshift
  omega

/-- The Booleans an agreement takes from its flags. -/
def capabilityBits (flags : UInt16) : List (Bool × UInt16) :=
  [capHdr, capClipboardSend, capClipboardReceive, capFileTransfer, capInputSend, capInputReceive,
    capReliableKeyframes, capReliableKeyframeBarrier].map (fun bit => (hasBits flags bit, bit))

def setBits (bits : List (Bool × UInt16)) : UInt16 :=
  bits.foldl (fun flags (enabled, flag) => if enabled then flags ||| flag else flags) 0

theorem setBits_capabilityBits {flags : UInt16} (h : flags &&& ~~~knownCapabilities = 0) :
    setBits (capabilityBits flags) = flags := by
  have hall : ∀ n < 256, setBits (capabilityBits (UInt16.ofNat n)) = UInt16.ofNat n := by
    decide +kernel
  have hflags := hall flags.toNat (toNat_lt_of_known h)
  rwa [UInt16.ofNat_toNat] at hflags

/-- Every Boolean of an agreement is read back from its flags. -/
theorem capabilityBits_agreementFlags (agreement : SessionAgreement) :
    capabilityBits (agreementFlags agreement) =
      [(agreement.hdr, capHdr), (agreement.localMaySendClipboard, capClipboardSend),
        (agreement.remoteMaySendClipboard, capClipboardReceive),
        (agreement.fileTransferEnabled, capFileTransfer),
        (agreement.localMaySendInput, capInputSend),
        (agreement.remoteMaySendInput, capInputReceive),
        (agreement.reliableKeyframes, capReliableKeyframes),
        (agreement.reliableKeyframeBarrier, capReliableKeyframeBarrier)] ∧
      agreementFlags agreement &&& ~~~knownCapabilities = 0 := by
  have hall : ∀ b0 b1 b2 b3 b4 b5 b6 b7 : Bool,
      capabilityBits (setBits [(b0, capHdr), (b1, capClipboardSend), (b2, capClipboardReceive),
        (b3, capFileTransfer), (b4, capInputSend), (b5, capInputReceive),
        (b6, capReliableKeyframes), (b7, capReliableKeyframeBarrier)]) =
      [(b0, capHdr), (b1, capClipboardSend), (b2, capClipboardReceive),
        (b3, capFileTransfer), (b4, capInputSend), (b5, capInputReceive),
        (b6, capReliableKeyframes), (b7, capReliableKeyframeBarrier)] ∧
      setBits [(b0, capHdr), (b1, capClipboardSend), (b2, capClipboardReceive),
        (b3, capFileTransfer), (b4, capInputSend), (b5, capInputReceive),
        (b6, capReliableKeyframes), (b7, capReliableKeyframeBarrier)] &&&
          ~~~knownCapabilities = 0 := by
    decide +kernel
  exact hall _ _ _ _ _ _ _ _

/-! ## Agreements -/

theorem encodeSessionAgreement_eq_ok_iff {agreement : SessionAgreement} {payload : Bytes} :
    encodeSessionAgreement agreement = .ok payload ↔
      validateAgreementFields agreement = .ok () ∧ payload = agreement.fields.flatten := by
  unfold encodeSessionAgreement
  rw [bind_eq_ok]
  constructor
  · rintro ⟨_, hvalid, hpayload⟩
    cases hpayload
    exact ⟨hvalid, rfl⟩
  · rintro ⟨hvalid, rfl⟩
    exact ⟨(), hvalid, rfl⟩

@[simp] theorem SessionAgreement.length_fields (agreement : SessionAgreement) :
    agreement.fields.flatten.length = sessionAgreementLen := by
  simp only [SessionAgreement.fields, List.flatten_cons, List.flatten_nil, List.length_append,
    length_toBeBytes, List.length_nil, sessionAgreementLen]

/-- `decode_session_agreement` accepts what `encode_session_agreement` writes and
nothing else. -/
theorem decodeSessionAgreement_eq_ok_iff {payload : Bytes} {agreement : SessionAgreement} :
    (decodeSessionAgreement payload).run = some (.ok agreement) ↔
      encodeSessionAgreement agreement = .ok payload := by
  rw [encodeSessionAgreement_eq_ok_iff]
  have hcodeVideo : ∀ codec : VideoCodec, (UInt8.ofNat codec.code).toNat = codec.code :=
    fun codec => UInt8.toNat_ofNat_of_lt codec.code_lt
  have hcodeAudio : ∀ codec : AudioCodec, (UInt8.ofNat codec.code).toNat = codec.code :=
    fun codec => UInt8.toNat_ofNat_of_lt codec.code_lt
  constructor
  · intro h
    simp only [decodeSessionAgreement, run_check_eq_ok, run_bind_eq_ok, run_liftM_eq_ok,
      run_except_eq_ok, run_pure_eq_ok, not_not, ne_eq, readU8_eq_some_iff, readU16_eq_some_iff,
      readU32_eq_some_iff, decodeVideoCodec_eq_ok_iff, decodeAudioCodec_eq_ok_iff,
      ColorFormat.tryFrom_eq_ok_iff, LatencyMode.tryFrom_eq_ok_iff] at h
    obtain ⟨hlength, _, h24, rfl, flags, h6, hknown, _, h4, _, rfl, _, h0, _, h2, _, rfl, _, h3,
      _, rfl, _, h8, _, h10, _, h12, _, h14, _, h16, _, h20, _, h5, _, rfl, _, hvalid, rfl⟩ := h
    refine ⟨hvalid, ?_⟩
    rw [hcodeVideo] at h2
    rw [hcodeAudio] at h3
    have hflags := setBits_capabilityBits hknown
    apply FieldsAt.eq_flatten
    · simp only [SessionAgreement.fields, FieldsAt, length_toBeBytes]
      rw [show agreementFlags _ = setBits (capabilityBits flags) from rfl, hflags]
      exact ⟨h0, h2, h3, h4, h5, h6, h8, h10, h12, h14, h16, h20, h24, trivial⟩
    · rw [SessionAgreement.length_fields, hlength]
  · rintro ⟨hvalid, rfl⟩
    obtain ⟨hbits, hknown⟩ := capabilityBits_agreementFlags agreement
    have hlength := agreement.length_fields
    have hfields := fieldsAt_flatten agreement.fields
    generalize agreement.fields.flatten = payload at hfields hlength
    simp only [SessionAgreement.fields, FieldsAt, length_toBeBytes] at hfields
    obtain ⟨h0, h2, h3, h4, h5, h6, h8, h10, h12, h14, h16, h20, h24, -⟩ := hfields
    simp only [capabilityBits, List.map_cons, List.map_nil, List.cons.injEq, Prod.mk.injEq,
      and_true] at hbits
    obtain ⟨b0, b1, b2, b3, b4, b5, b6, b7⟩ := hbits
    simp only [decodeSessionAgreement, run_check_eq_ok, run_bind_eq_ok, run_liftM_eq_ok,
      run_except_eq_ok, run_pure_eq_ok, not_not, ne_eq, readU8_eq_some_iff, readU16_eq_some_iff,
      readU32_eq_some_iff, decodeVideoCodec_eq_ok_iff, decodeAudioCodec_eq_ok_iff,
      ColorFormat.tryFrom_eq_ok_iff, LatencyMode.tryFrom_eq_ok_iff]
    refine ⟨hlength, 0, h24, rfl, agreementFlags agreement, h6, hknown, _, h4, _, rfl, _, h0,
      UInt8.ofNat agreement.videoCodec.code, by rw [hcodeVideo]; exact h2, _, rfl,
      UInt8.ofNat agreement.audioCodec.code, by rw [hcodeAudio]; exact h3, _, rfl, _, h8, _, h10,
      _, h12, _, h14, _, h16, _, h20, _, h5, _, rfl, (), ?_⟩
    rw [b0, b1, b2, b3, b4, b5, b6, b7]
    exact ⟨hvalid, rfl⟩

/-! ## Acceptances -/

theorem encodeSessionAcceptance_eq_ok_iff {offer : SessionOffer} {agreement : SessionAgreement}
    {payload : Bytes} :
    encodeSessionAcceptance offer agreement = .ok payload ↔
      ∃ encodedOffer encodedAgreement, encodeSessionOffer offer = .ok encodedOffer ∧
        encodeSessionAgreement agreement = .ok encodedAgreement ∧
        payload = toBeBytes 2 encodedOffer.length ++ toBeBytes 2 0 ++ encodedOffer ++
          encodedAgreement := by
  simp only [encodeSessionAcceptance, bind_eq_ok]
  constructor
  · rintro ⟨encodedOffer, hoffer, encodedAgreement, hagreement, h⟩
    split at h
    · cases h
    · cases h
      exact ⟨encodedOffer, encodedAgreement, hoffer, hagreement, rfl⟩
  · rintro ⟨encodedOffer, encodedAgreement, hoffer, hagreement, rfl⟩
    refine ⟨encodedOffer, hoffer, encodedAgreement, hagreement, ?_⟩
    -- an offer has at most 44 bytes
    have hlength : encodedOffer.length < 2 ^ 16 := by
      obtain ⟨hvalid, rfl⟩ := encodeSessionOffer_eq_ok_iff.mp hoffer
      have hvideo : offer.videoCodecs.length ≤ 8 := hvalid.videoCount
      have haudio : offer.audioCodecs.length ≤ 4 := hvalid.audioCount
      have hheader : sessionOfferHeaderLen = 32 := rfl
      rw [SessionOffer.length_fields]
      omega
    rw [if_neg (Nat.not_le.mpr hlength)]
    rfl

/-- `decode_session_acceptance` accepts what `encode_session_acceptance` writes and
nothing else. -/
theorem decodeSessionAcceptance_eq_ok_iff {payload : Bytes} {offer : SessionOffer}
    {agreement : SessionAgreement} :
    (decodeSessionAcceptance payload).run = some (.ok (offer, agreement)) ↔
      encodeSessionAcceptance offer agreement = .ok payload := by
  have hheader : sessionAcceptanceHeaderLen = 4 := rfl
  have hlast : sessionAgreementLen = 28 := rfl
  rw [encodeSessionAcceptance_eq_ok_iff]
  simp only [decodeSessionAcceptance, run_check_eq_ok, run_bind_eq_ok, run_liftM_eq_ok,
    run_pure_eq_ok, not_or, not_not, ne_eq, readU16_eq_some_iff, decodeSessionOffer_eq_ok_iff,
    decodeSessionAgreement_eq_ok_iff]
  constructor
  · rintro ⟨_, _, h2, rfl, offerLen, h0, ⟨hshort, hlength⟩, encodedOffer, hencodedOffer, _,
      hoffer, encodedAgreement, hencodedAgreement, _, hagreement, heq⟩
    cases heq
    refine ⟨encodedOffer, encodedAgreement, hoffer, hagreement, ?_⟩
    have hofferLen := length_of_slice hencodedOffer
    have hagreementLen := length_of_slice hencodedAgreement
    rw [Nat.add_sub_cancel_left] at hofferLen
    have hfields : FieldsAt payload 0 [toBeBytes 2 encodedOffer.length, toBeBytes 2 0,
        encodedOffer, encodedAgreement] := by
      simp only [FieldsAt, length_toBeBytes, hagreementLen]
      rw [hofferLen]
      rw [Nat.add_sub_cancel_left] at hencodedOffer
      exact ⟨h0, h2, hencodedOffer, hencodedAgreement, trivial⟩
    have hflatten := hfields.eq_flatten (by
      simp only [List.flatten_cons, List.flatten_nil, List.length_append, length_toBeBytes,
        List.length_nil]
      omega)
    rw [hflatten]
    simp only [List.flatten_cons, List.flatten_nil, List.append_nil, List.append_assoc]
  · rintro ⟨encodedOffer, encodedAgreement, hoffer, hagreement, rfl⟩
    obtain ⟨hvalid, hofferBytes⟩ := encodeSessionOffer_eq_ok_iff.mp hoffer
    obtain ⟨_, hagreementBytes⟩ := encodeSessionAgreement_eq_ok_iff.mp hagreement
    have hofferLen : encodedOffer.length =
        sessionOfferHeaderLen + offer.videoCodecs.length + offer.audioCodecs.length := by
      rw [hofferBytes, SessionOffer.length_fields]
    have hagreementLen : encodedAgreement.length = sessionAgreementLen := by
      rw [hagreementBytes, SessionAgreement.length_fields]
    have hvideo : offer.videoCodecs.length ≤ 8 := hvalid.videoCount
    have haudio : offer.audioCodecs.length ≤ 4 := hvalid.audioCount
    have hofferHeader : sessionOfferHeaderLen = 32 := rfl
    have hbyte : (UInt16.ofNat encodedOffer.length).toNat = encodedOffer.length := by
      apply UInt16.toNat_ofNat_of_lt
      have hsize : UInt16.size = 65536 := rfl
      omega
    have hflatten : toBeBytes 2 encodedOffer.length ++ toBeBytes 2 0 ++ encodedOffer ++
        encodedAgreement =
        [toBeBytes 2 encodedOffer.length, toBeBytes 2 0, encodedOffer, encodedAgreement].flatten := by
      simp only [List.flatten_cons, List.flatten_nil, List.append_nil, List.append_assoc]
    have hfields := fieldsAt_flatten
      [toBeBytes 2 encodedOffer.length, toBeBytes 2 0, encodedOffer, encodedAgreement]
    rw [← hflatten] at hfields
    generalize toBeBytes 2 encodedOffer.length ++ toBeBytes 2 0 ++ encodedOffer ++
      encodedAgreement = payload at hfields hflatten ⊢
    have hpayload : payload.length = 4 + encodedOffer.length + sessionAgreementLen := by
      rw [hflatten]
      simp only [List.flatten_cons, List.flatten_nil, List.length_append, length_toBeBytes,
        List.length_nil]
      omega
    simp only [FieldsAt, length_toBeBytes] at hfields
    obtain ⟨h0, h2, hencodedOffer, hencodedAgreement, -⟩ := hfields
    refine ⟨by omega, 0, h2, rfl, UInt16.ofNat encodedOffer.length, by rw [hbyte]; exact h0,
      ⟨by omega, by omega⟩, encodedOffer, ?_, offer, hoffer, encodedAgreement, ?_, agreement,
      hagreement, rfl⟩
    · rw [hbyte, Nat.add_sub_cancel_left]
      exact hencodedOffer
    · have hrest : payload.length - (sessionAcceptanceHeaderLen + encodedOffer.length) =
          encodedAgreement.length := by omega
      rw [hbyte, hrest]
      exact hencodedAgreement

/-- The three codecs of a session: what is encoded is decoded to the same value, and
what is decoded is encoded to the same bytes. -/
theorem session_codecs_exact :
    (∀ offer payload, encodeSessionOffer offer = .ok payload ↔
      (decodeSessionOffer payload).run = some (.ok offer)) ∧
    (∀ agreement payload, encodeSessionAgreement agreement = .ok payload ↔
      (decodeSessionAgreement payload).run = some (.ok agreement)) ∧
    (∀ offer agreement payload, encodeSessionAcceptance offer agreement = .ok payload ↔
      (decodeSessionAcceptance payload).run = some (.ok (offer, agreement))) :=
  ⟨fun _ _ => decodeSessionOffer_eq_ok_iff.symm,
    fun _ _ => decodeSessionAgreement_eq_ok_iff.symm,
    fun _ _ _ => decodeSessionAcceptance_eq_ok_iff.symm⟩

end HbbCommon.Transport
