import HbbCommon.Transport.Logic.SessionCodec

/-!
# Both sides agree

`negotiate_session` succeeds exactly when the offers have something in common for
every choice. The agreement passes every check that is made of it afterwards: the
server can encode it, the client decodes it, derives the same one and finds it
inside its own offer.
-/

namespace HbbCommon.Transport

open HbbCommon.Base

/-! ## Colours -/

theorem ColorFormat.mask_isBit (format : ColorFormat) : ∃ i, format.mask.toNat = 2 ^ i := by
  cases format with
  | i420 => exact ⟨0, rfl⟩
  | i444 => exact ⟨1, rfl⟩
  | nv12 => exact ⟨2, rfl⟩
  | p010 => exact ⟨3, rfl⟩

theorem hasBits_and_mask {flags flags' : UInt16} {format : ColorFormat} :
    hasBits (flags &&& flags') format.mask =
      (hasBits flags format.mask && hasBits flags' format.mask) := by
  obtain ⟨i, hi⟩ := format.mask_isBit
  exact hasBits_and hi

/-! ## Choices -/

/-- The colour format is one that both sides have, and P010 only with HDR. -/
theorem negotiateColor_eq_some {commonColors : UInt16} {hdr : Bool} {format : ColorFormat}
    (h : negotiateColor commonColors hdr = some format) :
    hasBits commonColors format.mask = true ∧ (format = .p010 → hdr = true) := by
  unfold negotiateColor at h
  obtain ⟨⟨format', allowed⟩, hmem, hchosen⟩ := List.exists_of_findSome?_eq_some h
  simp only at hchosen
  split at hchosen
  · rename_i hboth
    cases hchosen
    rw [Bool.and_eq_true] at hboth
    refine ⟨hboth.2, ?_⟩
    rintro rfl
    simp only [List.mem_cons, Prod.mk.injEq, List.not_mem_nil, reduceCtorEq, false_and, or_false,
      true_and] at hmem
    rw [← hmem]
    exact hboth.1
  · cases hchosen

theorem negotiateColor_isSome_iff {commonColors : UInt16} {hdr : Bool} :
    (∃ format, negotiateColor commonColors hdr = some format) ↔
      ∃ format : ColorFormat, hasBits commonColors format.mask = true ∧
        (format = .p010 → hdr = true) := by
  constructor
  · rintro ⟨format, h⟩
    exact ⟨format, negotiateColor_eq_some h⟩
  · rintro ⟨format, hbits, hhdr⟩
    rw [← Option.isSome_iff_exists, negotiateColor, List.findSome?_isSome_iff]
    -- the entry of the table that has this format
    cases format with
    | i420 => exact ⟨(.i420, true), by simp, by simp [hbits]⟩
    | i444 => exact ⟨(.i444, true), by simp, by simp [hbits]⟩
    | nv12 => exact ⟨(.nv12, true), by simp, by simp [hbits]⟩
    | p010 => exact ⟨(.p010, hdr), by simp, by simp [hbits, hhdr rfl]⟩

/-- A codec is found exactly when there is a common one. -/
theorem find_common_iff {α : Type} [BEq α] [LawfulBEq α] {l r : List α} :
    (∃ a, l.find? (fun a => r.contains a) = some a) ↔ ∃ a, a ∈ l ∧ a ∈ r := by
  rw [← Option.isSome_iff_exists, List.find?_isSome]
  simp only [List.contains_iff_mem]

/-- Two ranges of versions meet. -/
def SessionOffer.RangesMeet (client server : SessionOffer) : Prop :=
  ∃ version, client.minimumProtocolVersion ≤ version ∧
    version ≤ client.maximumProtocolVersion ∧
    server.minimumProtocolVersion ≤ version ∧ version ≤ server.maximumProtocolVersion

theorem rangesMeet_iff {client server : SessionOffer} (hclient : client.Valid)
    (hserver : server.Valid) :
    client.RangesMeet server ↔
      max client.minimumProtocolVersion server.minimumProtocolVersion ≤
        min client.maximumProtocolVersion server.maximumProtocolVersion := by
  have hclientRange := UInt16.le_iff_toNat_le.mp hclient.range
  have hserverRange := UInt16.le_iff_toNat_le.mp hserver.range
  simp only [SessionOffer.RangesMeet, UInt16.le_iff_toNat_le, UInt16.toNat_max, UInt16.toNat_min]
  constructor
  · rintro ⟨version, h1, h2, h3, h4⟩
    omega
  · intro h
    -- the lower of the two maxima is in both ranges
    refine ⟨min client.maximumProtocolVersion server.maximumProtocolVersion, ?_⟩
    rw [UInt16.toNat_min]
    omega

theorem negotiateSession_eq_ok_iff {client server : SessionOffer} {agreement : SessionAgreement} :
    negotiateSession client server = .ok agreement ↔
      client.Valid ∧ server.Valid ∧ client.RangesMeet server ∧
      ∃ videoCodec audioCodec colorFormat,
        client.videoCodecs.find? (fun codec => server.videoCodecs.contains codec) =
          some videoCodec ∧
        client.audioCodecs.find? (fun codec => server.audioCodecs.contains codec) =
          some audioCodec ∧
        negotiateColor (client.colorFormats &&& server.colorFormats)
          (hasBits (client.capabilities &&& server.capabilities) capHdr) = some colorFormat ∧
        agreement = agreementOf client server videoCodec audioCodec colorFormat := by
  simp only [negotiateSession, bind_eq_ok, check_eq_ok, UInt16.not_lt]
  constructor
  · rintro ⟨_, hclient, _, hserver, hrange, h⟩
    have hclient := validateOffer_eq_ok_iff.mp hclient
    have hserver := validateOffer_eq_ok_iff.mp hserver
    refine ⟨hclient, hserver, (rangesMeet_iff hclient hserver).mpr hrange, ?_⟩
    split at h
    · cases h
    · split at h
      · cases h
      · split at h
        · cases h
        · cases h
          exact ⟨_, _, _, ‹_›, ‹_›, ‹_›, rfl⟩
  · rintro ⟨hclient, hserver, hrange, videoCodec, audioCodec, colorFormat, hvideo, haudio, hcolor,
      rfl⟩
    refine ⟨(), validateOffer_eq_ok_iff.mpr hclient, (), validateOffer_eq_ok_iff.mpr hserver,
      (rangesMeet_iff hclient hserver).mp hrange, ?_⟩
    simp only [hvideo, haudio, hcolor]

/-! ## The agreement -/

/-- Every limit of the agreement is one that the offer allows. -/
structure SessionAgreement.Within (agreement : SessionAgreement) (offer : SessionOffer) :
    Prop where
  version : offer.minimumProtocolVersion ≤ agreement.protocolVersion ∧
    agreement.protocolVersion ≤ offer.maximumProtocolVersion
  width : agreement.maxWidth ≤ offer.maxWidth
  height : agreement.maxHeight ≤ offer.maxHeight
  fps : agreement.maxFps ≤ offer.maxFps
  datagram : agreement.maxDatagramPayload ≤ offer.maxDatagramPayload
  videoBitrate : agreement.maxVideoBitrateKbps ≤ offer.maxVideoBitrateKbps
  fileBitrate : agreement.maxFileBitrateKbps ≤ offer.maxFileBitrateKbps

/-- Both sides have a capability bit each. -/
def BothHave (client server : SessionOffer) (clientBit serverBit : UInt16) : Prop :=
  hasBits client.capabilities clientBit = true ∧ hasBits server.capabilities serverBit = true

/-- Every capability that the agreement enables has the bits it needs on both sides:
the same bit for what both do, the sending bit on one side and the receiving bit on
the other for what one side does. -/
structure SessionAgreement.Backed (agreement : SessionAgreement)
    (client server : SessionOffer) : Prop where
  hdr : agreement.hdr = true → BothHave client server capHdr capHdr
  localClipboard : agreement.localMaySendClipboard = true →
    BothHave client server capClipboardSend capClipboardReceive
  remoteClipboard : agreement.remoteMaySendClipboard = true →
    BothHave client server capClipboardReceive capClipboardSend
  fileTransfer : agreement.fileTransferEnabled = true →
    BothHave client server capFileTransfer capFileTransfer
  localInput : agreement.localMaySendInput = true →
    BothHave client server capInputSend capInputReceive
  remoteInput : agreement.remoteMaySendInput = true →
    BothHave client server capInputReceive capInputSend
  keyframes : agreement.reliableKeyframes = true →
    BothHave client server capReliableKeyframes capReliableKeyframes
  barrier : agreement.reliableKeyframeBarrier = true →
    BothHave client server capReliableKeyframeBarrier capReliableKeyframeBarrier

section Agreement

variable {client server : SessionOffer} (videoCodec : VideoCodec) (audioCodec : AudioCodec)
variable (colorFormat : ColorFormat)

theorem agreementOf_within (hclient : client.Valid) (hserver : server.Valid)
    (hrange : client.RangesMeet server) :
    (agreementOf client server videoCodec audioCodec colorFormat).Within client ∧
      (agreementOf client server videoCodec audioCodec colorFormat).Within server := by
  have hmeet := (rangesMeet_iff hclient hserver).mp hrange
  simp only [UInt16.le_iff_toNat_le, UInt16.toNat_max, UInt16.toNat_min] at hmeet
  constructor
  · constructor <;>
      simp only [agreementOf, UInt16.le_iff_toNat_le, UInt32.le_iff_toNat_le, UInt16.toNat_min,
        UInt32.toNat_min] <;>
      omega
  · constructor <;>
      simp only [agreementOf, UInt16.le_iff_toNat_le, UInt32.le_iff_toNat_le, UInt16.toNat_min,
        UInt32.toNat_min] <;>
      omega

/-- A bit of the common capabilities is a bit of both. -/
theorem bothHave_of_common {bit : UInt16} {i : Nat} (hbit : bit.toNat = 2 ^ i)
    (h : hasBits (client.capabilities &&& server.capabilities) bit = true) :
    BothHave client server bit bit := by
  rw [hasBits_and hbit, Bool.and_eq_true] at h
  exact h

theorem agreementOf_backed :
    (agreementOf client server videoCodec audioCodec colorFormat).Backed client server where
  hdr h := bothHave_of_common (i := 0) rfl (Bool.and_eq_true_iff.mp h).1
  localClipboard h := Bool.and_eq_true_iff.mp h
  remoteClipboard h := (Bool.and_eq_true_iff.mp h).symm
  fileTransfer h := bothHave_of_common (i := 3) rfl h
  localInput h := Bool.and_eq_true_iff.mp h
  remoteInput h := (Bool.and_eq_true_iff.mp h).symm
  keyframes h := bothHave_of_common (i := 6) rfl h
  barrier h := bothHave_of_common (i := 7) rfl h

/-- What `validate_agreement_fields` checks. -/
structure SessionAgreement.Valid (agreement : SessionAgreement) : Prop where
  version : agreement.protocolVersion ≠ 0
  width : 320 ≤ agreement.maxWidth ∧ agreement.maxWidth ≤ 16384
  height : 200 ≤ agreement.maxHeight ∧ agreement.maxHeight ≤ 16384
  fps : 1 ≤ agreement.maxFps ∧ agreement.maxFps ≤ 240
  datagram : 256 ≤ agreement.maxDatagramPayload ∧ agreement.maxDatagramPayload ≤ 65000
  videoBitrate : agreement.maxVideoBitrateKbps ≠ 0 ∧ agreement.maxVideoBitrateKbps ≤ 1000000
  fileBitrate : agreement.fileTransferEnabled = true → agreement.maxFileBitrateKbps ≠ 0
  hdr : agreement.hdr = true → agreement.colorFormat = .p010
  barrier : agreement.reliableKeyframeBarrier = true → agreement.reliableKeyframes = true

theorem validateAgreementFields_eq_ok {agreement : SessionAgreement} (h : agreement.Valid) :
    validateAgreementFields agreement = .ok () := by
  unfold validateAgreementFields
  rw [if_neg]
  simp only [not_or, not_not, UInt32.not_lt, gt_iff_lt]
  exact ⟨h.version, h.width, h.height, h.fps, h.datagram, h.videoBitrate.1, h.videoBitrate.2,
    fun hfile => h.fileBitrate hfile.1 hfile.2, fun hhdr => hhdr.2 (h.hdr hhdr.1),
    fun hbarrier => hbarrier.2 (h.barrier hbarrier.1)⟩

theorem UInt16.ne_zero_of_le {a b : UInt16} (ha : a ≠ 0) (h : a ≤ b) : b ≠ 0 := by
  rintro rfl
  apply ha
  apply UInt16.toNat_inj.mp
  have := UInt16.le_iff_toNat_le.mp h
  simpa using this

/-- A range holds the smaller of two of its values. -/
theorem UInt16.min_mem {low high a b : UInt16} (ha : low ≤ a ∧ a ≤ high)
    (hb : low ≤ b ∧ b ≤ high) : low ≤ min a b ∧ min a b ≤ high := by
  show low ≤ (if a ≤ b then a else b) ∧ (if a ≤ b then a else b) ≤ high
  split
  · exact ha
  · exact hb

/-- The smaller of two bitrates that are not zero is not zero. -/
theorem UInt32.min_ne_zero {a b : UInt32} (ha : a ≠ 0) (hb : b ≠ 0) : min a b ≠ 0 := by
  show (if a ≤ b then a else b) ≠ 0
  split
  · exact ha
  · exact hb

theorem agreementOf_valid (hclient : client.Valid) (hserver : server.Valid)
    (hrange : client.RangesMeet server) :
    (agreementOf client server videoCodec audioCodec colorFormat).Valid where
  version := UInt16.ne_zero_of_le hclient.version
    (agreementOf_within videoCodec audioCodec colorFormat hclient hserver hrange).1.version.1
  width := UInt16.min_mem hclient.width hserver.width
  height := UInt16.min_mem hclient.height hserver.height
  fps := UInt16.min_mem hclient.fps hserver.fps
  datagram := UInt16.min_mem hclient.datagram hserver.datagram
  videoBitrate := by
    refine ⟨UInt32.min_ne_zero hclient.videoBitrate.1 hserver.videoBitrate.1, ?_⟩
    have hlimit := UInt32.le_iff_toNat_le.mp hclient.videoBitrate.2
    simp only [agreementOf, UInt32.le_iff_toNat_le, UInt32.toNat_min]
    omega
  fileBitrate h := by
    obtain ⟨hclientBit, hserverBit⟩ := bothHave_of_common (i := 3) rfl h
    exact UInt32.min_ne_zero (hclient.fileBitrate hclientBit) (hserver.fileBitrate hserverBit)
  hdr h := beq_iff_eq.mp (Bool.and_eq_true_iff.mp h).2
  barrier h := by
    -- both offers are valid, so both have the keyframe bit as well
    obtain ⟨hclientBit, hserverBit⟩ := bothHave_of_common (i := 7) rfl h
    show hasBits (client.capabilities &&& server.capabilities) capReliableKeyframes = true
    rw [hasBits_and (i := 6) rfl, hclient.barrier hclientBit, hserver.barrier hserverBit]
    rfl

end Agreement

/-! ## The checks on both sides -/

/-- The agreement passes the check against the client's offer. -/
theorem validateAgreementForOffer_eq_ok {client server : SessionOffer}
    {agreement : SessionAgreement} (h : negotiateSession client server = .ok agreement) :
    validateAgreementForOffer agreement client = .ok () := by
  obtain ⟨hclient, hserver, hrange, videoCodec, audioCodec, colorFormat, hvideo, haudio, hcolor,
    rfl⟩ := negotiateSession_eq_ok_iff.mp h
  have hvalid := agreementOf_valid videoCodec audioCodec colorFormat hclient hserver hrange
  have hwithin := (agreementOf_within videoCodec audioCodec colorFormat hclient hserver hrange).1
  have hbacked : (agreementOf client server videoCodec audioCodec colorFormat).Backed client server :=
    agreementOf_backed _ _ _
  have hcolorBits : hasBits client.colorFormats colorFormat.mask = true := by
    have hcommon := (negotiateColor_eq_some hcolor).1
    rw [hasBits_and_mask, Bool.and_eq_true] at hcommon
    exact hcommon.1
  unfold validateAgreementForOffer
  rw [validateOffer_eq_ok_iff.mpr hclient, validateAgreementFields_eq_ok hvalid]
  refine if_neg ?_
  simp only [not_or, not_not, UInt16.not_lt, UInt32.not_lt, gt_iff_lt]
  exact ⟨hwithin.version, List.mem_of_find?_eq_some hvideo, List.mem_of_find?_eq_some haudio,
    hcolorBits, hwithin.width, hwithin.height, hwithin.fps, hwithin.datagram,
    hwithin.videoBitrate, hwithin.fileBitrate, fun h => h.2 (hbacked.hdr h.1).1,
    fun h => h.2 (hbacked.localClipboard h.1).1, fun h => h.2 (hbacked.remoteClipboard h.1).1,
    fun h => h.2 (hbacked.fileTransfer h.1).1, fun h => h.2 (hbacked.localInput h.1).1,
    fun h => h.2 (hbacked.remoteInput h.1).1, fun h => h.2 (hbacked.keyframes h.1).1,
    fun h => h.2 (hbacked.barrier h.1).1⟩

theorem validateSessionAcceptance_eq_ok_iff {client server : SessionOffer}
    {agreement : SessionAgreement} :
    validateSessionAcceptance client server agreement = .ok () ↔
      negotiateSession client server = .ok agreement := by
  simp only [validateSessionAcceptance, bind_eq_ok, check_eq_ok, not_not]
  constructor
  · rintro ⟨expected, hexpected, rfl, _⟩
    exact hexpected
  · intro h
    exact ⟨agreement, h, rfl, validateAgreementForOffer_eq_ok h⟩

/-- The server can send the agreement with its offer. -/
theorem encodeSessionAcceptance_of_negotiate {client server : SessionOffer}
    {agreement : SessionAgreement} (h : negotiateSession client server = .ok agreement) :
    ∃ payload, encodeSessionAcceptance server agreement = .ok payload := by
  obtain ⟨hclient, hserver, hrange, videoCodec, audioCodec, colorFormat, _, _, _, rfl⟩ :=
    negotiateSession_eq_ok_iff.mp h
  have hvalid := agreementOf_valid videoCodec audioCodec colorFormat hclient hserver hrange
  exact ⟨_, encodeSessionAcceptance_eq_ok_iff.mpr ⟨_, _,
    encodeSessionOffer_eq_ok_iff.mpr ⟨hserver, rfl⟩,
    encodeSessionAgreement_eq_ok_iff.mpr ⟨validateAgreementFields_eq_ok hvalid, rfl⟩, rfl⟩⟩

/-- There is something in common for every choice. -/
structure SessionOffer.Compatible (client server : SessionOffer) : Prop where
  version : client.RangesMeet server
  video : ∃ codec, codec ∈ client.videoCodecs ∧ codec ∈ server.videoCodecs
  audio : ∃ codec, codec ∈ client.audioCodecs ∧ codec ∈ server.audioCodecs
  color : ∃ format : ColorFormat, hasBits client.colorFormats format.mask = true ∧
    hasBits server.colorFormats format.mask = true ∧
    (format = .p010 → BothHave client server capHdr capHdr)

theorem negotiate_succeeds_iff {client server : SessionOffer} (hclient : client.Valid)
    (hserver : server.Valid) :
    (∃ agreement, negotiateSession client server = .ok agreement) ↔ client.Compatible server := by
  have hcolorIff : (∃ format, negotiateColor (client.colorFormats &&& server.colorFormats)
        (hasBits (client.capabilities &&& server.capabilities) capHdr) = some format) ↔
      ∃ format : ColorFormat, hasBits client.colorFormats format.mask = true ∧
        hasBits server.colorFormats format.mask = true ∧
        (format = .p010 → BothHave client server capHdr capHdr) := by
    rw [negotiateColor_isSome_iff]
    simp only [hasBits_and_mask, hasBits_and (show capHdr.toNat = 2 ^ 0 from rfl), Bool.and_eq_true,
      and_assoc, BothHave]
  simp only [negotiateSession_eq_ok_iff]
  constructor
  · rintro ⟨_, _, _, hrange, videoCodec, audioCodec, colorFormat, hvideo, haudio, hcolor, _⟩
    exact ⟨hrange, find_common_iff.mp ⟨_, hvideo⟩, find_common_iff.mp ⟨_, haudio⟩,
      hcolorIff.mp ⟨_, hcolor⟩⟩
  · rintro ⟨hrange, hvideo, haudio, hcolor⟩
    obtain ⟨videoCodec, hvideo⟩ := find_common_iff.mpr hvideo
    obtain ⟨audioCodec, haudio⟩ := find_common_iff.mpr haudio
    obtain ⟨colorFormat, hcolor⟩ := hcolorIff.mpr hcolor
    exact ⟨_, hclient, hserver, hrange, _, _, _, hvideo, haudio, hcolor, rfl⟩

/-- Two valid offers lead to an agreement exactly when they are compatible. The
agreement survives the way to the client and every check on it, and a client that
accepts anything accepts the agreement it would have derived itself. -/
theorem negotiation_agreement (client server : SessionOffer)
    (hclient : validateOffer client = .ok ()) (hserver : validateOffer server = .ok ()) :
    ((∃ agreement, negotiateSession client server = .ok agreement) ↔ client.Compatible server) ∧
    (∀ agreement, negotiateSession client server = .ok agreement →
      (∃ payload, encodeSessionAcceptance server agreement = .ok payload ∧
        (decodeSessionAcceptance payload).run = some (.ok (server, agreement))) ∧
      validateSessionAcceptance client server agreement = .ok () ∧
      validateAgreementForOffer agreement client = .ok () ∧
      agreement.Within client ∧ agreement.Within server ∧ agreement.Backed client server) ∧
    (∀ payload server' agreement',
      (decodeSessionAcceptance payload).run = some (.ok (server', agreement')) →
      validateSessionAcceptance client server' agreement' = .ok () →
      negotiateSession client server' = .ok agreement') := by
  refine ⟨negotiate_succeeds_iff (validateOffer_eq_ok_iff.mp hclient)
    (validateOffer_eq_ok_iff.mp hserver), ?_, ?_⟩
  · intro agreement h
    obtain ⟨payload, hpayload⟩ := encodeSessionAcceptance_of_negotiate h
    obtain ⟨hclient, hserver, hrange, videoCodec, audioCodec, colorFormat, _, _, _, rfl⟩ :=
      negotiateSession_eq_ok_iff.mp h
    obtain ⟨hwithinClient, hwithinServer⟩ :=
      agreementOf_within videoCodec audioCodec colorFormat hclient hserver hrange
    exact ⟨⟨payload, hpayload, decodeSessionAcceptance_eq_ok_iff.mpr hpayload⟩,
      validateSessionAcceptance_eq_ok_iff.mpr h, validateAgreementForOffer_eq_ok h, hwithinClient,
      hwithinServer, agreementOf_backed _ _ _⟩
  · intro payload server' agreement' _ hvalidate
    exact validateSessionAcceptance_eq_ok_iff.mp hvalidate

/-- The offer of the tests of `session.rs`. -/
def testOffer : SessionOffer :=
  { minimumProtocolVersion := 1, maximumProtocolVersion := 4, capabilities := 254
    latencyMode := .lowLatency, videoCodecs := [.h265, .h264], audioCodecs := [.opus]
    colorFormats := 3, maxWidth := 3840, maxHeight := 2160, maxFps := 60
    maxDatagramPayload := 1200, maxVideoBitrateKbps := 50000, maxFileBitrateKbps := 20000 }

theorem negotiation_agreement_test_offers :
    validateOffer testOffer = .ok () ∧
    ∃ agreement, negotiateSession testOffer { testOffer with maximumProtocolVersion := 1 } =
        .ok agreement ∧
      validateSessionAcceptance testOffer { testOffer with maximumProtocolVersion := 1 }
        agreement = .ok () := by
  have hserver : validateOffer { testOffer with maximumProtocolVersion := 1 } = .ok () := by
    decide +kernel
  have hagree := (negotiation_agreement testOffer _ (by decide +kernel) hserver).2.1
  refine ⟨by decide +kernel, agreementOf testOffer { testOffer with maximumProtocolVersion := 1 }
    .h265 .opus .i444, by decide +kernel, ?_⟩
  exact (hagree _ (by decide +kernel)).2.1

end HbbCommon.Transport
