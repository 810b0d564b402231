import HbbCommon.Transport.Audio.Datagram
import HbbCommon.Transport.Video.Fragment

/-!
# Session negotiation

A client offers protocol versions, codecs, colour formats, limits and capabilities;
the server answers with an offer of its own and the agreement it derives from both,
and the client derives the agreement once more and compares.

Fields have the machine types of the source. A decoder reads at fixed offsets, so
it is a computation in `ExceptT SessionNegotiationError Option`.
-/

namespace HbbCommon.Transport

open HbbCommon.Base

def sessionOfferHeaderLen : Nat := 32

def sessionAgreementLen : Nat := 28

def sessionAcceptanceHeaderLen : Nat := 4

def maxOfferedVideoCodecs : Nat := 8

def maxOfferedAudioCodecs : Nat := 4

def colorI420 : UInt16 := 1
def colorI444 : UInt16 := 2
def colorNv12 : UInt16 := 4
def colorP010 : UInt16 := 8

def knownColorFormats : UInt16 := colorI420 ||| colorI444 ||| colorNv12 ||| colorP010

def capHdr : UInt16 := 1
def capClipboardSend : UInt16 := 2
def capClipboardReceive : UInt16 := 4
def capFileTransfer : UInt16 := 8
def capInputSend : UInt16 := 16
def capInputReceive : UInt16 := 32
def capReliableKeyframes : UInt16 := 64
def capReliableKeyframeBarrier : UInt16 := 128

def knownCapabilities : UInt16 :=
  capHdr ||| capClipboardSend ||| capClipboardReceive ||| capFileTransfer ||| capInputSend |||
    capInputReceive ||| capReliableKeyframes ||| capReliableKeyframeBarrier

inductive LatencyMode
  | balanced
  | lowLatency
  | quality
  deriving DecidableEq, Repr

inductive ColorFormat
  | i420
  | i444
  | nv12
  | p010
  deriving DecidableEq, Repr

inductive SessionNegotiationError
  | headerTruncated
  | lengthMismatch
  | invalidReservedField
  | invalidProtocolRange
  | incompatibleProtocol
  | invalidCapabilities (capabilities : UInt16)
  | invalidColorFormats (colorFormats : UInt16)
  | invalidVideoCodecs
  | invalidAudioCodecs
  | incompatibleVideoCodec
  | incompatibleAudioCodec
  | incompatibleColorFormat
  | invalidGeometry
  | invalidDatagramSize
  | invalidBitrate
  | unknownVideoCodec (value : UInt8)
  | unknownAudioCodec (value : UInt8)
  | unknownColorFormat (value : UInt8)
  | invalidLatencyMode (value : UInt8)
  | invalidAgreement
  deriving DecidableEq, Repr

namespace LatencyMode

def code : LatencyMode → UInt8
  | .balanced => 1
  | .lowLatency => 2
  | .quality => 3

def tryFrom (value : UInt8) : Except SessionNegotiationError LatencyMode :=
  if value = 1 then .ok .balanced
  else if value = 2 then .ok .lowLatency
  else if value = 3 then .ok .quality
  else .error (.invalidLatencyMode value)

theorem tryFrom_eq_ok_iff {value : UInt8} {mode : LatencyMode} :
    tryFrom value = .ok mode ↔ value = mode.code := by
  constructor
  · intro h
    unfold tryFrom at h
    split at h
    · cases h; assumption
    · split at h
      · cases h; assumption
      · split at h
        · cases h; assumption
        · cases h
  · rintro rfl
    cases mode <;> rfl

end LatencyMode

namespace ColorFormat

/-- The byte of a colour format in an agreement. -/
def code : ColorFormat → UInt8
  | .i420 => 1
  | .i444 => 2
  | .nv12 => 3
  | .p010 => 4

def tryFrom (value : UInt8) : Except SessionNegotiationError ColorFormat :=
  if value = 1 then .ok .i420
  else if value = 2 then .ok .i444
  else if value = 3 then .ok .nv12
  else if value = 4 then .ok .p010
  else .error (.unknownColorFormat value)

/-- The bit of a colour format in an offer. -/
def mask : ColorFormat → UInt16
  | .i420 => colorI420
  | .i444 => colorI444
  | .nv12 => colorNv12
  | .p010 => colorP010

theorem tryFrom_eq_ok_iff {value : UInt8} {format : ColorFormat} :
    tryFrom value = .ok format ↔ value = format.code := by
  constructor
  · intro h
    unfold tryFrom at h
    split at h
    · cases h; assumption
    · split at h
      · cases h; assumption
      · split at h
        · cases h; assumption
        · split at h
          · cases h; assumption
          · cases h
  · rintro rfl
    cases format <;> rfl

end ColorFormat

structure SessionOffer where
  minimumProtocolVersion : UInt16
  maximumProtocolVersion : UInt16
  capabilities : UInt16
  latencyMode : LatencyMode
  videoCodecs : List VideoCodec
  audioCodecs : List AudioCodec
  colorFormats : UInt16
  maxWidth : UInt16
  maxHeight : UInt16
  maxFps : UInt16
  maxDatagramPayload : UInt16
  maxVideoBitrateKbps : UInt32
  maxFileBitrateKbps : UInt32
  deriving DecidableEq, Repr

structure SessionAgreement where
  protocolVersion : UInt16
  videoCodec : VideoCodec
  audioCodec : AudioCodec
  colorFormat : ColorFormat
  hdr : Bool
  maxWidth : UInt16
  maxHeight : UInt16
  maxFps : UInt16
  maxDatagramPayload : UInt16
  maxVideoBitrateKbps : UInt32
  maxFileBitrateKbps : UInt32
  latencyMode : LatencyMode
  localMaySendClipboard : Bool
  remoteMaySendClipboard : Bool
  fileTransferEnabled : Bool
  localMaySendInput : Bool
  remoteMaySendInput : Bool
  reliableKeyframes : Bool
  reliableKeyframeBarrier : Bool
  deriving DecidableEq, Repr

/-- `contains_duplicates`, with the set of the values seen so far. -/
def containsDuplicatesFrom (seen : List Nat) : List Nat → Bool
  | [] => false
  | value :: values =>
      if seen.contains value then true else containsDuplicatesFrom (value :: seen) values

def containsDuplicates (values : List Nat) : Bool := containsDuplicatesFrom [] values

/-! ## Validation -/

def validateOffer (offer : SessionOffer) : Except SessionNegotiationError Unit :=
  if offer.minimumProtocolVersion = 0 ∨
      offer.maximumProtocolVersion < offer.minimumProtocolVersion then
    .error .invalidProtocolRange
  else if offer.capabilities &&& ~~~knownCapabilities ≠ 0 then
    .error (.invalidCapabilities offer.capabilities)
  else if offer.colorFormats = 0 ∨ offer.colorFormats &&& ~~~knownColorFormats ≠ 0 then
    .error (.invalidColorFormats offer.colorFormats)
  else if offer.videoCodecs.isEmpty ∨ offer.videoCodecs.length > maxOfferedVideoCodecs ∨
      containsDuplicates (offer.videoCodecs.map VideoCodec.code) then
    .error .invalidVideoCodecs
  else if offer.audioCodecs.isEmpty ∨ offer.audioCodecs.length > maxOfferedAudioCodecs ∨
      containsDuplicates (offer.audioCodecs.map AudioCodec.code) then
    .error .invalidAudioCodecs
  else if ¬ (320 ≤ offer.maxWidth ∧ offer.maxWidth ≤ 16384) ∨
      ¬ (200 ≤ offer.maxHeight ∧ offer.maxHeight ≤ 16384) ∨
      ¬ (1 ≤ offer.maxFps ∧ offer.maxFps ≤ 240) then
    .error .invalidGeometry
  else if ¬ (256 ≤ offer.maxDatagramPayload ∧ offer.maxDatagramPayload ≤ 65000) then
    .error .invalidDatagramSize
  else if offer.maxVideoBitrateKbps = 0 ∨ offer.maxVideoBitrateKbps > 1000000 then
    .error .invalidBitrate
  else if hasBits offer.capabilities capFileTransfer ∧ offer.maxFileBitrateKbps = 0 then
    .error .invalidBitrate
  else if hasBits offer.capabilities capReliableKeyframeBarrier ∧
      ¬ hasBits offer.capabilities capReliableKeyframes then
    .error (.invalidCapabilities offer.capabilities)
  else .ok ()

def validateAgreementFields (agreement : SessionAgreement) :
    Except SessionNegotiationError Unit :=
  if agreement.protocolVersion = 0 ∨
      ¬ (320 ≤ agreement.maxWidth ∧ agreement.maxWidth ≤ 16384) ∨
      ¬ (200 ≤ agreement.maxHeight ∧ agreement.maxHeight ≤ 16384) ∨
      ¬ (1 ≤ agreement.maxFps ∧ agreement.maxFps ≤ 240) ∨
      ¬ (256 ≤ agreement.maxDatagramPayload ∧ agreement.maxDatagramPayload ≤ 65000) ∨
      agreement.maxVideoBitrateKbps = 0 ∨
      agreement.maxVideoBitrateKbps > 1000000 ∨
      (agreement.fileTransferEnabled ∧ agreement.maxFileBitrateKbps = 0) ∨
      (agreement.hdr ∧ agreement.colorFormat ≠ .p010) ∨
      (agreement.reliableKeyframeBarrier ∧ ¬ agreement.reliableKeyframes) then
    .error .invalidAgreement
  else .ok ()

def validateAgreementForOffer (agreement : SessionAgreement) (localOffer : SessionOffer) :
    Except SessionNegotiationError Unit := do
  validateOffer localOffer
  validateAgreementFields agreement
  if ¬ (localOffer.minimumProtocolVersion ≤ agreement.protocolVersion ∧
        agreement.protocolVersion ≤ localOffer.maximumProtocolVersion) ∨
      agreement.videoCodec ∉ localOffer.videoCodecs ∨
      agreement.audioCodec ∉ localOffer.audioCodecs ∨
      ¬ hasBits localOffer.colorFormats agreement.colorFormat.mask ∨
      agreement.maxWidth > localOffer.maxWidth ∨
      agreement.maxHeight > localOffer.maxHeight ∨
      agreement.maxFps > localOffer.maxFps ∨
      agreement.maxDatagramPayload > localOffer.maxDatagramPayload ∨
      agreement.maxVideoBitrateKbps > localOffer.maxVideoBitrateKbps ∨
      agreement.maxFileBitrateKbps > localOffer.maxFileBitrateKbps ∨
      (agreement.hdr ∧ ¬ hasBits localOffer.capabilities capHdr) ∨
      (agreement.localMaySendClipboard ∧
        ¬ hasBits localOffer.capabilities capClipboardSend) ∨
      (agreement.remoteMaySendClipboard ∧
        ¬ hasBits localOffer.capabilities capClipboardReceive) ∨
      (agreement.fileTransferEnabled ∧ ¬ hasBits localOffer.capabilities capFileTransfer) ∨
      (agreement.localMaySendInput ∧ ¬ hasBits localOffer.capabilities capInputSend) ∨
      (agreement.remoteMaySendInput ∧ ¬ hasBits localOffer.capabilities capInputReceive) ∨
      (agreement.reliableKeyframes ∧ ¬ hasBits localOffer.capabilities capReliableKeyframes) ∨
      (agreement.reliableKeyframeBarrier ∧
        ¬ hasBits localOffer.capabilities capReliableKeyframeBarrier) then
    .error .invalidAgreement
  else .ok ()

/-! ## Negotiation -/

/-- The first colour format, in the order of preference, that both sides have;
P010 needs HDR on both. -/
def negotiateColor (commonColors : UInt16) (hdr : Bool) : Option ColorFormat :=
  [(ColorFormat.p010, hdr), (.i444, true), (.nv12, true), (.i420, true)].findSome?
    (fun (format, allowed) =>
      if allowed && hasBits commonColors format.mask then some format else none)

/-- The agreement of two offers, given the codecs and the colour format chosen. -/
def agreementOf (localOffer remote : SessionOffer) (videoCodec : VideoCodec)
    (audioCodec : AudioCodec) (colorFormat : ColorFormat) : SessionAgreement :=
  let commonCapabilities := localOffer.capabilities &&& remote.capabilities
  { protocolVersion := min localOffer.maximumProtocolVersion remote.maximumProtocolVersion
    videoCodec := videoCodec
    audioCodec := audioCodec
    colorFormat := colorFormat
    hdr := hasBits commonCapabilities capHdr && colorFormat == .p010
    maxWidth := min localOffer.maxWidth remote.maxWidth
    maxHeight := min localOffer.maxHeight remote.maxHeight
    maxFps := min localOffer.maxFps remote.maxFps
    maxDatagramPayload := min localOffer.maxDatagramPayload remote.maxDatagramPayload
    maxVideoBitrateKbps := min localOffer.maxVideoBitrateKbps remote.maxVideoBitrateKbps
    maxFileBitrateKbps := min localOffer.maxFileBitrateKbps remote.maxFileBitrateKbps
    latencyMode :=
      if localOffer.latencyMode = .lowLatency ∨ remote.latencyMode = .lowLatency then .lowLatency
      else localOffer.latencyMode
    localMaySendClipboard := hasBits localOffer.capabilities capClipboardSend &&
      hasBits remote.capabilities capClipboardReceive
    remoteMaySendClipboard := hasBits remote.capabilities capClipboardSend &&
      hasBits localOffer.capabilities capClipboardReceive
    fileTransferEnabled := hasBits commonCapabilities capFileTransfer
    localMaySendInput := hasBits localOffer.capabilities capInputSend &&
      hasBits remote.capabilities capInputReceive
    remoteMaySendInput := hasBits remote.capabilities capInputSend &&
      hasBits localOffer.capabilities capInputReceive
    reliableKeyframes := hasBits commonCapabilities capReliableKeyframes
    reliableKeyframeBarrier := hasBits commonCapabilities capReliableKeyframeBarrier }

/-- `negotiate_session`. -/
def negotiateSession (localOffer remote : SessionOffer) :
    Except SessionNegotiationError SessionAgreement := do
  validateOffer localOffer
  validateOffer remote
  if min localOffer.maximumProtocolVersion remote.maximumProtocolVersion <
      max localOffer.minimumProtocolVersion remote.minimumProtocolVersion then
    .error .incompatibleProtocol
  else
    match localOffer.videoCodecs.find? (fun codec => remote.videoCodecs.contains codec) with
    | none => .error .incompatibleVideoCodec
    | some videoCodec =>
        match localOffer.audioCodecs.find? (fun codec => remote.audioCodecs.contains codec) with
        | none => .error .incompatibleAudioCodec
        | some audioCodec =>
            match negotiateColor (localOffer.colorFormats &&& remote.colorFormats)
                (hasBits (localOffer.capabilities &&& remote.capabilities) capHdr) with
            | none => .error .incompatibleColorFormat
            | some colorFormat =>
                .ok (agreementOf localOffer remote videoCodec audioCodec colorFormat)

/-- `validate_session_acceptance`. -/
def validateSessionAcceptance (clientOffer serverOffer : SessionOffer)
    (agreement : SessionAgreement) : Except SessionNegotiationError Unit := do
  let expected ← negotiateSession clientOffer serverOffer
  if expected ≠ agreement then .error .invalidAgreement
  else validateAgreementForOffer agreement clientOffer

/-! ## Offers on the wire -/

/-- The offer on the wire, field by field; the counts are cast to a byte. -/
def SessionOffer.fields (offer : SessionOffer) : List Bytes :=
  [toBeBytes 2 offer.minimumProtocolVersion.toNat, toBeBytes 2 offer.maximumProtocolVersion.toNat,
    toBeBytes 2 offer.capabilities.toNat, toBeBytes 1 offer.latencyMode.code.toNat,
    toBeBytes 1 offer.videoCodecs.length, toBeBytes 1 offer.audioCodecs.length, toBeBytes 1 0,
    toBeBytes 2 offer.colorFormats.toNat, toBeBytes 2 offer.maxWidth.toNat,
    toBeBytes 2 offer.maxHeight.toNat, toBeBytes 2 offer.maxFps.toNat,
    toBeBytes 2 offer.maxDatagramPayload.toNat, toBeBytes 4 offer.maxVideoBitrateKbps.toNat,
    toBeBytes 4 offer.maxFileBitrateKbps.toNat, toBeBytes 4 0,
    offer.videoCodecs.map (fun codec => UInt8.ofNat codec.code),
    offer.audioCodecs.map (fun codec => UInt8.ofNat codec.code)]

def encodeSessionOffer (offer : SessionOffer) : Except SessionNegotiationError Bytes := do
  validateOffer offer
  return offer.fields.flatten

def decodeVideoCodec (value : UInt8) : Except SessionNegotiationError VideoCodec :=
  match VideoCodec.tryFrom value.toNat with
  | .ok codec => .ok codec
  | .error _ => .error (.unknownVideoCodec value)

/-- The loop over the video codecs of an offer. -/
def decodeVideoCodecs (values : Bytes) : Except SessionNegotiationError (List VideoCodec) :=
  values.mapM decodeVideoCodec

def decodeAudioCodec (value : UInt8) : Except SessionNegotiationError AudioCodec :=
  match AudioCodec.tryFrom value.toNat with
  | .ok codec => .ok codec
  | .error _ => .error (.unknownAudioCodec value)

/-- The loop over the audio codecs of an offer. -/
def decodeAudioCodecs (values : Bytes) : Except SessionNegotiationError (List AudioCodec) :=
  values.mapM decodeAudioCodec

def decodeSessionOffer (payload : Bytes) : ExceptT SessionNegotiationError Option SessionOffer :=
  if payload.length < sessionOfferHeaderLen then throw .headerTruncated
  else do
    let reserved ← readU8 payload 9
    let reservedHigh ← readU16 payload 28
    let reservedLow ← readU16 payload 30
    if reserved ≠ 0 ∨ reservedHigh ≠ 0 ∨ reservedLow ≠ 0 then throw .invalidReservedField
    else do
      let videoCount ← readU8 payload 7
      let audioCount ← readU8 payload 8
      if payload.length ≠ sessionOfferHeaderLen + videoCount.toNat + audioCount.toNat then
        throw .lengthMismatch
      else do
        let audioStart := sessionOfferHeaderLen + videoCount.toNat
        let videoCodecs ← decodeVideoCodecs
          (← slice payload sessionOfferHeaderLen videoCount.toNat)
        let audioCodecs ← decodeAudioCodecs
          (← slice payload audioStart (payload.length - audioStart))
        let minimumProtocolVersion ← readU16 payload 0
        let maximumProtocolVersion ← readU16 payload 2
        let capabilities ← readU16 payload 4
        let latencyMode ← LatencyMode.tryFrom (← readU8 payload 6)
        let colorFormats ← readU16 payload 10
        let maxWidth ← readU16 payload 12
        let maxHeight ← readU16 payload 14
        let maxFps ← readU16 payload 16
        let maxDatagramPayload ← readU16 payload 18
        let maxVideoBitrateKbps ← readU32 payload 20
        let maxFileBitrateKbps ← readU32 payload 24
        let offer : SessionOffer :=
          { minimumProtocolVersion := minimumProtocolVersion
            maximumProtocolVersion := maximumProtocolVersion
            capabilities := capabilities, latencyMode := latencyMode
            videoCodecs := videoCodecs, audioCodecs := audioCodecs
            colorFormats := colorFormats, maxWidth := maxWidth, maxHeight := maxHeight
            maxFps := maxFps, maxDatagramPayload := maxDatagramPayload
            maxVideoBitrateKbps := maxVideoBitrateKbps
            maxFileBitrateKbps := maxFileBitrateKbps }
        validateOffer offer
        return offer

/-! ## Agreements on the wire -/

def agreementFlags (agreement : SessionAgreement) : UInt16 :=
  [(agreement.hdr, capHdr), (agreement.localMaySendClipboard, capClipboardSend),
    (agreement.remoteMaySendClipboard, capClipboardReceive),
    (agreement.fileTransferEnabled, capFileTransfer), (agreement.localMaySendInput, capInputSend),
    (agreement.remoteMaySendInput, capInputReceive),
    (agreement.reliableKeyframes, capReliableKeyframes),
    (agreement.reliableKeyframeBarrier, capReliableKeyframeBarrier)].foldl
    (fun flags (enabled, flag) => if enabled then flags ||| flag else flags) 0

/-- The agreement on the wire; the last four bytes stay zero. -/
def SessionAgreement.fields (agreement : SessionAgreement) : List Bytes :=
  [toBeBytes 2 agreement.protocolVersion.toNat, toBeBytes 1 agreement.videoCodec.code,
    toBeBytes 1 agreement.audioCodec.code, toBeBytes 1 agreement.colorFormat.code.toNat,
    toBeBytes 1 agreement.latencyMode.code.toNat, toBeBytes 2 (agreementFlags agreement).toNat,
    toBeBytes 2 agreement.maxWidth.toNat, toBeBytes 2 agreement.maxHeight.toNat,
    toBeBytes 2 agreement.maxFps.toNat, toBeBytes 2 agreement.maxDatagramPayload.toNat,
    toBeBytes 4 agreement.maxVideoBitrateKbps.toNat,
    toBeBytes 4 agreement.maxFileBitrateKbps.toNat, toBeBytes 4 0]

def encodeSessionAgreement (agreement : SessionAgreement) :
    Except SessionNegotiationError Bytes := do
  validateAgreementFields agreement
  return agreement.fields.flatten

def decodeSessionAgreement (payload : Bytes) :
    ExceptT SessionNegotiationError Option SessionAgreement :=
  if payload.length ≠ sessionAgreementLen then throw .lengthMismatch
  else do
    let reserved ← readU32 payload 24
    if reserved ≠ 0 then throw .invalidReservedField
    else do
      let flags ← readU16 payload 6
      if flags &&& ~~~knownCapabilities ≠ 0 then throw .invalidAgreement
      else do
        let colorFormat ← ColorFormat.tryFrom (← readU8 payload 4)
        let protocolVersion ← readU16 payload 0
        let videoCodec ← decodeVideoCodec (← readU8 payload 2)
        let audioCodec ← decodeAudioCodec (← readU8 payload 3)
        let maxWidth ← readU16 payload 8
        let maxHeight ← readU16 payload 10
        let maxFps ← readU16 payload 12
        let maxDatagramPayload ← readU16 payload 14
        let maxVideoBitrateKbps ← readU32 payload 16
        let maxFileBitrateKbps ← readU32 payload 20
        let latencyMode ← LatencyMode.tryFrom (← readU8 payload 5)
        let agreement : SessionAgreement :=
          { protocolVersion := protocolVersion, videoCodec := videoCodec
            audioCodec := audioCodec, colorFormat := colorFormat
            hdr := hasBits flags capHdr, maxWidth := maxWidth, maxHeight := maxHeight
            maxFps := maxFps, maxDatagramPayload := maxDatagramPayload
            maxVideoBitrateKbps := maxVideoBitrateKbps
            maxFileBitrateKbps := maxFileBitrateKbps, latencyMode := latencyMode
            localMaySendClipboard := hasBits flags capClipboardSend
            remoteMaySendClipboard := hasBits flags capClipboardReceive
            fileTransferEnabled := hasBits flags capFileTransfer
            localMaySendInput := hasBits flags capInputSend
            remoteMaySendInput := hasBits flags capInputReceive
            reliableKeyframes := hasBits flags capReliableKeyframes
            reliableKeyframeBarrier := hasBits flags capReliableKeyframeBarrier }
        validateAgreementFields agreement
        return agreement

/-! ## Acceptances on the wire -/

def encodeSessionAcceptance (serverOffer : SessionOffer) (agreement : SessionAgreement) :
    Except SessionNegotiationError Bytes := do
  let encodedOffer ← encodeSessionOffer serverOffer
  let encodedAgreement ← encodeSessionAgreement agreement
  if encodedOffer.length ≥ 2 ^ 16 then throw .lengthMismatch
  else return toBeBytes 2 encodedOffer.length ++ toBeBytes 2 0 ++ encodedOffer ++ encodedAgreement

/-- `decode_session_acceptance`. The sum of the lengths does not overflow: the length
of the offer has 16 bits. -/
def decodeSessionAcceptance (payload : Bytes) :
    ExceptT SessionNegotiationError Option (SessionOffer × SessionAgreement) :=
  if payload.length < sessionAcceptanceHeaderLen + sessionAgreementLen then
    throw .headerTruncated
  else do
    let reserved ← readU16 payload 2
    if reserved ≠ 0 then throw .invalidReservedField
    else do
      let offerLen ← readU16 payload 0
      if offerLen.toNat < sessionOfferHeaderLen ∨
          payload.length ≠ sessionAcceptanceHeaderLen + offerLen.toNat + sessionAgreementLen then
        throw .lengthMismatch
      else do
        let offerEnd := sessionAcceptanceHeaderLen + offerLen.toNat
        let offer ← decodeSessionOffer
          (← slice payload sessionAcceptanceHeaderLen (offerEnd - sessionAcceptanceHeaderLen))
        let agreement ← decodeSessionAgreement
          (← slice payload offerEnd (payload.length - offerEnd))
        return (offer, agreement)

end HbbCommon.Transport
