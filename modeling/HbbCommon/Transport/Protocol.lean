import HbbCommon.Base.Wire
import HbbCommon.Transport.Video.Types

/-!
# The message header of the transport protocol

Every message, on a stream or in a datagram, starts with a header of 48 bytes:
magic, version, message type, flags, channel, a reserved byte, session id,
sequence number, payload length and timestamp. A message type belongs to one
channel and has a limit on its payload, which `encode_message` and
`decode_message` both check.
-/

namespace HbbCommon.Transport

open HbbCommon.Base

/-- `MAGIC`. -/
def protocolMagic : Nat := 0x52415131

def protocolVersion : Nat := 1

/-- `HEADER_LEN`. -/
def headerLen : Nat := 48

/-- The first flag bit that `KNOWN_FLAGS` does not hold; the known flags are
`FLAG_ACK_REQUIRED` and `FLAG_RESPONSE`. -/
def firstUnknownFlag : Nat := 4

/-- Sixteen bytes. -/
def SessionId := { bytes : Bytes // bytes.length = 16 }

theorem length_replicate_sessionId : (List.replicate 16 (7 : UInt8)).length = 16 := rfl

instance : DecidableEq SessionId := inferInstanceAs (DecidableEq { _bytes : Bytes // _ })

instance : Repr SessionId := ⟨fun id n => reprPrec id.val n⟩

inductive ChannelId
  | control
  | reliableInput
  | clipboard
  | fileTransfer
  | diagnostics
  | reliableVideo
  | videoDatagram
  | audioDatagram
  | mouseDatagram
  deriving DecidableEq, Repr

inductive MessageType
  | clientHello
  | serverHello
  | ping
  | pong
  | error
  | keyframeRequest
  | sessionClose
  | sessionOffer
  | sessionAccept
  | applicationControl
  | applicationRaw
  | videoOrdering
  | videoOrderingAck
  | reliableInput
  | clipboard
  | fileMetadata
  | fileChunk
  | fileCancel
  | diagnostics
  | reliableVideoFrame
  | videoFragment
  | audioPacket
  | mouseMovement
  deriving DecidableEq, Repr

inductive ProtocolError
  | headerTruncated
  | invalidMagic (magic : Nat)
  | unsupportedVersion (version : Nat)
  | unknownMessageType (value : Nat)
  | unknownChannel (value : Nat)
  | unknownFlags (flags : Nat)
  | reservedByte
  | channelMismatch (messageType : MessageType) (channel : ChannelId)
  | zeroSessionId
  | zeroSequence
  | payloadTooLarge (length : Nat)
  | lengthMismatch
  deriving DecidableEq, Repr

namespace ChannelId

/-- The byte of a channel on the wire. -/
def code : ChannelId → Nat
  | .control => 1
  | .reliableInput => 2
  | .clipboard => 3
  | .fileTransfer => 4
  | .diagnostics => 5
  | .reliableVideo => 6
  | .videoDatagram => 16
  | .audioDatagram => 17
  | .mouseDatagram => 18

def tryFrom : Nat → Except ProtocolError ChannelId
  | 1 => .ok .control
  | 2 => .ok .reliableInput
  | 3 => .ok .clipboard
  | 4 => .ok .fileTransfer
  | 5 => .ok .diagnostics
  | 6 => .ok .reliableVideo
  | 16 => .ok .videoDatagram
  | 17 => .ok .audioDatagram
  | 18 => .ok .mouseDatagram
  | value => .error (.unknownChannel value)

theorem tryFrom_code (channel : ChannelId) : tryFrom channel.code = .ok channel := by
  cases channel <;> rfl

theorem code_of_tryFrom {value : Nat} {channel : ChannelId} (h : tryFrom value = .ok channel) :
    value = channel.code := by
  unfold tryFrom at h
  split at h <;> cases h <;> rfl

theorem code_lt (channel : ChannelId) : channel.code < 256 := by
  cases channel <;> decide

end ChannelId

namespace MessageType

/-- The 16-bit value of a message type on the wire. -/
def code : MessageType → Nat
  | .clientHello => 1
  | .serverHello => 2
  | .ping => 3
  | .pong => 4
  | .error => 5
  | .keyframeRequest => 6
  | .sessionClose => 7
  | .sessionOffer => 8
  | .sessionAccept => 9
  | .applicationControl => 10
  | .applicationRaw => 11
  | .videoOrdering => 12
  | .videoOrderingAck => 13
  | .reliableInput => 16
  | .clipboard => 32
  | .fileMetadata => 48
  | .fileChunk => 49
  | .fileCancel => 50
  | .diagnostics => 64
  | .reliableVideoFrame => 65
  | .videoFragment => 128
  | .audioPacket => 129
  | .mouseMovement => 130

def tryFrom : Nat → Except ProtocolError MessageType
  | 1 => .ok .clientHello
  | 2 => .ok .serverHello
  | 3 => .ok .ping
  | 4 => .ok .pong
  | 5 => .ok .error
  | 6 => .ok .keyframeRequest
  | 7 => .ok .sessionClose
  | 8 => .ok .sessionOffer
  | 9 => .ok .sessionAccept
  | 10 => .ok .applicationControl
  | 11 => .ok .applicationRaw
  | 12 => .ok .videoOrdering
  | 13 => .ok .videoOrderingAck
  | 16 => .ok .reliableInput
  | 32 => .ok .clipboard
  | 48 => .ok .fileMetadata
  | 49 => .ok .fileChunk
  | 50 => .ok .fileCancel
  | 64 => .ok .diagnostics
  | 65 => .ok .reliableVideoFrame
  | 128 => .ok .videoFragment
  | 129 => .ok .audioPacket
  | 130 => .ok .mouseMovement
  | value => .error (.unknownMessageType value)

theorem tryFrom_code (messageType : MessageType) :
    tryFrom messageType.code = .ok messageType := by
  cases messageType <;> rfl

theorem code_of_tryFrom {value : Nat} {messageType : MessageType}
    (h : tryFrom value = .ok messageType) : value = messageType.code := by
  unfold tryFrom at h
  split at h <;> cases h <;> rfl

theorem code_lt (messageType : MessageType) : messageType.code < 256 ^ 2 := by
  cases messageType <;> decide

/-- The one channel a message type may be sent on. -/
def channel : MessageType → ChannelId
  | .clientHello | .serverHello | .ping | .pong | .error | .keyframeRequest | .sessionClose
  | .sessionOffer | .sessionAccept | .applicationControl | .applicationRaw | .videoOrdering
  | .videoOrderingAck => .control
  | .reliableInput => .reliableInput
  | .clipboard => .clipboard
  | .fileMetadata | .fileChunk | .fileCancel => .fileTransfer
  | .diagnostics => .diagnostics
  | .reliableVideoFrame => .reliableVideo
  | .videoFragment => .videoDatagram
  | .audioPacket => .audioDatagram
  | .mouseMovement => .mouseDatagram

def maxPayloadLen : MessageType → Nat
  | .clientHello | .serverHello => 512
  | .ping | .pong => 64
  | .error | .sessionClose => 16 * 1024
  | .sessionOffer | .sessionAccept => 4 * 1024
  | .applicationControl | .applicationRaw => 32 * 1024 * 1024
  | .videoOrdering => 1024 * 1024
  | .videoOrderingAck => 8
  | .keyframeRequest => 64
  | .reliableInput => 4 * 1024
  | .clipboard => 16 * 1024 * 1024
  | .fileMetadata => 64 * 1024
  | .fileChunk => 1024 * 1024
  | .fileCancel => 4 * 1024
  | .diagnostics => 64 * 1024
  | .reliableVideoFrame => 32 * 1024 * 1024
  | .videoFragment | .audioPacket | .mouseMovement => 64 * 1024

/-- Every limit fits the 32-bit length field. -/
theorem maxPayloadLen_le (messageType : MessageType) :
    messageType.maxPayloadLen ≤ 32 * 1024 * 1024 := by
  cases messageType <;> decide

end MessageType

structure MessageHeader where
  messageType : MessageType
  flags : Nat
  channel : ChannelId
  sessionId : SessionId
  sequenceNumber : Nat
  payloadLength : Nat
  monotonicTimestampUs : Nat
  deriving DecidableEq, Repr

/-- `validate_fields`. -/
def validateFields (messageType : MessageType) (flags : Nat) (channel : ChannelId)
    (sessionId : SessionId) (sequenceNumber payloadLength : Nat) : Except ProtocolError Unit :=
  if flags / firstUnknownFlag ≠ 0 then
    .error (.unknownFlags (flags / firstUnknownFlag * firstUnknownFlag))
  else if channel ≠ messageType.channel then .error (.channelMismatch messageType channel)
  else if sessionId.val.all (fun byte => byte == 0) then .error .zeroSessionId
  else if sequenceNumber = 0 then .error .zeroSequence
  else if payloadLength > messageType.maxPayloadLen then .error (.payloadTooLarge payloadLength)
  else .ok ()

/-- `MessageHeader::new`. -/
def MessageHeader.new (messageType : MessageType) (flags : Nat) (sessionId : SessionId)
    (sequenceNumber payloadLength monotonicTimestampUs : Nat) :
    Except ProtocolError MessageHeader := do
  validateFields messageType flags messageType.channel sessionId sequenceNumber payloadLength
  if payloadLength < 2 ^ 32 then
    return { messageType := messageType, flags := flags, channel := messageType.channel
             sessionId := sessionId, sequenceNumber := sequenceNumber
             payloadLength := payloadLength, monotonicTimestampUs := monotonicTimestampUs }
  else throw (.payloadTooLarge payloadLength)

/-- The header on the wire, field by field. -/
def MessageHeader.fields (header : MessageHeader) : List Bytes :=
  [toBeBytes 4 protocolMagic, toBeBytes 2 protocolVersion, toBeBytes 2 header.messageType.code,
    toBeBytes 2 header.flags, toBeBytes 1 header.channel.code, toBeBytes 1 0,
    header.sessionId.val, toBeBytes 8 header.sequenceNumber, toBeBytes 4 header.payloadLength,
    toBeBytes 8 header.monotonicTimestampUs]

def MessageHeader.bytes (header : MessageHeader) : Bytes := header.fields.flatten

/-- `encode_message`. -/
def encodeMessage (header : MessageHeader) (payload : Bytes) : Except ProtocolError Bytes := do
  validateFields header.messageType header.flags header.channel header.sessionId
    header.sequenceNumber payload.length
  if header.payloadLength ≠ payload.length then throw .lengthMismatch
  else return header.bytes ++ payload

theorem length_sessionId {packet bytes : Bytes} {offset : Nat}
    (h : slice packet offset 16 = some bytes) : bytes.length = 16 := by
  unfold slice at h
  split at h
  · cases h
    simp
    omega
  · cases h

/-- The session id at `offset`. -/
def readSessionId (packet : Bytes) (offset : Nat) : Option SessionId :=
  match h : slice packet offset 16 with
  | some bytes => some ⟨bytes, length_sessionId h⟩
  | none => none

/-- `decode_header`. -/
def decodeHeader (packet : Bytes) : ExceptT ProtocolError Option MessageHeader :=
  if packet.length ≠ headerLen then throw .headerTruncated
  else do
    let magic ← readBe 4 packet 0
    if magic ≠ protocolMagic then throw (.invalidMagic magic)
    else do
      let version ← readBe 2 packet 4
      if version ≠ protocolVersion then throw (.unsupportedVersion version)
      else do
        let messageType ← MessageType.tryFrom (← readBe 2 packet 6)
        let flags ← readBe 2 packet 8
        let channel ← ChannelId.tryFrom (← readBe 1 packet 10)
        let reserved ← readBe 1 packet 11
        if reserved ≠ 0 then throw .reservedByte
        else do
          let sessionId ← readSessionId packet 12
          let sequenceNumber ← readBe 8 packet 28
          let payloadLength ← readBe 4 packet 36
          let monotonicTimestampUs ← readBe 8 packet 40
          validateFields messageType flags channel sessionId sequenceNumber payloadLength
          return { messageType := messageType, flags := flags, channel := channel
                   sessionId := sessionId, sequenceNumber := sequenceNumber
                   payloadLength := payloadLength
                   monotonicTimestampUs := monotonicTimestampUs }

structure ParsedMessage where
  header : MessageHeader
  payload : Bytes
  deriving DecidableEq, Repr

/-- `decode_message`. The sum of the lengths does not overflow: the declared length
has 32 bits. -/
def decodeMessage (packet : Bytes) : ExceptT ProtocolError Option ParsedMessage :=
  if packet.length < headerLen then throw .headerTruncated
  else do
    let header ← decodeHeader (← slice packet 0 headerLen)
    if packet.length ≠ headerLen + header.payloadLength then throw .lengthMismatch
    else return { header := header, payload := packet.drop headerLen }

/-! ## What is accepted -/

theorem validateFields_eq_ok_iff {messageType : MessageType} {flags : Nat} {channel : ChannelId}
    {sessionId : SessionId} {sequenceNumber payloadLength : Nat} :
    validateFields messageType flags channel sessionId sequenceNumber payloadLength = .ok () ↔
      flags < firstUnknownFlag ∧ channel = messageType.channel ∧
      sessionId.val.all (fun byte => byte == 0) = false ∧ sequenceNumber ≠ 0 ∧
      payloadLength ≤ messageType.maxPayloadLen := by
  have hflags : flags / firstUnknownFlag = 0 ↔ flags < firstUnknownFlag := by
    simp [Nat.div_eq_zero_iff, firstUnknownFlag]
  unfold validateFields
  constructor
  · intro h
    split at h <;> try cases h
    split at h <;> try cases h
    split at h <;> try cases h
    split at h <;> try cases h
    split at h <;> try cases h
    rename_i hf hc hs hn hl
    exact ⟨hflags.mp (not_not.mp hf), not_not.mp hc, by simpa using hs, hn, Nat.le_of_not_lt hl⟩
  · rintro ⟨hf, hc, hs, hn, hl⟩
    rw [if_neg (not_not.mpr (hflags.mpr hf)), if_neg (not_not.mpr hc), if_neg (by simp [hs]),
      if_neg hn, if_neg (Nat.not_lt.mpr hl)]

theorem MessageHeader.new_eq_ok_iff {messageType : MessageType} {flags : Nat}
    {sessionId : SessionId} {sequenceNumber payloadLength monotonicTimestampUs : Nat}
    {header : MessageHeader} :
    MessageHeader.new messageType flags sessionId sequenceNumber payloadLength
        monotonicTimestampUs = .ok header ↔
      validateFields messageType flags messageType.channel sessionId sequenceNumber
        payloadLength = .ok () ∧
      header = { messageType := messageType, flags := flags, channel := messageType.channel
                 sessionId := sessionId, sequenceNumber := sequenceNumber
                 payloadLength := payloadLength, monotonicTimestampUs := monotonicTimestampUs } := by
  unfold MessageHeader.new
  cases hvalid : validateFields messageType flags messageType.channel sessionId sequenceNumber
      payloadLength with
  | error e => simp [bind, Except.bind]
  | ok u =>
      -- a valid length is far below 2^32
      have hlength : payloadLength < 2 ^ 32 := by
        obtain ⟨_, _, _, _, hle⟩ := validateFields_eq_ok_iff.mp hvalid
        have := messageType.maxPayloadLen_le
        omega
      simp only [bind, Except.bind]
      rw [if_pos hlength]
      constructor
      · intro h
        cases h
        exact ⟨trivial, rfl⟩
      · rintro ⟨_, rfl⟩
        rfl

theorem encodeMessage_eq_ok_iff {header : MessageHeader} {payload bytes : Bytes} :
    encodeMessage header payload = .ok bytes ↔
      validateFields header.messageType header.flags header.channel header.sessionId
        header.sequenceNumber payload.length = .ok () ∧
      header.payloadLength = payload.length ∧ bytes = header.bytes ++ payload := by
  unfold encodeMessage
  cases hvalid : validateFields header.messageType header.flags header.channel header.sessionId
      header.sequenceNumber payload.length with
  | error e => simp [bind, Except.bind]
  | ok u =>
      simp only [bind, Except.bind]
      constructor
      · intro h
        split at h
        · cases h
        · cases h
          exact ⟨trivial, not_not.mp ‹_›, rfl⟩
      · rintro ⟨_, hlength, rfl⟩
        rw [if_neg (not_not.mpr hlength)]
        rfl

/-! ## Round trip -/

@[simp] theorem MessageHeader.length_bytes (header : MessageHeader) :
    header.bytes.length = headerLen := by
  simp [MessageHeader.bytes, MessageHeader.fields, header.sessionId.property, headerLen]

/-- A header whose numbers fit their fields. -/
structure MessageHeader.Fits (header : MessageHeader) : Prop where
  flags : header.flags < 256 ^ 2
  sequenceNumber : header.sequenceNumber < 256 ^ 8
  payloadLength : header.payloadLength < 256 ^ 4
  monotonicTimestampUs : header.monotonicTimestampUs < 256 ^ 8

theorem readSessionId_eq {packet : Bytes} {offset : Nat} {id : SessionId}
    (h : slice packet offset 16 = some id.val) : readSessionId packet offset = some id := by
  unfold readSessionId
  split
  · rename_i bytes hbytes
    rw [h] at hbytes
    cases hbytes
    rfl
  · rename_i hnone
    rw [h] at hnone
    cases hnone

/-- Decoding reads every field of the header back. -/
theorem decodeHeader_bytes {header : MessageHeader} (hfits : header.Fits)
    (hvalid : validateFields header.messageType header.flags header.channel header.sessionId
      header.sequenceNumber header.payloadLength = .ok ()) :
    (decodeHeader header.bytes).run = some (.ok header) := by
  have hread : ∀ {i w n : Nat}, header.fields[i]? = some (toBeBytes w n) → n < 256 ^ w →
      readBe w header.bytes (fieldOffset header.fields i) = some n := by
    intro i w n hfield hn
    have hplain := readBe_fields [] hfield hn
    rwa [List.append_nil] at hplain
  have hmagic : readBe 4 header.bytes 0 = some protocolMagic := hread (i := 0) rfl (by decide)
  have hversion : readBe 2 header.bytes 4 = some protocolVersion := hread (i := 1) rfl (by decide)
  have htype : readBe 2 header.bytes 6 = some header.messageType.code :=
    hread (i := 2) rfl header.messageType.code_lt
  have hflags : readBe 2 header.bytes 8 = some header.flags := hread (i := 3) rfl hfits.flags
  have hchannel : readBe 1 header.bytes 10 = some header.channel.code :=
    hread (i := 4) rfl header.channel.code_lt
  have hreserved : readBe 1 header.bytes 11 = some 0 := hread (i := 5) rfl (by decide)
  have hsession : readSessionId header.bytes 12 = some header.sessionId := by
    have hfield : header.fields[6]? = some header.sessionId.val := rfl
    have hslice := slice_fields [] hfield
    rw [List.append_nil, header.sessionId.property] at hslice
    exact readSessionId_eq hslice
  -- behind the session id the offsets depend on its length
  have hoffset : ∀ i, 7 ≤ i → i ≤ 9 →
      fieldOffset header.fields i = if i = 7 then 28 else if i = 8 then 36 else 40 := by
    intro i h h'
    interval_cases i <;>
      simp [fieldOffset, MessageHeader.fields, header.sessionId.property]
  have hsequence : readBe 8 header.bytes 28 = some header.sequenceNumber := by
    have hfield := hread (i := 7) rfl hfits.sequenceNumber
    rwa [hoffset 7 (by decide) (by decide)] at hfield
  have hlength : readBe 4 header.bytes 36 = some header.payloadLength := by
    have hfield := hread (i := 8) rfl hfits.payloadLength
    rwa [hoffset 8 (by decide) (by decide)] at hfield
  have htimestamp : readBe 8 header.bytes 40 = some header.monotonicTimestampUs := by
    have hfield := hread (i := 9) rfl hfits.monotonicTimestampUs
    rwa [hoffset 9 (by decide) (by decide)] at hfield
  unfold decodeHeader
  rw [if_neg (by simp)]
  simp only [hmagic, hversion, htype, hflags, hchannel, hreserved, hsession, hsequence, hlength,
    htimestamp, liftM_some_bind, liftM_ok_bind, MessageType.tryFrom_code, ChannelId.tryFrom_code,
    hvalid, ne_eq, not_true_eq_false, if_false]
  rfl

/-- What `encode_message` writes, `decode_message` reads. -/
theorem decodeMessage_encode {header : MessageHeader} {payload bytes : Bytes}
    (hfits : header.Fits) (h : encodeMessage header payload = .ok bytes) :
    (decodeMessage bytes).run = some (.ok { header := header, payload := payload }) := by
  obtain ⟨hvalid, hlength, rfl⟩ := encodeMessage_eq_ok_iff.mp h
  have hslice : slice (header.bytes ++ payload) 0 headerLen = some header.bytes := by
    have := slice_append [] header.bytes payload
    rwa [header.length_bytes] at this
  have hheader := decodeHeader_bytes hfits (by rw [hlength, hvalid])
  unfold decodeMessage
  rw [if_neg (by simp), hslice, liftM_some_bind, bind_of_ok hheader, if_neg (by simp [hlength]),
    List.drop_left' header.length_bytes]
  rfl

/-! ## What is read is what was written -/

theorem slice_of_readSessionId {packet : Bytes} {offset : Nat} {id : SessionId}
    (h : readSessionId packet offset = some id) : slice packet offset 16 = some id.val := by
  unfold readSessionId at h
  split at h
  · rename_i bytes hbytes
    cases h
    exact hbytes
  · cases h

/-- `decode_header` accepts the bytes of a valid header and nothing else. -/
theorem decodeHeader_eq_ok_iff {packet : Bytes} {header : MessageHeader} :
    (decodeHeader packet).run = some (.ok header) ↔
      packet = header.bytes ∧ header.Fits ∧
      validateFields header.messageType header.flags header.channel header.sessionId
        header.sequenceNumber header.payloadLength = .ok () := by
  constructor
  · intro h
    simp only [decodeHeader, run_check_eq_ok, run_bind_eq_ok, run_liftM_eq_ok, run_except_eq_ok,
      run_pure_eq_ok, not_not] at h
    obtain ⟨hlength, _, hmagic, rfl, _, hversion, rfl, _, htypeCode, _, htype, flags, hflags, _,
      hchannelCode, channel, hchannel, _, hreserved, rfl, sessionId, hsession, sequenceNumber,
      hsequence, payloadLength, hpayload, timestamp, htimestamp, _, hvalid, rfl⟩ := h
    cases MessageType.code_of_tryFrom htype
    cases ChannelId.code_of_tryFrom hchannel
    refine ⟨?_, ⟨readBe_lt hflags, readBe_lt hsequence, readBe_lt hpayload,
      readBe_lt htimestamp⟩, hvalid⟩
    -- the ten reads cover the packet
    apply FieldsAt.eq_flatten
    · simp only [MessageHeader.fields, FieldsAt, length_toBeBytes, sessionId.property]
      exact ⟨slice_of_readBe hmagic, slice_of_readBe hversion, slice_of_readBe htypeCode,
        slice_of_readBe hflags, slice_of_readBe hchannelCode, slice_of_readBe hreserved,
        slice_of_readSessionId hsession, slice_of_readBe hsequence, slice_of_readBe hpayload,
        slice_of_readBe htimestamp, trivial⟩
    · rw [hlength]
      exact (MessageHeader.length_bytes _).symm
  · rintro ⟨rfl, hfits, hvalid⟩
    exact decodeHeader_bytes hfits hvalid

/-- `decode_message` accepts what `encode_message` writes and nothing else. -/
theorem decodeMessage_eq_ok_iff {packet : Bytes} {message : ParsedMessage} :
    (decodeMessage packet).run = some (.ok message) ↔
      message.header.Fits ∧ encodeMessage message.header message.payload = .ok packet := by
  constructor
  · intro h
    simp only [decodeMessage, run_check_eq_ok, run_bind_eq_ok, run_liftM_eq_ok, run_pure_eq_ok,
      not_not] at h
    obtain ⟨hlong, front, hfront, header, hheader, hlength, rfl⟩ := h
    obtain ⟨rfl, hfits, hvalid⟩ := decodeHeader_eq_ok_iff.mp hheader
    have hpayload : header.payloadLength = (packet.drop headerLen).length := by
      rw [List.length_drop]
      omega
    have hpre : header.bytes <+: packet.drop 0 :=
      (slice_eq_some_iff (Nat.zero_le _)).mp (by rw [header.length_bytes]; exact hfront)
    obtain ⟨rest, hrest⟩ := hpre
    have hdrop : packet.drop headerLen = rest := by
      rw [List.drop_zero] at hrest
      rw [← hrest, List.drop_left' header.length_bytes]
    refine ⟨hfits, encodeMessage_eq_ok_iff.mpr ⟨by rw [← hpayload]; exact hvalid, hpayload, ?_⟩⟩
    rw [hdrop, hrest, List.drop_zero]
  · rintro ⟨hfits, hencode⟩
    exact decodeMessage_encode hfits hencode

/-! ## Any input -/

theorem readSessionId_isSome {packet : Bytes} {offset : Nat} (h : offset + 16 ≤ packet.length) :
    (readSessionId packet offset).isSome = true := by
  unfold readSessionId
  split
  · rfl
  · rename_i hnone
    have hsome := slice_isSome h
    rw [hnone] at hsome
    cases hsome

theorem decodeHeader_defined (packet : Bytes) : Defined (decodeHeader packet) := by
  unfold decodeHeader
  refine .ite (defined_throw _) (fun hlen => ?_)
  have hlen : packet.length = 48 := not_not.mp hlen
  -- every field lies inside the 48 bytes
  have hread : ∀ w offset, offset + w ≤ 48 →
      Defined (liftM (readBe w packet offset) : ExceptT ProtocolError Option Nat) :=
    fun w offset h => defined_lift (readBe_isSome (by omega))
  refine (hread 4 0 (by decide)).bind (fun _ _ => .ite (defined_throw _) (fun _ => ?_))
  refine (hread 2 4 (by decide)).bind (fun _ _ => .ite (defined_throw _) (fun _ => ?_))
  refine (hread 2 6 (by decide)).bind (fun _ _ => (defined_except _).bind (fun _ _ => ?_))
  refine (hread 2 8 (by decide)).bind (fun _ _ => ?_)
  refine (hread 1 10 (by decide)).bind (fun _ _ => (defined_except _).bind (fun _ _ => ?_))
  refine (hread 1 11 (by decide)).bind (fun _ _ => .ite (defined_throw _) (fun _ => ?_))
  refine (defined_lift (readSessionId_isSome (by omega))).bind (fun _ _ => ?_)
  refine (hread 8 28 (by decide)).bind (fun _ _ => ?_)
  refine (hread 4 36 (by decide)).bind (fun _ _ => ?_)
  refine (hread 8 40 (by decide)).bind (fun _ _ => ?_)
  exact (defined_except _).bind (fun _ _ => defined_pure _)

/-- No byte string makes `decode_message` index out of range. -/
theorem decodeMessage_defined (packet : Bytes) : Defined (decodeMessage packet) := by
  unfold decodeMessage
  refine .ite (defined_throw _) (fun hlen => ?_)
  refine (defined_lift (slice_isSome (by omega))).bind (fun _ _ => ?_)
  refine (decodeHeader_defined _).bind (fun _ _ => ?_)
  exact .ite (defined_throw _) (fun _ => defined_pure _)

end HbbCommon.Transport
