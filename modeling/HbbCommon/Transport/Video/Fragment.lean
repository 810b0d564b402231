import HbbCommon.Transport.Protocol

/-!
# Video fragments on QUIC datagrams

A frame is cut into chunks of equal length, the last one shorter. Each chunk
travels in one datagram: the message header, a fragment header of 28 bytes (frame
id, fragment index and count, codec, flags, a reserved field, presentation
timestamp, frame size) and the bytes of the chunk.
-/

namespace HbbCommon.Transport

open HbbCommon.Base

def videoFragmentHeaderLen : Nat := 28

/-- `MAX_VIDEO_FRAME_BYTES` of the datagram layer. -/
def maxDatagramFrameBytes : Nat := 32 * 1024 * 1024

def maxVideoFragments : Nat := 32 * 1024

/-- The first bit that `KNOWN_FRAME_FLAGS` does not hold; the known flags are
`FLAG_KEYFRAME` and `FLAG_CODEC_CONFIG`. -/
def firstUnknownFrameFlag : Nat := 4

inductive VideoDatagramError
  | protocol (error : ProtocolError)
  | zeroFrameId
  | unknownCodec (value : Nat)
  | unknownFlags (flags : Nat)
  | headerTruncated
  | reservedField
  | invalidFragmentIndex (index count : Nat)
  | invalidFragmentCount (count : Nat)
  | invalidFrameSize (size : Nat)
  | emptyFragment
  | datagramTooSmall (size : Nat)
  | sequenceOverflow
  | inconsistentMetadata
  | conflictingDuplicate
  | memoryLimit
  deriving DecidableEq, Repr

namespace VideoCodec

/-- The byte of a codec on the wire. -/
def code : VideoCodec → Nat
  | .h264 => 1
  | .h265 => 2
  | .vp8 => 3
  | .vp9 => 4
  | .av1 => 5
  | .raw => 6

def tryFrom : Nat → Except VideoDatagramError VideoCodec
  | 1 => .ok .h264
  | 2 => .ok .h265
  | 3 => .ok .vp8
  | 4 => .ok .vp9
  | 5 => .ok .av1
  | 6 => .ok .raw
  | value => .error (.unknownCodec value)

theorem tryFrom_code (codec : VideoCodec) : tryFrom codec.code = .ok codec := by
  cases codec <;> rfl

theorem code_of_tryFrom {value : Nat} {codec : VideoCodec} (h : tryFrom value = .ok codec) :
    value = codec.code := by
  unfold tryFrom at h
  split at h <;> cases h <;> rfl

theorem code_lt (codec : VideoCodec) : codec.code < 256 := by
  cases codec <;> decide

end VideoCodec

structure FragmentHeader where
  metadata : VideoFrameMetadata
  fragmentIndex : Nat
  fragmentCount : Nat
  frameSize : Nat
  deriving DecidableEq, Repr

/-- `belongs_to_same_frame`. -/
def FragmentHeader.belongsToSameFrame (header other : FragmentHeader) : Bool :=
  decide (header.metadata = other.metadata) &&
    decide (header.fragmentCount = other.fragmentCount) &&
    decide (header.frameSize = other.frameSize)

/-- `validate_frame_metadata`. -/
def validateFrameMetadata (metadata : VideoFrameMetadata) : Except VideoDatagramError Unit :=
  if metadata.frameId = 0 then .error .zeroFrameId
  else if metadata.flags / firstUnknownFrameFlag ≠ 0 then .error (.unknownFlags metadata.flags)
  else .ok ()

/-! ## The fragment header -/

/-- The fragment header on the wire, field by field. -/
def FragmentHeader.fields (header : FragmentHeader) : List Bytes :=
  [toBeBytes 8 header.metadata.frameId, toBeBytes 2 header.fragmentIndex,
    toBeBytes 2 header.fragmentCount, toBeBytes 1 header.metadata.codec.code,
    toBeBytes 1 header.metadata.flags, toBeBytes 2 0,
    toBeBytes 8 header.metadata.presentationTimestampUs, toBeBytes 4 header.frameSize]

/-- `encode_fragment_payload`. -/
def encodeFragmentPayload (header : FragmentHeader) (fragment : Bytes) :
    Except VideoDatagramError Bytes :=
  if fragment = [] then .error .emptyFragment
  else if header.fragmentIndex ≥ 2 ^ 16 then
    .error (.invalidFragmentIndex header.fragmentIndex header.fragmentCount)
  else if header.fragmentCount ≥ 2 ^ 16 then
    .error (.invalidFragmentCount header.fragmentCount)
  else if header.frameSize ≥ 2 ^ 32 then .error (.invalidFrameSize header.frameSize)
  else .ok (header.fields.flatten ++ fragment)

/-- `decode_fragment_payload`. -/
def decodeFragmentPayload (payload : Bytes) :
    ExceptT VideoDatagramError Option (FragmentHeader × Bytes) :=
  if payload.length ≤ videoFragmentHeaderLen then
    throw (if payload.length < videoFragmentHeaderLen then .headerTruncated else .emptyFragment)
  else do
    let reserved ← readBe 2 payload 14
    if reserved ≠ 0 then throw .reservedField
    else do
      let frameId ← readBe 8 payload 0
      let codec ← VideoCodec.tryFrom (← readBe 1 payload 12)
      let flags ← readBe 1 payload 13
      let presentationTimestampUs ← readBe 8 payload 16
      let fragmentIndex ← readBe 2 payload 8
      let fragmentCount ← readBe 2 payload 10
      let frameSize ← readBe 4 payload 24
      return ({ metadata :=
                  { frameId := frameId, codec := codec, flags := flags
                    presentationTimestampUs := presentationTimestampUs }
                fragmentIndex := fragmentIndex
                fragmentCount := fragmentCount
                frameSize := frameSize }, payload.drop videoFragmentHeaderLen)

/-- A datagram that decodes to a fragment. -/
def Carries (datagram : Bytes) (header : FragmentHeader) (fragment : Bytes) : Prop :=
  ∃ message, (decodeMessage datagram).run = some (.ok message) ∧
    message.header.messageType = .videoFragment ∧
    (decodeFragmentPayload message.payload).run = some (.ok (header, fragment))

/-! ## Fragmentation -/

/-- Chunk `i` of `encoded_frame.chunks(size)`. -/
def chunk (frame : Bytes) (size i : Nat) : Bytes := (frame.drop (i * size)).take size

/-- `encoded_frame.len().div_ceil(size)`. -/
def chunkCount (frame : Bytes) (size : Nat) : Nat := (frame.length + size - 1) / size

/-- The arguments of `fragment_video_frame`. -/
structure VideoTransmission where
  sessionId : SessionId
  firstSequenceNumber : Nat
  monotonicTimestampUs : Nat
  metadata : VideoFrameMetadata
  frame : Bytes
  maxDatagramSize : Nat
  deriving DecidableEq

namespace VideoTransmission

/-- The bytes of a frame that one datagram carries. -/
def fragmentPayloadSize (t : VideoTransmission) : Nat :=
  t.maxDatagramSize - (headerLen + videoFragmentHeaderLen)

def fragmentCount (t : VideoTransmission) : Nat := chunkCount t.frame t.fragmentPayloadSize

/-- The header of fragment `i`. -/
def fragmentHeader (t : VideoTransmission) (i : Nat) : FragmentHeader :=
  { metadata := t.metadata, fragmentIndex := i, fragmentCount := t.fragmentCount
    frameSize := t.frame.length }

def fragment (t : VideoTransmission) (i : Nat) : Bytes := chunk t.frame t.fragmentPayloadSize i

/-- One turn of the loop: the datagram of fragment `i`. -/
def encodeFragment (t : VideoTransmission) (i : Nat) : Except VideoDatagramError Bytes := do
  let payload ← encodeFragmentPayload (t.fragmentHeader i) (t.fragment i)
  let header ← (MessageHeader.new .videoFragment 0 t.sessionId (t.firstSequenceNumber + i)
    payload.length t.monotonicTimestampUs).mapError .protocol
  (encodeMessage header payload).mapError .protocol

/-- `fragment_video_frame`. -/
def fragmentVideoFrame (t : VideoTransmission) : Except VideoDatagramError (List Bytes) := do
  validateFrameMetadata t.metadata
  if t.frame = [] ∨ t.frame.length > maxDatagramFrameBytes then
    throw (.invalidFrameSize t.frame.length)
  else if t.fragmentPayloadSize = 0 then throw (.datagramTooSmall t.maxDatagramSize)
  else if t.fragmentCount = 0 ∨ t.fragmentCount > maxVideoFragments then
    throw (.invalidFragmentCount t.fragmentCount)
  else if t.firstSequenceNumber + (t.fragmentCount - 1) > u64Max then throw .sequenceOverflow
  else (List.range t.fragmentCount).mapM t.encodeFragment

end VideoTransmission

end HbbCommon.Transport
