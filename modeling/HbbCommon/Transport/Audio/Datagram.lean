import HbbCommon.Transport.Protocol
import HbbCommon.Transport.Audio.Jitter

/-!
# Audio datagrams

One encoded audio packet per datagram: behind the message header a header of 20
bytes with capture time, codec, channels, sample rate and payload length, then the
payload. The packet's sequence number is that of the message.
-/

namespace HbbCommon.Transport

open HbbCommon.Base

/-- `AUDIO_PACKET_HEADER_LEN`. -/
def audioPacketHeaderLen : Nat := 20

/-- The errors of the audio datagram codec; those of the metadata check are shared
with the jitter buffer. -/
inductive AudioPacketError
  | protocol (error : ProtocolError)
  | unknownCodec (value : Nat)
  | headerTruncated
  | reservedField
  | datagramTooSmall (size : Nat)
  | invalid (error : AudioDatagramError)
  deriving DecidableEq, Repr

namespace AudioCodec

/-- The byte of a codec on the wire. -/
def code : AudioCodec → Nat
  | .opus => 1

def tryFrom : Nat → Except AudioPacketError AudioCodec
  | 1 => .ok .opus
  | value => .error (.unknownCodec value)

theorem tryFrom_code (codec : AudioCodec) : tryFrom codec.code = .ok codec := by
  cases codec
  rfl

theorem code_of_tryFrom {value : Nat} {codec : AudioCodec} (h : tryFrom value = .ok codec) :
    value = codec.code := by
  unfold tryFrom at h
  split at h <;> cases h
  rfl

theorem code_lt (codec : AudioCodec) : codec.code < 256 := by
  cases codec
  decide

end AudioCodec

/-- The payload of an audio datagram. -/
def audioPayload (metadata : AudioPacketMetadata) (encodedAudio : Bytes) : Bytes :=
  toBeBytes 8 metadata.captureTimestampUs ++ toBeBytes 1 metadata.codec.code ++
    toBeBytes 1 metadata.channels ++ toBeBytes 2 0 ++ toBeBytes 4 metadata.sampleRateHz ++
    toBeBytes 4 encodedAudio.length ++ encodedAudio

/-- `encode_audio_datagram`. The length fits its field: it is at most 64 KiB. -/
def encodeAudioDatagram (sessionId : SessionId) (monotonicTimestampUs : Nat)
    (metadata : AudioPacketMetadata) (encodedAudio : Bytes) (maxDatagramSize : Nat) :
    Except AudioPacketError Bytes :=
  match validateAudioMetadata metadata with
  | some error => .error (.invalid error)
  | none =>
      if encodedAudio.length = 0 ∨ encodedAudio.length > maxAudioPayloadBytes then
        .error (.invalid (.invalidPayloadSize encodedAudio.length))
      else if headerLen + audioPacketHeaderLen + encodedAudio.length > maxDatagramSize then
        .error (.datagramTooSmall maxDatagramSize)
      else
        let payload := audioPayload metadata encodedAudio
        match MessageHeader.new .audioPacket 0 sessionId metadata.sequenceNumber payload.length
            monotonicTimestampUs with
        | .error error => .error (.protocol error)
        | .ok header =>
            match encodeMessage header payload with
            | .error error => .error (.protocol error)
            | .ok datagram => .ok datagram

@[simp] theorem length_audioPayload (metadata : AudioPacketMetadata) (encodedAudio : Bytes) :
    (audioPayload metadata encodedAudio).length = audioPacketHeaderLen + encodedAudio.length := by
  simp only [audioPayload, List.length_append, length_toBeBytes, audioPacketHeaderLen]

end HbbCommon.Transport
