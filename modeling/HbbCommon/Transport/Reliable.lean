import HbbCommon.Transport.Stream

/-!
# Reliable application channels

A reliable channel is one QUIC stream. `send_reliable` numbers a message, writes
its header with the checks of `encode_message`, checks the limit of the channel
and puts the length in front. The stream itself takes every write: its own errors
are those of the connection and have nothing to do with the message.
`receive_reliable` reads a length and a message and checks both again.
-/

namespace HbbCommon.Transport

open HbbCommon.Base

inductive ReliableChannelKind
  | control
  | input
  | clipboard
  | fileTransfer
  | diagnostics
  | video
  deriving DecidableEq, Repr

namespace ReliableChannelKind

def channelId : ReliableChannelKind → ChannelId
  | .control => .control
  | .input => .reliableInput
  | .clipboard => .clipboard
  | .fileTransfer => .fileTransfer
  | .diagnostics => .diagnostics
  | .video => .reliableVideo

def maxMessageSize : ReliableChannelKind → Nat
  | .control => headerLen + 32 * 1024 * 1024
  | .input => headerLen + 4 * 1024
  | .clipboard => headerLen + 16 * 1024 * 1024
  | .fileTransfer => headerLen + 1024 * 1024
  | .diagnostics => headerLen + 64 * 1024
  | .video => headerLen + 32 * 1024 * 1024

end ReliableChannelKind

/-- The errors of `send_reliable`. -/
inductive ReliableSendError
  | wrongChannel (messageType : MessageType) (kind : ReliableChannelKind)
  | sequenceExhausted
  | protocol (error : ProtocolError)
  | messageTooLong (kind : ReliableChannelKind)
  | lengthOverflow
  deriving DecidableEq, Repr

/-- The sending half of a channel, with everything written to its stream. -/
structure ReliableChannelSender where
  kind : ReliableChannelKind
  sessionId : SessionId
  nextOutgoingSequence : Nat
  written : Bytes
  deriving DecidableEq

namespace ReliableChannelSender

/-- `send_reliable`; the number is taken even when the message is refused. -/
def send (s : ReliableChannelSender) (messageType : MessageType) (flags : Nat)
    (monotonicTimestampUs : Nat) (payload : Bytes) :
    ReliableChannelSender × Except ReliableSendError Nat :=
  if messageType.channel ≠ s.kind.channelId then (s, .error (.wrongChannel messageType s.kind))
  else
    let sequence := s.nextOutgoingSequence
    if sequence + 1 > u64Max then (s, .error .sequenceExhausted)
    else
      let s := { s with nextOutgoingSequence := sequence + 1 }
      match MessageHeader.new messageType flags s.sessionId sequence payload.length
          monotonicTimestampUs with
      | .error error => (s, .error (.protocol error))
      | .ok header =>
          match encodeMessage header payload with
          | .error error => (s, .error (.protocol error))
          | .ok message =>
              if message.length > s.kind.maxMessageSize then
                (s, .error (.messageTooLong s.kind))
              else if message.length ≥ 2 ^ 32 then (s, .error .lengthOverflow)
              else ({ s with written := s.written ++ toBeBytes 4 message.length ++ message },
                .ok sequence)

/-- A channel that can still number a message. -/
structure Usable (s : ReliableChannelSender) : Prop where
  session : s.sessionId.val.all (fun byte => byte == 0) = false
  first : 0 < s.nextOutgoingSequence
  left : s.nextOutgoingSequence < u64Max

/-- The limit of a channel is that of its largest message type. -/
theorem maxPayloadLen_le_maxMessageSize {messageType : MessageType} {kind : ReliableChannelKind}
    (h : messageType.channel = kind.channelId) :
    headerLen + messageType.maxPayloadLen ≤ kind.maxMessageSize := by
  cases kind <;> cases messageType <;> first | (cases h; done) | decide

/-- On a usable channel of its own kind a message is refused exactly for its
size. -/
theorem send_ok_iff {s : ReliableChannelSender} (h : s.Usable) {messageType : MessageType}
    (hchannel : messageType.channel = s.kind.channelId) (timestamp : Nat) (payload : Bytes) :
    (∃ s' sequence, s.send messageType 0 timestamp payload = (s', .ok sequence)) ↔
      payload.length ≤ messageType.maxPayloadLen := by
  have hleft := h.left
  have hvalid : validateFields messageType 0 messageType.channel s.sessionId
      s.nextOutgoingSequence payload.length = .ok () ↔
      payload.length ≤ messageType.maxPayloadLen := by
    rw [validateFields_eq_ok_iff]
    exact ⟨fun hv => hv.2.2.2.2,
      fun hle => ⟨by decide, rfl, h.session, Nat.ne_of_gt h.first, hle⟩⟩
  unfold send
  rw [if_neg (not_not.mpr hchannel)]
  simp only [if_neg (show ¬ s.nextOutgoingSequence + 1 > u64Max by omega)]
  constructor
  · rintro ⟨s', sequence, hsend⟩
    rw [← hvalid]
    cases hnew : MessageHeader.new messageType 0 s.sessionId s.nextOutgoingSequence
        payload.length timestamp with
    | error e =>
        rw [hnew] at hsend
        cases hsend
    | ok header => exact (MessageHeader.new_eq_ok_iff.mp hnew).1
  · intro hle
    let header : MessageHeader :=
      { messageType := messageType, flags := 0, channel := messageType.channel
        sessionId := s.sessionId, sequenceNumber := s.nextOutgoingSequence
        payloadLength := payload.length, monotonicTimestampUs := timestamp }
    have hnew : MessageHeader.new messageType 0 s.sessionId s.nextOutgoingSequence
        payload.length timestamp = .ok header :=
      MessageHeader.new_eq_ok_iff.mpr ⟨hvalid.mpr hle, rfl⟩
    have hencode : encodeMessage header payload = .ok (header.bytes ++ payload) :=
      encodeMessage_eq_ok_iff.mpr ⟨hvalid.mpr hle, rfl, rfl⟩
    have hlength : (header.bytes ++ payload).length = headerLen + payload.length := by simp
    have hmax := messageType.maxPayloadLen_le
    have hsize := maxPayloadLen_le_maxMessageSize hchannel
    have hheader : headerLen = 48 := rfl
    simp only [hnew, hencode]
    rw [if_neg (by omega), if_neg (by omega)]
    exact ⟨_, _, rfl⟩

/-- A message above the limit of its type is refused with its length. -/
theorem send_too_large {s : ReliableChannelSender} (h : s.Usable) {messageType : MessageType}
    (hchannel : messageType.channel = s.kind.channelId) (timestamp : Nat) {payload : Bytes}
    (hlong : messageType.maxPayloadLen < payload.length) :
    ∃ s', s.send messageType 0 timestamp payload =
      (s', .error (.protocol (.payloadTooLarge payload.length))) := by
  have hleft := h.left
  have hnew : MessageHeader.new messageType 0 s.sessionId s.nextOutgoingSequence payload.length
      timestamp = .error (.payloadTooLarge payload.length) := by
    unfold MessageHeader.new validateFields
    rw [if_neg (by decide), if_neg (not_not.mpr rfl), if_neg (by simp [h.session]),
      if_neg (Nat.ne_of_gt h.first), if_pos hlong]
    rfl
  unfold send
  rw [if_neg (not_not.mpr hchannel)]
  simp only [if_neg (show ¬ s.nextOutgoingSequence + 1 > u64Max by omega), hnew]
  exact ⟨_, rfl⟩

end ReliableChannelSender

/-! ## Receiving -/

/-- The errors of `receive_reliable`. -/
inductive ReliableReceiveError
  | stream
  | invalidLength (kind : ReliableChannelKind) (length : Nat)
  | protocol (error : ProtocolError)
  | channelOrSessionChanged
  | duplicateOrOutOfOrder
  deriving DecidableEq, Repr

/-- The receiving half of a channel, with the bytes that are still to come. -/
structure ReliableChannelReceiver where
  kind : ReliableChannelKind
  sessionId : SessionId
  lastIncomingSequence : Nat
  stream : Bytes
  deriving DecidableEq

namespace ReliableChannelReceiver

/-- `receive_reliable`. -/
def receive (r : ReliableChannelReceiver) :
    ReliableChannelReceiver × Except ReliableReceiveError ParsedMessage :=
  match readExact r.stream 4 with
  | (none, rest) => ({ r with stream := rest }, .error .stream)
  | (some lengthBytes, rest) =>
      let length := ofBeBytes lengthBytes
      if length < headerLen ∨ length > r.kind.maxMessageSize then
        ({ r with stream := rest }, .error (.invalidLength r.kind length))
      else
        match readExact rest length with
        | (none, rest) => ({ r with stream := rest }, .error .stream)
        | (some encoded, rest) =>
            let r := { r with stream := rest }
            match messageOf encoded with
            | .error error => (r, .error (.protocol error))
            | .ok parsed =>
                if parsed.header.channel ≠ r.kind.channelId ∨
                    parsed.header.sessionId ≠ r.sessionId then
                  (r, .error .channelOrSessionChanged)
                else if parsed.header.sequenceNumber ≤ r.lastIncomingSequence then
                  (r, .error .duplicateOrOutOfOrder)
                else ({ r with lastIncomingSequence := parsed.header.sequenceNumber }, .ok parsed)

/-- `n` calls of `receive`, errors or not. -/
def receives : Nat → ReliableChannelReceiver → List (Except ReliableReceiveError ParsedMessage)
  | 0, _ => []
  | n + 1, r => r.receive.2 :: receives n r.receive.1

/-- The messages among the results of some calls. -/
def messages (results : List (Except ReliableReceiveError ParsedMessage)) : List ParsedMessage :=
  results.filterMap Except.toOption

end ReliableChannelReceiver

end HbbCommon.Transport
