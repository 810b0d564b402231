import HbbCommon.Transport.Control
import HbbCommon.Transport.Logic.MessageCodec
import HbbCommon.Transport.Logic.ReliableFraming

/-!
# Messages of a control channel

A message that was written is read back whole, with and without an expected type. A channel takes
a number for every write and accepts what is numbered above the last message it read.
-/

namespace HbbCommon.Transport

open HbbCommon.Base

variable {message : ParsedMessage} {messageType : MessageType} {flags sequence timestamp : Nat}
  {sessionId : SessionId} {payload rest : Bytes}

/-! ## One message -/

/-- A message as `write_message` writes it. -/
structure Written (message : ParsedMessage) : Prop where
  fits : message.header.Fits
  encoded : encodeMessage message.header message.payload = .ok message.bytes

theorem writeNew_eq_ok_iff : writeNew messageType flags sessionId sequence timestamp payload =
      .ok message ↔
    validateFields messageType flags messageType.channel sessionId sequence payload.length =
        .ok () ∧
      message = { header := { messageType, flags, channel := messageType.channel, sessionId
                              sequenceNumber := sequence, payloadLength := payload.length
                              monotonicTimestampUs := timestamp }
                  payload } := by
  unfold writeNew writeMessage
  cases hnew : MessageHeader.new messageType flags sessionId sequence payload.length timestamp with
  | error error =>
      refine ⟨fun h => (by cases h), fun ⟨hvalid, _⟩ => ?_⟩
      rw [MessageHeader.new_eq_ok_iff.mpr ⟨hvalid, rfl⟩] at hnew
      cases hnew
  | ok header =>
      obtain ⟨hvalid, rfl⟩ := MessageHeader.new_eq_ok_iff.mp hnew
      have hencode : encodeMessage { messageType, flags, channel := messageType.channel, sessionId
                                     sequenceNumber := sequence, payloadLength := payload.length
                                     monotonicTimestampUs := timestamp } payload = .ok _ :=
        encodeMessage_eq_ok_iff.mpr ⟨hvalid, rfl, rfl⟩
      simp only [Except.mapError, bind, Except.bind, pure, Except.pure, hencode]
      exact ⟨fun h => ⟨hvalid, (Except.ok.inj h).symm⟩, fun h => congrArg Except.ok h.2.symm⟩

/-- A message that is not written has a field that is not valid. -/
theorem writeNew_eq_error {error : ControlError}
    (h : writeNew messageType flags sessionId sequence timestamp payload = .error error) :
    ∃ invalid, error = .protocol invalid ∧
      validateFields messageType flags messageType.channel sessionId sequence payload.length =
        .error invalid := by
  cases hvalid : validateFields messageType flags messageType.channel sessionId sequence
      payload.length with
  | ok _ =>
      rw [writeNew_eq_ok_iff.mpr ⟨hvalid, rfl⟩] at h
      cases h
  | error invalid =>
      unfold writeNew MessageHeader.new at h
      rw [hvalid] at h
      cases h
      exact ⟨invalid, rfl, rfl⟩

theorem written_of_writeNew
    (h : writeNew messageType flags sessionId sequence timestamp payload = .ok message)
    (hsequence : sequence ≤ u64Max) (htimestamp : timestamp < 256 ^ 8) : Written message := by
  obtain ⟨hvalid, rfl⟩ := writeNew_eq_ok_iff.mp h
  obtain ⟨hflags, -, -, -, hpayload⟩ := validateFields_eq_ok_iff.mp hvalid
  have hknown : firstUnknownFlag = 4 := rfl
  have hmax : u64Max = 2 ^ 64 - 1 := rfl
  have hlimit := messageType.maxPayloadLen_le
  refine ⟨⟨?_, ?_, ?_, htimestamp⟩, encodeMessage_eq_ok_iff.mpr ⟨hvalid, rfl, rfl⟩⟩
  · show flags < 256 ^ 2
    omega
  · show sequence < 256 ^ 8
    omega
  · show payload.length < 256 ^ 4
    omega

theorem Written.decode (h : Written message) :
    (decodeMessage message.bytes).run = some (.ok message) := decodeMessage_encode h.fits h.encoded

theorem Written.bytes_ne (h : Written message) : message.bytes ≠ [] := by
  intro hempty
  have hlength := (decodeMessage_eq_ok_iff_header.mp h.decode).1
  rw [hempty] at hlength
  exact absurd hlength (by decide)

theorem readMessage_written (h : Written message) :
    readMessage (message.bytes ++ rest) = (.ok message, rest) :=
  readMessage_eq_ok_iff.mpr ⟨_, rfl, h.decode⟩

/-- The first message of a peer is read when it is of the type that is expected. -/
theorem readHandshakeMessage_written (h : Written message) :
    readHandshakeMessage (message.bytes ++ rest) message.header.messageType =
      (.ok message, rest) := by
  have hread : readMessage (message.bytes ++ rest) = (.ok message, rest) := readMessage_written h
  unfold readMessage at hread
  split at hread
  · cases hread
  · rename_i encodedHeader header behind hheader
    obtain ⟨-, hdecode⟩ := readHeader_eq_ok_iff.mp hheader
    have hlength : encodedHeader.length = headerLen := by
      rw [(decodeHeader_eq_ok_iff.mp hdecode).1, MessageHeader.length_bytes]
    have hmessage := ((readPayload_eq_ok_iff hlength).mp hread).2.2
    have hsame : message.header = header := by
      have htake := (decodeMessage_eq_ok_iff_header.mp hmessage).2.1
      rw [List.take_left' hlength, hdecode] at htake
      cases htake
      rfl
    unfold readHandshakeMessage
    simp only [hheader, hsame, ne_eq, not_true_eq_false, if_false, hread]

/-! ## What is parsed -/

theorem mapError_get_eq_ok_iff {ε ε' α : Type} {x : Option (Except ε α)} (hx : x.isSome = true)
    {f : ε → ε'} {a : α} : (x.get hx).mapError f = .ok a ↔ x = some (.ok a) := by
  cases x with
  | none => cases hx
  | some result => cases result <;> simp [Except.mapError]

section

variable {σ : Type} {sign : Sign σ} {exporter clientKey clientNonce key nonce : FixedBytes 32}

theorem clientHelloOf_eq_ok_iff : clientHelloOf sign payload sessionId exporter = .ok (key, nonce) ↔
    (parseClientHello sign payload sessionId exporter).run = some (.ok (key, nonce)) :=
  mapError_get_eq_ok_iff _

theorem serverHelloOf_eq_ok_iff :
    serverHelloOf sign payload sessionId exporter clientNonce clientKey = .ok (key, nonce) ↔
      (parseServerHello sign payload sessionId exporter clientNonce clientKey).run =
        some (.ok (key, nonce)) :=
  mapError_get_eq_ok_iff _

end

/-! ## The messages of an end -/

/-- The messages that an end wrote: of one session, numbered upwards, below the next number. -/
structure SentBelow (sessionId : SessionId) (next : Nat) (messages : List ParsedMessage) :
    Prop where
  written : ∀ message ∈ messages, Written message
  session : ∀ message ∈ messages, message.header.sessionId = sessionId
  below : ∀ message ∈ messages, message.header.sequenceNumber < next
  sorted : messages.Pairwise (fun m m' => m.header.sequenceNumber < m'.header.sequenceNumber)

theorem sentBelow_nil (sessionId : SessionId) (next : Nat) : SentBelow sessionId next [] :=
  ⟨List.forall_mem_nil _, List.forall_mem_nil _, List.forall_mem_nil _, .nil⟩

theorem SentBelow.mono {next next' : Nat} {messages : List ParsedMessage}
    (h : SentBelow sessionId next messages) (hle : next ≤ next') :
    SentBelow sessionId next' messages :=
  ⟨h.written, h.session, fun m hm => (h.below m hm).trans_le hle, h.sorted⟩

theorem SentBelow.append {next : Nat} {messages : List ParsedMessage}
    (h : SentBelow sessionId next messages) (hwritten : Written message)
    (hsession : message.header.sessionId = sessionId)
    (hsequence : message.header.sequenceNumber = next) :
    SentBelow sessionId (next + 1) (messages ++ [message]) := by
  refine ⟨?_, ?_, ?_, ?_⟩
  · intro m hm
    rcases List.mem_append.mp hm with hm | hm
    · exact h.written m hm
    · rw [List.mem_singleton.mp hm]
      exact hwritten
  · intro m hm
    rcases List.mem_append.mp hm with hm | hm
    · exact h.session m hm
    · rw [List.mem_singleton.mp hm]
      exact hsession
  · intro m hm
    rcases List.mem_append.mp hm with hm | hm
    · exact (h.below m hm).trans (Nat.lt_succ_self next)
    · rw [List.mem_singleton.mp hm, hsequence]
      exact Nat.lt_succ_self next
  · refine List.pairwise_append.mpr ⟨h.sorted, List.pairwise_singleton _ _, ?_⟩
    intro m hm m' hm'
    rw [List.mem_singleton.mp hm', hsequence]
    exact h.below m hm

/-! ## Calls of a channel -/

namespace AuthenticatedControlChannel

/-- Nothing but the next number changes. -/
structure TakesNumber (c c' : AuthenticatedControlChannel) : Prop where
  sessionId : c'.sessionId = c.sessionId
  peerIdentityKey : c'.peerIdentityKey = c.peerIdentityKey
  lastIncomingSequence : c'.lastIncomingSequence = c.lastIncomingSequence
  next : c.nextOutgoingSequence ≤ c'.nextOutgoingSequence

theorem TakesNumber.rfl {c : AuthenticatedControlChannel} : TakesNumber c c :=
  ⟨Eq.refl _, Eq.refl _, Eq.refl _, le_refl _⟩

/-- What a channel wrote: under its session and its next number. -/
structure Wrote (c c' : AuthenticatedControlChannel) (message : ParsedMessage) : Prop where
  written : Written message
  sessionId : message.header.sessionId = c.sessionId
  sequence : message.header.sequenceNumber = c.nextOutgoingSequence
  next : c'.nextOutgoingSequence = c.nextOutgoingSequence + 1

theorem writeNext_cases (c : AuthenticatedControlChannel) (messageType : MessageType)
    (flags : Nat) (htimestamp : timestamp < 256 ^ 8) (payload : Bytes) :
    TakesNumber c (c.writeNext messageType flags timestamp payload).1 ∧
      ∀ message, (c.writeNext messageType flags timestamp payload).2 = .ok message →
        Wrote c (c.writeNext messageType flags timestamp payload).1 message ∧
          message.header.messageType = messageType ∧ message.header.flags = flags ∧
          message.payload = payload := by
  unfold writeNext takeSequence
  by_cases hleft : c.nextOutgoingSequence + 1 > u64Max
  · rw [if_pos hleft]
    exact ⟨.rfl, fun m hm => by cases hm⟩
  · rw [if_neg hleft]
    refine ⟨⟨rfl, rfl, rfl, Nat.le_succ _⟩, fun m hm => ?_⟩
    have hwritten := written_of_writeNew hm (by omega) htimestamp
    obtain ⟨-, rfl⟩ := writeNew_eq_ok_iff.mp hm
    exact ⟨⟨hwritten, rfl, rfl, rfl⟩, rfl, rfl, rfl⟩

theorem sendControl_cases (c : AuthenticatedControlChannel) (messageType : MessageType)
    (flags : Nat) (htimestamp : timestamp < 256 ^ 8) (payload : Bytes) :
    TakesNumber c (c.sendControl messageType flags timestamp payload).1 ∧
      ∀ message, (c.sendControl messageType flags timestamp payload).2 = .ok message →
        Wrote c (c.sendControl messageType flags timestamp payload).1 message := by
  unfold sendControl
  split
  · exact ⟨.rfl, fun m hm => by cases hm⟩
  · obtain ⟨htakes, hwrote⟩ := c.writeNext_cases messageType flags htimestamp payload
    exact ⟨htakes, fun m hm => (hwrote m hm).1⟩

theorem respondToPing_cases (c : AuthenticatedControlChannel) (htimestamp : timestamp < 256 ^ 8)
    (request : ParsedMessage) :
    TakesNumber c (c.respondToPing timestamp request).1 ∧
      ∀ message, (c.respondToPing timestamp request).2 = .ok message →
        Wrote c (c.respondToPing timestamp request).1 message := by
  unfold respondToPing
  split
  · exact ⟨.rfl, fun m hm => by cases hm⟩
  · obtain ⟨htakes, hwrote⟩ := c.writeNext_cases .pong flagResponse htimestamp request.payload
    exact ⟨htakes, fun m hm => (hwrote m hm).1⟩

/-- Every check of `read_control_message` passes. -/
theorem readControlMessage_written {c : AuthenticatedControlChannel} (h : Written message)
    (hsession : message.header.sessionId = c.sessionId)
    (hsequence : c.lastIncomingSequence < message.header.sequenceNumber) (rest : Bytes) :
    c.readControlMessage (message.bytes ++ rest) =
      ({ c with lastIncomingSequence := message.header.sequenceNumber }, .ok message, rest) := by
  unfold readControlMessage
  rw [readMessage_written h]
  simp only
  rw [if_neg (not_not.mpr hsession), if_neg (Nat.not_le.mpr hsequence)]

end AuthenticatedControlChannel

end HbbCommon.Transport
