import HbbCommon.Transport.Reliable

/-!
# A reliable channel delivers what it accepted

A refused send may use up a sequence number but writes nothing, so the stream is
the frames of the accepted messages one after another, numbered upwards. On such a
stream every check of the receiver passes. On any stream at all the receiver's
messages are numbered upwards and belong to the channel.
-/

namespace HbbCommon.Transport

open HbbCommon.Base

/-- The arguments of one call of `send`. -/
structure ReliableSend where
  messageType : MessageType
  flags : UInt16
  monotonicTimestampUs : UInt64
  payload : Bytes
  deriving DecidableEq, Repr

/-- The message of a call that was accepted with a sequence number. -/
def ReliableSend.message (call : ReliableSend) (sessionId : SessionId) (sequence : Nat) :
    ParsedMessage :=
  { header :=
      { messageType := call.messageType, flags := call.flags.toNat
        channel := call.messageType.channel, sessionId := sessionId, sequenceNumber := sequence
        payloadLength := call.payload.length
        monotonicTimestampUs := call.monotonicTimestampUs.toNat }
    payload := call.payload }

def ReliableSend.apply (call : ReliableSend) (s : ReliableChannelSender) :
    ReliableChannelSender × Except ReliableSendError Nat :=
  s.send call.messageType call.flags.toNat call.monotonicTimestampUs.toNat call.payload

/-- Some calls of `send`, with the messages of those that succeeded. -/
def ReliableChannelSender.sendAll :
    ReliableChannelSender → List ReliableSend → ReliableChannelSender × List ParsedMessage
  | s, [] => (s, [])
  | s, call :: calls =>
      match call.apply s with
      | (s', .error _) => s'.sendAll calls
      | (s', .ok sequence) =>
          let (s'', sent) := s'.sendAll calls
          (s'', call.message s.sessionId sequence :: sent)

/-- `ReliableChannel::new` and `into_split`. -/
def ReliableChannelSender.new (kind : ReliableChannelKind) (sessionId : SessionId) :
    ReliableChannelSender :=
  { kind := kind, sessionId := sessionId, nextOutgoingSequence := 1, written := [] }

def ReliableChannelReceiver.new (kind : ReliableChannelKind) (sessionId : SessionId)
    (stream : Bytes) : ReliableChannelReceiver :=
  { kind := kind, sessionId := sessionId, lastIncomingSequence := 0, stream := stream }

/-! ## What is written -/

def ParsedMessage.bytes (message : ParsedMessage) : Bytes := message.header.bytes ++ message.payload

/-- A message behind its length. -/
def ParsedMessage.frame (message : ParsedMessage) : Bytes :=
  toBeBytes 4 message.bytes.length ++ message.bytes

/-- A message that the sender of a channel lets through. -/
structure Sendable (kind : ReliableChannelKind) (sessionId : SessionId)
    (message : ParsedMessage) : Prop where
  fits : message.header.Fits
  encoded : encodeMessage message.header message.payload = .ok message.bytes
  channel : message.header.channel = kind.channelId
  session : message.header.sessionId = sessionId
  size : message.bytes.length ≤ kind.maxMessageSize
  length : message.bytes.length < 2 ^ 32

theorem Sendable.headerLen_le {kind : ReliableChannelKind} {sessionId : SessionId}
    {message : ParsedMessage} (_ : Sendable kind sessionId message) :
    headerLen ≤ message.bytes.length := by
  rw [ParsedMessage.bytes, List.length_append, MessageHeader.length_bytes]
  exact Nat.le_add_right _ _

namespace ReliableChannelSender

/-- A refused call writes nothing; an accepted one writes the frame of its message
under the next number. -/
theorem send_cases {s s' : ReliableChannelSender} {call : ReliableSend}
    {result : Except ReliableSendError Nat} (h : call.apply s = (s', result)) :
    s'.kind = s.kind ∧ s'.sessionId = s.sessionId ∧
    ((∃ error, result = .error error ∧ s'.written = s.written ∧
        s.nextOutgoingSequence ≤ s'.nextOutgoingSequence) ∨
      (result = .ok s.nextOutgoingSequence ∧
        s'.nextOutgoingSequence = s.nextOutgoingSequence + 1 ∧
        s'.written = s.written ++ (call.message s.sessionId s.nextOutgoingSequence).frame ∧
        Sendable s.kind s.sessionId (call.message s.sessionId s.nextOutgoingSequence))) := by
  unfold ReliableSend.apply send at h
  split at h
  · cases h
    exact ⟨rfl, rfl, .inl ⟨_, rfl, rfl, le_rfl⟩⟩
  · rename_i hchannel
    have hchannel := not_not.mp hchannel
    simp only at h
    split at h
    · cases h
      exact ⟨rfl, rfl, .inl ⟨_, rfl, rfl, le_rfl⟩⟩
    · rename_i hleft
      split at h
      · cases h
        exact ⟨rfl, rfl, .inl ⟨_, rfl, rfl, Nat.le_succ _⟩⟩
      · rename_i header hnew
        obtain ⟨hvalid, rfl⟩ := MessageHeader.new_eq_ok_iff.mp hnew
        split at h
        · cases h
          exact ⟨rfl, rfl, .inl ⟨_, rfl, rfl, Nat.le_succ _⟩⟩
        · rename_i message hencode
          obtain ⟨_, _, rfl⟩ := encodeMessage_eq_ok_iff.mp hencode
          split at h
          · cases h
            exact ⟨rfl, rfl, .inl ⟨_, rfl, rfl, Nat.le_succ _⟩⟩
          · rename_i hsize
            split at h
            · cases h
              exact ⟨rfl, rfl, .inl ⟨_, rfl, rfl, Nat.le_succ _⟩⟩
            · rename_i hlength
              cases h
              refine ⟨rfl, rfl, .inr ⟨rfl, rfl, ?_, ?_⟩⟩
              · rw [List.append_assoc]
                rfl
              · have hmax : u64Max = 2 ^ 64 - 1 := rfl
                have hpayload : call.payload.length ≤ call.messageType.maxPayloadLen :=
                  (validateFields_eq_ok_iff.mp hvalid).2.2.2.2
                have hlimit := call.messageType.maxPayloadLen_le
                exact
                  { fits := ⟨call.flags.toNat_lt, by simp only [ReliableSend.message]; omega,
                      by simp only [ReliableSend.message]; omega, call.monotonicTimestampUs.toNat_lt⟩
                    encoded := hencode
                    channel := hchannel
                    session := rfl
                    size := Nat.le_of_not_lt hsize
                    length := Nat.lt_of_not_le hlength }

/-- The stream is the frames of the accepted messages, numbered upwards from the
next number on. -/
theorem sendAll_written (s : ReliableChannelSender) (calls : List ReliableSend) :
    (s.sendAll calls).1.written =
        s.written ++ ((s.sendAll calls).2.map ParsedMessage.frame).flatten ∧
      (∀ message ∈ (s.sendAll calls).2, Sendable s.kind s.sessionId message ∧
        s.nextOutgoingSequence ≤ message.header.sequenceNumber) ∧
      (s.sendAll calls).2.Pairwise
        (fun m m' => m.header.sequenceNumber < m'.header.sequenceNumber) := by
  induction calls generalizing s with
  | nil => exact ⟨by simp [sendAll], by simp [sendAll], by simp [sendAll]⟩
  | cons call calls ih =>
      cases hcall : call.apply s with
      | mk s' result =>
          obtain ⟨hkind, hsession, hcases⟩ := send_cases hcall
          obtain ⟨hwritten, hall, hsorted⟩ := ih s'
          rw [hkind, hsession] at hall
          rcases hcases with ⟨error, rfl, hsame, hnext⟩ | ⟨rfl, hnext, hframe, hsendable⟩
          · simp only [sendAll, hcall]
            rw [hsame] at hwritten
            exact ⟨hwritten, fun m hm => ⟨(hall m hm).1, hnext.trans (hall m hm).2⟩, hsorted⟩
          · simp only [sendAll, hcall]
            rw [hframe] at hwritten
            refine ⟨?_, ?_, ?_⟩
            · rw [hwritten, List.map_cons, List.flatten_cons, List.append_assoc]
            · intro m hm
              rcases List.mem_cons.mp hm with rfl | hm
              · exact ⟨hsendable, le_rfl⟩
              · have := (hall m hm).2
                exact ⟨(hall m hm).1, by omega⟩
            · refine List.pairwise_cons.mpr ⟨?_, hsorted⟩
              intro m hm
              have := (hall m hm).2
              show s.nextOutgoingSequence < m.header.sequenceNumber
              omega

end ReliableChannelSender

/-! ## What is received -/

namespace ReliableChannelReceiver

/-- Every check passes for a frame that the sender let through. -/
theorem receive_frame {r : ReliableChannelReceiver} {message : ParsedMessage} {rest : Bytes}
    (hsendable : Sendable r.kind r.sessionId message)
    (hsequence : r.lastIncomingSequence < message.header.sequenceNumber)
    (hstream : r.stream = message.frame ++ rest) :
    r.receive =
      ({ r with stream := rest, lastIncomingSequence := message.header.sequenceNumber },
        .ok message) := by
  have hlength : ofBeBytes (toBeBytes 4 message.bytes.length) = message.bytes.length := by
    rw [ofBeBytes_toBeBytes, Nat.mod_eq_of_lt (lt_of_lt_of_le hsendable.length (by decide))]
  have hfirst : readExact r.stream 4 =
      (some (toBeBytes 4 message.bytes.length), message.bytes ++ rest) := by
    rw [readExact_eq_some_iff, hstream, ParsedMessage.frame, List.append_assoc]
    exact ⟨rfl, length_toBeBytes _ _⟩
  have hsecond : readExact (message.bytes ++ rest) message.bytes.length =
      (some message.bytes, rest) :=
    readExact_eq_some_iff.mpr ⟨rfl, rfl⟩
  have hparsed : messageOf message.bytes = .ok message :=
    messageOf_eq_ok_iff.mpr (decodeMessage_eq_ok_iff.mpr ⟨hsendable.fits, hsendable.encoded⟩)
  have hshort : ¬ (message.bytes.length < headerLen ∨
      message.bytes.length > r.kind.maxMessageSize) := by
    have := hsendable.headerLen_le
    have := hsendable.size
    omega
  unfold receive
  simp only [hfirst, hlength]
  rw [if_neg hshort]
  simp only [hsecond, hparsed]
  rw [if_neg (by simp [hsendable.channel, hsendable.session]), if_neg (Nat.not_le.mpr hsequence)]

/-- At the end of the stream there is only the stream's own error. -/
theorem receive_end {r : ReliableChannelReceiver} (h : r.stream = []) :
    r.receive = (r, .error .stream) := by
  unfold receive readExact
  rw [h]
  cases r
  cases h
  rfl

theorem receives_end {r : ReliableChannelReceiver} (h : r.stream = []) (n : Nat) :
    receives n r = List.replicate n (.error .stream) := by
  induction n with
  | zero => rfl
  | succ n ih => rw [receives, receive_end h, ih, List.replicate_succ]

/-- A stream of frames is received message by message. -/
theorem receives_frames {r : ReliableChannelReceiver} {sent : List ParsedMessage}
    (hsent : ∀ message ∈ sent, Sendable r.kind r.sessionId message ∧
      r.lastIncomingSequence < message.header.sequenceNumber)
    (hsorted : sent.Pairwise (fun m m' => m.header.sequenceNumber < m'.header.sequenceNumber))
    (hstream : r.stream = (sent.map ParsedMessage.frame).flatten) (n : Nat) :
    receives n r =
      (sent.take n).map .ok ++ List.replicate (n - sent.length) (.error .stream) := by
  induction n generalizing r sent with
  | zero => simp [receives]
  | succ n ih =>
      cases sent with
      | nil =>
          rw [receives_end (by simpa using hstream)]
          simp
      | cons message sent =>
          obtain ⟨hsendable, hsequence⟩ := hsent message List.mem_cons_self
          obtain ⟨habove, hsorted⟩ := List.pairwise_cons.mp hsorted
          rw [List.map_cons, List.flatten_cons] at hstream
          -- the rest of the stream is received by the state after this message
          have hrest := ih (r := { r with
              stream := (sent.map ParsedMessage.frame).flatten
              lastIncomingSequence := message.header.sequenceNumber })
            (fun m hm => ⟨(hsent m (List.mem_cons_of_mem _ hm)).1, habove m hm⟩) hsorted rfl
          rw [receives, receive_frame hsendable hsequence hstream, hrest]
          simp

/-- What a call can do on any stream: a message is decoded, belongs to the channel
and has a higher number; an error leaves the number alone. -/
theorem receive_cases (r : ReliableChannelReceiver) :
    r.receive.1.kind = r.kind ∧ r.receive.1.sessionId = r.sessionId ∧
    ((∃ error, r.receive.2 = .error error ∧
        r.receive.1.lastIncomingSequence = r.lastIncomingSequence) ∨
      (∃ message, r.receive.2 = .ok message ∧
        r.receive.1.lastIncomingSequence = message.header.sequenceNumber ∧
        r.lastIncomingSequence < message.header.sequenceNumber ∧
        message.header.channel = r.kind.channelId ∧ message.header.sessionId = r.sessionId ∧
        ∃ encoded, (decodeMessage encoded).run = some (.ok message) ∧
          encoded.length ≤ r.kind.maxMessageSize)) := by
  unfold receive
  split
  · exact ⟨rfl, rfl, .inl ⟨_, rfl, rfl⟩⟩
  · simp only
    split
    · exact ⟨rfl, rfl, .inl ⟨_, rfl, rfl⟩⟩
    · rename_i hlength
      split
      · exact ⟨rfl, rfl, .inl ⟨_, rfl, rfl⟩⟩
      · rename_i encoded rest hread
        split
        · exact ⟨rfl, rfl, .inl ⟨_, rfl, rfl⟩⟩
        · rename_i parsed hparsed
          split
          · exact ⟨rfl, rfl, .inl ⟨_, rfl, rfl⟩⟩
          · rename_i hsame
            split
            · exact ⟨rfl, rfl, .inl ⟨_, rfl, rfl⟩⟩
            · rename_i hsequence
              rw [not_or, not_not, not_not] at hsame
              have hencoded := (readExact_eq_some_iff.mp hread).2
              exact ⟨rfl, rfl, .inr ⟨parsed, rfl, rfl, Nat.lt_of_not_le hsequence, hsame.1, hsame.2,
                encoded, messageOf_eq_ok_iff.mp hparsed, by omega⟩⟩

/-- A message that a channel allows: its type belongs to the channel, its session is
the channel's and its payload is within the limit of its type. -/
structure Allowed (kind : ReliableChannelKind) (sessionId : SessionId)
    (message : ParsedMessage) : Prop where
  channel : message.header.messageType.channel = kind.channelId
  session : message.header.sessionId = sessionId
  payload : message.payload.length ≤ message.header.messageType.maxPayloadLen
  size : message.bytes.length ≤ kind.maxMessageSize

theorem allowed_of_decoded {kind : ReliableChannelKind} {sessionId : SessionId}
    {message : ParsedMessage} {encoded : Bytes}
    (hdecode : (decodeMessage encoded).run = some (.ok message))
    (hchannel : message.header.channel = kind.channelId)
    (hsession : message.header.sessionId = sessionId)
    (hsize : encoded.length ≤ kind.maxMessageSize) : Allowed kind sessionId message := by
  obtain ⟨_, hencode⟩ := decodeMessage_eq_ok_iff.mp hdecode
  obtain ⟨hvalid, _, rfl⟩ := encodeMessage_eq_ok_iff.mp hencode
  obtain ⟨_, htype, _, _, hpayload⟩ := validateFields_eq_ok_iff.mp hvalid
  exact ⟨htype.symm.trans hchannel, hsession, hpayload, hsize⟩

/-- On any stream: numbered upwards, above the last number so far, and allowed. -/
theorem messages_receives (n : Nat) (r : ReliableChannelReceiver) :
    (messages (receives n r)).Pairwise
        (fun m m' => m.header.sequenceNumber < m'.header.sequenceNumber) ∧
      ∀ message ∈ messages (receives n r),
        r.lastIncomingSequence < message.header.sequenceNumber ∧
        Allowed r.kind r.sessionId message := by
  induction n generalizing r with
  | zero => exact ⟨.nil, fun m hm => by cases hm⟩
  | succ n ih =>
      obtain ⟨hkind, hsession, hcases⟩ := receive_cases r
      obtain ⟨hsorted, hall⟩ := ih r.receive.1
      rw [hkind, hsession] at hall
      rcases hcases with ⟨error, herror, hlast⟩ |
        ⟨message, hmessage, hlast, habove, hchannel, hsame, encoded, hdecode, hsize⟩
      · have hskip : messages (receives (n + 1) r) = messages (receives n r.receive.1) := by
          rw [receives, herror]
          rfl
        rw [hskip]
        rw [hlast] at hall
        exact ⟨hsorted, hall⟩
      · have hfirst : messages (receives (n + 1) r) =
            message :: messages (receives n r.receive.1) := by
          rw [receives, hmessage]
          rfl
        rw [hfirst]
        rw [hlast] at hall
        refine ⟨List.pairwise_cons.mpr ⟨fun m hm => (hall m hm).1, hsorted⟩, ?_⟩
        intro m hm
        rcases List.mem_cons.mp hm with rfl | hm
        · exact ⟨habove, allowed_of_decoded hdecode hchannel hsame hsize⟩
        · exact ⟨habove.trans (hall m hm).1, (hall m hm).2⟩

end ReliableChannelReceiver

/-- Whatever was sent, refused calls included, `n` calls of `receive` return the
accepted messages in order and then the end of the stream. Whatever arrives, the
messages returned are numbered upwards and allowed on the channel. -/
theorem reliable_framing (kind : ReliableChannelKind) (sessionId : SessionId) (n : Nat) :
    (∀ calls sender sent,
      (ReliableChannelSender.new kind sessionId).sendAll calls = (sender, sent) →
      ReliableChannelReceiver.receives n
          (ReliableChannelReceiver.new kind sessionId sender.written) =
        (sent.take n).map .ok ++ List.replicate (n - sent.length) (.error .stream)) ∧
    (∀ stream received,
      ReliableChannelReceiver.messages (ReliableChannelReceiver.receives n
        (ReliableChannelReceiver.new kind sessionId stream)) = received →
      received.Pairwise (fun m m' => m.header.sequenceNumber < m'.header.sequenceNumber) ∧
      ∀ message ∈ received, ReliableChannelReceiver.Allowed kind sessionId message) := by
  constructor
  · intro calls sender sent hsend
    obtain ⟨hwritten, hall, hsorted⟩ :=
      (ReliableChannelSender.new kind sessionId).sendAll_written calls
    rw [hsend] at hwritten hall hsorted
    refine ReliableChannelReceiver.receives_frames ?_ hsorted hwritten n
    intro message hmem
    exact hall message hmem
  · rintro stream received rfl
    obtain ⟨hsorted, hall⟩ := ReliableChannelReceiver.messages_receives n
      (ReliableChannelReceiver.new kind sessionId stream)
    exact ⟨hsorted, fun message hmem => (hall message hmem).2⟩

def framingCalls : List ReliableSend :=
  [{ messageType := .clipboard, flags := 0, monotonicTimestampUs := 1, payload := [1] },
    { messageType := .ping, flags := 1, monotonicTimestampUs := 2, payload := [2, 3] },
    { messageType := .ping, flags := 4, monotonicTimestampUs := 3, payload := [4] },
    { messageType := .videoOrderingAck, flags := 0, monotonicTimestampUs := 4
      payload := List.replicate 9 5 },
    { messageType := .pong, flags := 2, monotonicTimestampUs := 5, payload := [] }]

def framingSession : SessionId := ⟨List.replicate 16 7, length_replicate_sessionId⟩

def framingSent : ReliableChannelSender × List ParsedMessage :=
  (ReliableChannelSender.new .control framingSession).sendAll framingCalls

/-- Of five calls on a control channel the first has a type of another channel, the
third an unknown flag and the fourth too many bytes; the numbers 1 and 4 arrive. -/
theorem reliable_framing_refused :
    framingSent.2.map (fun m => m.header.sequenceNumber) = [1, 4] ∧
    ReliableChannelReceiver.receives 2 (ReliableChannelReceiver.new .control framingSession
        framingSent.1.written) = framingSent.2.map .ok := by
  have hframing := (reliable_framing .control framingSession 2).1 framingCalls framingSent.1
    framingSent.2 rfl
  have hcount : framingSent.2.length = 2 := by decide +kernel
  refine ⟨by decide +kernel, ?_⟩
  rw [hframing, hcount, Nat.sub_self, List.replicate_zero, List.append_nil,
    List.take_of_length_le (Nat.le_of_eq hcount)]

end HbbCommon.Transport
