import HbbCommon.Transport.Application.Enqueue

/-!
# Payload limits of what `enqueue` accepts

`enqueue` returns before the message is encoded, and none of its branches looks at
the limit of the type it tags the message with. `reliableRoute` says where a
message goes; a message that is longer than the limit of its route is accepted all
the same, and the writer task closes the connection when it comes to it.
-/

namespace HbbCommon.Transport

open HbbCommon.Base

namespace ApplicationStream

/-- The channel that `enqueue` puts a payload on, the type it tags it with, and the
bytes it puts in front; `none` for a payload that goes to no reliable channel. -/
def reliableRoute (parse : Bytes → Option Message) (s : ApplicationStream) (payload : Bytes) :
    Option (ReliableChannelKind × MessageType × Nat) :=
  if s.rawMode then some (.control, .applicationRaw, 0)
  else
    (parse payload).bind fun message =>
      if isVideoOrderingMessage message then some (.control, .videoOrdering, 8)
      else
        match classifyMessage message with
        | none | some (.video _ _) | some (.mouse _ _ _ _) => none
        | some .audio =>
            if s.audioFormat = 0 then some (.control, .applicationControl, 0) else none
        | some cls => some ((reliableSender cls).1, (reliableSender cls).2, 0)

/-- The longest payload that the writer can encode on the route of this one. -/
def payloadRoom (parse : Bytes → Option Message) (s : ApplicationStream) (payload : Bytes) : Nat :=
  match reliableRoute parse s payload with
  | some (_, messageType, front) => messageType.maxPayloadLen - front
  | none => 0

/-- `out` is the message that was added to the queue of `kind`. -/
def Placed (s s' : ApplicationStream) (kind : ReliableChannelKind) (out : ReliableOutbound) :
    Prop :=
  (s'.queue kind).items = (s.queue kind).items ++ [out]

variable {s s' : ApplicationStream} {kind : ReliableChannelKind} {out : ReliableOutbound}

theorem not_placed_of_queue (h : s'.queue kind = s.queue kind) : ¬ Placed s s' kind out := by
  unfold Placed
  rw [h]
  simp

@[simp] theorem queue_setQueue_same (h : kind ≠ .video) (q : Queue ReliableOutbound) :
    (s.setQueue kind q).queue kind = q := by
  cases kind <;> first | rfl | exact absurd rfl h

theorem queue_setQueue_ne {other : ReliableChannelKind} (h : other ≠ kind)
    (q : Queue ReliableOutbound) : (s.setQueue kind q).queue other = s.queue other := by
  cases kind <;> cases other <;> first | rfl | exact absurd rfl h

/-- What `try_send` places is the message, on its own channel. -/
theorem placed_trySend {other : ReliableChannelKind} {item : ReliableOutbound}
    (h : Placed s (s.trySend kind item).1 other out) : other = kind ∧ out = item := by
  unfold trySend at h
  cases hsend : (s.queue kind).trySend item with
  | error error =>
      rw [hsend] at h
      exact absurd h (not_placed_of_queue rfl)
  | ok q =>
      rw [hsend] at h
      have hvideo : kind ≠ .video := by
        rintro rfl
        cases hsend
      by_cases hother : other = kind
      · subst hother
        simp only [Placed, queue_setQueue_same hvideo, Queue.trySend_ok hsend] at h
        exact ⟨rfl, by simpa using h.symm⟩
      · exact absurd h (not_placed_of_queue (queue_setQueue_ne hother q))

theorem placed_enqueueOrdering {payload : Bytes}
    (h : Placed s (s.enqueueOrdering payload).1 kind out) :
    kind = .control ∧ out.messageType = .videoOrdering ∧
      out.payload.length = payload.length + 8 := by
  unfold enqueueOrdering at h
  cases hepoch : s.sender.gate.nextEpoch with
  | none =>
      rw [hepoch] at h
      exact absurd h (not_placed_of_queue rfl)
  | some e =>
      obtain ⟨gate, epoch⟩ := e
      simp only [hepoch] at h
      split at h
      · rename_i q hsend
        cases kind with
        | control =>
            simp only [Placed, queue, Queue.trySend_ok hsend] at h
            have hout := List.append_cancel_left h
            cases hout
            exact ⟨rfl, rfl, by simp; omega⟩
        | _ => exact absurd h (not_placed_of_queue rfl)
      · exact absurd h (not_placed_of_queue (by cases kind <;> rfl))

theorem placed_enqueueAudio {payload : Bytes} (h : Placed s (s.enqueueAudio payload).1 kind out) :
    s.audioFormat = 0 ∧ kind = .control ∧
      out = { messageType := .applicationControl, payload := payload } := by
  unfold enqueueAudio at h
  cases hformat : unpackAudioFormat s.audioFormat with
  | none =>
      rw [hformat] at h
      have hzero : s.audioFormat = 0 := by simpa [unpackAudioFormat] using hformat
      exact ⟨hzero, placed_trySend h⟩
  | some f =>
      obtain ⟨rate, channels⟩ := f
      simp only [hformat] at h
      split at h
      · exact absurd h (not_placed_of_queue rfl)
      · split at h <;> exact absurd h (not_placed_of_queue (by cases kind <;> rfl))

/-- The video branch leaves the reliable queues alone. -/
theorem queue_enqueueVideo {c : SenderConfig} {latestKey : Option Nat} {frame : VideoFrame}
    {payload : Bytes} {result : Except EnqueueError Unit}
    (h : s.enqueueVideo c latestKey frame payload = some (s', result)) :
    s'.queue kind = s.queue kind := by
  have hsender : ∃ sender, s' = { s with sender := sender } := by
    unfold enqueueVideo at h
    split at h
    · obtain ⟨sender, _, h⟩ := Option.bind_eq_some_iff.mp h
      split at h
      · obtain ⟨sender', _, h⟩ := Option.bind_eq_some_iff.mp h
        split at h
        · obtain ⟨sender'', _, h⟩ := Option.bind_eq_some_iff.mp h
          cases h
          exact ⟨sender'', rfl⟩
        · cases h
          exact ⟨sender', rfl⟩
      · cases h
        exact ⟨sender, rfl⟩
    · cases h
      exact ⟨s.sender, rfl⟩
  obtain ⟨sender, rfl⟩ := hsender
  cases kind <;> rfl

theorem audioFormatOf_of_audio {message : Message} (h : classifyMessage message = some .audio) :
    audioFormatOf message = none := by
  cases message with
  | none => rfl
  | some union =>
      cases union with
      | misc inner =>
          cases inner with
          | none => rfl
          | some value => cases value <;> first | rfl | cases h
      | _ => rfl

/-- Behind the decoding, a message on a reliable queue is there by its class. -/
theorem route_of_dispatch {parse : Bytes → Option Message} {c : SenderConfig}
    {latestKey : Option Nat} {message : Message} {payload : Bytes}
    {result : Except EnqueueError Unit} (hraw : s.rawMode = false)
    (hparse : parse payload = some message)
    (h : s.dispatch c latestKey message payload = some (s', result))
    (hplaced : Placed s s' kind out) :
    ∃ front, reliableRoute parse s payload = some (kind, out.messageType, front) ∧
      out.payload.length = payload.length + front := by
  unfold dispatch at h
  set t : ApplicationStream :=
    { s with audioFormat := (audioFormatOf message).getD s.audioFormat } with ht
  have hqueue : ∀ k, t.queue k = s.queue k := by
    intro k
    cases k <;> rfl
  have hplaced : Placed t s' kind out := by
    unfold Placed
    rw [hqueue]
    exact hplaced
  have hresult : ∀ x : ApplicationStream × Except EnqueueError Unit, some x = some (s', result) →
      Placed t x.1 kind out := by
    rintro _ ⟨⟩
    exact hplaced
  simp only [reliableRoute, hraw, Bool.false_eq_true, if_false, hparse, Option.bind_some]
  split at h
  · rename_i hordering
    obtain ⟨rfl, htype, hlength⟩ := placed_enqueueOrdering (hresult _ h)
    exact ⟨8, by rw [if_pos hordering, htype], hlength⟩
  rename_i hordering
  rw [if_neg hordering]
  split at h
  · exact absurd (hresult _ h) (not_placed_of_queue rfl)
  · exact absurd hplaced (not_placed_of_queue (queue_enqueueVideo h))
  · rename_i hclass
    -- an audio frame does not change the stored format
    have hformat : t.audioFormat = s.audioFormat := by
      rw [ht, audioFormatOf_of_audio hclass]
      rfl
    obtain ⟨hzero, rfl, rfl⟩ := placed_enqueueAudio (hresult _ h)
    rw [hformat] at hzero
    exact ⟨0, by rw [hclass]; simp [hzero], rfl⟩
  · exact absurd (hresult _ h) (not_placed_of_queue (by cases kind <;> rfl))
  · rename_i cls hvideo haudio hmouse hclass
    obtain ⟨rfl, rfl⟩ := placed_trySend (hresult _ h)
    refine ⟨0, ?_, rfl⟩
    rw [hclass]
    cases cls with
    | video metadata frame => exact absurd rfl (hvideo metadata frame)
    | audio => exact absurd rfl haudio
    | mouse mode x y mask => exact absurd rfl (hmouse mode x y mask)
    | _ => rfl

/-- A message on a reliable queue is there by its route. -/
theorem route_of_placed {parse : Bytes → Option Message} {c : SenderConfig}
    {latestKey : Option Nat} {payload : Bytes} {result : Except EnqueueError Unit}
    (h : s.enqueueWithLatestKey parse c latestKey payload = some (s', result))
    (hplaced : Placed s s' kind out) :
    ∃ front, reliableRoute parse s payload = some (kind, out.messageType, front) ∧
      out.payload.length = payload.length + front := by
  unfold enqueueWithLatestKey at h
  split at h
  · cases h
    exact absurd hplaced (not_placed_of_queue rfl)
  split at h
  · cases h
    exact absurd hplaced (not_placed_of_queue rfl)
  split at h
  · rename_i hraw
    have hs' : (s.trySend .control { messageType := .applicationRaw, payload := payload }).1 =
        s' := congrArg Prod.fst (Option.some.inj h)
    rw [← hs'] at hplaced
    obtain ⟨rfl, rfl⟩ := placed_trySend hplaced
    exact ⟨0, by rw [reliableRoute, if_pos hraw], rfl⟩
  rename_i hraw
  cases hparse : parse payload with
  | none =>
      rw [hparse] at h
      cases h
      exact absurd hplaced (not_placed_of_queue rfl)
  | some message =>
      rw [hparse] at h
      exact route_of_dispatch (by simpa using hraw) hparse h hplaced

/-- A route leads to the channel of its message type. -/
theorem channel_of_route {parse : Bytes → Option Message} {payload : Bytes}
    {messageType : MessageType} {front : Nat}
    (h : reliableRoute parse s payload = some (kind, messageType, front)) :
    messageType.channel = kind.channelId ∧ front ≤ messageType.maxPayloadLen := by
  unfold reliableRoute at h
  split at h
  · cases h
    exact ⟨rfl, Nat.zero_le _⟩
  obtain ⟨message, _, h⟩ := Option.bind_eq_some_iff.mp h
  split at h
  · cases h
    exact ⟨rfl, by decide⟩
  split at h <;> try cases h
  · split at h
    · cases h
      exact ⟨rfl, Nat.zero_le _⟩
    · cases h
  · rename_i cls _ _ _ _
    cases cls <;> exact ⟨rfl, Nat.zero_le _⟩

/-- The writer can encode the message: it is within the limit of its type, and on
every usable channel of its kind the writer goes on to what comes after it. -/
def Encodable (kind : ReliableChannelKind) (out : ReliableOutbound) : Prop :=
  out.payload.length ≤ out.messageType.maxPayloadLen ∧
  ∀ sender : ReliableChannelSender, sender.kind = kind → sender.Usable →
    ∀ timestamp rest, ∃ sender',
      runReliableWriter sender ((out, timestamp) :: rest) = runReliableWriter sender' rest

theorem encodable_iff (hchannel : out.messageType.channel = kind.channelId) :
    Encodable kind out ↔ out.payload.length ≤ out.messageType.maxPayloadLen := by
  refine ⟨fun h => h.1, fun h => ⟨h, ?_⟩⟩
  rintro sender rfl husable timestamp rest
  obtain ⟨sender', sequence, hsend⟩ :=
    (ReliableChannelSender.send_ok_iff husable hchannel timestamp out.payload).mpr h
  exact ⟨sender', by rw [runReliableWriter, hsend]⟩

/-- What `enqueue` accepted and put on a reliable channel can be encoded exactly
when the payload is at most as long as its route has room for. -/
theorem enqueued_encodable_iff (parse : Bytes → Option Message) (c : SenderConfig)
    (s s' : ApplicationStream) (latestKey : Option Nat) (payload : Bytes)
    (kind : ReliableChannelKind) (out : ReliableOutbound)
    (hok : s.enqueueWithLatestKey parse c latestKey payload = some (s', .ok ()))
    (hplaced : Placed s s' kind out) :
    Encodable kind out ↔ payload.length ≤ payloadRoom parse s payload := by
  obtain ⟨front, hroute, hlength⟩ := route_of_placed hok hplaced
  obtain ⟨hchannel, hfront⟩ := channel_of_route hroute
  have hroom : payloadRoom parse s payload = out.messageType.maxPayloadLen - front := by
    rw [payloadRoom, hroute]
  rw [encodable_iff hchannel, hlength, hroom]
  omega

/-- A fresh stream. -/
def idle : ApplicationStream :=
  { closing := false, connectionClosed := false, rawMode := false, maxDatagram := 1200
    audioFormat := 0
    control := { items := [], capacity := 128, closed := false }
    input := { items := [], capacity := 128, closed := false }
    clipboard := { items := [], capacity := 16, closed := false }
    file := { items := [], capacity := 32, closed := false }
    diagnostics := { items := [], capacity := 64, closed := false }
    audio := { items := [], capacity := 64, closed := false }
    latestMouse := none
    sender := .new }

def plainConfig : SenderConfig :=
  { maxTracks := 8, reliableKeyframes := false, keyframeBarrier := false
    scopedReferenceRefresh := false }

/-- A decoder for messages with one field: the tag of field 15 is a key event. -/
def parseTag : Bytes → Option Message
  | 0x7a :: _ => some (some .keyEvent)
  | _ => none

/-- Key events whose `seq` is one letter and 4096 letters. -/
def shortText : Bytes := [0x7a, 0x03, 0x32, 0x01, 0x61]

def longText : Bytes := [0x7a, 0x83, 0x20, 0x32, 0x80, 0x20] ++ List.replicate 4096 0x61

/-- The stream with one message on its input channel. -/
def withInput (payload : Bytes) : ApplicationStream :=
  { idle with
    input :=
      { items := [{ messageType := .reliableInput, payload := payload }], capacity := 128
        closed := false } }

theorem enqueued_encodable_iff_short :
    idle.enqueueWithLatestKey parseTag plainConfig none shortText =
        some (withInput shortText, .ok ()) ∧
      (Encodable .input { messageType := .reliableInput, payload := shortText } ↔
        shortText.length ≤ payloadRoom parseTag idle shortText) :=
  ⟨rfl, enqueued_encodable_iff parseTag plainConfig idle (withInput shortText) none shortText .input
    { messageType := .reliableInput, payload := shortText } rfl rfl⟩

/-- The input channel of a session. -/
def inputChannel : ReliableChannelSender :=
  { kind := .input, sessionId := ⟨List.replicate 16 7, length_replicate_sessionId⟩
    nextOutgoingSequence := 1, written := [] }

/-- A key event of 4102 bytes is accepted onto the input channel, whose limit is
4096, and the writer closes the connection over it. -/
theorem long_text_closes :
    idle.enqueueWithLatestKey parseTag plainConfig none longText =
        some (withInput longText, .ok ()) ∧
      Placed idle (withInput longText) .input
        { messageType := .reliableInput, payload := longText } ∧
      ¬ longText.length ≤ MessageType.reliableInput.maxPayloadLen ∧
      (runReliableWriter inputChannel
        [({ messageType := .reliableInput, payload := longText }, 0)]).2 =
          some (.protocol (.payloadTooLarge 4102)) := by
  have hlength : longText.length = 4102 := by
    rw [longText, List.length_append, List.length_replicate]
    rfl
  have hlong : MessageType.reliableInput.maxPayloadLen < longText.length := by
    rw [hlength]
    decide
  have husable : inputChannel.Usable := ⟨by decide, by decide, by decide⟩
  have hchannel : MessageType.reliableInput.channel = inputChannel.kind.channelId := rfl
  refine ⟨rfl, rfl, Nat.not_le.mpr hlong, ?_⟩
  obtain ⟨sender, hsend⟩ := ReliableChannelSender.send_too_large husable hchannel 0 hlong
  simp only [runReliableWriter, hsend, hlength]

end ApplicationStream

end HbbCommon.Transport
