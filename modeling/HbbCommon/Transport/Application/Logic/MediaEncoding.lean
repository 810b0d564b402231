import HbbCommon.Transport.Application.Media
import HbbCommon.Transport.Logic.InputCodec
import HbbCommon.Transport.Video.Logic.FragmentRoundTrip
import HbbCommon.Transport.Video.Logic.SenderItems

/-!
# What the media writers can encode

The checks of `enqueue` and those of the three encoders were written apart. `MediaInv`
is what the first leave to the second: an item that waits for a writer, or that a
writer holds, has a payload, a number and flags that its encoder takes. What the
encoders check beyond that is the condition of `media_encodes_iff`: the sample rate
of the audio format, the coordinates and the length of a mouse message, and the
length of a video frame where datagrams are small.
-/

namespace HbbCommon.Transport

open HbbCommon.Base

/-! ## The encoders -/

theorem validateAudioMetadata_eq_none_iff {metadata : AudioPacketMetadata} :
    validateAudioMetadata metadata = none ↔
      metadata.sequenceNumber ≠ 0 ∧ (metadata.channels ≠ 0 ∧ metadata.channels ≤ 8) ∧
        8000 ≤ metadata.sampleRateHz ∧ metadata.sampleRateHz ≤ 192000 := by
  unfold validateAudioMetadata
  split_ifs with hsequence hchannels hrate
  · simp [hsequence]
  · simp only [false_iff]
    omega
  · simp only [true_iff]
    omega
  · simp only [false_iff]
    omega

/-- An audio packet whose length fits a datagram of at most 64 KiB is encoded unless
its metadata are invalid. -/
theorem encodeAudioDatagram_ok_iff {sessionId : SessionId} {timestampUs maxDatagramSize : Nat}
    {metadata : AudioPacketMetadata} {encodedAudio : Bytes}
    (hsession : sessionId.val.all (fun byte => byte == 0) = false)
    (hempty : encodedAudio ≠ [])
    (hfits : headerLen + audioPacketHeaderLen + encodedAudio.length ≤ maxDatagramSize)
    (hlimit : maxDatagramSize ≤ 64 * 1024) :
    (∃ datagram, encodeAudioDatagram sessionId timestampUs metadata encodedAudio maxDatagramSize =
      .ok datagram) ↔ validateAudioMetadata metadata = none := by
  have hpos : 0 < encodedAudio.length := List.length_pos_iff.mpr hempty
  have hheaders : headerLen + audioPacketHeaderLen = 68 := rfl
  have hsize : ¬ (encodedAudio.length = 0 ∨ encodedAudio.length > maxAudioPayloadBytes) := by
    unfold maxAudioPayloadBytes
    omega
  unfold encodeAudioDatagram
  constructor
  · rintro ⟨datagram, h⟩
    split at h
    · cases h
    · assumption
  · intro hvalid
    obtain ⟨hsequence, _⟩ := validateAudioMetadata_eq_none_iff.mp hvalid
    rw [hvalid]
    simp only
    rw [if_neg hsize, if_neg (Nat.not_lt.mpr hfits)]
    have hfields : validateFields .audioPacket 0 MessageType.audioPacket.channel sessionId
        metadata.sequenceNumber (audioPayload metadata encodedAudio).length = .ok () := by
      refine validateFields_eq_ok_iff.mpr ⟨by decide, rfl, hsession, hsequence, ?_⟩
      rw [length_audioPayload]
      show 20 + encodedAudio.length ≤ 64 * 1024
      omega
    rw [MessageHeader.new_eq_ok_iff.mpr ⟨hfields, rfl⟩]
    simp only
    rw [encodeMessage_eq_ok_iff.mpr ⟨hfields, rfl, rfl⟩]
    exact ⟨_, rfl⟩

/-- The coordinates that the encoder takes, by the mode of the movement. -/
def MouseMovementMode.InRange (mode : MouseMovementMode) (x y : Int32) : Prop :=
  CoordinatesWithin (match mode with | .absolute => maxAbsoluteCoordinate | .relative => 100000) x y

instance (mode : MouseMovementMode) (x y : Int32) : Decidable (mode.InRange x y) :=
  inferInstanceAs (Decidable (CoordinatesWithin _ _ _))

theorem known_of_lt {mask : UInt16} (h : mask.toNat < 32) : mask &&& ~~~knownButtonMask = 0 := by
  have hall : ∀ n < 32, UInt16.ofNat n &&& ~~~knownButtonMask = 0 := by decide
  have hmask := hall mask.toNat h
  rwa [UInt16.ofNat_toNat] at hmask

/-- On display 0 and with known buttons, only the coordinates are left to check. -/
theorem validateMouseMovement_eq_ok_iff {movement : MouseMovement}
    (hdisplay : movement.displayId = 0) (hmask : movement.buttonStateMask.toNat < 32) :
    validateMouseMovement movement = .ok () ↔ movement.mode.InRange movement.x movement.y := by
  have hknown := known_of_lt hmask
  have hid : validateDisplayId movement.displayId = .ok () := by
    rw [hdisplay]
    rfl
  unfold validateMouseMovement
  rw [hid]
  simp only [bind, Except.bind, hknown, ne_eq, not_true_eq_false, if_false]
  cases movement.mode with
  | absolute => exact validateCoordinates_eq_ok_iff
  | relative => exact validateCoordinates_eq_ok_iff

theorem encodeApplicationMouseMovement_ok_iff {sessionId : SessionId} {movement : MouseMovement}
    {application : Bytes} {maxDatagramSize : Nat}
    (hsession : sessionId.val.all (fun byte => byte == 0) = false)
    (hsequence : movement.sequenceNumber.toNat ≠ 0) (hdisplay : movement.displayId = 0)
    (hmask : movement.buttonStateMask.toNat < 32) (hempty : application ≠ []) :
    (∃ datagram, encodeApplicationMouseMovement sessionId movement application maxDatagramSize =
      .ok datagram) ↔
      movement.mode.InRange movement.x movement.y ∧
        application.length ≤ maxApplicationMouseBytes ∧
        headerLen + applicationMouseHeaderLen + application.length ≤ maxDatagramSize := by
  have hpos : application.length ≠ 0 := by simpa using hempty
  simp only [encodeApplicationMouseMovement_eq_ok_iff,
    validateMouseMovement_eq_ok_iff hdisplay hmask]
  constructor
  · rintro ⟨datagram, hrange, ⟨_, hlimit⟩, hsize, _⟩
    exact ⟨hrange, hlimit, hsize⟩
  · rintro ⟨hrange, hlimit, hsize⟩
    refine ⟨_, hrange, ⟨hpos, hlimit⟩, hsize, encodeMouseMessage_eq_ok_iff.mpr ⟨?_, rfl⟩⟩
    refine validateFields_eq_ok_iff.mpr ⟨by decide, rfl, hsession, hsequence, ?_⟩
    rw [MouseMovement.length_applicationPayload]
    show 24 + application.length ≤ 64 * 1024
    unfold maxApplicationMouseBytes at hlimit
    omega

/-- A frame of up to 32 MiB is fragmented unless it needs too many datagrams or the
sequence numbers end. -/
theorem fragmentVideoFrame_ok_iff {t : VideoTransmission}
    (hsession : t.sessionId.val.all (fun byte => byte == 0) = false)
    (hsequence : t.firstSequenceNumber ≠ 0) (hid : t.metadata.frameId ≠ 0)
    (hflags : t.metadata.flags < firstUnknownFrameFlag) (hframe : t.frame ≠ [])
    (hlength : t.frame.length ≤ maxDatagramFrameBytes)
    (hsmall : headerLen + videoFragmentHeaderLen < t.maxDatagramSize)
    (hlarge : t.maxDatagramSize ≤ 64 * 1024) :
    (∃ datagrams, t.fragmentVideoFrame = .ok datagrams) ↔
      t.frame.length ≤ maxVideoFragments * t.fragmentPayloadSize ∧
        t.firstSequenceNumber + (t.fragmentCount - 1) ≤ u64Max := by
  have hroom : 0 < t.fragmentPayloadSize := Nat.sub_pos_of_lt hsmall
  have hcount : t.fragmentCount ≤ maxVideoFragments ↔
      t.frame.length ≤ maxVideoFragments * t.fragmentPayloadSize := by
    have hlt := lt_chunkCount_iff t.frame hroom maxVideoFragments
    unfold VideoTransmission.fragmentCount
    omega
  rw [← hcount]
  constructor
  · rintro ⟨datagrams, h⟩
    have hfragmented := VideoTransmission.fragmented h
    exact ⟨hfragmented.count_le, hfragmented.sequence⟩
  · rintro ⟨hcount, hlast⟩
    have hpayload : t.fragmentPayloadSize + videoFragmentHeaderLen ≤
        MessageType.videoFragment.maxPayloadLen := by
      show t.maxDatagramSize - (48 + 28) + 28 ≤ 64 * 1024
      omega
    exact VideoTransmission.exists_datagrams hid hflags hframe hlength hroom hcount hpayload hsession
      hsequence hlast

/-! ## What waits for the writers -/

/-- What `enqueue_audio` guarantees. -/
structure AudioOutbound.Accepted (maxDatagram : Nat) (item : AudioOutbound) : Prop where
  nonempty : item.payload ≠ []
  fits : item.payload.length + 80 ≤ maxDatagram
  channels : item.channels ≠ 0 ∧ item.channels ≤ 8
  sampleRateHz : 8000 ≤ item.sampleRateHz

structure MouseOutbound.Accepted (item : MouseOutbound) : Prop where
  nonempty : item.payload ≠ []
  buttons : item.buttonStateMask.toNat < 32

/-- What holds of a frame when it is built. -/
structure VideoOutbound.Built (item : VideoOutbound) : Prop where
  nonempty : item.payload ≠ []
  frameId : item.metadata.frameId ≠ 0
  flags : item.metadata.flags < firstUnknownFrameFlag

/-- A frame that the slot has let in. -/
def VideoOutbound.Accepted (item : VideoOutbound) : Prop :=
  item.Built ∧ item.payload.length ≤ maxVideoFrameBytes

theorem VideoOutbound.Accepted.applyEpoch {item : VideoOutbound} (h : item.Accepted)
    (epochs : OrdMap VideoStreamKey Nat) (barrier : Bool) :
    (applyVideoReferenceEpoch item epochs barrier).1.Accepted := by
  unfold applyVideoReferenceEpoch
  split
  · exact h
  · split
    · exact h
    · split
      · exact h
      · exact ⟨⟨h.1.nonempty, h.1.frameId, h.1.flags⟩, h.2⟩

/-- A stored audio format has channels and a sample rate. -/
def FormatOk (value : Nat) : Prop :=
  ∀ sampleRateHz channels, unpackAudioFormat value = some (sampleRateHz, channels) →
    8000 ≤ sampleRateHz ∧ channels ≠ 0 ∧ channels ≤ 8

/-- `unpack_audio_format` undoes `pack_audio_format`, which stores no format that has
no channel, more than eight, or a low sample rate. -/
theorem formatOk_of_message {message : Message} {value : Nat}
    (h : audioFormatOf message = some value) : FormatOk value := by
  unfold audioFormatOf at h
  split at h
  · rename_i sampleRate channels
    split at h
    · cases h
      intro sampleRateHz channels hunpack
      cases hunpack
    · rename_i hvalid
      cases h
      have hrate : sampleRate.toNat < 2 ^ 32 := sampleRate.toNat_lt
      have hlow : ¬ sampleRate.toNat < 8000 := fun hlt => hvalid (.inr (.inr hlt))
      have hhigh : ¬ 8 < channels.toNat := fun hlt => hvalid (.inr (.inl hlt))
      have hzero : channels.toNat ≠ 0 := by
        intro heq
        exact hvalid (.inl (UInt32.toNat_inj.mp heq))
      intro sampleRateHz channels' hunpack
      unfold unpackAudioFormat at hunpack
      split at hunpack
      · cases hunpack
      · cases hunpack
        omega
  · cases h

namespace Sender

variable {c : SenderConfig} {s t : Sender}

/-- The frames on their way to the video writer. -/
structure VideoOk (s : Sender) : Prop where
  nextId : s.nextTransportFrameId ≠ 0
  items : AllItems VideoOutbound.Built VideoOutbound.Accepted s

/-- The frame that an enqueue call offers to the slot. -/
theorem built_of_enqueue {latestKey : Option Nat} {frame : VideoFrame}
    {payload : Bytes} {item : VideoOutbound} (hpayload : payload ≠ [])
    (hid : s.nextTransportFrameId ≠ 0)
    (h : s.enqueue latestKey frame payload = some t)
    (hoffering : t.producer = .offering item) : item.Built := by
  unfold enqueue at h
  split at h
  · rename_i hidle
    obtain ⟨metadata, hmetadata, h⟩ := Option.bind_eq_some_iff.mp h
    have hflags : metadata.flags < firstUnknownFrameFlag := by
      unfold videoMetadata at hmetadata
      obtain ⟨⟨codec, keyframe⟩, _, hmade⟩ := Option.map_eq_some_iff.mp hmetadata
      rw [← hmade]
      show (if keyframe then flagKeyframe else 0) < firstUnknownFrameFlag
      cases keyframe <;> decide
    split at h
    · simp only at h
      split at h
      · cases h
        rw [hidle] at hoffering
        cases hoffering
      · cases h
        cases hoffering
        exact ⟨hpayload, hid, hflags⟩
    · cases h
  · cases h

theorem nextId_le_of_steps {a : SenderAction} (hstep : Steps c s a t) :
    s.nextTransportFrameId ≤ t.nextTransportFrameId := by
  cases hstep <;> first | exact Nat.le_refl _ | exact Nat.le_succ _

theorem VideoOk.step {a : SenderAction} (h : VideoOk s) (hstep : Steps c s a t)
    (hmade : ∀ latestKey frame payload item, a = .enqueue latestKey frame payload →
      t.producer = .offering item → item.Built) : VideoOk t where
  nextId := by
    have hle := nextId_le_of_steps hstep
    have hpos := h.nextId
    omega
  items := h.items.step (fun _ hbuilt hlength => ⟨hbuilt, hlength⟩)
    (fun _ epochs haccepted => haccepted.applyEpoch epochs c.keyframeBarrier) hstep hmade

/-- The steps of an enqueue call behind its first, and those of the writer. -/
theorem VideoOk.later {a : SenderAction} (h : VideoOk s) (hstep : s.step c a = some t)
    (hlater : ∀ latestKey frame payload, a ≠ .enqueue latestKey frame payload) : VideoOk t :=
  h.step (steps_of_step hstep) (fun latestKey frame payload _ ha _ =>
    absurd ha (hlater latestKey frame payload))

end Sender

namespace ApplicationStream

/-- What the stream hands to the writers. -/
structure MediaOk (maxDatagram : Nat) (s : ApplicationStream) : Prop where
  size : s.maxDatagram = maxDatagram
  format : FormatOk s.audioFormat
  audio : ∀ item ∈ s.audio.items, item.Accepted maxDatagram
  mouse : ∀ item, s.latestMouse = some item → item.Accepted
  video : s.sender.VideoOk

variable {maxDatagram : Nat} {s s' : ApplicationStream}

theorem mediaOk_new (maxDatagram : Nat) : MediaOk maxDatagram (.new maxDatagram) where
  size := rfl
  format := by
    intro sampleRateHz channels hunpack
    cases hunpack
  audio := by
    intro item hitem
    cases hitem
  mouse := by
    intro item hitem
    cases hitem
  video := ⟨Nat.one_ne_zero, Sender.allItems_new⟩

/-- The reliable queues are no concern of the media writers. -/
theorem MediaOk.trySend (h : MediaOk maxDatagram s) (kind : ReliableChannelKind)
    (out : ReliableOutbound) : MediaOk maxDatagram (s.trySend kind out).1 := by
  unfold ApplicationStream.trySend
  split
  · cases kind <;> exact ⟨h.size, h.format, h.audio, h.mouse, h.video⟩
  · exact h

theorem MediaOk.enqueueOrdering (h : MediaOk maxDatagram s) (payload : Bytes) :
    MediaOk maxDatagram (s.enqueueOrdering payload).1 := by
  unfold ApplicationStream.enqueueOrdering
  split
  · exact h
  · have hvideo : ∀ gate log, Sender.VideoOk { s.sender with gate := gate, log := log } :=
      fun _ _ => ⟨h.video.nextId, h.video.items.move rfl (fun _ hx => hx) (fun _ hx => hx)⟩
    simp only
    split
    · exact ⟨h.size, h.format, h.audio, h.mouse, hvideo _ _⟩
    · exact ⟨h.size, h.format, h.audio, h.mouse, hvideo _ _⟩

theorem MediaOk.enqueueAudio (h : MediaOk maxDatagram s) {payload : Bytes} (hpayload : payload ≠ [])
    (hlimit : maxDatagram < u64Max) : MediaOk maxDatagram (s.enqueueAudio payload).1 := by
  unfold ApplicationStream.enqueueAudio
  split
  · exact h.trySend _ _
  · rename_i sampleRateHz channels hunpack
    obtain ⟨hrate, hchannels⟩ := h.format sampleRateHz channels hunpack
    split
    · exact h
    · rename_i hfits
      have hroom : payload.length + 80 ≤ maxDatagram := by
        rw [Nat.not_lt, h.size] at hfits
        rw [← satAdd_eq_of_le hlimit hfits]
        exact hfits
      split
      · rename_i q hsend
        refine ⟨h.size, h.format, ?_, h.mouse, h.video⟩
        intro item hitem
        rw [show q.items = _ from Queue.trySend_ok hsend] at hitem
        rcases List.mem_append.mp hitem with hitem | hitem
        · exact h.audio item hitem
        · rw [List.mem_singleton.mp hitem]
          exact ⟨hpayload, hroom, hchannels, hrate⟩
      · exact h
      · exact h

theorem MediaOk.enqueueVideo (h : MediaOk maxDatagram s) {c : SenderConfig}
    {latestKey : Option Nat} {frame : VideoFrame} {payload : Bytes} (hpayload : payload ≠ [])
    {result : Except EnqueueError Unit}
    (henqueue : s.enqueueVideo c latestKey frame payload = some (s', result)) :
    MediaOk maxDatagram s' := by
  have hsender : ∀ sender : Sender, sender.VideoOk →
      MediaOk maxDatagram { s with sender := sender } :=
    fun _ hvideo => ⟨h.size, h.format, h.audio, h.mouse, hvideo⟩
  unfold ApplicationStream.enqueueVideo at henqueue
  split at henqueue
  · obtain ⟨sender₁, h₁, henqueue⟩ := Option.bind_eq_some_iff.mp henqueue
    have hok₁ : sender₁.VideoOk := by
      refine h.video.step (c := c) (Sender.steps_of_enqueue h₁) ?_
      intro latestKey' frame' payload' item ha hoffering
      exact Sender.built_of_enqueue hpayload h.video.nextId h₁ hoffering
    split at henqueue
    · obtain ⟨sender₂, h₂, henqueue⟩ := Option.bind_eq_some_iff.mp henqueue
      have hok₂ : sender₂.VideoOk := hok₁.later (a := .offer) h₂ (fun _ _ _ ha => by cases ha)
      split at henqueue
      · obtain ⟨sender₃, h₃, henqueue⟩ := Option.bind_eq_some_iff.mp henqueue
        cases henqueue
        exact hsender _ (hok₂.later (a := .recordRefused) h₃ (fun _ _ _ ha => by cases ha))
      · cases henqueue
        exact hsender _ hok₂
    · cases henqueue
      exact hsender _ hok₁
  · cases henqueue
    exact h

/-- Only a mouse event has the class of a movement. -/
theorem mouseEvent_of_classify {message : Message} {mode : MouseMovementMode} {x y : Int32}
    {mask : UInt16} (h : classifyMessage message = some (.mouse mode x y mask)) :
    (∃ event, message = some (.mouseEvent event x y)) ∧ mask.toNat < 32 := by
  have hmask : ∀ n : Int, (UInt16.ofNat (n / 8 % 32).toNat).toNat < 32 := by
    intro n
    have hlt : (n / 8 % 32).toNat < 32 := by omega
    rw [UInt16.toNat_ofNat_of_lt' (lt_trans hlt (by decide))]
    exact hlt
  cases message with
  | none => cases h
  | some union =>
      cases union with
      | mouseEvent event x' y' =>
          have hevent := hmask event.toInt
          unfold classifyMessage at h
          simp only at h
          generalize UInt16.ofNat (event.toInt / 8 % 32).toNat = buttons at h hevent
          split at h
          · cases h
            exact ⟨⟨event, rfl⟩, hevent⟩
          · split at h
            · cases h
              exact ⟨⟨event, rfl⟩, hevent⟩
            · cases h
      | videoFrame frame =>
          obtain ⟨_, _, hvideo⟩ := Option.map_eq_some_iff.mp h
          cases hvideo
      | misc inner =>
          cases inner with
          | none => cases h
          | some value => cases value <;> cases h
      | _ => cases h

/-- A message with a media class is not the default message. -/
theorem MediaOk.dispatch (h : MediaOk maxDatagram s) {c : SenderConfig} {latestKey : Option Nat}
    {message : Message} {payload : Bytes} (hpayload : message ≠ none → payload ≠ [])
    (hlimit : maxDatagram < u64Max) {result : Except EnqueueError Unit}
    (hdispatch : s.dispatch c latestKey message payload = some (s', result)) :
    MediaOk maxDatagram s' := by
  have hformat : MediaOk maxDatagram
      { s with audioFormat := (audioFormatOf message).getD s.audioFormat } := by
    refine ⟨h.size, ?_, h.audio, h.mouse, h.video⟩
    cases hvalue : audioFormatOf message with
    | none => exact h.format
    | some value => exact formatOk_of_message hvalue
  have hmedia : ∀ cls, classifyMessage message = some cls → cls ≠ .control → payload ≠ [] := by
    intro cls hcls hne
    apply hpayload
    rintro rfl
    cases hcls
    exact hne rfl
  unfold ApplicationStream.dispatch at hdispatch
  simp only at hdispatch
  -- `enqueue` returns what the branch returns
  have hresult : ∀ r : ApplicationStream × Except EnqueueError Unit,
      some r = some (s', result) → MediaOk maxDatagram r.1 → MediaOk maxDatagram s' := by
    intro r hr hok
    rwa [Option.some.inj hr] at hok
  split at hdispatch
  · exact hresult _ hdispatch (hformat.enqueueOrdering payload)
  · split at hdispatch
    · cases hdispatch
      exact hformat
    · rename_i hcls
      exact hformat.enqueueVideo (hmedia _ hcls (by simp)) hdispatch
    · rename_i hcls
      exact hresult _ hdispatch (hformat.enqueueAudio (hmedia _ hcls (by simp)) hlimit)
    · rename_i mode x y mask hcls
      cases hdispatch
      refine ⟨hformat.size, hformat.format, hformat.audio, ?_, hformat.video⟩
      intro item hitem
      cases hitem
      exact ⟨hmedia _ hcls (by simp), (mouseEvent_of_classify hcls).2⟩
    · exact hresult _ hdispatch (hformat.trySend _ _)

theorem MediaOk.enqueue (h : MediaOk maxDatagram s) {parse : Bytes → Option Message}
    (hparse : parse [] = some none) {c : SenderConfig} {latestKey : Option Nat} {payload : Bytes}
    (hlimit : maxDatagram < u64Max) {result : Except EnqueueError Unit}
    (henqueue : s.enqueueWithLatestKey parse c latestKey payload = some (s', result)) :
    MediaOk maxDatagram s' := by
  unfold enqueueWithLatestKey at henqueue
  split at henqueue
  · cases henqueue
    exact h
  · split at henqueue
    · cases henqueue
      exact h
    · split at henqueue
      · have htry := h.trySend .control { messageType := .applicationRaw, payload := payload }
        rwa [Option.some.inj henqueue] at htry
      · split at henqueue
        · cases henqueue
          exact h
        · rename_i message hmessage
          refine h.dispatch ?_ hlimit henqueue
          rintro hne rfl
          rw [hparse] at hmessage
          cases hmessage
          exact hne rfl

end ApplicationStream

namespace MediaWriters

structure MediaInv (maxDatagram : Nat) (s : MediaWriters) : Prop where
  stream : s.stream.MediaOk maxDatagram
  audio : ∀ item, s.audioWriter = some item → item.Accepted maxDatagram
  mouse : ∀ item, s.mouseWriter = some item → item.Accepted

variable {maxDatagram : Nat} {s s' : MediaWriters} {parse : Bytes → Option Message}
  {c : SenderConfig}

theorem MediaInv.step (h : MediaInv maxDatagram s) (hparse : parse [] = some none)
    (hlimit : maxDatagram < u64Max) {a : MediaAction} (hstep : s.step parse c a = some s') :
    MediaInv maxDatagram s' := by
  have hstream := h.stream
  cases a with
  | enqueue latestKey payload =>
      obtain ⟨⟨stream, result⟩, henqueue, heq⟩ := Option.bind_eq_some_iff.mp hstep
      cases heq
      exact ⟨hstream.enqueue hparse hlimit henqueue, h.audio, h.mouse⟩
  | takeAudio =>
      simp only [MediaWriters.step] at hstep
      split at hstep
      · rename_i item rest _ hitems
        cases hstep
        have hmem : ∀ x ∈ rest, x ∈ s.stream.audio.items := by
          intro x hx
          rw [hitems]
          exact List.mem_cons_of_mem _ hx
        refine ⟨⟨hstream.size, hstream.format, fun x hx => hstream.audio x (hmem x hx),
          hstream.mouse, hstream.video⟩, ?_, h.mouse⟩
        intro x hx
        cases hx
        exact hstream.audio item (by rw [hitems]; exact List.mem_cons_self)
      · cases hstep
  | audioReturned =>
      cases hstep
      exact ⟨hstream, (fun _ hx => by cases hx), h.mouse⟩
  | takeMouse =>
      simp only [MediaWriters.step] at hstep
      split at hstep
      · rename_i item _ hlatest
        cases hstep
        refine ⟨⟨hstream.size, hstream.format, hstream.audio, (fun _ hx => by cases hx),
          hstream.video⟩, h.audio, ?_⟩
        intro x hx
        cases hx
        exact hstream.mouse item hlatest
      · cases hstep
  | mouseReturned =>
      cases hstep
      exact ⟨hstream, h.audio, (fun _ hx => by cases hx)⟩
  | video action =>
      have hsender : ∀ sender, (∀ latestKey frame payload,
          action ≠ .enqueue latestKey frame payload) → s.stream.sender.step c action = some sender →
          MediaInv maxDatagram { s with stream := { s.stream with sender := sender } } := by
        intro sender hlater hsend
        exact ⟨⟨hstream.size, hstream.format, hstream.audio, hstream.mouse,
          hstream.video.later hsend hlater⟩, h.audio, h.mouse⟩
      cases action with
      | order accepted => cases hstep
      | enqueue latestKey frame payload => cases hstep
      | _ =>
          obtain ⟨sender, hsend, heq⟩ := Option.bind_eq_some_iff.mp hstep
          cases heq
          exact hsender sender (fun _ _ _ ha => by cases ha) hsend

theorem mediaInv_of_reach (hparse : parse [] = some none) (hlimit : maxDatagram < u64Max)
    (hreach : (system parse c maxDatagram).Reach (fun _ _ => True) s) : MediaInv maxDatagram s := by
  refine hreach.invariant ?_ (fun _ _ _ h _ hstep => h.step hparse hlimit hstep)
  exact ⟨ApplicationStream.mediaOk_new maxDatagram, (fun _ hx => by cases hx),
    (fun _ hx => by cases hx)⟩

end MediaWriters

/-! ## What the encoders add -/

/-- A datagram sender in use: sequence numbers start at 1, and `checked_add` does not
wrap. -/
structure QuicDatagramSender.InUse (maxDatagram : Nat) (w : QuicDatagramSender) : Prop where
  negotiated : w.negotiatedMaxDatagramSize = maxDatagram
  session : w.sessionId.val.all (fun byte => byte == 0) = false
  video : w.nextVideoSequence ≠ 0
  audio : w.nextAudioSequence ≠ 0
  mouse : w.nextMouseSequence ≠ 0 ∧ w.nextMouseSequence ≤ u64Max

namespace QuicDatagramSender.InUse

variable {maxDatagram : Nat} {w : QuicDatagramSender} {connection : Connection} {current : Nat}

theorem maxDatagramSize (hw : w.InUse maxDatagram)
    (hpath : connection.maxDatagramSize = some current) (hlarge : maxDatagram ≤ current) :
    w.maxDatagramSize connection = .ok maxDatagram := by
  unfold QuicDatagramSender.maxDatagramSize
  rw [hpath, hw.negotiated]
  exact congrArg Except.ok (Nat.min_eq_right hlarge)

theorem mouseSequence (hw : w.InUse maxDatagram) :
    (UInt64.ofNat w.nextMouseSequence).toNat = w.nextMouseSequence := by
  have hle := hw.mouse.2
  refine UInt64.toNat_ofNat_of_lt' ?_
  show w.nextMouseSequence < 2 ^ 64
  unfold u64Max at hle
  omega

theorem encodeAudioItem_ok_iff (hw : w.InUse maxDatagram)
    (hpath : connection.maxDatagramSize = some current) (hlarge : maxDatagram ≤ current)
    (hmax : maxDatagram ≤ 65000) {item : AudioOutbound} (hitem : item.Accepted maxDatagram)
    (timestampUs captureTimestampUs : Nat) :
    (∃ datagram, w.encodeAudioItem connection timestampUs captureTimestampUs item = .ok datagram) ↔
      item.sampleRateHz ≤ 192000 := by
  have hfits : headerLen + audioPacketHeaderLen + item.payload.length ≤ maxDatagram := by
    have hroom := hitem.fits
    show 48 + 20 + item.payload.length ≤ maxDatagram
    omega
  simp only [encodeAudioItem, bind_eq_ok, mapError_eq_ok_iff,
    hw.maxDatagramSize hpath hlarge, Except.ok.injEq, exists_eq_left']
  rw [encodeAudioDatagram_ok_iff hw.session hitem.nonempty hfits (by omega),
    validateAudioMetadata_eq_none_iff]
  exact ⟨fun h => h.2.2.2, fun h => ⟨hw.audio, hitem.channels, hitem.sampleRateHz, h⟩⟩

theorem encodeMouseItem_ok_iff (hw : w.InUse maxDatagram)
    (hpath : connection.maxDatagramSize = some current) (hlarge : maxDatagram ≤ current)
    {item : MouseOutbound} (hitem : item.Accepted) (timestampUs : Nat) :
    (∃ datagram, w.encodeMouseItem connection timestampUs item = .ok datagram) ↔
      item.mode.InRange item.x item.y ∧ item.payload.length ≤ maxApplicationMouseBytes ∧
        headerLen + applicationMouseHeaderLen + item.payload.length ≤ maxDatagram := by
  have hsequence : (w.movement timestampUs item.mode item.x item.y 0
      item.buttonStateMask).sequenceNumber.toNat ≠ 0 := by
    show (UInt64.ofNat w.nextMouseSequence).toNat ≠ 0
    rw [hw.mouseSequence]
    exact hw.mouse.1
  simp only [encodeMouseItem, bind_eq_ok, mapError_eq_ok_iff, hw.maxDatagramSize hpath hlarge,
    Except.ok.injEq, exists_eq_left']
  exact encodeApplicationMouseMovement_ok_iff hw.session hsequence rfl hitem.buttons hitem.nonempty

theorem encodeVideoItem_ok_iff (hw : w.InUse maxDatagram)
    (hpath : connection.maxDatagramSize = some current) (hlarge : maxDatagram ≤ current)
    (hmin : 256 ≤ maxDatagram) (hmax : maxDatagram ≤ 65000) {item : VideoOutbound}
    (hitem : item.Accepted) (timestampUs : Nat) :
    (∃ datagrams, w.encodeVideoItem connection timestampUs item = .ok datagrams) ↔
      item.payload.length ≤ maxVideoFragments * (maxDatagram - 76) ∧
        w.nextVideoSequence + (chunkCount item.payload (maxDatagram - 76) - 1) ≤ u64Max := by
  have hlength : item.payload.length ≤ maxDatagramFrameBytes := hitem.2.trans (by decide)
  simp only [encodeVideoItem, bind_eq_ok, mapError_eq_ok_iff, hw.maxDatagramSize hpath hlarge,
    Except.ok.injEq, exists_eq_left']
  have hsmall : headerLen + videoFragmentHeaderLen < maxDatagram := by
    show 48 + 28 < maxDatagram
    omega
  exact fragmentVideoFrame_ok_iff hw.session hw.video hitem.1.frameId hitem.1.flags
    hitem.1.nonempty hlength hsmall (show maxDatagram ≤ 64 * 1024 by omega)

end QuicDatagramSender.InUse

namespace MediaWriters

/-- Of what `enqueue` has accepted, the writers can encode exactly the audio with a
sample rate of at most 192 kHz, the mouse messages with coordinates in range that are
short enough for a datagram, and the video frames that need at most 32768 datagrams,
as long as there are sequence numbers for them. -/
theorem media_encodes_iff (parse : Bytes → Option Message) (hparse : parse [] = some none)
    (c : SenderConfig) (maxDatagram : Nat) (hmin : 256 ≤ maxDatagram) (hmax : maxDatagram ≤ 65000)
    {s : MediaWriters} (hreach : (system parse c maxDatagram).Reach (fun _ _ => True) s)
    (w : QuicDatagramSender) (hw : w.InUse maxDatagram) (connection : Connection) {current : Nat}
    (hpath : connection.maxDatagramSize = some current) (hlarge : maxDatagram ≤ current)
    (timestampUs captureTimestampUs : Nat) :
    (∀ item, s.audioWriter = some item →
      ((∃ datagram,
        w.encodeAudioItem connection timestampUs captureTimestampUs item = .ok datagram) ↔
        item.sampleRateHz ≤ 192000)) ∧
    (∀ item, s.mouseWriter = some item →
      ((∃ datagram, w.encodeMouseItem connection timestampUs item = .ok datagram) ↔
        item.mode.InRange item.x item.y ∧ item.payload.length ≤ maxApplicationMouseBytes ∧
          headerLen + applicationMouseHeaderLen + item.payload.length ≤ maxDatagram)) ∧
    (∀ item, s.stream.sender.writer = .sending item →
      ((∃ datagrams, w.encodeVideoItem connection timestampUs item = .ok datagrams) ↔
        item.payload.length ≤ maxVideoFragments * (maxDatagram - 76) ∧
          w.nextVideoSequence + (chunkCount item.payload (maxDatagram - 76) - 1) ≤ u64Max)) := by
  have hinv : MediaInv maxDatagram s :=
    mediaInv_of_reach hparse (lt_of_le_of_lt hmax (by decide)) hreach
  refine ⟨fun item hitem => ?_, fun item hitem => ?_, fun item hitem => ?_⟩
  · exact hw.encodeAudioItem_ok_iff hpath hlarge hmax (hinv.audio item hitem) _ _
  · exact hw.encodeMouseItem_ok_iff hpath hlarge (hinv.mouse item hitem) _
  · have hheld : item ∈ s.stream.sender.writer.held := by
      rw [hitem]
      exact List.mem_cons_self
    exact hw.encodeVideoItem_ok_iff hpath hlarge hmin hmax (hinv.stream.video.items.held item hheld) _

/-- An audio format of 384 kHz and two channels, an audio frame of three bytes, a jump
of the pointer to x = 2000000, and moves by three and by four. -/
def format384 : Bytes := [0x9a, 0x01, 0x08, 0x42, 0x06, 0x08, 0x80, 0xb8, 0x17, 0x10, 0x02]

def frame3 : Bytes := [0x5a, 0x05, 0x0a, 0x03, 0x01, 0x02, 0x03]

def farJump : Bytes := [0x52, 0x05, 0x10, 0x80, 0x92, 0xf4, 0x01]

def moveBy3 : Bytes := [0x52, 0x04, 0x08, 0x05, 0x10, 0x06]

def moveBy4 : Bytes := [0x52, 0x04, 0x08, 0x05, 0x10, 0x08]

/-- What these and the empty message decode to. -/
def parseSamples (payload : Bytes) : Option Message :=
  if payload = [] then some none
  else if payload = format384 then some (some (.misc (some (.audioFormat 384000 2))))
  else if payload = frame3 then some (some .audioFrame)
  else if payload = farJump then some (some (.mouseEvent 0 2000000 0))
  else if payload = moveBy3 then some (some (.mouseEvent 5 3 0))
  else if payload = moveBy4 then some (some (.mouseEvent 5 4 0))
  else none

def mediaSession : SessionId := ⟨List.replicate 16 9, rfl⟩

def mediaSender : QuicDatagramSender := .new mediaSession 1200

def mediaConfig : SenderConfig :=
  { maxTracks := 16, reliableKeyframes := true, keyframeBarrier := true
    scopedReferenceRefresh := true }

def mediaConnection : Connection :=
  { closed := false, maxDatagramSize := some 1400, capacity := 2097152, space := 2097152
    sent := [], space_le := Nat.le_refl _ }

theorem mediaSender_inUse : mediaSender.InUse 1200 :=
  ⟨rfl, by decide, by decide, by decide, by decide, by decide⟩

theorem media_encodes_iff_move :
    ∃ s item, (system parseSamples mediaConfig 1200).run [.enqueue none moveBy3, .takeMouse] =
      some s ∧ s.mouseWriter = some item ∧
      ∃ datagram, mediaSender.encodeMouseItem mediaConnection 1 item = .ok datagram := by
  have hrun : ((system parseSamples mediaConfig 1200).run
      [.enqueue none moveBy3, .takeMouse]).map (fun s => s.mouseWriter) =
        some (some { mode := .relative, x := 3, y := 0, buttonStateMask := 0
                     payload := moveBy3 }) := by
    decide +kernel
  obtain ⟨s, hs, hwriter⟩ := Option.map_eq_some_iff.mp hrun
  refine ⟨s, _, hs, hwriter, ?_⟩
  refine ((media_encodes_iff parseSamples rfl mediaConfig 1200 (by decide) (by decide)
    (TSys.reach_of_any_run _ hs) mediaSender mediaSender_inUse mediaConnection rfl (by decide)
    1 0).2.1 _ hwriter).mpr ?_
  decide

/-- `enqueue` accepts an audio frame behind a format of 384 kHz and a jump of the
pointer to x = 2000000; the writers end the session on both. -/
theorem accepted_but_not_encodable :
    (∃ s₁ s₂ item,
      (ApplicationStream.new 1200).enqueue parseSamples mediaConfig format384 =
        some (s₁, .ok ()) ∧
      s₁.enqueue parseSamples mediaConfig frame3 = some (s₂, .ok ()) ∧
      s₂.audio.items = [item] ∧
      mediaSender.encodeAudioItem mediaConnection 1 0 item =
        .error (.audio (.invalid (.invalidSampleRate 384000)))) ∧
    ∃ s item,
      (ApplicationStream.new 1200).enqueue parseSamples mediaConfig farJump = some (s, .ok ()) ∧
      s.latestMouse = some item ∧
      mediaSender.encodeMouseItem mediaConnection 1 item = .error (.input .invalidCoordinates) := by
  constructor
  · refine ⟨{ ApplicationStream.new 1200 with
        audioFormat := 2 * 2 ^ 32 + 384000
        control :=
          { items := [{ messageType := .applicationControl, payload := format384 }]
            capacity := 128, closed := false } },
      { ApplicationStream.new 1200 with
        audioFormat := 2 * 2 ^ 32 + 384000
        control :=
          { items := [{ messageType := .applicationControl, payload := format384 }]
            capacity := 128, closed := false }
        audio :=
          { items :=
              [{ captureTimestampUs := 0, channels := 2, sampleRateHz := 384000
                 payload := frame3 }]
            capacity := 64, closed := false } }, _, ?_, ?_, rfl, ?_⟩ <;> decide +kernel
  · refine ⟨{ ApplicationStream.new 1200 with
        latestMouse := some { mode := .absolute, x := 2000000, y := 0, buttonStateMask := 0
                              payload := farJump } }, _, ?_, rfl, ?_⟩ <;> decide +kernel

end MediaWriters

end HbbCommon.Transport
