import HbbCommon.Transport.Input

/-!
# The input codecs

A reliable event is decoded from its own 24 bytes only. A pointer movement is
decoded from its datagram, whatever flags the message header has: the flags belong
to the envelope, and no decoder behind the envelope looks at them. The two pointer
formats differ in length, which is what the receiver tells them apart by.
-/

namespace HbbCommon.Transport

open HbbCommon.Base

/-! ## Checks -/

theorem validateDisplayId_eq_ok_iff {displayId : UInt32} :
    validateDisplayId displayId = .ok () ↔ displayId ≤ maxDisplayId := by
  rw [validateDisplayId, check_eq_ok, gt_iff_lt, UInt32.not_lt]
  simp

theorem validateCoordinates_eq_ok_iff {limit : Int} {x y : Int32} :
    validateCoordinates limit x y = .ok () ↔ CoordinatesWithin limit x y := by
  rw [validateCoordinates, check_eq_ok, not_not]
  simp

/-- What `decode_reliable_input` checks of the values. -/
def ReliableInputEvent.Valid : ReliableInputEvent → Prop
  | .key keyCode _ _ => keyCode ≠ 0
  | .mouseButton _ _ x y displayId =>
      displayId ≤ maxDisplayId ∧ CoordinatesWithin maxAbsoluteCoordinate x y
  | .wheel deltaX deltaY displayId => displayId ≤ maxDisplayId ∧ CoordinatesWithin 100000 deltaX deltaY

/-! ## Reliable events -/

theorem boolByte_of_known {flags : UInt8} (h : flags &&& ~~~1 = 0) :
    flags = boolByte (flags != 0) := by
  have hall : ∀ n < 256, UInt8.ofNat n &&& ~~~1 = 0 →
      UInt8.ofNat n = boolByte (UInt8.ofNat n != 0) := by
    decide +kernel
  have hflags := hall flags.toNat flags.toNat_lt
  rw [UInt8.ofNat_toNat] at hflags
  exact hflags h

theorem boolByte_known (b : Bool) : boolByte b &&& ~~~1 = 0 ∧ (boolByte b != 0) = b := by
  cases b <;> decide

@[simp] theorem length_encodeReliableInput (event : ReliableInputEvent) :
    (encodeReliableInput event).length = reliableInputPayloadLen := by
  cases event <;>
    simp only [encodeReliableInput, ReliableInputEvent.fields, List.flatten_cons, List.flatten_nil,
      List.length_append, length_toBeBytes, List.length_nil, reliableInputPayloadLen]

/-- An event is decoded from what is encoded for it, and only if it is valid. -/
theorem decodeReliableInput_eq_ok_iff {payload : Bytes} {event : ReliableInputEvent} :
    (decodeReliableInput payload).run = some (.ok event) ↔
      event.Valid ∧ encodeReliableInput event = payload := by
  constructor
  · intro h
    simp only [decodeReliableInput, run_check_eq_ok, run_bind_eq_ok, run_liftM_eq_ok, not_or,
      not_not, ne_eq, readU8_eq_some_iff, readU16_eq_some_iff, readU32_eq_some_iff] at h
    obtain ⟨hlength, _, h2, _, h20, ⟨rfl, rfl⟩, flags, h1, hflags, kind, h0, h⟩ := h
    have hsame : ∀ event : ReliableInputEvent, FieldsAt payload 0 event.fields →
        encodeReliableInput event = payload := by
      intro event hfields
      refine (hfields.eq_flatten ?_).symm
      rw [hlength]
      exact (length_encodeReliableInput event).symm
    split at h
    · subst kind
      simp only [run_check_eq_ok, run_bind_eq_ok, run_liftM_eq_ok, run_pure_eq_ok, not_or, not_not,
        readU32_eq_some_iff, readI32_eq_some_iff] at h
      obtain ⟨keyCode, h4, _, h8, _, h12, ⟨hcode, rfl, rfl⟩, modifiers, h16, rfl⟩ := h
      refine ⟨hcode, hsame _ ?_⟩
      rw [boolByte_of_known hflags] at h1
      simp only [ReliableInputEvent.fields, FieldsAt, length_toBeBytes]
      exact ⟨h0, h1, h2, h4, h8, h12, h16, h20, trivial⟩
    · split at h
      · subst kind
        simp only [run_check_eq_ok, run_bind_eq_ok, run_liftM_eq_ok, run_except_eq_ok,
          run_pure_eq_ok, not_not, readU8_eq_some_iff, readU32_eq_some_iff,
          readI32_eq_some_iff, MouseButton.tryFrom_eq_ok_iff] at h
        obtain ⟨_, h5, rfl, displayId, h16, _, hdisplay, x, h8, y, h12, _, hcoordinates, _, h4,
          button, rfl, rfl⟩ := h
        refine ⟨⟨validateDisplayId_eq_ok_iff.mp hdisplay,
          validateCoordinates_eq_ok_iff.mp hcoordinates⟩, hsame _ ?_⟩
        rw [boolByte_of_known hflags] at h1
        simp only [ReliableInputEvent.fields, FieldsAt, length_toBeBytes]
        exact ⟨h0, h1, h2, h4, h5, h8, h12, h16, h20, trivial⟩
      · split at h
        · subst kind
          simp only [run_check_eq_ok, run_bind_eq_ok, run_liftM_eq_ok, run_except_eq_ok,
            run_pure_eq_ok, not_or, not_not, readU32_eq_some_iff, readI32_eq_some_iff] at h
          obtain ⟨_, h4, ⟨rfl, rfl⟩, displayId, h16, _, hdisplay, deltaX, h8, deltaY, h12, _,
            hcoordinates, rfl⟩ := h
          refine ⟨⟨validateDisplayId_eq_ok_iff.mp hdisplay,
          validateCoordinates_eq_ok_iff.mp hcoordinates⟩, hsame _ ?_⟩
          simp only [ReliableInputEvent.fields, FieldsAt, length_toBeBytes]
          exact ⟨h0, h1, h2, h4, h8, h12, h16, h20, trivial⟩
        · cases h
  · rintro ⟨hvalid, rfl⟩
    have hlength := length_encodeReliableInput event
    have hfields := fieldsAt_flatten event.fields
    rw [show event.fields.flatten = encodeReliableInput event from rfl] at hfields
    generalize encodeReliableInput event = payload at hfields hlength
    cases event with
    | key keyCode pressed modifiers =>
        obtain ⟨hknown, hpressed⟩ := boolByte_known pressed
        simp only [ReliableInputEvent.fields, FieldsAt, length_toBeBytes] at hfields
        obtain ⟨h0, h1, h2, h4, h8, h12, h16, h20, -⟩ := hfields
        simp only [decodeReliableInput, run_check_eq_ok, run_bind_eq_ok, run_liftM_eq_ok, not_or,
          not_not, readU8_eq_some_iff, readU16_eq_some_iff, readU32_eq_some_iff]
        refine ⟨hlength, 0, h2, 0, h20, ⟨rfl, rfl⟩, _, h1, hknown, 1, h0, ?_⟩
        rw [if_pos rfl]
        simp only [run_check_eq_ok, run_bind_eq_ok, run_liftM_eq_ok, run_pure_eq_ok, not_or,
          not_not, readU32_eq_some_iff, readI32_eq_some_iff]
        exact ⟨keyCode, h4, 0, h8, 0, h12, ⟨hvalid, rfl, rfl⟩, modifiers, h16, by rw [hpressed]⟩
    | mouseButton button pressed x y displayId =>
        obtain ⟨hknown, hpressed⟩ := boolByte_known pressed
        simp only [ReliableInputEvent.fields, FieldsAt, length_toBeBytes] at hfields
        obtain ⟨h0, h1, h2, h4, h5, h8, h12, h16, h20, -⟩ := hfields
        simp only [decodeReliableInput, run_check_eq_ok, run_bind_eq_ok, run_liftM_eq_ok, not_or,
          not_not, readU8_eq_some_iff, readU16_eq_some_iff, readU32_eq_some_iff]
        refine ⟨hlength, 0, h2, 0, h20, ⟨rfl, rfl⟩, _, h1, hknown, 2, h0, ?_⟩
        rw [if_neg (by decide), if_pos rfl]
        simp only [run_check_eq_ok, run_bind_eq_ok, run_liftM_eq_ok, run_except_eq_ok,
          run_pure_eq_ok, not_not, readU8_eq_some_iff, readU32_eq_some_iff,
          readI32_eq_some_iff, MouseButton.tryFrom_eq_ok_iff]
        exact ⟨_, h5, rfl, displayId, h16, (), validateDisplayId_eq_ok_iff.mpr hvalid.1, x, h8, y, h12,
          (), validateCoordinates_eq_ok_iff.mpr hvalid.2, _, h4, button, rfl, by rw [hpressed]⟩
    | wheel deltaX deltaY displayId =>
        simp only [ReliableInputEvent.fields, FieldsAt, length_toBeBytes] at hfields
        obtain ⟨h0, h1, h2, h4, h8, h12, h16, h20, -⟩ := hfields
        simp only [decodeReliableInput, run_check_eq_ok, run_bind_eq_ok, run_liftM_eq_ok, not_or,
          not_not, readU8_eq_some_iff, readU16_eq_some_iff, readU32_eq_some_iff]
        refine ⟨hlength, 0, h2, 0, h20, ⟨rfl, rfl⟩, 0, h1, by decide, 3, h0, ?_⟩
        rw [if_neg (by decide), if_neg (by decide), if_pos rfl]
        simp only [run_check_eq_ok, run_bind_eq_ok, run_liftM_eq_ok, run_except_eq_ok,
          run_pure_eq_ok, not_or, not_not, readU32_eq_some_iff, readI32_eq_some_iff]
        exact ⟨0, h4, by simp, displayId, h16, (), validateDisplayId_eq_ok_iff.mpr hvalid.1, deltaX,
          h8, deltaY, h12, (), validateCoordinates_eq_ok_iff.mpr hvalid.2, rfl⟩

/-! ## Pointer datagrams -/

/-- The header of a pointer datagram; the encoders leave the flags at zero. -/
def mouseHeader (sessionId : SessionId) (flags : Nat) (movement : MouseMovement)
    (payloadLength : Nat) : MessageHeader :=
  { messageType := .mouseMovement, flags := flags, channel := .mouseDatagram
    sessionId := sessionId, sequenceNumber := movement.sequenceNumber.toNat
    payloadLength := payloadLength
    monotonicTimestampUs := movement.monotonicTimestampUs.toNat }

/-- A message with other flags in its header. -/
def withFlags (datagram : Bytes) (flags : Nat) : Bytes :=
  datagram.take 8 ++ toBeBytes 2 flags ++ datagram.drop 10

theorem withFlags_bytes (header : MessageHeader) (payload : Bytes) (flags : Nat) :
    withFlags (header.bytes ++ payload) flags =
      ({ header with flags := flags } : MessageHeader).bytes ++ payload := by
  have hfront : ((header.fields.take 3).flatten : Bytes).length = 8 := rfl
  have hflags : (toBeBytes 2 header.flags).length = 2 := rfl
  have hsplit : header.bytes ++ payload = (header.fields.take 3).flatten ++
      (toBeBytes 2 header.flags ++ ((header.fields.drop 4).flatten ++ payload)) := by
    simp only [MessageHeader.bytes, MessageHeader.fields, List.take_succ_cons, List.take_zero,
      List.drop_succ_cons, List.drop_zero, List.flatten_cons, List.flatten_nil, List.append_assoc,
      List.append_nil]
  have hdrop : (header.bytes ++ payload).drop 10 = (header.fields.drop 4).flatten ++ payload := by
    rw [hsplit, ← List.append_assoc]
    exact List.drop_left' (by rw [List.length_append, hfront, hflags])
  unfold withFlags
  rw [hdrop, hsplit, List.take_left' hfront]
  simp only [MessageHeader.bytes, MessageHeader.fields, List.take_succ_cons, List.take_zero,
    List.drop_succ_cons, List.drop_zero, List.flatten_cons, List.flatten_nil, List.append_assoc,
    List.append_nil]

theorem encodeMouseMessage_eq_ok_iff {sessionId : SessionId} {movement : MouseMovement}
    {payload datagram : Bytes} :
    encodeMouseMessage sessionId movement payload = .ok datagram ↔
      validateFields .mouseMovement 0 .mouseDatagram sessionId movement.sequenceNumber.toNat
        payload.length = .ok () ∧
      datagram = (mouseHeader sessionId 0 movement payload.length).bytes ++ payload := by
  unfold encodeMouseMessage
  constructor
  · intro h
    split at h
    · cases h
    · rename_i header hnew
      obtain ⟨hvalid, rfl⟩ := MessageHeader.new_eq_ok_iff.mp hnew
      split at h
      · cases h
      · rename_i bytes hencode
        cases h
        exact ⟨hvalid, (encodeMessage_eq_ok_iff.mp hencode).2.2⟩
  · rintro ⟨hvalid, rfl⟩
    have hnew : MessageHeader.new .mouseMovement 0 sessionId movement.sequenceNumber.toNat
        payload.length movement.monotonicTimestampUs.toNat =
          .ok (mouseHeader sessionId 0 movement payload.length) :=
      MessageHeader.new_eq_ok_iff.mpr ⟨hvalid, rfl⟩
    have hencode := encodeMessage_eq_ok_iff.mpr
      (show _ ∧ (mouseHeader sessionId 0 movement payload.length).payloadLength = payload.length ∧
        _ from ⟨hvalid, rfl, rfl⟩)
    rw [hnew]
    simp only [hencode]

/-- A pointer datagram decodes to its header and its payload. -/
theorem messageOf_mouseHeader {sessionId : SessionId} {flags : Nat} {movement : MouseMovement}
    {payload : Bytes} (hflags : flags < firstUnknownFlag)
    (hvalid : validateFields .mouseMovement 0 .mouseDatagram sessionId
      movement.sequenceNumber.toNat payload.length = .ok ()) :
    messageOf ((mouseHeader sessionId flags movement payload.length).bytes ++ payload) =
      .ok ⟨mouseHeader sessionId flags movement payload.length, payload⟩ := by
  obtain ⟨_, hchannel, hsession, hnumber, hlimit⟩ := validateFields_eq_ok_iff.mp hvalid
  have hfits : (mouseHeader sessionId flags movement payload.length).Fits :=
    ⟨lt_trans hflags (by decide), movement.sequenceNumber.toNat_lt,
      lt_of_le_of_lt hlimit (by decide), movement.monotonicTimestampUs.toNat_lt⟩
  refine messageOf_eq_ok_iff.mpr (decodeMessage_eq_ok_iff.mpr ⟨hfits, ?_⟩)
  exact encodeMessage_eq_ok_iff.mpr
    ⟨validateFields_eq_ok_iff.mpr ⟨hflags, hchannel, hsession, hnumber, hlimit⟩, rfl, rfl⟩

/-- The pointer datagrams with a given payload: an encoding, with any known flags. -/
theorem messageOf_mouse_iff {datagram payload : Bytes} {movement : MouseMovement} :
    (∃ message, messageOf datagram = .ok message ∧
      message.header.messageType = .mouseMovement ∧
      message.header.sequenceNumber = movement.sequenceNumber.toNat ∧
      message.header.monotonicTimestampUs = movement.monotonicTimestampUs.toNat ∧
      message.payload = payload) ↔
    ∃ sessionId flags encoded, flags < firstUnknownFlag ∧
      encodeMouseMessage sessionId movement payload = .ok encoded ∧
      datagram = withFlags encoded flags := by
  constructor
  · rintro ⟨⟨header, payload'⟩, hmessage, htype, hsequence, htimestamp, rfl⟩
    obtain ⟨hfits, hencode⟩ := decodeMessage_eq_ok_iff.mp (messageOf_eq_ok_iff.mp hmessage)
    obtain ⟨hvalid, hlength, rfl⟩ := encodeMessage_eq_ok_iff.mp hencode
    obtain ⟨hflags, hchannel, hsession, hnumber, hlimit⟩ := validateFields_eq_ok_iff.mp hvalid
    simp only at htype hsequence htimestamp hlength hchannel hflags
    rw [htype] at hchannel hlimit
    rw [hsequence] at hnumber
    refine ⟨header.sessionId, header.flags, _, hflags, encodeMouseMessage_eq_ok_iff.mpr
      ⟨validateFields_eq_ok_iff.mpr ⟨by decide, rfl, hsession, hnumber, hlimit⟩, rfl⟩, ?_⟩
    rw [withFlags_bytes]
    congr 2
    rw [mouseHeader, ← htype, ← hsequence, ← htimestamp, ← hlength,
      show ChannelId.mouseDatagram = header.channel from hchannel.symm]
  · rintro ⟨sessionId, flags, encoded, hflags, hencode, rfl⟩
    obtain ⟨hvalid, rfl⟩ := encodeMouseMessage_eq_ok_iff.mp hencode
    rw [withFlags_bytes]
    exact ⟨_, messageOf_mouseHeader hflags hvalid, rfl, rfl, rfl, rfl⟩

/-- The reads that both formats share. -/
theorem readMouseMovement_eq_ok_iff {message : ParsedMessage} {movement : MouseMovement}
    (hfits : message.header.Fits) :
    (readMouseMovement message).run = some (.ok movement) ↔
      message.header.sequenceNumber = movement.sequenceNumber.toNat ∧
      message.header.monotonicTimestampUs = movement.monotonicTimestampUs.toNat ∧
      slice message.payload 0 1 = some (toBeBytes 1 movement.mode.code.toNat) ∧
      slice message.payload 2 2 = some (toBeBytes 2 movement.buttonStateMask.toNat) ∧
      slice message.payload 4 4 = some (toBeBytes 4 movement.displayId.toNat) ∧
      slice message.payload 8 4 = some (toBeBytes 4 movement.x.toUInt32.toNat) ∧
      slice message.payload 12 4 = some (toBeBytes 4 movement.y.toUInt32.toNat) ∧
      validateMouseMovement movement = .ok () := by
  simp only [readMouseMovement, run_bind_eq_ok, run_liftM_eq_ok, run_except_eq_ok, run_pure_eq_ok,
    readU8_eq_some_iff, readU16_eq_some_iff, readU32_eq_some_iff, readI32_eq_some_iff,
    MouseMovementMode.tryFrom_eq_ok_iff]
  constructor
  · rintro ⟨_, h0, mode, rfl, mask, h2, displayId, h4, x, h8, y, h12, _, hvalid, rfl⟩
    exact ⟨(UInt64.toNat_ofNat_of_lt hfits.sequenceNumber).symm,
      (UInt64.toNat_ofNat_of_lt hfits.monotonicTimestampUs).symm, h0, h2, h4, h8, h12, hvalid⟩
  · rintro ⟨hsequence, htimestamp, h0, h2, h4, h8, h12, hvalid⟩
    have hsame : ({ sequenceNumber := UInt64.ofNat message.header.sequenceNumber
                    monotonicTimestampUs := UInt64.ofNat message.header.monotonicTimestampUs
                    mode := movement.mode, x := movement.x, y := movement.y
                    displayId := movement.displayId
                    buttonStateMask := movement.buttonStateMask } : MouseMovement) = movement := by
      rw [hsequence, htimestamp, UInt64.ofNat_toNat, UInt64.ofNat_toNat]
    refine ⟨_, h0, _, rfl, _, h2, _, h4, _, h8, _, h12, (), ?_, hsame⟩
    rw [hsame]
    exact hvalid

theorem mapError_eq_ok_iff {ε ε' α : Type} {f : ε → ε'} {x : Except ε α} {a : α} :
    x.mapError f = .ok a ↔ x = .ok a := by
  cases x with
  | error e => simp [Except.mapError]
  | ok b => simp [Except.mapError]

theorem fits_of_messageOf {datagram : Bytes} {message : ParsedMessage}
    (h : messageOf datagram = .ok message) : message.header.Fits :=
  (decodeMessage_eq_ok_iff.mp (messageOf_eq_ok_iff.mp h)).1

@[simp] theorem MouseMovement.length_payload (movement : MouseMovement) :
    movement.payload.length = mouseMovementPayloadLen := by
  simp only [MouseMovement.payload, MouseMovement.fields, List.cons_append, List.nil_append,
    List.flatten_cons, List.flatten_nil, List.length_append, length_toBeBytes, List.length_nil,
    mouseMovementPayloadLen]

@[simp] theorem MouseMovement.length_applicationPayload (movement : MouseMovement)
    (application : Bytes) :
    (movement.applicationPayload application).length =
      applicationMouseHeaderLen + application.length := by
  simp only [MouseMovement.applicationPayload, MouseMovement.fields, List.cons_append,
    List.nil_append, List.flatten_cons, List.flatten_nil, List.length_append, length_toBeBytes,
    List.length_nil, applicationMouseHeaderLen]
  omega

theorem decodeMouseMovement_eq_ok_iff_message {datagram : Bytes} {movement : MouseMovement} :
    (decodeMouseMovement datagram).run = some (.ok movement) ↔
      validateMouseMovement movement = .ok () ∧
      ∃ message, messageOf datagram = .ok message ∧
        message.header.messageType = .mouseMovement ∧
        message.header.sequenceNumber = movement.sequenceNumber.toNat ∧
        message.header.monotonicTimestampUs = movement.monotonicTimestampUs.toNat ∧
        message.payload = movement.payload := by
  simp only [decodeMouseMovement, run_bind_eq_ok, run_except_eq_ok, run_check_eq_ok,
    run_liftM_eq_ok, mapError_eq_ok_iff, not_or, not_not, readU8_eq_some_iff,
    readU32_eq_some_iff]
  constructor
  · rintro ⟨message, hmessage, htype, hlength, _, h1, _, h16, ⟨rfl, rfl⟩, hread⟩
    obtain ⟨hsequence, htimestamp, h0, h2, h4, h8, h12, hvalid⟩ :=
      (readMouseMovement_eq_ok_iff (fits_of_messageOf hmessage)).mp hread
    refine ⟨hvalid, message, hmessage, htype, hsequence, htimestamp, ?_⟩
    apply FieldsAt.eq_flatten
    · simp only [MouseMovement.fields, List.cons_append, List.nil_append, FieldsAt,
        length_toBeBytes]
      exact ⟨h0, h1, h2, h4, h8, h12, h16, trivial⟩
    · rw [hlength]
      exact movement.length_payload.symm
  · rintro ⟨hvalid, message, hmessage, htype, hsequence, htimestamp, hpayload⟩
    have hfields := fieldsAt_flatten (movement.fields ++ [toBeBytes 4 0])
    rw [show (movement.fields ++ [toBeBytes 4 0]).flatten = message.payload from hpayload.symm]
      at hfields
    simp only [MouseMovement.fields, List.cons_append, List.nil_append, FieldsAt,
      length_toBeBytes] at hfields
    obtain ⟨h0, h1, h2, h4, h8, h12, h16, -⟩ := hfields
    exact ⟨message, hmessage, htype, by rw [hpayload, MouseMovement.length_payload], 0, h1, 0, h16,
      ⟨rfl, rfl⟩, (readMouseMovement_eq_ok_iff (fits_of_messageOf hmessage)).mpr
        ⟨hsequence, htimestamp, h0, h2, h4, h8, h12, hvalid⟩⟩

theorem decodeApplicationMouseMovement_eq_ok_iff_message {datagram application : Bytes}
    {movement : MouseMovement} :
    (decodeApplicationMouseMovement datagram).run = some (.ok (movement, application)) ↔
      validateMouseMovement movement = .ok () ∧
      (application.length ≠ 0 ∧ application.length ≤ maxApplicationMouseBytes) ∧
      ∃ message, messageOf datagram = .ok message ∧
        message.header.messageType = .mouseMovement ∧
        message.header.sequenceNumber = movement.sequenceNumber.toNat ∧
        message.header.monotonicTimestampUs = movement.monotonicTimestampUs.toNat ∧
        message.payload = movement.applicationPayload application := by
  have hheader : applicationMouseHeaderLen = 24 := rfl
  simp only [decodeApplicationMouseMovement, run_bind_eq_ok, run_except_eq_ok, run_check_eq_ok,
    run_liftM_eq_ok, run_pure_eq_ok, mapError_eq_ok_iff, not_or, not_not, readU8_eq_some_iff,
    readU32_eq_some_iff, Nat.not_lt, gt_iff_lt]
  constructor
  · rintro ⟨message, hmessage, ⟨htype, hlong⟩, _, h1, _, h20, ⟨rfl, rfl⟩, len, h16,
      ⟨hnonempty, hlimit, hlen⟩, movement', hread, heq⟩
    cases heq
    obtain ⟨hsequence, htimestamp, h0, h2, h4, h8, h12, hvalid⟩ :=
      (readMouseMovement_eq_ok_iff (fits_of_messageOf hmessage)).mp hread
    have hrest : slice message.payload 24 (message.payload.drop 24).length =
        some (message.payload.drop 24) :=
      (slice_eq_some_iff hlong).mpr (List.prefix_refl _)
    rw [hlen] at h16 hnonempty hlimit
    refine ⟨hvalid, ⟨hnonempty, hlimit⟩, message, hmessage, htype, hsequence, htimestamp, ?_⟩
    apply FieldsAt.eq_flatten
    · simp only [MouseMovement.fields, List.cons_append, List.nil_append, FieldsAt,
        length_toBeBytes]
      exact ⟨h0, h1, h2, h4, h8, h12, h16, h20, hrest, trivial⟩
    · have hlength := movement.length_applicationPayload
        (message.payload.drop applicationMouseHeaderLen)
      rw [List.length_drop] at hlength
      refine Eq.trans ?_ hlength.symm
      omega
  · rintro ⟨hvalid, ⟨hnonempty, hlimit⟩, message, hmessage, htype, hsequence, htimestamp, hpayload⟩
    have hlength : message.payload.length = 24 + application.length := by
      rw [hpayload, MouseMovement.length_applicationPayload, hheader]
    have hfields := fieldsAt_flatten
      (movement.fields ++ [toBeBytes 4 application.length, toBeBytes 4 0, application])
    rw [show (movement.fields ++ [toBeBytes 4 application.length, toBeBytes 4 0,
      application]).flatten = message.payload from hpayload.symm] at hfields
    simp only [MouseMovement.fields, List.cons_append, List.nil_append, FieldsAt,
      length_toBeBytes] at hfields
    obtain ⟨h0, h1, h2, h4, h8, h12, h16, h20, h24, -⟩ := hfields
    have hlen : (UInt32.ofNat application.length).toNat = application.length :=
      UInt32.toNat_ofNat_of_lt (lt_of_le_of_lt hlimit (by decide))
    have hdrop : message.payload.drop applicationMouseHeaderLen = application := by
      have hpre := (slice_eq_some_iff (by omega)).mp h24
      refine (hpre.eq_of_length ?_).symm
      rw [List.length_drop]
      omega
    refine ⟨message, hmessage, ⟨htype, by omega⟩, 0, h1, 0, h20, ⟨rfl, rfl⟩,
      UInt32.ofNat application.length, by rw [hlen]; exact h16, ?_, movement,
      (readMouseMovement_eq_ok_iff (fits_of_messageOf hmessage)).mpr
        ⟨hsequence, htimestamp, h0, h2, h4, h8, h12, hvalid⟩, by rw [hdrop]⟩
    rw [hlen, hdrop]
    exact ⟨hnonempty, hlimit, rfl⟩

theorem encodeMouseMovement_eq_ok_iff {sessionId : SessionId} {movement : MouseMovement}
    {maxDatagramSize : Nat} {datagram : Bytes} :
    encodeMouseMovement sessionId movement maxDatagramSize = .ok datagram ↔
      validateMouseMovement movement = .ok () ∧
      headerLen + mouseMovementPayloadLen ≤ maxDatagramSize ∧
      encodeMouseMessage sessionId movement movement.payload = .ok datagram := by
  simp only [encodeMouseMovement, bind_eq_ok, check_eq_ok, gt_iff_lt, Nat.not_lt]
  exact ⟨fun ⟨_, hvalid, h⟩ => ⟨hvalid, h⟩, fun ⟨hvalid, h⟩ => ⟨(), hvalid, h⟩⟩

theorem encodeApplicationMouseMovement_eq_ok_iff {sessionId : SessionId}
    {movement : MouseMovement} {application : Bytes} {maxDatagramSize : Nat} {datagram : Bytes} :
    encodeApplicationMouseMovement sessionId movement application maxDatagramSize = .ok datagram ↔
      validateMouseMovement movement = .ok () ∧
      (application.length ≠ 0 ∧ application.length ≤ maxApplicationMouseBytes) ∧
      headerLen + applicationMouseHeaderLen + application.length ≤ maxDatagramSize ∧
      encodeMouseMessage sessionId movement (movement.applicationPayload application) =
        .ok datagram := by
  simp only [encodeApplicationMouseMovement, bind_eq_ok, check_eq_ok, not_or, gt_iff_lt,
    Nat.not_lt]
  exact ⟨fun ⟨_, hvalid, h⟩ => ⟨hvalid, h⟩, fun ⟨hvalid, h⟩ => ⟨(), hvalid, h⟩⟩

/-- What the encoder makes of a movement is decoded to it, in its session. -/
theorem decode_of_encodeApplication {sessionId : SessionId} {movement : MouseMovement}
    {application : Bytes} {maxDatagramSize : Nat} {datagram : Bytes}
    (hencode : encodeApplicationMouseMovement sessionId movement application maxDatagramSize =
      .ok datagram) :
    (decodeApplicationMouseMovement datagram).run = some (.ok (movement, application)) ∧
      ∃ message, messageOf datagram = .ok message ∧ message.header.sessionId = sessionId := by
  obtain ⟨hmovement, hlength, _, hmessage⟩ := encodeApplicationMouseMovement_eq_ok_iff.mp hencode
  obtain ⟨hvalid, rfl⟩ := encodeMouseMessage_eq_ok_iff.mp hmessage
  have hdecoded := messageOf_mouseHeader (show 0 < firstUnknownFlag by decide) hvalid
  exact ⟨decodeApplicationMouseMovement_eq_ok_iff_message.mpr
    ⟨hmovement, hlength, _, hdecoded, rfl, rfl, rfl, rfl⟩, _, hdecoded, rfl⟩

/-- The header decides the route of a pointer datagram. -/
theorem routeDatagram_mouse {sessionId : SessionId} {movement : MouseMovement}
    {payload datagram : Bytes} {negotiatedMaxDatagramSize : Nat}
    (hencode : encodeMouseMessage sessionId movement payload = .ok datagram)
    (hsize : datagram.length ≤ negotiatedMaxDatagramSize) :
    routeDatagram negotiatedMaxDatagramSize sessionId datagram =
      if payload.length = mouseMovementPayloadLen then .ok .mouse else .ok .applicationMouse := by
  obtain ⟨hvalid, rfl⟩ := encodeMouseMessage_eq_ok_iff.mp hencode
  obtain ⟨_, _, _, _, hlimit⟩ := validateFields_eq_ok_iff.mp hvalid
  have hfits : (mouseHeader sessionId 0 movement payload.length).Fits :=
    ⟨Nat.pow_pos (by decide), movement.sequenceNumber.toNat_lt, lt_of_le_of_lt hlimit (by decide),
      movement.monotonicTimestampUs.toNat_lt⟩
  have hheader : headerOf (mouseHeader sessionId 0 movement payload.length).bytes =
      .ok (mouseHeader sessionId 0 movement payload.length) :=
    headerOf_eq_ok_iff.mpr (decodeHeader_bytes hfits hvalid)
  unfold routeDatagram
  rw [if_neg (Nat.not_lt.mpr hsize), if_neg (by simp), List.take_left' (MessageHeader.length_bytes _),
    hheader]
  simp only [mouseHeader, ne_eq, not_true_eq_false, if_false]
  rfl

/-- A reliable event is decoded from its encoding and from nothing else; a pointer
datagram from an encoding of the movement with any known flags; and the receiver
hands a datagram to the decoder of the encoder that made it. -/
theorem input_codecs :
    (∀ payload event, (decodeReliableInput payload).run = some (.ok event) ↔
      event.Valid ∧ encodeReliableInput event = payload) ∧
    (∀ datagram movement maxDatagramSize,
      headerLen + mouseMovementPayloadLen ≤ maxDatagramSize →
      ((decodeMouseMovement datagram).run = some (.ok movement) ↔
        ∃ sessionId flags encoded, flags < firstUnknownFlag ∧
          encodeMouseMovement sessionId movement maxDatagramSize = .ok encoded ∧
          datagram = withFlags encoded flags)) ∧
    (∀ datagram movement application maxDatagramSize,
      headerLen + applicationMouseHeaderLen + application.length ≤ maxDatagramSize →
      ((decodeApplicationMouseMovement datagram).run = some (.ok (movement, application)) ↔
        ∃ sessionId flags encoded, flags < firstUnknownFlag ∧
          encodeApplicationMouseMovement sessionId movement application maxDatagramSize =
            .ok encoded ∧
          datagram = withFlags encoded flags)) ∧
    (∀ sessionId movement maxDatagramSize datagram,
      encodeMouseMovement sessionId movement maxDatagramSize = .ok datagram →
      ∀ negotiatedMaxDatagramSize, datagram.length ≤ negotiatedMaxDatagramSize →
        routeDatagram negotiatedMaxDatagramSize sessionId datagram = .ok .mouse) ∧
    (∀ sessionId movement application maxDatagramSize datagram,
      encodeApplicationMouseMovement sessionId movement application maxDatagramSize =
        .ok datagram →
      ∀ negotiatedMaxDatagramSize, datagram.length ≤ negotiatedMaxDatagramSize →
        routeDatagram negotiatedMaxDatagramSize sessionId datagram = .ok .applicationMouse) := by
  refine ⟨fun _ _ => decodeReliableInput_eq_ok_iff, ?_, ?_, ?_, ?_⟩
  · intro datagram movement maxDatagramSize hsize
    rw [decodeMouseMovement_eq_ok_iff_message, messageOf_mouse_iff]
    simp only [encodeMouseMovement_eq_ok_iff]
    constructor
    · rintro ⟨hvalid, sessionId, flags, encoded, hflags, hencode, rfl⟩
      exact ⟨sessionId, flags, encoded, hflags, ⟨hvalid, hsize, hencode⟩, rfl⟩
    · rintro ⟨sessionId, flags, encoded, hflags, ⟨hvalid, _, hencode⟩, rfl⟩
      exact ⟨hvalid, sessionId, flags, encoded, hflags, hencode, rfl⟩
  · intro datagram movement application maxDatagramSize hsize
    rw [decodeApplicationMouseMovement_eq_ok_iff_message, messageOf_mouse_iff]
    simp only [encodeApplicationMouseMovement_eq_ok_iff]
    constructor
    · rintro ⟨hvalid, hlength, sessionId, flags, encoded, hflags, hencode, rfl⟩
      exact ⟨sessionId, flags, encoded, hflags, ⟨hvalid, hlength, hsize, hencode⟩, rfl⟩
    · rintro ⟨sessionId, flags, encoded, hflags, ⟨hvalid, hlength, _, hencode⟩, rfl⟩
      exact ⟨hvalid, hlength, sessionId, flags, encoded, hflags, hencode, rfl⟩
  · intro sessionId movement maxDatagramSize datagram hencode negotiated hsize
    obtain ⟨_, _, hencode⟩ := encodeMouseMovement_eq_ok_iff.mp hencode
    rw [routeDatagram_mouse hencode hsize, if_pos movement.length_payload]
  · intro sessionId movement application maxDatagramSize datagram hencode negotiated hsize
    obtain ⟨_, _, _, hencode⟩ := encodeApplicationMouseMovement_eq_ok_iff.mp hencode
    have hlong : (movement.applicationPayload application).length ≠ mouseMovementPayloadLen := by
      rw [movement.length_applicationPayload, applicationMouseHeaderLen, mouseMovementPayloadLen]
      omega
    rw [routeDatagram_mouse hencode hsize, if_neg hlong]

/-- A relative movement of the test of `input.rs`. -/
def testMovement : MouseMovement :=
  { sequenceNumber := 3, monotonicTimestampUs := 55, mode := .relative, x := -4, y := 9
    displayId := 2, buttonStateMask := 1 }

def testMouseSession : SessionId := ⟨List.replicate 16 6, rfl⟩

theorem input_codecs_flagged :
    encodeMouseMovement testMouseSession testMovement 1200 =
      .ok ((mouseHeader testMouseSession 0 testMovement 20).bytes ++ testMovement.payload) ∧
    (decodeMouseMovement (withFlags ((mouseHeader testMouseSession 0 testMovement 20).bytes ++
      testMovement.payload) 1)).run = some (.ok testMovement) := by
  have hencode : encodeMouseMovement testMouseSession testMovement 1200 =
      .ok ((mouseHeader testMouseSession 0 testMovement 20).bytes ++ testMovement.payload) := by
    decide +kernel
  exact ⟨hencode, (input_codecs.2.1 _ _ 1200 (by decide)).mpr
    ⟨testMouseSession, 1, _, by decide, hencode, rfl⟩⟩

/-- A datagram with `FLAG_ACK_REQUIRED` is decoded although no call of the encoder
makes it. -/
theorem decoded_but_not_encoded :
    ¬ ∀ datagram movement, (decodeMouseMovement datagram).run = some (.ok movement) ↔
      ∃ sessionId maxDatagramSize,
        encodeMouseMovement sessionId movement maxDatagramSize = .ok datagram := by
  intro h
  have hencode : encodeMouseMovement testMouseSession testMovement 1200 =
      .ok ((mouseHeader testMouseSession 0 testMovement 20).bytes ++ testMovement.payload) := by
    decide +kernel
  have hdecode : (decodeMouseMovement (withFlags
      ((mouseHeader testMouseSession 0 testMovement 20).bytes ++ testMovement.payload) 1)).run =
        some (.ok testMovement) := by
    decide +kernel
  obtain ⟨sessionId, maxDatagramSize, hmade⟩ := (h _ _).mp hdecode
  obtain ⟨_, _, hmessage⟩ := encodeMouseMovement_eq_ok_iff.mp hmade
  obtain ⟨_, hbytes⟩ := encodeMouseMessage_eq_ok_iff.mp hmessage
  rw [withFlags_bytes] at hbytes
  -- the flags stand in bytes 8 and 9
  have hslice : ∀ (header : MessageHeader) (payload : Bytes),
      slice (header.bytes ++ payload) 8 2 = some (toBeBytes 2 header.flags) :=
    fun header payload => by
      have hfield : header.fields[3]? = some (toBeBytes 2 header.flags) := rfl
      exact slice_fields payload hfield
  have hflags := congrArg (fun datagram => slice datagram 8 2) hbytes
  simp only [hslice] at hflags
  have hsame : toBeBytes 2 1 = toBeBytes 2 0 := Option.some.inj hflags
  exact absurd hsame (by decide)

end HbbCommon.Transport
