import HbbCommon.Transport.Stream

/-!
# Input events

Pointer motion goes over datagrams, in two formats that share a message type: a
movement of 20 bytes, and a movement in front of an application message. Keys,
buttons and the wheel go over a reliable stream as events of 24 bytes, each kind
with its own use of the bytes between the kind and the last word.
-/

namespace HbbCommon.Transport

open HbbCommon.Base

def mouseMovementPayloadLen : Nat := 20

def applicationMouseHeaderLen : Nat := 24

def maxApplicationMouseBytes : Nat := 4 * 1024

def reliableInputPayloadLen : Nat := 24

def maxDisplayId : UInt32 := 255

def knownButtonMask : UInt16 := 0x001f

def maxAbsoluteCoordinate : Int := 1000000

inductive MouseMovementMode
  | absolute
  | relative
  deriving DecidableEq, Repr

structure MouseMovement where
  sequenceNumber : UInt64
  monotonicTimestampUs : UInt64
  mode : MouseMovementMode
  x : Int32
  y : Int32
  displayId : UInt32
  buttonStateMask : UInt16
  deriving DecidableEq, Repr

inductive MouseButton
  | left
  | right
  | middle
  | back
  | forward
  deriving DecidableEq, Repr

inductive ReliableInputEvent
  | key (keyCode : UInt32) (pressed : Bool) (modifiers : UInt32)
  | mouseButton (button : MouseButton) (pressed : Bool) (x y : Int32) (displayId : UInt32)
  | wheel (deltaX deltaY : Int32) (displayId : UInt32)
  deriving DecidableEq, Repr

inductive InputProtocolError
  | protocol (error : ProtocolError)
  | invalidMousePayloadSize
  | invalidReliablePayloadSize
  | unknownMouseMode (value : UInt8)
  | unknownInputEvent (value : UInt8)
  | unknownMouseButton (value : UInt8)
  | unknownFlags (value : UInt8)
  | reservedField
  | invalidDisplayId (displayId : UInt32)
  | invalidButtonMask (mask : UInt16)
  | invalidCoordinates
  | invalidKeyCode
  | invalidSequence (previous received : Nat)
  | sessionMismatch
  deriving DecidableEq, Repr

namespace MouseMovementMode

def code : MouseMovementMode → UInt8
  | .absolute => 1
  | .relative => 2

def tryFrom (value : UInt8) : Except InputProtocolError MouseMovementMode :=
  if value = 1 then .ok .absolute
  else if value = 2 then .ok .relative
  else .error (.unknownMouseMode value)

theorem tryFrom_eq_ok_iff {value : UInt8} {mode : MouseMovementMode} :
    tryFrom value = .ok mode ↔ value = mode.code := by
  constructor
  · intro h
    unfold tryFrom at h
    split at h
    · cases h; assumption
    · split at h
      · cases h; assumption
      · cases h
  · rintro rfl
    cases mode <;> rfl

end MouseMovementMode

namespace MouseButton

def code : MouseButton → UInt8
  | .left => 1
  | .right => 2
  | .middle => 3
  | .back => 4
  | .forward => 5

def tryFrom (value : UInt8) : Except InputProtocolError MouseButton :=
  if value = 1 then .ok .left
  else if value = 2 then .ok .right
  else if value = 3 then .ok .middle
  else if value = 4 then .ok .back
  else if value = 5 then .ok .forward
  else .error (.unknownMouseButton value)

/-- The bit of a button in a mask, `1 << (self as u8 - 1)`. -/
def mask : MouseButton → UInt16
  | .left => 1
  | .right => 2
  | .middle => 4
  | .back => 8
  | .forward => 16

theorem tryFrom_eq_ok_iff {value : UInt8} {button : MouseButton} :
    tryFrom value = .ok button ↔ value = button.code := by
  constructor
  · intro h
    unfold tryFrom at h
    repeat' split at h
    all_goals cases h
    all_goals assumption
  · rintro rfl
    cases button <;> rfl

end MouseButton

/-! ## Checks -/

def validateDisplayId (displayId : UInt32) : Except InputProtocolError Unit :=
  if displayId > maxDisplayId then .error (.invalidDisplayId displayId) else .ok ()

/-- Both coordinates are at most `limit` away from zero. -/
def CoordinatesWithin (limit : Int) (x y : Int32) : Prop :=
  (-limit ≤ x.toInt ∧ x.toInt ≤ limit) ∧ -limit ≤ y.toInt ∧ y.toInt ≤ limit

instance (limit : Int) (x y : Int32) : Decidable (CoordinatesWithin limit x y) :=
  inferInstanceAs (Decidable (_ ∧ _))

def validateCoordinates (limit : Int) (x y : Int32) : Except InputProtocolError Unit :=
  if ¬ CoordinatesWithin limit x y then .error .invalidCoordinates else .ok ()

def validateAbsoluteCoordinates (x y : Int32) : Except InputProtocolError Unit :=
  validateCoordinates maxAbsoluteCoordinate x y

def validateRelativeCoordinates (x y : Int32) : Except InputProtocolError Unit :=
  validateCoordinates 100000 x y

def validateMouseMovement (movement : MouseMovement) : Except InputProtocolError Unit := do
  validateDisplayId movement.displayId
  if movement.buttonStateMask &&& ~~~knownButtonMask ≠ 0 then
    .error (.invalidButtonMask movement.buttonStateMask)
  else
    match movement.mode with
    | .absolute => validateAbsoluteCoordinates movement.x movement.y
    | .relative => validateRelativeCoordinates movement.x movement.y

/-! ## Pointer motion -/

/-- The first 16 bytes of both formats. -/
def MouseMovement.fields (movement : MouseMovement) : List Bytes :=
  [toBeBytes 1 movement.mode.code.toNat, toBeBytes 1 0,
    toBeBytes 2 movement.buttonStateMask.toNat, toBeBytes 4 movement.displayId.toNat,
    toBeBytes 4 movement.x.toUInt32.toNat, toBeBytes 4 movement.y.toUInt32.toNat]

/-- A message of type `MouseMovement`. -/
def encodeMouseMessage (sessionId : SessionId) (movement : MouseMovement) (payload : Bytes) :
    Except InputProtocolError Bytes :=
  match MessageHeader.new .mouseMovement 0 sessionId movement.sequenceNumber.toNat payload.length
      movement.monotonicTimestampUs.toNat with
  | .error error => .error (.protocol error)
  | .ok header =>
      match encodeMessage header payload with
      | .error error => .error (.protocol error)
      | .ok datagram => .ok datagram

def MouseMovement.payload (movement : MouseMovement) : Bytes :=
  (movement.fields ++ [toBeBytes 4 0]).flatten

def encodeMouseMovement (sessionId : SessionId) (movement : MouseMovement)
    (maxDatagramSize : Nat) : Except InputProtocolError Bytes := do
  validateMouseMovement movement
  if headerLen + mouseMovementPayloadLen > maxDatagramSize then .error .invalidMousePayloadSize
  else encodeMouseMessage sessionId movement movement.payload

def MouseMovement.applicationPayload (movement : MouseMovement) (application : Bytes) : Bytes :=
  (movement.fields ++ [toBeBytes 4 application.length, toBeBytes 4 0, application]).flatten

/-- `encode_application_mouse_movement`. The length fits its field: it is at most
4 KiB. -/
def encodeApplicationMouseMovement (sessionId : SessionId) (movement : MouseMovement)
    (application : Bytes) (maxDatagramSize : Nat) : Except InputProtocolError Bytes := do
  validateMouseMovement movement
  if application.length = 0 ∨ application.length > maxApplicationMouseBytes then
    .error .invalidMousePayloadSize
  else if headerLen + applicationMouseHeaderLen + application.length > maxDatagramSize then
    .error .invalidMousePayloadSize
  else encodeMouseMessage sessionId movement (movement.applicationPayload application)

/-- The movement of a message, read from both formats alike. -/
def readMouseMovement (message : ParsedMessage) :
    ExceptT InputProtocolError Option MouseMovement := do
  let mode ← MouseMovementMode.tryFrom (← readU8 message.payload 0)
  let buttonStateMask ← readU16 message.payload 2
  let displayId ← readU32 message.payload 4
  let x ← readI32 message.payload 8
  let y ← readI32 message.payload 12
  let movement : MouseMovement :=
    { sequenceNumber := UInt64.ofNat message.header.sequenceNumber
      monotonicTimestampUs := UInt64.ofNat message.header.monotonicTimestampUs
      mode := mode, x := x, y := y, displayId := displayId, buttonStateMask := buttonStateMask }
  validateMouseMovement movement
  return movement

def decodeMouseMovement (datagram : Bytes) : ExceptT InputProtocolError Option MouseMovement := do
  let message ← (messageOf datagram).mapError InputProtocolError.protocol
  if message.header.messageType ≠ .mouseMovement then
    throw (.protocol (.channelMismatch message.header.messageType message.header.channel))
  else if message.payload.length ≠ mouseMovementPayloadLen then throw .invalidMousePayloadSize
  else do
    let reserved ← readU8 message.payload 1
    let reservedLast ← readU32 message.payload 16
    if reserved ≠ 0 ∨ reservedLast ≠ 0 then throw .reservedField
    else readMouseMovement message

def decodeApplicationMouseMovement (datagram : Bytes) :
    ExceptT InputProtocolError Option (MouseMovement × Bytes) := do
  let message ← (messageOf datagram).mapError InputProtocolError.protocol
  if message.header.messageType ≠ .mouseMovement ∨
      message.payload.length < applicationMouseHeaderLen then
    throw .invalidMousePayloadSize
  else do
    let reserved ← readU8 message.payload 1
    let reservedLast ← readU32 message.payload 20
    if reserved ≠ 0 ∨ reservedLast ≠ 0 then throw .reservedField
    else do
      let applicationLen ← readU32 message.payload 16
      let application := message.payload.drop applicationMouseHeaderLen
      if applicationLen.toNat = 0 ∨ applicationLen.toNat > maxApplicationMouseBytes ∨
          applicationLen.toNat ≠ application.length then
        throw .invalidMousePayloadSize
      else do
        let movement ← readMouseMovement message
        return (movement, application)

/-! ## Keys, buttons and the wheel -/

/-- `u8::from(bool)`. -/
def boolByte (b : Bool) : UInt8 := if b then 1 else 0

/-- The 24 bytes of an event; what a kind does not use stays zero. -/
def ReliableInputEvent.fields : ReliableInputEvent → List Bytes
  | .key keyCode pressed modifiers =>
      [toBeBytes 1 1, toBeBytes 1 (boolByte pressed).toNat, toBeBytes 2 0,
        toBeBytes 4 keyCode.toNat, toBeBytes 4 0, toBeBytes 4 0, toBeBytes 4 modifiers.toNat,
        toBeBytes 4 0]
  | .mouseButton button pressed x y displayId =>
      [toBeBytes 1 2, toBeBytes 1 (boolByte pressed).toNat, toBeBytes 2 0,
        toBeBytes 1 button.code.toNat, toBeBytes 3 0, toBeBytes 4 x.toUInt32.toNat,
        toBeBytes 4 y.toUInt32.toNat, toBeBytes 4 displayId.toNat, toBeBytes 4 0]
  | .wheel deltaX deltaY displayId =>
      [toBeBytes 1 3, toBeBytes 1 0, toBeBytes 2 0, toBeBytes 4 0,
        toBeBytes 4 deltaX.toUInt32.toNat, toBeBytes 4 deltaY.toUInt32.toNat,
        toBeBytes 4 displayId.toNat, toBeBytes 4 0]

def encodeReliableInput (event : ReliableInputEvent) : Bytes := event.fields.flatten

def decodeReliableInput (payload : Bytes) :
    ExceptT InputProtocolError Option ReliableInputEvent :=
  if payload.length ≠ reliableInputPayloadLen then throw .invalidReliablePayloadSize
  else do
    let reserved ← readU16 payload 2
    let reservedLast ← readU32 payload 20
    if reserved ≠ 0 ∨ reservedLast ≠ 0 then throw .reservedField
    else do
      let flags ← readU8 payload 1
      if flags &&& ~~~1 ≠ 0 then throw (.unknownFlags flags)
      else do
        let kind ← readU8 payload 0
        if kind = 1 then do
          let keyCode ← readU32 payload 4
          let x ← readI32 payload 8
          let y ← readI32 payload 12
          if keyCode = 0 ∨ x ≠ 0 ∨ y ≠ 0 then throw .invalidKeyCode
          else do
            let modifiers ← readU32 payload 16
            return .key keyCode (flags != 0) modifiers
        else if kind = 2 then do
          let unused ← slice payload 5 3
          if unused ≠ [0, 0, 0] then throw .reservedField
          else do
            let displayId ← readU32 payload 16
            validateDisplayId displayId
            let x ← readI32 payload 8
            let y ← readI32 payload 12
            validateAbsoluteCoordinates x y
            let button ← MouseButton.tryFrom (← readU8 payload 4)
            return .mouseButton button (flags != 0) x y displayId
        else if kind = 3 then do
          let unused ← readU32 payload 4
          if flags ≠ 0 ∨ unused ≠ 0 then throw .reservedField
          else do
            let displayId ← readU32 payload 16
            validateDisplayId displayId
            let deltaX ← readI32 payload 8
            let deltaY ← readI32 payload 12
            validateRelativeCoordinates deltaX deltaY
            return .wheel deltaX deltaY displayId
        else throw (.unknownInputEvent kind)

/-! ## Dispatch of a datagram -/

/-- The arm of the match in `QuicDatagramReceiver::receive` that a datagram reaches. -/
inductive DatagramRoute
  | video
  | audio
  | mouse
  | applicationMouse
  deriving DecidableEq, Repr

inductive DatagramRouteError
  | tooLong (length limit : Nat)
  | truncated
  | protocol (error : ProtocolError)
  | sessionChanged
  | invalidOnDatagram (messageType : MessageType)
  deriving DecidableEq, Repr

/-- `QuicDatagramReceiver::receive` up to the call of a decoder. -/
def routeDatagram (negotiatedMaxDatagramSize : Nat) (sessionId : SessionId) (datagram : Bytes) :
    Except DatagramRouteError DatagramRoute :=
  if datagram.length > negotiatedMaxDatagramSize then
    .error (.tooLong datagram.length negotiatedMaxDatagramSize)
  else if datagram.length < headerLen then .error .truncated
  else
    match headerOf (datagram.take headerLen) with
    | .error error => .error (.protocol error)
    | .ok header =>
        if header.sessionId ≠ sessionId then .error .sessionChanged
        else
          match header.messageType with
          | .videoFragment => .ok .video
          | .audioPacket => .ok .audio
          | .mouseMovement =>
              if header.payloadLength = mouseMovementPayloadLen then .ok .mouse
              else .ok .applicationMouse
          | messageType => .error (.invalidOnDatagram messageType)

/-! ## Receivers -/

/-- Whatever the bytes, `decode_reliable_input` reads inside them. -/
theorem decodeReliableInput_defined (payload : Bytes) : Defined (decodeReliableInput payload) := by
  unfold decodeReliableInput
  refine .ite (defined_throw _) (fun hlen => ?_)
  have hlen : payload.length = 24 := not_not.mp hlen
  have hU8 : ∀ offset, offset + 1 ≤ 24 →
      Defined (liftM (readU8 payload offset) : ExceptT InputProtocolError Option UInt8) :=
    fun offset h => defined_lift (map_readBe_isSome _ (by omega))
  have hU16 : ∀ offset, offset + 2 ≤ 24 →
      Defined (liftM (readU16 payload offset) : ExceptT InputProtocolError Option UInt16) :=
    fun offset h => defined_lift (map_readBe_isSome _ (by omega))
  have hU32 : ∀ offset, offset + 4 ≤ 24 →
      Defined (liftM (readU32 payload offset) : ExceptT InputProtocolError Option UInt32) :=
    fun offset h => defined_lift (map_readBe_isSome _ (by omega))
  have hI32 : ∀ offset, offset + 4 ≤ 24 →
      Defined (liftM (readI32 payload offset) : ExceptT InputProtocolError Option Int32) := by
    intro offset h
    apply defined_lift
    rw [readI32, Option.isSome_map]
    exact map_readBe_isSome _ (by omega)
  refine (hU16 2 (by decide)).bind (fun _ _ => (hU32 20 (by decide)).bind (fun _ _ => ?_))
  refine .ite (defined_throw _) (fun _ => (hU8 1 (by decide)).bind (fun _ _ => ?_))
  refine .ite (defined_throw _) (fun _ => (hU8 0 (by decide)).bind (fun _ _ => ?_))
  refine .ite ?_ (fun _ => .ite ?_ (fun _ => .ite ?_ (fun _ => defined_throw _)))
  · refine (hU32 4 (by decide)).bind (fun _ _ => (hI32 8 (by decide)).bind (fun _ _ => ?_))
    refine (hI32 12 (by decide)).bind (fun _ _ => .ite (defined_throw _) (fun _ => ?_))
    exact (hU32 16 (by decide)).bind (fun _ _ => defined_pure _)
  · refine (defined_lift (slice_isSome (by omega))).bind (fun _ _ => ?_)
    refine .ite (defined_throw _) (fun _ => (hU32 16 (by decide)).bind (fun _ _ => ?_))
    refine (defined_except _).bind (fun _ _ => (hI32 8 (by decide)).bind (fun _ _ => ?_))
    refine (hI32 12 (by decide)).bind (fun _ _ => (defined_except _).bind (fun _ _ => ?_))
    refine (hU8 4 (by decide)).bind (fun _ _ => (defined_except _).bind (fun _ _ => ?_))
    exact defined_pure _
  · refine (hU32 4 (by decide)).bind (fun _ _ => .ite (defined_throw _) (fun _ => ?_))
    refine (hU32 16 (by decide)).bind (fun _ _ => (defined_except _).bind (fun _ _ => ?_))
    refine (hI32 8 (by decide)).bind (fun _ _ => (hI32 12 (by decide)).bind (fun _ _ => ?_))
    exact (defined_except _).bind (fun _ _ => defined_pure _)

/-- The result of `decode_reliable_input`, which has one for every input. -/
def reliableInputOf (payload : Bytes) : Except InputProtocolError ReliableInputEvent :=
  (decodeReliableInput payload).run.get (decodeReliableInput_defined payload)

structure MouseMovementReceiver where
  sessionId : SessionId
  lastSequence : Nat
  deriving DecidableEq

namespace MouseMovementReceiver

def new (sessionId : SessionId) : MouseMovementReceiver :=
  { sessionId := sessionId, lastSequence := 0 }

/-- The two `apply` functions, by what the datagram decodes to; `none` where the
decoder would panic. A movement that is not newer than the last one is skipped. -/
def accept {α : Type} (r : MouseMovementReceiver) (movementOf : α → MouseMovement)
    (decoded : Option (Except InputProtocolError α)) (datagram : Bytes) :
    Option (MouseMovementReceiver × Except InputProtocolError (Option α)) :=
  match messageOf datagram with
  | .error error => some (r, .error (.protocol error))
  | .ok message =>
      if message.header.sessionId ≠ r.sessionId then some (r, .error .sessionMismatch)
      else
        match decoded with
        | none => none
        | some (.error error) => some (r, .error error)
        | some (.ok value) =>
            if (movementOf value).sequenceNumber.toNat ≤ r.lastSequence then some (r, .ok none)
            else some ({ r with lastSequence := (movementOf value).sequenceNumber.toNat },
              .ok (some value))

def apply (r : MouseMovementReceiver) (datagram : Bytes) :
    Option (MouseMovementReceiver × Except InputProtocolError (Option MouseMovement)) :=
  r.accept id (decodeMouseMovement datagram).run datagram

def applyApplication (r : MouseMovementReceiver) (datagram : Bytes) :
    Option (MouseMovementReceiver × Except InputProtocolError (Option (MouseMovement × Bytes))) :=
  r.accept Prod.fst (decodeApplicationMouseMovement datagram).run datagram

end MouseMovementReceiver

structure ReliableInputReceiver where
  lastSequence : Nat
  pressedKeys : OrdMap UInt32 Unit
  pressedButtons : UInt16
  deriving DecidableEq

namespace ReliableInputReceiver

def new : ReliableInputReceiver := { lastSequence := 0, pressedKeys := ∅, pressedButtons := 0 }

/-- The keys and buttons after an event, and whether the event changed anything. -/
def update (r : ReliableInputReceiver) : ReliableInputEvent → ReliableInputReceiver × Bool
  | .key keyCode pressed _ =>
      if pressed then
        ({ r with pressedKeys := r.pressedKeys.insert keyCode () }, !r.pressedKeys.contains keyCode)
      else
        ({ r with pressedKeys := r.pressedKeys.erase keyCode }, r.pressedKeys.contains keyCode)
  | .mouseButton button pressed _ _ _ =>
      let wasPressed := hasBits r.pressedButtons button.mask
      if pressed then
        ({ r with pressedButtons := r.pressedButtons ||| button.mask }, wasPressed != pressed)
      else
        ({ r with pressedButtons := r.pressedButtons &&& ~~~button.mask }, wasPressed != pressed)
  | .wheel _ _ _ => (r, true)

def apply (r : ReliableInputReceiver) (sequenceNumber : Nat) (payload : Bytes) :
    ReliableInputReceiver × Except InputProtocolError (Option ReliableInputEvent) :=
  if sequenceNumber ≠ satAdd r.lastSequence 1 then
    (r, .error (.invalidSequence r.lastSequence sequenceNumber))
  else
    match reliableInputOf payload with
    | .error error => (r, .error error)
    | .ok event =>
        let (r', changed) := update { r with lastSequence := sequenceNumber } event
        (r', .ok (if changed then some event else none))

def releaseAll (r : ReliableInputReceiver) :
    ReliableInputReceiver × List ReliableInputEvent :=
  let keyReleases := r.pressedKeys.entries.map
    (fun entry => ReliableInputEvent.key entry.1 false 0)
  let buttonReleases := ([.left, .right, .middle, .back, .forward] : List MouseButton).filterMap
    (fun button =>
      if hasBits r.pressedButtons button.mask then
        some (ReliableInputEvent.mouseButton button false 0 0 0)
      else none)
  ({ lastSequence := 0, pressedKeys := ∅, pressedButtons := 0 }, keyReleases ++ buttonReleases)

end ReliableInputReceiver

end HbbCommon.Transport
