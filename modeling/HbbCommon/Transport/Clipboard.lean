import HbbCommon.Base.Machine
import HbbCommon.Base.OrdMap
import HbbCommon.Base.TSys
import HbbCommon.Base.ByteFields
import HbbCommon.Transport.Video.Types

/-!
# Clipboard text

A clipboard change is sent with the id of the device it was made on and a number that this
device counts up. `ClipboardState` numbers the local changes and keeps, for each remote
origin, the number of the last change it took.
-/

namespace HbbCommon.Transport

open HbbCommon.Base

def clipboardHeaderLen : Nat := 32

def defaultMaxClipboardBytes : Nat := 1024 * 1024

def maxTrackedOrigins : Nat := 8

def formatUtf8Text : UInt8 := 1

inductive ClipboardPermission
  | disabled
  | receiveOnly
  | sendOnly
  | bidirectional
  deriving DecidableEq, Repr

namespace ClipboardPermission

def canSend : ClipboardPermission → Bool
  | .sendOnly | .bidirectional => true
  | .disabled | .receiveOnly => false

def canReceive : ClipboardPermission → Bool
  | .receiveOnly | .bidirectional => true
  | .disabled | .sendOnly => false

end ClipboardPermission

structure ClipboardText where
  originId : FixedBytes 16
  changeSequence : UInt64
  text : String
  deriving DecidableEq

inductive ClipboardError
  | permissionDenied
  | zeroOrigin
  | zeroSequence
  | headerTruncated
  | unsupportedFormat (format : UInt8)
  | invalidReservedField
  | invalidSize (size : Nat)
  | invalidUtf8
  | tooManyOrigins
  | sequenceExhausted
  deriving DecidableEq, Repr

def validateOriginAndSequence (originId : FixedBytes 16) (changeSequence : UInt64) :
    Except ClipboardError Unit :=
  if originId.isZero then .error .zeroOrigin
  else if changeSequence = 0 then .error .zeroSequence
  else .ok ()

/-- What stands in front of the text: id, number, format, flags, a reserved field and the
length of the text. -/
def clipboardHeader (originId : FixedBytes 16) (changeSequence : UInt64) (length : Nat) :
    List Bytes :=
  [originId.val, toBeBytes 8 changeSequence.toNat, toBeBytes 1 formatUtf8Text.toNat,
    toBeBytes 1 0, toBeBytes 2 0, toBeBytes 4 length]

def encodeClipboardText (originId : FixedBytes 16) (changeSequence : UInt64) (text : String)
    (maxBytes : Nat) : Except ClipboardError Bytes := do
  validateOriginAndSequence originId changeSequence
  if text.utf8ByteSize > maxBytes ∨ text.utf8ByteSize > u32Max then
    .error (.invalidSize text.utf8ByteSize)
  else
    .ok ((clipboardHeader originId changeSequence text.utf8ByteSize).flatten ++ utf8Bytes text)

def decodeClipboardText (payload : Bytes) (maxBytes : Nat) :
    ExceptT ClipboardError Option ClipboardText :=
  if payload.length < clipboardHeaderLen then throw .headerTruncated
  else do
    let originId ← readFixed 16 payload 0
    let changeSequence ← readU64 payload 16
    validateOriginAndSequence originId changeSequence
    let format ← readU8 payload 24
    if format ≠ formatUtf8Text then throw (.unsupportedFormat format)
    else do
      let flags ← readU8 payload 25
      let reserved ← readU16 payload 26
      if flags ≠ 0 ∨ reserved ≠ 0 then throw .invalidReservedField
      else do
        let declaredLen ← readU32 payload 28
        let textBytes := payload.drop clipboardHeaderLen
        if declaredLen.toNat ≠ textBytes.length ∨ declaredLen.toNat > maxBytes then
          throw (.invalidSize declaredLen.toNat)
        else do
          let text ← parseText textBytes ClipboardError.invalidUtf8
          return { originId := originId, changeSequence := changeSequence, text := text }

structure ClipboardState where
  permission : ClipboardPermission
  localOriginId : FixedBytes 16
  nextLocalSequence : UInt64
  remoteSequences : OrdMap (FixedBytes 16) UInt64
  maxBytes : Nat
  deriving DecidableEq

namespace ClipboardState

def new (permission : ClipboardPermission) (localOriginId : FixedBytes 16) (maxBytes : Nat) :
    Except ClipboardError ClipboardState := do
  validateOriginAndSequence localOriginId 1
  if maxBytes = 0 ∨ maxBytes > defaultMaxClipboardBytes then .error (.invalidSize maxBytes)
  else .ok { permission := permission, localOriginId := localOriginId, nextLocalSequence := 1
             remoteSequences := ∅, maxBytes := maxBytes }

def prepareLocalText (s : ClipboardState) (text : String) :
    ClipboardState × Except ClipboardError Bytes :=
  if s.permission.canSend then
    let sequence := s.nextLocalSequence
    match encodeClipboardText s.localOriginId sequence text s.maxBytes with
    | .error error => (s, .error error)
    | .ok payload =>
        if sequence.toNat + 1 < 2 ^ 64 then
          ({ s with nextLocalSequence := sequence + 1 }, .ok payload)
        else (s, .error .sequenceExhausted)
  else (s, .error .permissionDenied)

/-- `receive` behind the decoder. -/
def accept (s : ClipboardState) (clipboard : ClipboardText) :
    ClipboardState × Except ClipboardError (Option ClipboardText) :=
  let record := { s with
    remoteSequences := s.remoteSequences.insert clipboard.originId clipboard.changeSequence }
  if clipboard.originId = s.localOriginId then (s, .ok none)
  else
    match s.remoteSequences.get? clipboard.originId with
    | some lastSequence =>
        if clipboard.changeSequence ≤ lastSequence then (s, .ok none)
        else (record, .ok (some clipboard))
    | none =>
        if s.remoteSequences.size ≥ maxTrackedOrigins then (s, .error .tooManyOrigins)
        else (record, .ok (some clipboard))

/-- No value where the decoder would read past the payload. -/
def receive (s : ClipboardState) (payload : Bytes) :
    Option (ClipboardState × Except ClipboardError (Option ClipboardText)) :=
  if s.permission.canReceive then
    (decodeClipboardText payload s.maxBytes).run.map (fun
      | .error error => (s, .error error)
      | .ok clipboard => s.accept clipboard)
  else some (s, .error .permissionDenied)

def resetRemoteState (s : ClipboardState) : ClipboardState := { s with remoteSequences := ∅ }

end ClipboardState

end HbbCommon.Transport
