import HbbCommon.Base.ByteFields
import HbbCommon.Base.Text
import HbbCommon.Transport.Video.Types

/-!
# Files over the transport

A file is announced by its metadata, sent in chunks and may be cancelled; each of the three
has a payload layout of its own. `FileTransferReceiver` takes the chunks of one file in
order, keeps the hash of what it has seen, and accepts the file when the declared size is
reached with the declared hash. What SHA-256 computes is left open: a hasher is the bytes it
has absorbed.
-/

namespace HbbCommon.Transport

open HbbCommon.Base

def fileMetadataHeaderLen : Nat := 68

def fileChunkHeaderLen : Nat := 28

def fileCancelPayloadLen : Nat := 20

def maxFileNameBytes : Nat := 255

def maxFileChunkBytes : Nat := 256 * 1024

structure FileTransferMetadata where
  transferId : FixedBytes 16
  fileName : String
  fileSize : UInt64
  resumeOffset : UInt64
  sha256 : FixedBytes 32
  deriving DecidableEq

structure FileChunk where
  transferId : FixedBytes 16
  offset : UInt64
  data : Bytes
  deriving DecidableEq

inductive FileCancelReason
  | user
  | permissionDenied
  | invalidData
  | integrityFailure
  | sessionClosed
  deriving DecidableEq, Repr

structure FileTransferProgress where
  completedBytes : UInt64
  totalBytes : UInt64
  deriving DecidableEq, Repr

inductive FileTransferError
  | permissionDenied
  | zeroTransferId
  | invalidFileName
  | fileTooLarge (size : UInt64)
  | invalidResumeOffset (offset size : UInt64)
  | missingHash
  | metadataTruncated
  | invalidReservedField
  | invalidNameLength
  | invalidUtf8
  | chunkTruncated
  | invalidChunkSize (size : Nat)
  | transferIdMismatch
  | unexpectedOffset (expected received : UInt64)
  | chunkExceedsFileSize
  | incomplete
  | hashMismatch
  | cancelled
  | invalidResumeState
  | unknownCancelReason (value : UInt16)
  deriving DecidableEq, Repr

namespace FileCancelReason

def code : FileCancelReason → UInt16
  | .user => 1
  | .permissionDenied => 2
  | .invalidData => 3
  | .integrityFailure => 4
  | .sessionClosed => 5

def tryFrom (value : UInt16) : Except FileTransferError FileCancelReason :=
  if value = 1 then .ok .user
  else if value = 2 then .ok .permissionDenied
  else if value = 3 then .ok .invalidData
  else if value = 4 then .ok .integrityFailure
  else if value = 5 then .ok .sessionClosed
  else .error (.unknownCancelReason value)

theorem tryFrom_eq_ok_iff {value : UInt16} {reason : FileCancelReason} :
    tryFrom value = .ok reason ↔ value = reason.code := by
  constructor
  · intro h
    unfold tryFrom at h
    split_ifs at h <;> cases h <;> assumption
  · rintro rfl
    cases reason <;> rfl

end FileCancelReason

/-! ## Checks -/

def validateTransferId (transferId : FixedBytes 16) : Except FileTransferError Unit :=
  if transferId.isZero then .error .zeroTransferId else .ok ()

/-- The characters that no file name contains. -/
def reservedNameChars : List Char := "/\\:\x00".toList

def validateFileName (fileName : String) : Except FileTransferError Unit :=
  if fileName.utf8ByteSize = 0 ∨ fileName.utf8ByteSize > maxFileNameBytes ∨ fileName = "." ∨
      fileName = ".." ∨ fileName.toList.any (fun c => reservedNameChars.contains c) ∨
      fileName.toList.any isControl then
    .error .invalidFileName
  else .ok ()

def validateMetadata (metadata : FileTransferMetadata) (maxFileBytes : UInt64) :
    Except FileTransferError Unit := do
  validateTransferId metadata.transferId
  validateFileName metadata.fileName
  if metadata.fileSize > maxFileBytes then .error (.fileTooLarge metadata.fileSize)
  else if metadata.resumeOffset > metadata.fileSize then
    .error (.invalidResumeOffset metadata.resumeOffset metadata.fileSize)
  else if metadata.sha256.isZero then .error .missingHash
  else .ok ()

/-! ## Payloads -/

/-- What stands in front of the name, field by field. -/
def FileTransferMetadata.header (metadata : FileTransferMetadata) : List Bytes :=
  [metadata.transferId.val, toBeBytes 8 metadata.fileSize.toNat,
    toBeBytes 8 metadata.resumeOffset.toNat, metadata.sha256.val,
    toBeBytes 2 metadata.fileName.utf8ByteSize, toBeBytes 2 0]

def encodeFileMetadata (metadata : FileTransferMetadata) (maxFileBytes : UInt64) :
    Except FileTransferError Bytes := do
  validateMetadata metadata maxFileBytes
  return metadata.header.flatten ++ utf8Bytes metadata.fileName

def decodeFileMetadata (payload : Bytes) (maxFileBytes : UInt64) :
    ExceptT FileTransferError Option FileTransferMetadata :=
  if payload.length < fileMetadataHeaderLen then throw .metadataTruncated
  else do
    let reserved ← readU16 payload 66
    if reserved ≠ 0 then throw .invalidReservedField
    else do
      let nameLen ← readU16 payload 64
      if nameLen = 0 ∨ nameLen.toNat > maxFileNameBytes ∨
          payload.length ≠ fileMetadataHeaderLen + nameLen.toNat then
        throw .invalidNameLength
      else do
        let fileName ← parseText (payload.drop fileMetadataHeaderLen)
          FileTransferError.invalidUtf8
        let transferId ← readFixed 16 payload 0
        let sha256 ← readFixed 32 payload 32
        let fileSize ← readU64 payload 16
        let resumeOffset ← readU64 payload 24
        let metadata : FileTransferMetadata :=
          { transferId := transferId, fileName := fileName, fileSize := fileSize
            resumeOffset := resumeOffset, sha256 := sha256 }
        validateMetadata metadata maxFileBytes
        return metadata

/-- What stands in front of the data, field by field. -/
def FileChunk.header (chunk : FileChunk) : List Bytes :=
  [chunk.transferId.val, toBeBytes 8 chunk.offset.toNat, toBeBytes 4 chunk.data.length]

def encodeFileChunk (chunk : FileChunk) : Except FileTransferError Bytes := do
  validateTransferId chunk.transferId
  if chunk.data = [] ∨ chunk.data.length > maxFileChunkBytes then
    .error (.invalidChunkSize chunk.data.length)
  else .ok (chunk.header.flatten ++ chunk.data)

def decodeFileChunk (payload : Bytes) : ExceptT FileTransferError Option FileChunk :=
  if payload.length < fileChunkHeaderLen then throw .chunkTruncated
  else do
    let declaredLen ← readU32 payload 24
    let data := payload.drop fileChunkHeaderLen
    if declaredLen = 0 ∨ declaredLen.toNat > maxFileChunkBytes ∨
        data.length ≠ declaredLen.toNat then
      throw (.invalidChunkSize declaredLen.toNat)
    else do
      let transferId ← readFixed 16 payload 0
      validateTransferId transferId
      let offset ← readU64 payload 16
      return { transferId := transferId, offset := offset, data := data }

/-- A cancellation on the wire, field by field. -/
def fileCancelFields (transferId : FixedBytes 16) (reason : FileCancelReason) : List Bytes :=
  [transferId.val, toBeBytes 2 reason.code.toNat, toBeBytes 2 0]

def encodeFileCancel (transferId : FixedBytes 16) (reason : FileCancelReason) :
    Except FileTransferError Bytes := do
  validateTransferId transferId
  return (fileCancelFields transferId reason).flatten

def decodeFileCancel (payload : Bytes) :
    ExceptT FileTransferError Option (FixedBytes 16 × FileCancelReason) :=
  if payload.length ≠ fileCancelPayloadLen then throw .chunkTruncated
  else do
    let reserved ← readU16 payload 18
    if reserved ≠ 0 then throw .invalidReservedField
    else do
      let transferId ← readFixed 16 payload 0
      validateTransferId transferId
      let reason ← FileCancelReason.tryFrom (← readU16 payload 16)
      return (transferId, reason)

/-! ## The receiver -/

/-- A SHA-256 computation under way: the bytes it has absorbed. -/
structure Sha256 where
  absorbed : Bytes
  deriving DecidableEq, Repr

namespace Sha256

def new : Sha256 := ⟨[]⟩

def update (hasher : Sha256) (data : Bytes) : Sha256 := ⟨hasher.absorbed ++ data⟩

def finalize (hash : Bytes → FixedBytes 32) (hasher : Sha256) : FixedBytes 32 :=
  hash hasher.absorbed

end Sha256

structure FileResumeState where
  offset : UInt64
  hasher : Sha256
  deriving DecidableEq

structure FileTransferReceiver where
  metadata : FileTransferMetadata
  expectedOffset : UInt64
  hasher : Sha256
  cancelled : Bool
  deriving DecidableEq

/-- `checked_add` of a length. -/
def checkedAdd (offset : UInt64) (length : Nat) : Option UInt64 :=
  if offset.toNat + length < 2 ^ 64 then some (UInt64.ofNat (offset.toNat + length)) else none

namespace FileTransferReceiver

def start (metadata : FileTransferMetadata) (maxFileBytes : UInt64) (userPermitted : Bool)
    (resumeState : Option FileResumeState) : Except FileTransferError FileTransferReceiver :=
  if userPermitted = false then .error .permissionDenied
  else do
    validateMetadata metadata maxFileBytes
    if metadata.resumeOffset = 0 then
      match resumeState with
      | some _ => .error .invalidResumeState
      | none => .ok { metadata := metadata, expectedOffset := metadata.resumeOffset
                      hasher := .new, cancelled := false }
    else
      match resumeState with
      | none => .error .invalidResumeState
      | some state =>
          if state.offset ≠ metadata.resumeOffset then .error .invalidResumeState
          else .ok { metadata := metadata, expectedOffset := metadata.resumeOffset
                     hasher := state.hasher, cancelled := false }

def progress (r : FileTransferReceiver) : FileTransferProgress :=
  { completedBytes := r.expectedOffset, totalBytes := r.metadata.fileSize }

def acceptChunk (r : FileTransferReceiver) (chunk : FileChunk) :
    FileTransferReceiver × Except FileTransferError FileTransferProgress :=
  if r.cancelled then (r, .error .cancelled)
  else if chunk.transferId ≠ r.metadata.transferId then (r, .error .transferIdMismatch)
  else if chunk.offset ≠ r.expectedOffset then
    (r, .error (.unexpectedOffset r.expectedOffset chunk.offset))
  else if chunk.data = [] ∨ chunk.data.length > maxFileChunkBytes then
    (r, .error (.invalidChunkSize chunk.data.length))
  else
    match checkedAdd r.expectedOffset chunk.data.length with
    | none => (r, .error .chunkExceedsFileSize)
    | some nextOffset =>
        if nextOffset > r.metadata.fileSize then (r, .error .chunkExceedsFileSize)
        else
          let r := { r with hasher := r.hasher.update chunk.data, expectedOffset := nextOffset }
          (r, .ok r.progress)

def cancel (r : FileTransferReceiver) : FileTransferReceiver := { r with cancelled := true }

def finish (hash : Bytes → FixedBytes 32) (r : FileTransferReceiver) :
    Except FileTransferError FileTransferMetadata :=
  if r.cancelled then .error .cancelled
  else if r.expectedOffset ≠ r.metadata.fileSize then .error .incomplete
  else if r.hasher.finalize hash ≠ r.metadata.sha256 then .error .hashMismatch
  else .ok r.metadata

end FileTransferReceiver

end HbbCommon.Transport
