import HbbCommon.Base.ByteFields
import HbbCommon.Base.Effect
import HbbCommon.Base.OrdMap
import HbbCommon.Base.Text
import HbbCommon.Transport.Video.Types

/-!
# Trusted peers

A trusted peer is a record in a file of its own, named by the digest of the peer's id. A
record is written to a temporary file, which has the id of the process in its name and is
created exclusively, and then renamed. The libraries are parameters, and so is which calls of
the file system fail.
-/

namespace HbbCommon.Transport

open HbbCommon.Base

def maxPeerIdBytes : Nat := 128

def maxCertificateBytes : Nat := 16 * 1024

/-- The kinds of `io::Error` that are told apart. -/
inductive FileError
  | notFound
  | alreadyExists
  | other
  deriving DecidableEq, Repr

inductive PairingError
  | invalidPeerId
  | invalidIdentityKey
  | invalidCertificate
  | alreadyPaired
  | invalidRecord
  | io (error : FileError)
  deriving DecidableEq, Repr

structure TrustedPeerRecord where
  peerId : String
  identityKey : FixedBytes 32
  certificateDer : Bytes
  certificatePin : FixedBytes 32
  confirmedAtUnixMs : UInt64
  deriving DecidableEq

structure PersistedTrustedPeer where
  version : UInt16
  peerId : String
  identityKeyBase64 : String
  certificateDerBase64 : String
  certificatePinBase64 : String
  confirmedAtUnixMs : UInt64
  deriving DecidableEq

/-- The files of a directory and what is in them. -/
abbrev Directory := OrdMap String Bytes

/-- The libraries that the store calls. -/
structure PairingLibs where
  sha256 : Bytes → FixedBytes 32
  base64Encode : Bytes → String
  base64Decode : String → Option Bytes
  /-- `serde_json::to_vec_pretty` -/
  toVecPretty : PersistedTrustedPeer → Option Bytes
  /-- `serde_json::from_slice` -/
  fromSlice : Bytes → Option PersistedTrustedPeer
  /-- the files in the order in which the directory is read -/
  readDir : Directory → List (String × Bytes)

/-! ## Names of files -/

/-- What is in front of the last dot of a name and behind it, when something is in front. -/
def splitAtDot (name : String) : Option (String × String) :=
  match name.toList.reverse.dropWhile (· ≠ '.') with
  | _ :: c :: before =>
      some (.ofList (c :: before).reverse,
        .ofList (name.toList.reverse.takeWhile (· ≠ '.')).reverse)
  | _ => none

/-- `Path::extension` -/
def extension (name : String) : Option String := (splitAtDot name).map Prod.snd

/-- `Path::with_extension` -/
def withExtension (name extension : String) : String :=
  ((splitAtDot name).map Prod.fst).getD name ++ "." ++ extension

def hexDigit (n : Nat) : Char := "0123456789abcdef".toList.getD n '0'

def hexLower (input : Bytes) : String :=
  .ofList (input.flatMap (fun b => [hexDigit (b.toNat / 16), hexDigit (b.toNat % 16)]))

/-! ## Records -/

def validatePeerId (peerId : String) : Except PairingError Unit :=
  if peerId = "" ∨ peerId.utf8ByteSize > maxPeerIdBytes ∨ peerId.toList.any isControl then
    .error .invalidPeerId
  else .ok ()

def TrustedPeerRecord.validate (libs : PairingLibs) (record : TrustedPeerRecord) :
    Except PairingError Unit := do
  validatePeerId record.peerId
  if record.identityKey.isZero then .error .invalidIdentityKey
  else if record.certificateDer = [] ∨ record.certificateDer.length > maxCertificateBytes ∨
      libs.sha256 record.certificateDer ≠ record.certificatePin then .error .invalidCertificate
  else .ok ()

namespace PersistedTrustedPeer

def fromRecord (libs : PairingLibs) (record : TrustedPeerRecord) : PersistedTrustedPeer :=
  { version := 1
    peerId := record.peerId
    identityKeyBase64 := libs.base64Encode record.identityKey.val
    certificateDerBase64 := libs.base64Encode record.certificateDer
    certificatePinBase64 := libs.base64Encode record.certificatePin.val
    confirmedAtUnixMs := record.confirmedAtUnixMs }

def decodeArray (libs : PairingLibs) (n : Nat) (encoded : String) :
    Except PairingError (FixedBytes n) :=
  match libs.base64Decode encoded with
  | none => .error .invalidRecord
  | some decoded => if h : decoded.length = n then .ok ⟨decoded, h⟩ else .error .invalidRecord

def intoRecord (libs : PairingLibs) (p : PersistedTrustedPeer) :
    Except PairingError TrustedPeerRecord := do
  if p.version ≠ 1 then .error .invalidRecord
  else
    let identityKey ← decodeArray libs 32 p.identityKeyBase64
    match libs.base64Decode p.certificateDerBase64 with
    | none => .error .invalidRecord
    | some certificateDer =>
        let certificatePin ← decodeArray libs 32 p.certificatePinBase64
        .ok { peerId := p.peerId, identityKey := identityKey, certificateDer := certificateDer
              certificatePin := certificatePin, confirmedAtUnixMs := p.confirmedAtUnixMs }

end PersistedTrustedPeer

def decodeRecord (libs : PairingLibs) (encoded : Bytes) : Except PairingError TrustedPeerRecord :=
  if encoded.length > 64 * 1024 then .error .invalidRecord
  else
    match libs.fromSlice encoded with
    | none => .error .invalidRecord
    | some persisted => do
        let record ← persisted.intoRecord libs
        record.validate libs
        .ok record

/-! ## The calls of the file system -/

/-- Which calls fail, and what a write that fails has put into the file. -/
structure Faults where
  createNew : Bool
  setPermissions : Bool
  writeAll : Bool
  syncAll : Bool
  rename : Bool
  remove : Bool
  written : Bytes
  deriving DecidableEq, Repr

def Faults.none : Faults :=
  { createNew := false, setPermissions := false, writeAll := false, syncAll := false
    rename := false, remove := false, written := [] }

namespace Directory

/-- A call that fails before it does anything, or works. -/
def unlessFault (fault : Bool) (call : Effect Directory FileError Unit) :
    Effect Directory FileError Unit :=
  if fault then throw .other else call

def createNew (name : String) : Effect Directory FileError Unit :=
  .ofFun (fun d => if d.contains name then (.error .alreadyExists, d) else (.ok (), d.insert name []))

/-- `write_all` on a new file. -/
def writeAll (name : String) (data : Bytes) : Effect Directory FileError Unit :=
  .ofFun (fun d => (.ok (), d.insert name data))

def rename (source target : String) : Effect Directory FileError Unit :=
  .ofFun (fun d =>
    match d.get? source with
    | some data => (.ok (), (d.erase source).insert target data)
    | none => (.error .notFound, d))

def removeFile (name : String) : Effect Directory FileError Unit :=
  .ofFun (fun d => if d.contains name then (.ok (), d.erase name) else (.error .notFound, d))

end Directory

/-! ## The store -/

namespace FileTrustedPeerStore

abbrev StoreM := Effect Directory PairingError

/-- A result, with `?`. -/
def check {α : Type} (result : Except PairingError α) : StoreM α := .ofFun (fun d => (result, d))

/-- A call of the file system, with `?`. -/
def call {α : Type} (x : Effect Directory FileError α) : StoreM α :=
  Effect.zoom id (fun d _ => d) PairingError.io x

def recordPath (libs : PairingLibs) (peerId : String) : Except PairingError String := do
  validatePeerId peerId
  .ok (hexLower (libs.sha256 (utf8Bytes peerId)).val ++ ".json")

/-- The temporary file of a record, by the process that writes it. -/
def temporaryPath (path : String) (pid : Nat) : String := withExtension path ("tmp-" ++ toString pid)

/-- The temporary file is removed after an error. -/
def cleanUp (faults : Faults) (temporary : String) (error : FileError) : StoreM Unit := do
  let _ ← call (Effect.attempt (Directory.unlessFault faults.remove (Directory.removeFile temporary)))
  throw (.io error)

/-- `write_all` and then `sync_all`. -/
def writeAndSync (faults : Faults) (name : String) (data : Bytes) :
    Effect Directory FileError Unit := do
  if faults.writeAll then do
    Directory.writeAll name faults.written
    throw .other
  else do
    Directory.writeAll name data
    Directory.unlessFault faults.syncAll (return ())

def writeRecord (libs : PairingLibs) (pid : Nat) (faults : Faults) (record : TrustedPeerRecord) :
    StoreM Unit := do
  check (record.validate libs)
  let path ← check (recordPath libs record.peerId)
  match libs.toVecPretty (.fromRecord libs record) with
  | none => throw .invalidRecord
  | some encoded => do
      let temporary := temporaryPath path pid
      call (Directory.unlessFault faults.createNew (Directory.createNew temporary))
      call (Directory.unlessFault faults.setPermissions (return ()))
      match ← call (Effect.attempt (writeAndSync faults temporary encoded)) with
      | .error error => cleanUp faults temporary error
      | .ok () => do
          match ← call (Effect.attempt
              (Directory.unlessFault faults.rename (Directory.rename temporary path))) with
          | .error error => cleanUp faults temporary error
          | .ok () => return ()

def load (libs : PairingLibs) (d : Directory) (peerId : String) :
    Except PairingError (Option TrustedPeerRecord) := do
  let path ← recordPath libs peerId
  match d.get? path with
  | none => .ok none
  | some encoded => do
      let record ← decodeRecord libs encoded
      if record.peerId ≠ peerId then .error .invalidRecord
      else do
        record.validate libs
        .ok (some record)

def insert (libs : PairingLibs) (pid : Nat) (faults : Faults) (record : TrustedPeerRecord) :
    StoreM Unit := do
  check (record.validate libs)
  let path ← check (recordPath libs record.peerId)
  if (← get).contains path then throw .alreadyPaired
  else writeRecord libs pid faults record

def replaceAuthenticated (libs : PairingLibs) (pid : Nat) (faults : Faults)
    (record : TrustedPeerRecord) : StoreM Unit :=
  writeRecord libs pid faults record

def remove (libs : PairingLibs) (fault : Bool) (peerId : String) : StoreM Bool := do
  let path ← check (recordPath libs peerId)
  match ← call (Effect.attempt (Directory.unlessFault fault (Directory.removeFile path))) with
  | .ok () => return true
  | .error .notFound => return false
  | .error error => throw (.io error)

/-- The loop of `load_all`, behind `records`. -/
def loadEntries (libs : PairingLibs) :
    List TrustedPeerRecord → List (String × Bytes) → Except PairingError (List TrustedPeerRecord)
  | records, [] => .ok records
  | records, (name, encoded) :: entries =>
      if extension name ≠ some "json" then loadEntries libs records entries
      else if records.length ≥ 4096 then .error .invalidRecord
      else do
        let record ← decodeRecord libs encoded
        loadEntries libs (records ++ [record]) entries

def loadAll (libs : PairingLibs) (d : Directory) : Except PairingError (List TrustedPeerRecord) := do
  let records ← loadEntries libs [] (libs.readDir d)
  .ok (records.mergeSort (fun left right => left.peerId ≤ right.peerId))

/-- The last loop of `remove_peer_and_aliases`. `fails` says which removals fail. -/
def removeEach (libs : PairingLibs) (fails : String → Bool) : List String → StoreM (List String)
  | [] => return []
  | peerId :: peerIds => do
      let removed ← remove libs (fails peerId) peerId
      let later ← removeEach libs fails peerIds
      return if removed then peerId :: later else later

def removePeerAndAliases (libs : PairingLibs) (fails : String → Bool) (peerId : String) :
    StoreM (List String) := do
  match ← check (load libs (← get) peerId) with
  | none => return []
  | some target => do
      let records ← check (loadAll libs (← get))
      let matching := (records.filter (fun record =>
        record.identityKey = target.identityKey ∧
          record.certificatePin = target.certificatePin)).map (·.peerId)
      removeEach libs fails (matching.filter (· ≠ peerId) ++ [peerId])

end FileTrustedPeerStore

end HbbCommon.Transport
