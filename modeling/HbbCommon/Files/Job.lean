import HbbCommon.Files.FileSys

/-!
# Transfer jobs

The data of a `TransferJob` and the checks of its file names. File numbers are integers that
stay far from the limits of `i32`; as an index a negative one is huge. The sums of sizes that
are only shown are left out. The libraries that the transfer calls are parameters.
-/

namespace HbbCommon.Files

open HbbCommon.Base

inductive JobError
  | message (text : String)
  /-- `failed to validate path component '{}': {}` -/
  | pathComponent (path : Path) (error : IoError)
  | io (error : IoError)
  /-- the process panics -/
  | panicked
  deriving DecidableEq, Repr

inductive JobType
  | generic
  | printer
  deriving DecidableEq, Repr

structure Cursor where
  bytes : Bytes
  pos : Nat
  deriving DecidableEq, Repr

inductive DataSource
  | filePath (path : Path)
  | memoryCursor (cursor : Cursor)
  deriving DecidableEq, Repr

inductive DataStream (φ : Type)
  | fileStream (file : φ)
  | bufStream (cursor : Cursor)
  deriving DecidableEq, Repr

structure FileDigest where
  size : Nat
  modified : Nat
  deriving DecidableEq, Repr

structure FileEntry where
  name : String
  modifiedTime : Nat
  deriving DecidableEq, Repr

structure FileTransferBlock where
  id : Int
  fileNum : Int
  data : Bytes
  compressed : Bool
  deriving DecidableEq, Repr

structure FileTransferDigest where
  id : Int
  fileNum : Int
  lastModified : Nat
  fileSize : Nat
  isIdentical : Bool
  transferredSize : Nat
  isResume : Bool
  deriving DecidableEq, Repr

inductive ConfirmUnion
  | skip (skip : Bool)
  | offsetBlk (offset : UInt32)
  deriving DecidableEq, Repr

structure FileTransferSendConfirmRequest where
  fileNum : Int
  union : Option ConfirmUnion
  deriving DecidableEq, Repr

structure TransferJob (φ : Type) where
  id : Int
  type : JobType
  dataSource : DataSource
  isLastJob : Bool
  isResume : Bool
  fileNum : Int
  files : List FileEntry
  dataStream : Option (DataStream φ)
  enableOverwriteDetection : Bool
  fileConfirmed : Bool
  fileSkipped : Bool
  fileIsWaiting : Bool
  digest : FileDigest
  deriving DecidableEq, Repr

/-- The libraries that the transfer calls. -/
structure Libs where
  /-- `Compressor::compress`, when it succeeds -/
  zstdCompress : Bytes → Option Bytes
  /-- the first bytes that a `zstd` decoder gives -/
  zstdRead : Bytes → Nat → Except IoError Bytes
  /-- `json!(digest).to_string()` -/
  digestToString : FileDigest → String
  /-- `serde_json::from_str` -/
  digestFromStr : String → Option FileDigest
  /-- `to_string_lossy` -/
  toStringLossy : Path → Path

def compress (libs : Libs) (data : Bytes) : Bytes := (libs.zstdCompress data).getD []

def decompressLimited (libs : Libs) (data : Bytes) (maxLen : Nat) : Except IoError Bytes :=
  match libs.zstdRead data (maxLen + 1) with
  | .error error => .error error
  | .ok output => if output.length > maxLen then .error .other else .ok output

def fileBlockDecompressMaxLen : Nat := 128 * 1024

/-- `BUF_SIZE` in `read`. -/
def bufSize : Nat := 128 * 1024

/-- `as usize` -/
def asUsize (n : Int) : Nat := (n % 2 ^ 64).toNat

/-- What is behind the last dot. -/
def getExt (name : String) : String :=
  if '.' ∈ name.toList then .ofList (name.toList.reverse.takeWhile (· ≠ '.')).reverse else ""

def isCompressedFile (name : String) : Bool :=
  ["xz", "gz", "zip", "7z", "rar", "bz2", "tgz", "png", "jpg"].contains (getExt name)

/-! ## Names -/

def validateFileNameNoTraversal (name : String) : Except JobError Unit :=
  if (utf8Bytes name).any (· == 0) then .error (.message "file name contains null bytes")
  else if ((Path.segments (utf8Bytes name)).filter (· ≠ [])).any (· == Path.dotDot) then
    .error (.message "path traversal detected in file name")
  else if Path.isAbsolute (utf8Bytes name) then
    .error (.message "absolute path detected in file name")
  else .ok ()

/-- The loop of `validate_transfer_file_names`. -/
def validateEach : List FileEntry → Except JobError Unit
  | [] => .ok ()
  | file :: files =>
      if file.name = "" then .error (.message "empty file name in multi-file transfer")
      else
        match validateFileNameNoTraversal file.name with
        | .error error => .error error
        | .ok () => validateEach files

def validateTransferFileNames (files : List FileEntry) : Except JobError Unit :=
  match files with
  | [file] => if file.name = "" then .ok () else validateEach [file]
  | files => validateEach files

/-- `TransferJob::join` -/
def joinName (path : Path) (name : String) : Path :=
  if name = "" then path else path.push (utf8Bytes name)

variable {σ φ : Type}

/-- The loop of `validate_no_symlink_components`. -/
def validateComponents (fs : FileSys σ φ) : Path → List Component → Effect σ JobError Unit
  | _, [] => pure ()
  | current, .curDir :: components => validateComponents fs current components
  | current, .normal segment :: components => do
      match ← Effect.attempt (fs.symlinkMetadata (current.push segment)) with
      | .ok true => throw (.message "symlink path component is not allowed")
      | .ok false | .error .notFound => validateComponents fs (current.push segment) components
      | .error error => throw (.pathComponent (current.push segment) error)
  | _, _ :: _ => throw (.message "invalid file name component")

def validateNoSymlinkComponents (fs : FileSys σ φ) (base : Path) (name : String) :
    Effect σ JobError Unit :=
  if name = "" then pure () else validateComponents fs base (Path.components (utf8Bytes name))

def joinValidatedPath (fs : FileSys σ φ) (base : Path) (name : String) :
    Effect σ JobError Path :=
  match validateFileNameNoTraversal name with
  | .error error => throw error
  | .ok () => do
      validateNoSymlinkComponents fs base name
      return joinName base name

end HbbCommon.Files
