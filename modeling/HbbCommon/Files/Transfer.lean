import HbbCommon.Files.Job

/-!
# What a transfer job does

A read job opens the files of its list one after another and returns them block by block. A
write job puts the blocks it gets into `.download` files, and gives a file its name when the
next one starts. What was done before an error stays done.
-/

namespace HbbCommon.Files

open HbbCommon.Base

inductive FileResponse
  | digest (digest : FileTransferDigest)
  | error (id : Int) (error : JobError) (fileNum : Int)
  | block (block : FileTransferBlock)
  | done (id : Int) (fileNum : Int)
  deriving DecidableEq, Repr

/-- A job, the file system, and what is sent, oldest first. -/
structure JobState (σ φ : Type) where
  job : TransferJob φ
  fs : σ
  sent : List FileResponse

abbrev JobM (σ φ : Type) := Effect (JobState σ φ) JobError

variable {σ φ : Type}

namespace JobM

/-- A call of the file system, with `?`. -/
def fs {α : Type} (call : Effect σ IoError α) : JobM σ φ α :=
  Effect.zoom JobState.fs (fun fs s => { s with fs := fs }) JobError.io call

/-- A check on the file system, with `?`. -/
def check {α : Type} (call : Effect σ JobError α) : JobM σ φ α :=
  Effect.zoom JobState.fs (fun fs s => { s with fs := fs }) id call

/-- A call of the file system whose result is looked at. -/
def tryFs {ε α : Type} (call : Effect σ ε α) : JobM σ φ (Except ε α) :=
  fs (Effect.attempt call)

/-- A call of the file system with `.ok()`. -/
def ignore {α : Type} (call : Effect σ IoError α) : JobM σ φ Unit := do
  let _ ← tryFs call
  return ()

def test (call : σ → Bool × σ) : JobM σ φ Bool := fs (Effect.ofState call)

def job : JobM σ φ (TransferJob φ) := JobState.job <$> get

def modifyJob (f : TransferJob φ → TransferJob φ) : JobM σ φ Unit :=
  modify (fun s => { s with job := f s.job })

def send (response : FileResponse) : JobM σ φ Unit :=
  modify (fun s => { s with sent := s.sent ++ [response] })

variable {α : Type} (s : JobState σ φ)

@[simp] theorem exec_fs (call : Effect σ IoError α) : (fs call : JobM σ φ α).exec s =
    ((call.exec s.fs).1.mapError .io, { s with fs := (call.exec s.fs).2 }) := rfl

@[simp] theorem exec_check (call : Effect σ JobError α) : (check call : JobM σ φ α).exec s =
    ((call.exec s.fs).1.mapError id, { s with fs := (call.exec s.fs).2 }) := rfl

@[simp] theorem exec_tryFs {ε : Type} (call : Effect σ ε α) :
    (tryFs call : JobM σ φ (Except ε α)).exec s =
      (.ok (call.exec s.fs).1, { s with fs := (call.exec s.fs).2 }) := rfl

@[simp] theorem exec_ignore (call : Effect σ IoError α) : (ignore call : JobM σ φ Unit).exec s =
    (.ok (), { s with fs := (call.exec s.fs).2 }) := rfl

@[simp] theorem exec_test (call : σ → Bool × σ) : (test call : JobM σ φ Bool).exec s =
    (.ok (call s.fs).1, { s with fs := (call s.fs).2 }) := rfl

@[simp] theorem exec_job : (job : JobM σ φ _).exec s = (.ok s.job, s) := rfl

@[simp] theorem exec_modifyJob (f : TransferJob φ → TransferJob φ) :
    (modifyJob f : JobM σ φ Unit).exec s = (.ok (), { s with job := f s.job }) := rfl

@[simp] theorem exec_send (response : FileResponse) : (send response : JobM σ φ Unit).exec s =
    (.ok (), { s with sent := s.sent ++ [response] }) := rfl

end JobM

namespace TransferJob

/-- The loop of `set_files`. -/
def validateAll (fs : FileSys σ φ) (base : Path) : List FileEntry → Effect σ JobError Unit
  | [] => return ()
  | file :: files => do
      validateNoSymlinkComponents fs base file.name
      validateAll fs base files

/-- The files are checked against a base in the file system. -/
def validateFiles (fs : FileSys σ φ) (files : List FileEntry) : JobM σ φ Unit := do
  match (← JobM.job).dataSource with
  | .filePath base => JobM.check (validateAll fs base files)
  | .memoryCursor _ => return ()

def setFiles (fs : FileSys σ φ) (files : List FileEntry) : JobM σ φ Unit := do
  match validateTransferFileNames files with
  | .error error => throw error
  | .ok () => do
      validateFiles fs files
      JobM.modifyJob (fun job => { job with files := files })

def setDigest (size modified : Nat) : JobM σ φ Unit :=
  JobM.modifyJob (fun job => { job with digest := { size := size, modified := modified } })

def resolveEntryPath (fs : FileSys σ φ) (base : Path) (name : String) : JobM σ φ (Option Path) := do
  match (← JobM.job).type with
  | .generic => do
      match ← JobM.tryFs (joinValidatedPath fs base name) with
      | .ok path => return some path
      | .error _ => return none
  | .printer => return some (joinName base name)

/-- The entry of the current file. -/
def currentEntry (job : TransferJob φ) : Option FileEntry := job.files[asUsize job.fileNum]?

/-- `modify_time` and `remove_download_file`, up to what they do with the path. -/
def atCurrentPath (fs : FileSys σ φ) (f : FileEntry → Path → JobM σ φ Unit) : JobM σ φ Unit := do
  let job ← JobM.job
  match job.type, job.dataSource, job.currentEntry with
  | .generic, .filePath base, some entry => do
      match ← resolveEntryPath fs base entry.name with
      | none => return ()
      | some path => f entry path
  | _, _, _ => return ()

def modifyTime (fs : FileSys σ φ) : JobM σ φ Unit :=
  atCurrentPath fs (fun entry path => do
    JobM.ignore (fs.removeFile (digestOf (getString path)))
    JobM.ignore (fs.rename (downloadOf (getString path)) path)
    JobM.ignore (fs.setFileMtime path entry.modifiedTime))

def removeDownloadFile (fs : FileSys σ φ) : JobM σ φ Unit :=
  atCurrentPath fs (fun _ path => do
    JobM.ignore (fs.removeFile (downloadOf (getString path)))
    JobM.ignore (fs.removeFile (digestOf (getString path))))

/-! ## Writing -/

/-- `sync_all` on the file that is open. -/
def syncStream (fs : FileSys σ φ) : JobM σ φ Unit := do
  match (← JobM.job).dataStream with
  | some (.fileStream file) => JobM.fs (fs.syncAll file)
  | _ => return ()

def setStream (stream : Option (DataStream φ)) : JobM σ φ Unit :=
  JobM.modifyJob (fun job => { job with dataStream := stream })

/-- `create_dir_all` of the parent of a path. -/
def makeParents (fs : FileSys σ φ) (path : Path) : JobM σ φ Unit :=
  match path.parent with
  | some parent => JobM.ignore (Effect.ofFun (fs.createDirAll parent))
  | none => return ()

/-- The path that is written and that of its digest. -/
def writePaths (libs : Libs) (fs : FileSys σ φ) (base : Path) (entry : FileEntry) :
    JobM σ φ (Path × Option Path) := do
  match (← JobM.job).type with
  | .printer => return (libs.toStringLossy base, none)
  | .generic => do
      let path ← JobM.check (joinValidatedPath fs base entry.name)
      makeParents fs path
      return (downloadOf (getString path), some (digestOf (getString path)))

/-- A digest of an earlier transfer is removed. -/
def removeDigest (fs : FileSys σ φ) : Option Path → JobM σ φ Unit
  | none => return ()
  | some digestPath => do
      if ← JobM.test (fs.pathExists digestPath) then JobM.fs (fs.removeFile digestPath)
      else return ()

/-- The part of `write` that starts a file. -/
def startFile (libs : Libs) (fs : FileSys σ φ) (base : Path) (fileNum : Int) (entry : FileEntry) :
    JobM σ φ Unit := do
  modifyTime fs
  syncStream fs
  JobM.modifyJob (fun job => { job with fileNum := fileNum })
  let (path, digestPath) ← writePaths libs fs base entry
  removeDigest fs digestPath
  let file ← JobM.fs (fs.create path)
  setStream (some (.fileStream file))
  match digestPath with
  | none => return ()
  | some digestPath => do
      let digest := (← JobM.job).digest
      JobM.ignore (fs.writeFile digestPath (utf8Bytes (libs.digestToString digest)))

/-- `DataStream::write_all` -/
def writeStream (fs : FileSys σ φ) (data : Bytes) : JobM σ φ Unit := do
  match (← JobM.job).dataStream with
  | none => throw (.message "data stream is None")
  | some (.fileStream file) => do
      let file ← JobM.fs (fs.writeAll file data)
      setStream (some (.fileStream file))
  | some (.bufStream c) =>
      setStream (some (.bufStream
        { bytes := c.bytes.take c.pos ++ data ++ c.bytes.drop (c.pos + data.length)
          pos := c.pos + data.length }))

/-- The part of `write` behind the start of a file. -/
def writeData (libs : Libs) (fs : FileSys σ φ) (block : FileTransferBlock) : JobM σ φ Unit :=
  if block.compressed then
    match decompressLimited libs block.data fileBlockDecompressMaxLen with
    | .error error => throw (.io error)
    | .ok data => writeStream fs data
  else writeStream fs block.data

/-- A file is started when the block is not of the file that is open. -/
def startIfOther (libs : Libs) (fs : FileSys σ φ) (base : Path) (fileNum : Int)
    (entry : FileEntry) : JobM σ φ Unit := do
  let job ← JobM.job
  if asUsize fileNum ≠ asUsize job.fileNum ∨ job.dataStream.isNone then
    startFile libs fs base fileNum entry
  else return ()

/-- The cursor is opened by the first block. -/
def openCursor (c : Cursor) : JobM σ φ Unit := do
  if (← JobM.job).dataStream.isNone then setStream (some (.bufStream c)) else return ()

def write (libs : Libs) (fs : FileSys σ φ) (block : FileTransferBlock) : JobM σ φ Unit := do
  let job ← JobM.job
  if block.id ≠ job.id then throw (.message "Wrong id")
  else
    match job.dataSource with
    | .filePath base =>
        match job.files[asUsize block.fileNum]? with
        | none => throw (.message "Wrong file number")
        | some entry => do
            startIfOther libs fs base block.fileNum entry
            writeData libs fs block
    | .memoryCursor c => do
        openCursor c
        writeData libs fs block

/-! ## Reading -/

/-- On to the next file, with nothing known of it. -/
def advance (job : TransferJob φ) : TransferJob φ :=
  { job with fileNum := job.fileNum + 1, fileConfirmed := false, fileIsWaiting := false }

/-- Opens the file of the current number; whether the job is done. -/
def openDataStream (fs : FileSys σ φ) : JobM σ φ Bool := do
  let job ← JobM.job
  match job.dataSource with
  | .filePath base =>
      match job.currentEntry with
      | none => do
          setStream none
          return true
      | some entry =>
          if job.dataStream.isNone then do
            match ← JobM.tryFs (fs.openFile (joinName base entry.name)) with
            | .ok file => do
                JobM.modifyJob (fun job => { job with
                  dataStream := some (.fileStream file), fileConfirmed := false
                  fileIsWaiting := false })
                return false
            | .error error => do
                JobM.modifyJob advance
                throw (.io error)
          else return false
  | .memoryCursor c =>
      if job.dataStream.isNone then do
        JobM.modifyJob (fun job => { job with
          dataSource := .memoryCursor { bytes := [], pos := 0 }, dataStream := some (.bufStream c) })
        return false
      else return false

def getCurrentDigest (fs : FileSys σ φ) : JobM σ φ Metadata := do
  match (← JobM.job).dataStream with
  | none => throw (.message "file is None")
  | some (.fileStream file) => JobM.fs (fs.fileMetadata file)
  | some (.bufStream _) => throw (.message "No digest for buf stream")

def sendCurrentDigest (fs : FileSys σ φ) : JobM σ φ Unit := do
  let metadata ← getCurrentDigest fs
  let job ← JobM.job
  JobM.send (.digest
    { id := job.id, fileNum := job.fileNum, lastModified := metadata.modified
      fileSize := metadata.len, isIdentical := false, transferredSize := 0
      isResume := job.isResume })

def setFileIsWaiting (waiting : Bool) : JobM σ φ Unit :=
  JobM.modifyJob (fun job => { job with fileIsWaiting := waiting })

/-- The peer is to be asked about the file that is open. -/
def needsDigest (job : TransferJob φ) : Bool :=
  job.type == .generic && job.enableOverwriteDetection && !job.fileConfirmed && !job.fileIsWaiting

def initDataStream (fs : FileSys σ φ) : JobM σ φ Unit := do
  if ← openDataStream fs then return ()
  else if (← JobM.job).needsDigest then do
    sendCurrentDigest fs
    setFileIsWaiting true
  else return ()

/-- `init_data_stream_for_cm`, which returns the digest. -/
def initDataStreamForCm (fs : FileSys σ φ) : JobM σ φ (Option Metadata) := do
  if ← openDataStream fs then return none
  else if (← JobM.job).needsDigest then do
    let digest ← getCurrentDigest fs
    setFileIsWaiting true
    return some digest
  else return none

/-- `DataStream::read` into a buffer of `n` bytes. -/
def readStream (fs : FileSys σ φ) (n : Nat) :
    DataStream φ → Effect σ IoError ({ data : Bytes // data.length ≤ n } × DataStream φ)
  | .fileStream file => do
      let (data, file) ← fs.read file n
      return (data, .fileStream file)
  | .bufStream c =>
      return (⟨(c.bytes.drop c.pos).take n, List.length_take_le _ _⟩,
        .bufStream { c with pos := c.pos + ((c.bytes.drop c.pos).take n).length })

/-- The loop of `read`: until the buffer of `n` bytes is full or nothing comes. -/
def fill (fs : FileSys σ φ) (n : Nat) (stream : DataStream φ) (s : σ) :
    Except IoError (Bytes × DataStream φ) × σ :=
  match (readStream fs n stream).exec s with
  | (.error error, s) => (.error error, s)
  | (.ok (data, stream), s) =>
      if data.val.length = 0 ∨ data.val.length = n then (.ok (data.val, stream), s)
      else
        match fill fs (n - data.val.length) stream s with
        | (.error error, s) => (.error error, s)
        | (.ok (later, stream), s) => (.ok (data.val ++ later, stream), s)
termination_by n
decreasing_by
  have := data.property
  omega

/-- The name by which a file is found to be compressed already. -/
def sourceName (job : TransferJob φ) (base : Path) (entry : FileEntry) : String :=
  if job.files.length = 1 ∧ entry.name = "" then
    (base.fileName.bind fromUtf8).getD ""
  else entry.name

/-- The block of a file, from what was read of it. -/
def fileBlock (libs : Libs) (job : TransferJob φ) (name : String) (data : Bytes) :
    FileTransferBlock :=
  let small := compress libs data
  let compressed := data ≠ [] ∧ ¬ isCompressedFile name ∧ small.length < data.length
  { id := job.id, fileNum := job.fileNum
    data := if compressed then small else data, compressed := compressed }

def read (libs : Libs) (fs : FileSys σ φ) : JobM σ φ (Option FileTransferBlock) := do
  let job ← JobM.job
  if job.type = .generic ∧ job.enableOverwriteDetection ∧ ¬ job.fileConfirmed then return none
  else
    match job.dataSource with
    | .filePath base =>
        match job.currentEntry, job.dataStream with
        | none, _ => do
            setStream none
            return none
        | some _, none => throw (.message "data stream is None")
        | some entry, some stream => do
            match ← JobM.tryFs (Effect.ofFun (fill fs bufSize stream)) with
            | .error error => do
                JobM.modifyJob (fun job => { job.advance with dataStream := none })
                throw (.io error)
            | .ok (data, stream) => do
                JobM.modifyJob (fun job =>
                  if data = [] then { job.advance with dataStream := none }
                  else { job with dataStream := some stream })
                return some (fileBlock libs job (job.sourceName base entry) data)
    | .memoryCursor _ =>
        match job.dataStream with
        | none => throw (.message "data stream is None")
        | some stream => do
            match ← JobM.tryFs (Effect.ofFun (fill fs bufSize stream)) with
            | .error error => do
                JobM.modifyJob (fun job => { job.advance with dataStream := none })
                throw (.io error)
            | .ok (data, stream) =>
                if data = [] then do
                  setStream none
                  return none
                else do
                  setStream (some stream)
                  return some
                    { id := job.id, fileNum := job.fileNum, data := data, compressed := false }

/-! ## Confirmation -/

def setFileConfirmed (confirmed : Bool) : JobM σ φ Unit :=
  JobM.modifyJob (fun job => { job with fileConfirmed := confirmed, fileSkipped := false })

def setFileSkipped : JobM σ φ Unit :=
  JobM.modifyJob (fun job => { job.advance with dataStream := none, fileSkipped := true })

def jobSkipped (job : TransferJob φ) : Bool := job.fileSkipped && job.files.length == 1

def jobCompleted (job : TransferJob φ) : Bool :=
  !job.enableOverwriteDetection || (!job.fileConfirmed && !job.fileIsWaiting)

def jobError (job : TransferJob φ) : Option JobError :=
  if job.jobSkipped then some (.message "skipped") else none

/-- The file that `set_stream_offset` opens: the partial one, or the one of that name. -/
def openAtOffset (fs : FileSys σ φ) (path : Path) : JobM σ φ (Option φ) := do
  let filePath := getString path
  if ← JobM.test (fs.bothExist (downloadOf filePath) (digestOf filePath)) then do
    match ← JobM.tryFs (fs.openWrite (downloadOf filePath)) with
    | .ok file => return some file
    | .error _ => return none
  else if ← JobM.test (fs.pathExists filePath) then do
    match ← JobM.tryFs (fs.openFile filePath) with
    | .ok file => return some file
    | .error _ => return none
  else return none

def setStreamOffset (fs : FileSys σ φ) (fileNum : Nat) (offset : Nat) : JobM σ φ Unit := do
  let job ← JobM.job
  match job.dataSource with
  | .memoryCursor _ => return ()
  | .filePath base =>
      match job.files[fileNum]? with
      | none => throw .panicked
      | some entry => do
          match ← resolveEntryPath fs base entry.name with
          | none => return ()
          | some path => do
              match ← openAtOffset fs path with
              | none => return ()
              | some file => do
                  match ← JobM.tryFs (fs.seek file offset) with
                  | .ok file => setStream (some (.fileStream file))
                  | .error _ => return ()

def confirm (fs : FileSys σ φ) (r : FileTransferSendConfirmRequest) : JobM σ φ Unit := do
  if (← JobM.job).fileNum ≠ r.fileNum then return ()
  else
    match r.union with
    | some (.skip true) => setFileSkipped
    | some (.skip false) => setFileConfirmed true
    | some (.offsetBlk offset) => do
        setFileConfirmed true
        if offset > 0 then setStreamOffset fs (asUsize r.fileNum) offset.toNat else return ()
    | none => return ()

end TransferJob

/-! ## Whether a file is to be written -/

inductive DigestCheckResult
  | needConfirm (digest : FileTransferDigest)
  | noSuchFile
  deriving DecidableEq, Repr

/-- What was transferred before, by the digest file. -/
def transferredBefore (libs : Libs) (fs : FileSys σ φ) (filePath : Path)
    (digest : FileTransferDigest) : Effect σ IoError (Option Nat) := do
  match ← Effect.attempt (fs.readToString (digestOf filePath)) with
  | .error _ => return none
  | .ok content =>
      match libs.digestFromStr content with
      | none => return none
      | some localDigest =>
          if localDigest.modified = digest.lastModified ∧ localDigest.size = digest.fileSize then do
            match ← Effect.attempt (fs.metadata (downloadOf filePath)) with
            | .error _ => return none
            | .ok metadata => return if metadata.len > 0 then some metadata.len else none
          else return none

/-- The part of `is_write_need_confirmation` about a file that is there. -/
def existingFile (fs : FileSys σ φ) (filePath : Path) (digest : FileTransferDigest) :
    Effect σ IoError DigestCheckResult := do
  if ← Effect.ofState (fs.pathExists filePath) then
    if ← Effect.ofState (fs.isFile filePath) then do
      let metadata ← fs.metadata filePath
      return .needConfirm { digest with
        lastModified := metadata.modified, fileSize := metadata.len
        isIdentical := metadata.modified = digest.lastModified ∧ digest.fileSize = metadata.len
        transferredSize := 0, isResume := false }
    else return .noSuchFile
  else return .noSuchFile

def isWriteNeedConfirmation (libs : Libs) (fs : FileSys σ φ) (isResume : Bool) (filePath : Path)
    (digest : FileTransferDigest) : Effect σ IoError DigestCheckResult :=
  if isResume then do
    if ← Effect.ofState (fs.bothExist (digestOf filePath) (downloadOf filePath)) then do
      match ← transferredBefore libs fs filePath digest with
      | some size => return .needConfirm { digest with
          isIdentical := true, transferredSize := size, isResume := false }
      | none => existingFile fs filePath digest
    else existingFile fs filePath digest
  else existingFile fs filePath digest

end HbbCommon.Files
