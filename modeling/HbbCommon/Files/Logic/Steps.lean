import HbbCommon.Files.Transfer

/-!
# What the parts of a job do

Opening a file and reading a block, case by case, as equations between states.
-/

namespace HbbCommon.Files

open HbbCommon.Base

variable {σ φ : Type} {fs : FileSys σ φ} {t : JobState σ φ} {base : Path} {entry : FileEntry}

namespace TransferJob

/-- The file of the job is open now. -/
def opened (job : TransferJob φ) (file : φ) : TransferJob φ :=
  { job with dataStream := some (.fileStream file), fileConfirmed := false, fileIsWaiting := false }

/-- The file of the job is given up. -/
def leave (job : TransferJob φ) : TransferJob φ := { job.advance with dataStream := none }

/-! ## Opening -/

theorem openDataStream_done (hsource : t.job.dataSource = .filePath base)
    (hentry : t.job.currentEntry = none) : (openDataStream fs).exec t =
      (.ok true, { t with job := { t.job with dataStream := none } }) := by
  simp [openDataStream, Effect.exec_bind, hsource, hentry, setStream, Except.map]

theorem openDataStream_open {stream : DataStream φ} (hsource : t.job.dataSource = .filePath base)
    (hentry : t.job.currentEntry = some entry) (hstream : t.job.dataStream = some stream) :
    (openDataStream fs).exec t = (.ok false, t) := by
  simp [openDataStream, Effect.exec_bind, hsource, hentry, hstream]

theorem openDataStream_ok {file : φ} {u : σ} (hsource : t.job.dataSource = .filePath base)
    (hentry : t.job.currentEntry = some entry) (hstream : t.job.dataStream = none)
    (hopen : (fs.openFile (joinName base entry.name)).exec t.fs = (.ok file, u)) :
    (openDataStream fs).exec t = (.ok false, { t with job := t.job.opened file, fs := u }) := by
  simp [openDataStream, Effect.exec_bind, hsource, hentry, hstream, hopen, Except.map, opened]

theorem openDataStream_error {error : IoError} {u : σ}
    (hsource : t.job.dataSource = .filePath base) (hentry : t.job.currentEntry = some entry)
    (hstream : t.job.dataStream = none)
    (hopen : (fs.openFile (joinName base entry.name)).exec t.fs = (.error error, u)) :
    (openDataStream fs).exec t =
      (.error (.io error), { t with job := t.job.advance, fs := u }) := by
  simp [openDataStream, Effect.exec_bind, hsource, hentry, hstream, hopen]

/-! ## Reading -/

theorem read_unconfirmed {libs : Libs} (h : t.job.type = .generic ∧
    t.job.enableOverwriteDetection = true ∧ ¬ t.job.fileConfirmed = true) :
    (read libs fs).exec t = (.ok none, t) := by
  simp [read, Effect.exec_bind, h.1, h.2.1, h.2.2]

variable {libs : Libs} (hread : ¬ (t.job.type = .generic ∧
  t.job.enableOverwriteDetection = true ∧ ¬ t.job.fileConfirmed = true))

include hread

theorem read_done (hsource : t.job.dataSource = .filePath base)
    (hentry : t.job.currentEntry = none) : (read libs fs).exec t =
      (.ok none, { t with job := { t.job with dataStream := none } }) := by
  simp only [read, Effect.exec_bind, JobM.exec_job, if_neg hread, hsource, hentry]
  simp [setStream, hsource]

theorem read_noStream (hsource : t.job.dataSource = .filePath base)
    (hentry : t.job.currentEntry = some entry) (hstream : t.job.dataStream = none) :
    (read libs fs).exec t = (.error (.message "data stream is None"), t) := by
  simp only [read, Effect.exec_bind, JobM.exec_job, if_neg hread, hsource, hentry, hstream]
  rfl

variable {stream : DataStream φ} {u : σ}

theorem read_error {error : IoError} (hsource : t.job.dataSource = .filePath base)
    (hentry : t.job.currentEntry = some entry) (hstream : t.job.dataStream = some stream)
    (hfill : fill fs bufSize stream t.fs = (.error error, u)) : (read libs fs).exec t =
      (.error (.io error), { t with job := t.job.leave, fs := u }) := by
  simp only [read, Effect.exec_bind, JobM.exec_job, if_neg hread, hsource, hentry, hstream]
  simp [hfill, Effect.exec_bind, leave]

theorem read_ok {data : Bytes} {stream' : DataStream φ} (hsource : t.job.dataSource = .filePath base)
    (hentry : t.job.currentEntry = some entry) (hstream : t.job.dataStream = some stream)
    (hfill : fill fs bufSize stream t.fs = (.ok (data, stream'), u)) : (read libs fs).exec t =
      (.ok (some (fileBlock libs t.job (t.job.sourceName base entry) data)),
        { t with
          job := if data = [] then t.job.leave else { t.job with dataStream := some stream' }
          fs := u }) := by
  simp only [read, Effect.exec_bind, JobM.exec_job, if_neg hread, hsource, hentry, hstream]
  simp [hfill, leave, Except.map, hsource]

end TransferJob

end HbbCommon.Files
