import HbbCommon.Base.TSys
import HbbCommon.Files.Transfer

/-!
# Handling the read jobs

`handle_read_jobs` opens the current file of every job and then reads a block of the first
one. A job is removed when it reads nothing and waits for nothing. What is sent is taken by
the network. A run starts with no job; the file system may change between two calls.
-/

namespace HbbCommon.Files

open HbbCommon.Base

/-- A read job with what happened to it: the number it started at, and the numbers of the
files that were skipped. -/
structure ReadJob (φ : Type) where
  job : TransferJob φ
  start : Int
  skipped : List Int
  deriving DecidableEq, Repr

/-- The jobs, the file system, what was sent, and the jobs that were sent `Done`. -/
structure ReadJobs (σ φ : Type) where
  jobs : List (ReadJob φ)
  fs : σ
  sent : List FileResponse
  finished : List (ReadJob φ)

variable {σ φ : Type}

/-- A job of the list, on its own. -/
def ReadJobs.at_ (s : ReadJobs σ φ) (job : TransferJob φ) : JobState σ φ :=
  { job := job, fs := s.fs, sent := s.sent }

/-- What is left of the list's state when a job of it ran. -/
def ReadJobs.after (s : ReadJobs σ φ) (t : JobState σ φ) : ReadJobs σ φ :=
  { s with fs := t.fs, sent := t.sent }

/-- The error of a job is sent. -/
def sendError (t : JobState σ φ) (error : JobError) : JobState σ φ :=
  { t with sent := t.sent ++ [.error t.job.id error t.job.fileNum] }

/-- A turn of the loop in `init_jobs`. -/
def initJob (fs : FileSys σ φ) (t : JobState σ φ) : JobState σ φ :=
  match (TransferJob.initDataStream fs).exec t with
  | (.ok (), t) => t
  | (.error error, t) => sendError t error

def initJobs (fs : FileSys σ φ) (s : ReadJobs σ φ) : List (ReadJob φ) → ReadJobs σ φ
  | [] => { s with jobs := [] }
  | r :: jobs =>
      if r.job.isLastJob then
        let s := initJobs fs s jobs
        { s with jobs := r :: s.jobs }
      else
        let t := initJob fs (s.at_ r.job)
        let s := initJobs fs (s.after t) jobs
        { s with jobs := { r with job := t.job } :: s.jobs }

/-- What becomes of a job that reads. -/
inductive ReadOutcome
  | goesOn
  | skipped
  | done
  deriving DecidableEq, Repr

/-- The turn of the loop in `handle_read_jobs`. -/
def readJob (libs : Libs) (fs : FileSys σ φ) (t : JobState σ φ) : JobState σ φ × ReadOutcome :=
  match (TransferJob.read libs fs).exec t with
  | (.error error, t) => (sendError t error, .goesOn)
  | (.ok (some block), t) => ({ t with sent := t.sent ++ [.block block] }, .goesOn)
  | (.ok none, t) =>
      if t.job.jobCompleted then
        match t.job.jobError with
        | some error => (sendError t error, .skipped)
        | none => ({ t with sent := t.sent ++ [.done t.job.id t.job.fileNum] }, .done)
      else (t, .goesOn)

/-- The loop in `handle_read_jobs`, which ends with the first job, and the number of the job
that is removed. -/
def readFirst (libs : Libs) (fs : FileSys σ φ) (s : ReadJobs σ φ) :
    List (ReadJob φ) → ReadJobs σ φ × Option Int
  | [] => ({ s with jobs := [] }, none)
  | r :: jobs =>
      if r.job.isLastJob then
        let (s, removed) := readFirst libs fs s jobs
        ({ s with jobs := r :: s.jobs }, removed)
      else
        let (t, outcome) := readJob libs fs (s.at_ r.job)
        let r := { r with job := t.job }
        let s := { s.after t with jobs := r :: jobs }
        match outcome with
        | .goesOn => (s, none)
        | .skipped => (s, some t.job.id)
        | .done => ({ s with finished := s.finished ++ [r] }, some t.job.id)

/-- `remove_job` -/
def removeJob (id : Int) (jobs : List (ReadJob φ)) : List (ReadJob φ) :=
  jobs.eraseP (fun r => r.job.id == id)

def handleReadJobs (libs : Libs) (fs : FileSys σ φ) (s : ReadJobs σ φ) : ReadJobs σ φ :=
  let s := initJobs fs s s.jobs
  match readFirst libs fs s s.jobs with
  | (s, none) => s
  | (s, some id) => { s with jobs := removeJob id s.jobs }

/-- A call for the job that `get_job` finds. A call that panics has no next state. -/
def atJob (id : Int) (call : JobM σ φ Unit) (s : ReadJobs σ φ) :
    List (ReadJob φ) → Option (ReadJobs σ φ)
  | [] => some { s with jobs := [] }
  | r :: jobs =>
      if r.job.id = id then
        match call.exec (s.at_ r.job) with
        | (.error _, _) => none
        | (.ok (), t) =>
            some { s.after t with jobs :=
              { r with
                job := t.job
                skipped := if t.job.fileNum = r.job.fileNum then r.skipped
                  else r.skipped ++ [r.job.fileNum] } :: jobs }
      else
        (atJob id call s jobs).map (fun s => { s with jobs := r :: s.jobs })

inductive ReadAction (σ φ : Type)
  /-- `new_read`, and the job is put behind the others -/
  | add (job : TransferJob φ)
  | handle
  | confirm (id : Int) (r : FileTransferSendConfirmRequest)
  | skip (id : Int)
  /-- the files change -/
  | environment (fs : σ)

/-- As `new_read` makes it. -/
def TransferJob.isNew (job : TransferJob φ) : Bool :=
  job.dataStream.isNone && !job.fileConfirmed && !job.fileSkipped && !job.fileIsWaiting

namespace ReadJobs

def step (libs : Libs) (fs : FileSys σ φ) (s : ReadJobs σ φ) :
    ReadAction σ φ → Option (ReadJobs σ φ)
  | .add job =>
      if job.isNew then
        some { s with jobs := s.jobs ++ [{ job := job, start := job.fileNum, skipped := [] }] }
      else none
  | .handle => some (handleReadJobs libs fs s)
  | .confirm id r => atJob id (TransferJob.confirm fs r) s s.jobs
  | .skip id => atJob id TransferJob.setFileSkipped s s.jobs
  | .environment fs => some { s with fs := fs }

def system (libs : Libs) (fs : FileSys σ φ) (init : σ) : TSys (ReadJobs σ φ) (ReadAction σ φ) where
  init := { jobs := [], fs := init, sent := [], finished := [] }
  step := step libs fs

end ReadJobs

end HbbCommon.Files
