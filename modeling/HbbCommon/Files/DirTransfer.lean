import HbbCommon.Files.ReadJobs
import HbbCommon.Files.Logic.Confirm
import HbbCommon.Files.Disk

/-!
# A directory is transferred

A read job on one disk and a write job on another, with the same list of files. What the read
job sends arrives in order: a block is written, and behind the last one the job is told that
it is done and names its last file. Either end goes on when it likes.
-/

namespace HbbCommon.Files

open HbbCommon.Base

structure DirSetup where
  id : Int
  files : List FileEntry
  source : Disk
  sourceBase : Path
  target : Disk
  targetBase : Path

/-- The two ends, how much of what was sent has arrived, and the errors of `write`. -/
structure DirTransfer where
  sender : ReadJobs Disk Handle
  receiver : JobState Disk Handle
  arrived : Nat
  errors : List JobError
  finished : Bool

inductive DirAction
  | handle
  | receive

namespace DirSetup

variable (setup : DirSetup)

def readJob : TransferJob Handle :=
  TransferJob.newJob setup.id .generic (.filePath setup.sourceBase) 0 false setup.files

def writeJob : TransferJob Handle :=
  TransferJob.newJob setup.id .generic (.filePath setup.targetBase) 0 false []

def init : DirTransfer where
  sender :=
    { jobs := [{ job := setup.readJob, start := 0, skipped := [] }], fs := setup.source
      sent := [], finished := [] }
  receiver :=
    ((TransferJob.setFiles Disk.fileSys setup.files).exec
      { job := setup.writeJob, fs := setup.target, sent := [] }).2
  arrived := 0
  errors := []
  finished := false

end DirSetup

namespace DirTransfer

variable (libs : Libs) (s : DirTransfer)

/-- The next response arrives. A read job without overwrite detection sends no digests. -/
def receive : Option DirTransfer :=
  match s.sender.sent[s.arrived]? with
  | some (.block block) =>
      match (TransferJob.write libs Disk.fileSys block).exec s.receiver with
      | (.ok (), receiver) => some { s with receiver, arrived := s.arrived + 1 }
      | (.error error, receiver) =>
          some { s with receiver, arrived := s.arrived + 1, errors := s.errors ++ [error] }
  | some (.done _ _) =>
      some
        { s with
          receiver := ((TransferJob.modifyTime Disk.fileSys).exec s.receiver).2
          arrived := s.arrived + 1, finished := true }
  | some (.error ..) => some { s with arrived := s.arrived + 1 }
  | some (.digest _) => none
  | none => none

def step : DirAction → Option DirTransfer
  | .handle => some { s with sender := handleReadJobs libs Disk.fileSys s.sender }
  | .receive => s.receive libs

end DirTransfer

end HbbCommon.Files
