import HbbCommon.Base.TSys
import HbbCommon.Transport.Pairing

/-!
# Calls of several processes on one store

Every call of the file system is a step of its own, so a run interleaves `insert` and `remove`
of any number of processes. The steps do not fail, but for the exclusive creation of a file that
is there; setting the permissions of a file and syncing it change nothing here.
-/

namespace HbbCommon.Transport

open HbbCommon.Base

namespace FileTrustedPeerStore

/-- A call, by the process with the given id. -/
inductive TaskCall
  | insert (pid : Nat) (record : TrustedPeerRecord)
  | remove (peerId : String)
  deriving DecidableEq

def TaskCall.peerId : TaskCall → String
  | .insert _ record => record.peerId
  | .remove peerId => peerId

/-- Which call of the file system is next. -/
inductive Stage
  | pathExists (path : String)
  | createNew (path : String) (encoded : Bytes)
  | writeAll (path : String) (encoded : Bytes)
  | rename (path : String)
  | cleanUp (path : String) (error : FileError)
  | removeFile (path : String)
  | returned (result : Except PairingError Bool)
  deriving DecidableEq

structure StoreTask where
  call : TaskCall
  stage : Stage
  deriving DecidableEq

/-- What took effect, by the number of the task. -/
inductive StoreEvent
  | inserted (record : TrustedPeerRecord) (task : Nat)
  | removed (peerId : String) (task : Nat)
  deriving DecidableEq

structure SharedStore where
  files : Directory
  tasks : List StoreTask
  log : List StoreEvent
  deriving DecidableEq

/-- What a call does before it asks the file system. -/
def start (libs : PairingLibs) : TaskCall → Stage
  | .insert _ record =>
      match record.validate libs, recordPath libs record.peerId with
      | .error error, _ => .returned (.error error)
      | .ok (), .error error => .returned (.error error)
      | .ok (), .ok path => .pathExists path
  | .remove peerId =>
      match recordPath libs peerId with
      | .error error => .returned (.error error)
      | .ok path => .removeFile path

/-- The next step of a task. -/
def advance (libs : PairingLibs) (d : Directory) (task : Nat) :
    TaskCall → Stage → Option (Directory × Stage × List StoreEvent)
  | .insert _ record, .pathExists path =>
      if d.contains path then some (d, .returned (.error .alreadyPaired), [])
      else
        match libs.toVecPretty (.fromRecord libs record) with
        | none => some (d, .returned (.error .invalidRecord), [])
        | some encoded => some (d, .createNew path encoded, [])
  | .insert pid _, .createNew path encoded =>
      match (Directory.createNew (temporaryPath path pid)).exec d with
      | (.error error, d) => some (d, .returned (.error (.io error)), [])
      | (.ok (), d) => some (d, .writeAll path encoded, [])
  | .insert pid _, .writeAll path encoded =>
      some (((Directory.writeAll (temporaryPath path pid) encoded).exec d).2, .rename path, [])
  | .insert pid record, .rename path =>
      match (Directory.rename (temporaryPath path pid) path).exec d with
      | (.error error, d) => some (d, .cleanUp path error, [])
      | (.ok (), d) => some (d, .returned (.ok true), [.inserted record task])
  | .insert pid _, .cleanUp path error =>
      some (((Directory.removeFile (temporaryPath path pid)).exec d).2,
        .returned (.error (.io error)), [])
  | .remove peerId, .removeFile path =>
      match (Directory.removeFile path).exec d with
      | (.ok (), d) => some (d, .returned (.ok true), [.removed peerId task])
      | (.error .notFound, d) => some (d, .returned (.ok false), [])
      | (.error error, d) => some (d, .returned (.error (.io error)), [])
  | _, _ => none

inductive StoreAction
  | begin (call : TaskCall)
  | step (task : Nat)

/-- Calls on one directory, which is empty in the beginning. -/
def sharedSystem (libs : PairingLibs) : TSys SharedStore StoreAction where
  init := { files := ∅, tasks := [], log := [] }
  step s
    | .begin call => some { s with tasks := s.tasks ++ [⟨call, start libs call⟩] }
    | .step i =>
        match s.tasks[i]? with
        | none => none
        | some task =>
            (advance libs s.files i task.call task.stage).map (fun (files, stage, events) =>
              { files := files, tasks := s.tasks.set i ⟨task.call, stage⟩
                log := s.log ++ events })

end FileTrustedPeerStore

end HbbCommon.Transport
