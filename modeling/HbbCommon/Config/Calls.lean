import HbbCommon.Base.TSys
import HbbCommon.Config.Process

/-!
# Calls of one thread

One thread makes calls that use the configuration or its key pair, one after another, and the
process may be started again. A call that acquires what the thread holds, or enters the initialiser
of `CONFIG` while it runs, never returns.
-/

namespace HbbCommon.Config

open HbbCommon.Base

/-- The calls, with the arguments that they have. -/
inductive ConfigCall
  | get
  | getKeyPair
  | getExistingKeyPair
  | setKeyConfirmed (v : Bool)
  | setHostKeyConfirmed (host : String) (v : Bool)
  | setId (id : String)
  | setPermanentPassword (disabled : Bool) (hard : Option String) (password : String)
  | setPermanentPasswordStorageForSync (storage salt : String)
  | setSalt (salt : String)
  | getSalt
  | configSet (cfg : Config)
  | peerLoad (file : PeerConfig)
  | peerStore (config : PeerConfig)

/-- A process of one thread, and what it waits for without end. -/
structure OneThread where
  process : Process
  blocked : Option Blocked

inductive ThreadAction
  | call (call : ConfigCall) (draws : Draws)
  | restart

/-- The result of the call is not looked at. -/
def ignoring {α : Type} (x : Op α) : Op PUnit := do
  let _ ← x
  return ⟨⟩

section

variable {Digest : Type} (M : Machine Digest)

def ConfigCall.exec (draws : Draws) : ConfigCall → Op PUnit
  | .get => ignoring (M.configGet draws)
  | .getKeyPair => ignoring (M.getKeyPair draws 3)
  | .getExistingKeyPair => ignoring HbbCommon.Config.getExistingKeyPair
  | .setKeyConfirmed v => M.setKeyConfirmed draws v
  | .setHostKeyConfirmed host v => M.setHostKeyConfirmed draws host v
  | .setId id => M.setId draws id
  | .setPermanentPassword disabled hard password =>
      M.setPermanentPassword draws disabled hard password
  | .setPermanentPasswordStorageForSync storage salt =>
      ignoring (M.setPermanentPasswordStorageForSync draws storage salt)
  | .setSalt salt => M.setSalt draws salt
  | .getSalt => ignoring (M.getSalt draws)
  | .configSet cfg => ignoring (M.configSet draws cfg)
  | .peerLoad file => ignoring (M.peerLoad draws file)
  | .peerStore config => ignoring (M.peerStore draws config)

/-- A thread that is blocked stays so until the process is started again. -/
def OneThread.step (s : OneThread) : ThreadAction → OneThread
  | .call call draws =>
      match s.blocked with
      | some _ => s
      | none =>
          match (call.exec M draws).exec s.process with
          | (.ok _, process) => { process, blocked := none }
          | (.error blocked, process) => { process, blocked := some blocked }
  | .restart => { process := .boot s.process.file s.process.trustedDevices, blocked := none }

end

end HbbCommon.Config
