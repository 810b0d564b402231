import HbbCommon.Base.TSys
import HbbCommon.Transport.Pairing

/-!
# The TLS identity

The identity is a certificate and a private key in two files. A process that finds neither
generates them and writes the key first; each file is written to a temporary file, which has the
id of the process in its name, and renamed. Every call of the file system is a step of its own,
and a call may stop at any of them.
-/

namespace HbbCommon.Transport

open HbbCommon.Base

def maxPrivateKeyBytes : Nat := 16 * 1024

inductive IdentityFile
  | certificate
  | privateKey
  deriving DecidableEq, Repr

namespace IdentityFile

def name : IdentityFile → String
  | certificate => "certificate.der"
  | privateKey => "private-key.pk8"

/-- The bound of `read_bounded`. -/
def maximum : IdentityFile → Nat
  | certificate => maxCertificateBytes
  | privateKey => maxPrivateKeyBytes

/-- The temporary file of `write_atomic`. -/
def temporary (file : IdentityFile) (pid : Nat) : String :=
  "." ++ file.name ++ ".tmp-" ++ toString pid

end IdentityFile

/-- The texts of `QuicTransportError::Configuration`. -/
inductive IdentityError
  /-- QUIC TLS identity is incomplete; refusing silent key replacement -/
  | incomplete
  /-- QUIC TLS identity file has an invalid size -/
  | invalidSize (file : IdentityFile)
  /-- QUIC TLS identity file is empty -/
  | empty
  | io (error : FileError)
  deriving DecidableEq, Repr

structure LocalTlsIdentity where
  certificate : Bytes
  privateKeyPkcs8 : Bytes
  deriving DecidableEq, Repr

namespace LocalTlsIdentity

/-- What `generate` writes to a file. -/
def contents (identity : LocalTlsIdentity) : IdentityFile → Bytes
  | .certificate => identity.certificate
  | .privateKey => identity.privateKeyPkcs8

/-- Which call of the file system is next. -/
inductive Stage
  | certificateExists
  | keyExists (certificate : Bool)
  | metadata (file : IdentityFile) (certificate : Bytes)
  | read (file : IdentityFile) (certificate : Bytes)
  | generate
  | createNew (file : IdentityFile) (identity : LocalTlsIdentity)
  | writeAll (file : IdentityFile) (identity : LocalTlsIdentity)
  | rename (file : IdentityFile) (identity : LocalTlsIdentity)
  | cleanUp (file : IdentityFile) (error : FileError)
  | removeKey (error : FileError)
  | returned (result : Except IdentityError LocalTlsIdentity)
  | stopped (stage : Stage)
  deriving DecidableEq

/-- What `generate` does after an error of `write_atomic`. -/
def afterError (file : IdentityFile) (error : FileError) : Stage :=
  match file with
  | .privateKey => .returned (.error (.io error))
  | .certificate => .removeKey error

/-- The next step of a call of the process `pid`. Setting permissions changes nothing here. -/
def advance (d : Directory) (pid : Nat) : Stage → Option (Directory × Stage)
  | .certificateExists => some (d, .keyExists (d.contains IdentityFile.certificate.name))
  | .keyExists certificate =>
      match certificate, d.contains IdentityFile.privateKey.name with
      | true, true => some (d, .metadata .certificate [])
      | false, false => some (d, .generate)
      | _, _ => some (d, .returned (.error .incomplete))
  | .metadata file certificate =>
      match d.get? file.name with
      | none => some (d, .returned (.error (.io .notFound)))
      | some data =>
          if data.length = 0 ∨ data.length > file.maximum then
            some (d, .returned (.error (.invalidSize file)))
          else some (d, .read file certificate)
  | .read file certificate =>
      match file, d.get? file.name with
      | _, none => some (d, .returned (.error (.io .notFound)))
      | .certificate, some data => some (d, .metadata .privateKey data)
      | .privateKey, some data =>
          if certificate = [] ∨ data = [] then some (d, .returned (.error .empty))
          else some (d, .returned (.ok { certificate := certificate, privateKeyPkcs8 := data }))
  | .createNew file identity =>
      match (Directory.createNew (file.temporary pid)).exec d with
      | (.error error, d) => some (d, afterError file error)
      | (.ok (), d) => some (d, .writeAll file identity)
  | .writeAll file identity =>
      some (((Directory.writeAll (file.temporary pid) (identity.contents file)).exec d).2,
        .rename file identity)
  | .rename file identity =>
      match file, (Directory.rename (file.temporary pid) file.name).exec d with
      | _, (.error error, d) => some (d, .cleanUp file error)
      | .privateKey, (.ok (), d) => some (d, .createNew .certificate identity)
      | .certificate, (.ok (), d) => some (d, .returned (.ok identity))
  | .cleanUp file error =>
      some (((Directory.removeFile (file.temporary pid)).exec d).2, afterError file error)
  | .removeKey error =>
      some (((Directory.removeFile IdentityFile.privateKey.name).exec d).2,
        .returned (.error (.io error)))
  | .generate | .returned _ | .stopped _ => none

/-- A call of `load_or_create`. -/
structure IdentityCall where
  pid : Nat
  stage : Stage
  deriving DecidableEq

/-- The directory, the calls and every identity that was generated. -/
structure SharedIdentity where
  files : Directory
  calls : List IdentityCall
  generated : List LocalTlsIdentity
  deriving DecidableEq

inductive IdentityAction
  /-- Another process calls. -/
  | begin (pid : Nat)
  | step (call : Nat)
  /-- What the call generates. -/
  | generate (call : Nat) (identity : LocalTlsIdentity)
  /-- The process is gone. -/
  | stop (call : Nat)
  deriving DecidableEq

/-- Whether a call is under way. -/
def Stage.running : Stage → Bool
  | .returned _ | .stopped _ => false
  | _ => true

/-- Calls of different processes on one directory, which is empty in the beginning. -/
def identitySystem : TSys SharedIdentity IdentityAction where
  init := { files := ∅, calls := [], generated := [] }
  step s
    | .begin pid =>
        if pid ∈ s.calls.map IdentityCall.pid then none
        else some { s with calls := s.calls ++ [⟨pid, .certificateExists⟩] }
    | .step i =>
        match s.calls[i]? with
        | none => none
        | some call =>
            (advance s.files call.pid call.stage).map (fun (files, stage) =>
              { s with files := files, calls := s.calls.set i ⟨call.pid, stage⟩ })
    | .generate i identity =>
        match s.calls[i]? with
        | some ⟨pid, .generate⟩ =>
            some { s with
              calls := s.calls.set i ⟨pid, .createNew .privateKey identity⟩
              generated := identity :: s.generated }
        | _ => none
    | .stop i =>
        match s.calls[i]? with
        | none => none
        | some call =>
            if call.stage.running then
              some { s with calls := s.calls.set i ⟨call.pid, .stopped call.stage⟩ }
            else none

end LocalTlsIdentity

end HbbCommon.Transport
