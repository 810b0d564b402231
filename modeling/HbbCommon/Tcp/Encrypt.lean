import HbbCommon.Transport.Video.Types
import HbbCommon.Base.Wire

/-!
# The secretbox channel

`Encrypt` is a key with one counter for each direction. A nonce is the number of the
message in its direction, little-endian; in the directional mode its last byte names
the direction. What seals and opens a message is a parameter: `Secretbox.Lawful` is
what the code relies on.
-/

namespace HbbCommon.Tcp

open HbbCommon.Base
open HbbCommon.Transport (Bytes)

/-- `secretbox::KEYBYTES`, `secretbox::NONCEBYTES` and `secretbox::MACBYTES`. -/
def keyBytes : Nat := 32

def nonceBytes : Nat := 24

def macBytes : Nat := 16

abbrev Key := { bytes : Bytes // bytes.length = keyBytes }

abbrev Nonce := { bytes : Bytes // bytes.length = nonceBytes }

/-- `secretbox::seal` and `secretbox::open`. -/
structure Secretbox where
  sealBox : Bytes → Nonce → Key → Bytes
  openBox : Bytes → Nonce → Key → Option Bytes

/-- A box is its message and an authenticator, and opens under the key and the nonce it
was sealed with, to the message. -/
structure Secretbox.Lawful (box : Secretbox) : Prop where
  openBox_eq_some_iff : ∀ sealedBytes nonce key message,
    box.openBox sealedBytes nonce key = some message ↔
      sealedBytes = box.sealBox message nonce key
  length_sealBox : ∀ message nonce key,
    (box.sealBox message nonce key).length = message.length + macBytes

inductive SessionRole
  | viewer
  | host
  deriving DecidableEq, Repr

inductive NonceMode
  | legacy
  | directional (role : SessionRole)
  deriving DecidableEq, Repr

def nonceTagViewerToHost : UInt8 := 0x01

def nonceTagHostToViewer : UInt8 := 0x02

/-- `FramedStream::get_nonce`. -/
def getNonce (seqnum : UInt64) : Nonce :=
  ⟨toLeBytes 8 seqnum.toNat ++ List.replicate 16 0, by
    rw [List.length_append, length_toLeBytes, List.length_replicate]; rfl⟩

def NonceMode.nonce (mode : NonceMode) (seqnum : UInt64) (sending : Bool) : Nonce :=
  let nonce := getNonce seqnum
  match mode with
  | .legacy => nonce
  | .directional role =>
      let viewerToHost := (role == .viewer) == sending
      ⟨nonce.val.set (nonceBytes - 1)
        (if viewerToHost then nonceTagViewerToHost else nonceTagHostToViewer), by
        rw [List.length_set]; exact nonce.property⟩

inductive DecryptError
  | shorterThanAuthenticator
  | decryption
  deriving DecidableEq, Repr

/-- The counters wrap, as they do in a build without overflow checks. -/
structure Encrypt where
  key : Key
  /-- messages sealed -/
  sendSeqnum : UInt64
  /-- messages opened -/
  recvSeqnum : UInt64
  mode : NonceMode
  deriving DecidableEq

namespace Encrypt

def withMode (key : Key) (mode : NonceMode) : Encrypt :=
  { key := key, sendSeqnum := 0, recvSeqnum := 0, mode := mode }

def new (key : Key) : Encrypt := .withMode key .legacy

def dec (box : Secretbox) (e : Encrypt) (bytes : Bytes) : Encrypt × Except DecryptError Bytes :=
  if e.mode ≠ .legacy ∧ bytes.length < macBytes then (e, .error .shorterThanAuthenticator)
  else if bytes.length ≤ 1 then (e, .ok bytes)
  else
    let e := { e with recvSeqnum := e.recvSeqnum + 1 }
    match box.openBox bytes (e.mode.nonce e.recvSeqnum false) e.key with
    | some message => (e, .ok message)
    | none => (e, .error .decryption)

def enc (box : Secretbox) (e : Encrypt) (data : Bytes) : Encrypt × Bytes :=
  let e := { e with sendSeqnum := e.sendSeqnum + 1 }
  (e, box.sealBox data (e.mode.nonce e.sendSeqnum true) e.key)

end Encrypt

end HbbCommon.Tcp
