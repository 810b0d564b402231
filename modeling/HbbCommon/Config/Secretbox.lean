import HbbCommon.Base.Utf8
import HbbCommon.Config.Process

/-!
# Sealed payloads

What stands behind the Base64 text of an encrypted value: a format byte, a nonce and a secretbox,
or a bare secretbox under the zero nonce, which is what earlier versions wrote. The key is made of
the id of the machine or, where that is not available, of the public key; what opens a payload
tries both.
-/

namespace HbbCommon.Config

open HbbCommon.Base

abbrev Nonce := FixedBytes 24

abbrev Key := FixedBytes 32

def macBytes : Nat := 16

def formatV1 : UInt8 := 1

/-- What is used of the library. -/
structure Sodium where
  base64Encode : Bytes → String
  base64Decode : Bytes → Option Bytes
  /-- `secretbox::gen_nonce`, from what is drawn -/
  genNonce : Nat → Nonce
  /-- `secretbox::seal` -/
  sealBox : Bytes → Nonce → Key → Bytes
  /-- `secretbox::open` -/
  openBox : Bytes → Nonce → Key → Option Bytes

/-- What the key is made of. -/
structure KeySource where
  /-- Android or iOS -/
  mobile : Bool
  /-- `machine_uid::get` -/
  machineUid : Option Bytes
  /-- the public key of the key pair, when there is one -/
  publicKey : Option Bytes
  mobile_uid : mobile = true → machineUid = none
  /-- `get_key_pair` makes a key pair when one is needed. -/
  exists_key : machineUid = none → publicKey.isSome = true

/-- `get_uuid` -/
def KeySource.getUuid (source : KeySource) : Bytes :=
  source.machineUid.getD (source.publicKey.getD [])

/-- `resize` to the length of a key. -/
def keyOf (uuid : Bytes) : Key := ⟨keybuf uuid, by simp [keybuf]⟩

def zeroNonce : Nonce := FixedBytes.replicate 24 0

namespace Sodium

variable (lib : Sodium) (source : KeySource)

/-- The part of `open_secretbox_payload` for a payload with a format byte. -/
def openFormatV1 (data : Bytes) (key : Key) : Option Bytes :=
  match data with
  | [] => none
  | format :: rest =>
      if h : format = formatV1 ∧ 24 + macBytes ≤ rest.length then
        lib.openBox (rest.drop 24)
          ⟨rest.take 24, List.length_take_of_le ((Nat.le_add_right _ _).trans h.2)⟩ key
      else none

def openSecretboxPayload (data : Bytes) (key : Key) : Option Bytes :=
  match lib.openFormatV1 data key with
  | some decrypted => some decrypted
  | none => lib.openBox data zeroNonce key

/-- `symmetric_crypt`; the result is none when it fails. -/
def symmetricCrypt (drawn : Nat) (data : Bytes) (encrypt : Bool) : Option Bytes :=
  let uuid := source.getUuid
  let key := keyOf uuid
  if encrypt then
    let nonce := lib.genNonce drawn
    some (formatV1 :: nonce.val ++ lib.sealBox data nonce key)
  else
    match lib.openSecretboxPayload data key with
    | some decrypted => some decrypted
    | none =>
        if source.mobile then none
        else
          match source.publicKey with
          | some pk => if pk ≠ uuid then lib.openSecretboxPayload data (keyOf pk) else none
          | none => none

/-- `encrypt`; there is nothing to encrypt in an empty value. -/
def encrypt (drawn : Nat) (v : Bytes) : Option String :=
  if v ≠ [] then (lib.symmetricCrypt source drawn v true).map lib.base64Encode else none

/-- `decrypt` -/
def decrypt (v : Bytes) : Option Bytes :=
  if v ≠ [] then
    (lib.base64Decode v).bind (fun data => lib.symmetricCrypt source 0 data false)
  else none

/-- The part of `is_encrypted` behind the version. -/
def isPayload (v : Bytes) : Bool :=
  match lib.base64Decode v with
  | some decoded => decide (macBytes ≤ decoded.length)
  | none => false

/-- `encrypt` and `decrypt` of values that are not empty, when the key is at hand. -/
def ops : CryptOps Id where
  encrypt drawn s := (lib.encrypt source drawn (utf8Bytes s)).getD ""
  decrypt body := (lib.decrypt source (utf8Bytes body)).map fromUtf8Lossy
  isPayload body := lib.isPayload (utf8Bytes body)
  encryptVec drawn v := utf8Bytes ((lib.encrypt source drawn v).getD "")
  decryptVec body := lib.decrypt source body
  isPayloadVec := lib.isPayload

def isEncrypted (s : String) : Bool := (lib.ops source).isEncrypted s

def isEncryptedVec (v : Bytes) : Bool := (lib.ops source).isEncryptedVec v

def encryptStrOrOriginal (drawn : Nat) (s version : String) (maxLen : Nat) : String :=
  ((lib.ops source).encryptStrOrOriginal drawn s version maxLen).run

def decryptStrOrOriginal (s currentVersion : String) : String × Bool × Bool :=
  ((lib.ops source).decryptStrOrOriginal s currentVersion).run

/-- With the version `00`, which is the only one. -/
def encryptVecOrOriginal (drawn : Nat) (v : Bytes) (maxLen : Nat) : Bytes :=
  ((lib.ops source).encryptVecOrOriginal drawn v maxLen).run

def decryptVecOrOriginal (v : Bytes) : Bytes × Bool × Bool :=
  ((lib.ops source).decryptVecOrOriginal v).run

end Sodium

end HbbCommon.Config
