import HbbCommon.Config.Config2

/-!
# The configuration

`Config` is what `CONFIG` and its file hold. In the file the id is encrypted; the permanent
password is hashed with the salt, and an older form of it is migrated when it is met. Obtaining
the encryption key may itself do something, so what encrypts and decrypts runs in a monad.
-/

set_option linter.dupNamespace false

namespace HbbCommon.Config

open HbbCommon.Base

/-- The secret key and the public key. -/
abbrev KeyPair := Bytes × Bytes

structure Config where
  id : String
  encId : String
  password : String
  salt : String
  keyPair : KeyPair
  keyConfirmed : Bool
  keysConfirmed : OrdMap String Bool
  deriving DecidableEq

/-! ## Encryption in a monad -/

/-- `encrypt` and `decrypt`, with what they do to obtain their key. -/
structure CryptOps (m : Type → Type) where
  encrypt : Nat → String → m String
  decrypt : String → m (Option String)
  isPayload : String → Bool
  encryptVec : Nat → Bytes → m Bytes
  decryptVec : Bytes → m (Option Bytes)
  isPayloadVec : Bytes → Bool

def behindVersionVec (v : Bytes) : Option Bytes :=
  match v with
  | 48 :: 48 :: c :: rest => some (c :: rest)
  | _ => none

namespace CryptOps

variable {m : Type → Type} [Monad m] (o : CryptOps m)

def isEncrypted (s : String) : Bool := ((behindVersion s).map o.isPayload).getD false

def isEncryptedVec (v : Bytes) : Bool := ((behindVersionVec v).map o.isPayloadVec).getD false

def encryptStrOrOriginal (nonce : Nat) (s version : String) (maxLen : Nat) : m String :=
  if o.isEncrypted s then pure s
  else if s.length > maxLen then pure ""
  else if version = "00" ∧ s ≠ "" then do
    let text ← o.encrypt nonce s
    return version ++ text
  else pure s

def decryptStrOrOriginal (s currentVersion : String) : m (String × Bool × Bool) := do
  let original := (s, false, decide (s ≠ "" ∧ ¬ o.isEncrypted s))
  match behindVersion s with
  | none => return original
  | some body =>
      match ← o.decrypt body with
      | some plain => return (plain, true, decide ("00" ≠ currentVersion))
      | none => return original

def encryptVecOrOriginal (nonce : Nat) (v : Bytes) (maxLen : Nat) : m Bytes :=
  if o.isEncryptedVec v then pure v
  else if v.length > maxLen then pure []
  else if v ≠ [] then do
    let text ← o.encryptVec nonce v
    return 48 :: 48 :: text
  else pure v

def decryptVecOrOriginal (v : Bytes) : m (Bytes × Bool × Bool) := do
  let original := (v, false, decide (v ≠ [] ∧ ¬ o.isEncryptedVec v))
  match behindVersionVec v with
  | none => return original
  | some body =>
      match ← o.decryptVec body with
      | some plain => return (plain, true, false)
      | none => return original

/-- The id of a configuration that is loaded, when it is valid, and whether to store it. -/
def loadedId (config : Config) : m (Option String × Bool) := do
  let (id, encrypted, store) ← o.decryptStrOrOriginal config.encId passwordEncVersion
  if encrypted then return (some id, store)
  else if config.id ≠ "" ∧ config.encId = "" then do
    let (_, encrypted, _) ← o.decryptStrOrOriginal config.id passwordEncVersion
    return if encrypted then (none, false) else (some config.id, true)
  else return (none, false)

end CryptOps

/-! ## The permanent password -/

/-- SHA-256, and the Base64 texts of its digests. -/
structure PasswordHash (Digest : Type) where
  sha256 : String → Digest
  encode : Digest → String
  /-- of a Base64 text of as many bytes as a digest has -/
  decode : String → Option Digest

namespace PasswordHash

variable {Digest : Type} (h : PasswordHash Digest)

def computePermanentPasswordH1 (password salt : String) : Digest := h.sha256 (password ++ salt)

def encodePermanentPasswordStorageFromH1 (h1 : Digest) : String := "01" ++ h.encode h1

def decodePermanentPasswordH1FromStorage (storage : String) : Option Digest :=
  match storage.toList with
  | '0' :: '1' :: encoded => h.decode (.ofList encoded)
  | _ => none

def isPermanentPasswordHashedStorage (v : String) : Bool :=
  (h.decodePermanentPasswordH1FromStorage v).isSome

def passwordIsEmptyOrNotHashed (storage : String) : Bool :=
  storage = "" ∨ ¬ h.isPermanentPasswordHashedStorage storage

/-- The storage of a password. -/
def storageOf (password salt : String) : String :=
  h.encodePermanentPasswordStorageFromH1 (h.computePermanentPasswordH1 password salt)

/-- Whether a text starts with `PASSWORD_ENC_VERSION`. -/
def startsWithVersion (s : String) : Bool :=
  match s.toList with
  | '0' :: '0' :: _ => true
  | _ => false

variable {m : Type → Type} [Monad m] (o : CryptOps m)

/-- A salt that is missing is created. -/
def withSalt (salt : String) (config : Config) : Config :=
  if config.salt = "" then { config with salt } else config

def hashed (password : String) (config : Config) : Config :=
  { config with password := h.storageOf password config.salt }

/-- Whether it was migrated, and the configuration; a salt that is created is an argument. -/
def migratePermanentPasswordToHashedStorage (salt : String) (config : Config) :
    m (Bool × Config) := do
  if config.password = "" ∨ h.isPermanentPasswordHashedStorage config.password then
    return (false, config)
  else if startsWithVersion config.password then
    let (plain, decrypted, looksLikePlaintext) ←
      o.decryptStrOrOriginal config.password passwordEncVersion
    if ¬ decrypted ∧ ¬ looksLikePlaintext then
      return (false, config)
    else if h.isPermanentPasswordHashedStorage plain then
      return (true, { withSalt salt config with password := plain })
    else
      return (true, h.hashed plain (withSalt salt config))
  else
    return (true, h.hashed config.password (withSalt salt config))

/-- What `Config::store` writes into the file. -/
def stored (salt : String) (nonce : Nat) (config : Config) : m Config := do
  let (_, config) ← h.migratePermanentPasswordToHashedStorage o salt config
  let encId ← o.encryptStrOrOriginal nonce config.id passwordEncVersion encryptMaxLen
  return { config with encId, id := "" }

/-- What `Config::load` makes of the file, and whether to store it. A missing salt and a new id,
unless `gen_id` fails, are arguments. -/
def loaded (salt : String) (newId : Option String) (config : Config) : m (Bool × Config) := do
  let (store1, config) ← h.migratePermanentPasswordToHashedStorage o salt config
  let (valid, store2) ← o.loadedId config
  match valid with
  | some id => return (store1 || store2, { config with id })
  | none =>
      match newId with
      | some id => return (true, { config with id })
      | none => return (store1 || store2, config)

end PasswordHash

end HbbCommon.Config
