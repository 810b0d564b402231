import HbbCommon.Base.Effect
import HbbCommon.Config.Config

/-!
# The process of a configuration

`CONFIG` is initialised at its first use and then behind a lock, the key pair is cached in
`KEY_PAIR` behind another, and the file keeps what was stored last. A thread that acquires what it
holds, or enters the initialiser while it runs, never goes on: it ends with an error. The file can
be written.
-/

namespace HbbCommon.Config

open HbbCommon.Base

/-- How the thread holds `CONFIG`. -/
inductive Hold
  | free
  | read
  | write
  deriving DecidableEq

/-- What a thread waits for and holds itself; `depth` is a call deeper than any there is. -/
inductive Blocked
  | config
  | keyPair
  | initializer
  | depth
  deriving DecidableEq

structure Process where
  file : Config
  /-- `CONFIG` once it is initialised -/
  config : Option Config
  initializing : Bool
  hold : Hold
  /-- `KEY_PAIR` -/
  keyPair : Option KeyPair
  keyPairHeld : Bool
  /-- the trusted devices of `CONFIG2` -/
  trustedDevices : String

/-- A process that starts. -/
def Process.boot (file : Config) (trustedDevices : String) : Process where
  file
  config := none
  initializing := false
  hold := .free
  keyPair := none
  keyPairHeld := false
  trustedDevices

abbrev Op := Effect Process Blocked

/-- What a call draws: a key pair, salts, a nonce and an id. -/
structure Draws where
  keyPair : KeyPair
  salt : String
  /-- for the copy that is stored -/
  storedSalt : String
  nonce : Nat
  /-- `gen_id`, unless it fails three times -/
  newId : Option String
  keyPair_ne : keyPair.1 ≠ []
  salt_ne : salt ≠ ""
  storedSalt_ne : storedSalt ≠ ""

/-- The machine and its libraries: what encrypts under a key, and the hash. -/
structure Machine (Digest : Type) where
  /-- `machine_uid::get`, where it is used and available -/
  uid : Option Bytes
  /-- Android or iOS -/
  mobile : Bool
  sealBox : Bytes → Nat → String → String
  openBox : Bytes → String → Option String
  isBase64 : String → Bool
  isPayload : String → Bool
  sealBoxVec : Bytes → Nat → Bytes → Bytes
  openBoxVec : Bytes → Bytes → Option Bytes
  isBase64Vec : Bytes → Bool
  isPayloadVec : Bytes → Bool
  hash : PasswordHash Digest

/-! ## The locks -/

def acquire (hold : Hold) : Op PUnit := do
  if (← get).hold ≠ .free then throw .config
  else modify (fun s => { s with hold })

def release : Op PUnit := modify (fun s => { s with hold := .free })

/-- What is done under `KEY_PAIR`. -/
def underKeyPair {α : Type} (body : Option KeyPair → Config → α × Option KeyPair) : Op α := do
  let s ← get
  if s.keyPairHeld then throw .keyPair
  else do
    modify (fun s => { s with keyPairHeld := true })
    let (a, keyPair) := body s.keyPair s.file
    modify (fun s => { s with keyPair, keyPairHeld := false })
    return a

/-! ## The key pair -/

/-- `ensure_key_pair`; the key pair that may be generated is an argument. -/
def ensureKeyPair (generated : KeyPair) (config : Config) : Op (Bool × Config) :=
  underKeyPair (fun cache _ =>
    match cache with
    | some keyPair =>
        if config.keyPair ≠ keyPair then ((true, { config with keyPair }), cache)
        else ((false, config), cache)
    | none =>
        let changed : Bool := config.keyPair.1 = []
        let config := if changed then { config with keyPair := generated } else config
        ((changed, config), some config.keyPair))

def getExistingKeyPair : Op (Option KeyPair) :=
  underKeyPair (fun cache file =>
    match cache with
    | some keyPair => (some keyPair, cache)
    | none =>
        if file.keyPair.1 ≠ [] then (some file.keyPair, some file.keyPair) else (none, none))

/-- The key of a secretbox: `resize` to `KEYBYTES`. -/
def keybuf (uuid : Bytes) : Bytes := (uuid ++ List.replicate 32 0).take 32

namespace Machine

variable {Digest : Type} (M : Machine Digest) (draws : Draws)

/-- `get_uuid` -/
def getUuid (getKeyPair : Op KeyPair) : Op Bytes :=
  match M.uid with
  | some uid => pure uid
  | none => do
      let keyPair ← getKeyPair
      return keyPair.2

/-- `symmetric_crypt` that decrypts, where the texts are Base64. -/
def decryptWith {β : Type} (getKeyPair : Op KeyPair) (openBox : Bytes → β → Option β) (body : β) :
    Op (Option β) := do
  let uuid ← M.getUuid getKeyPair
  match openBox (keybuf uuid) body with
  | some plain => return some plain
  | none =>
      if M.mobile then return none
      else
        match ← getExistingKeyPair with
        | some (_, pk) => return if pk ≠ uuid then openBox (keybuf pk) body else none
        | none => return none

def ops (getKeyPair : Op KeyPair) : CryptOps Op where
  encrypt nonce s := do
    let uuid ← M.getUuid getKeyPair
    return M.sealBox (keybuf uuid) nonce s
  decrypt body := if M.isBase64 body then M.decryptWith getKeyPair M.openBox body else pure none
  isPayload := M.isPayload
  encryptVec nonce v := do
    let uuid ← M.getUuid getKeyPair
    return M.sealBoxVec (keybuf uuid) nonce v
  decryptVec body :=
    if M.isBase64Vec body then M.decryptWith getKeyPair M.openBoxVec body else pure none
  isPayloadVec := M.isPayloadVec

/-- `Config::store` -/
def store (o : CryptOps Op) (config : Config) : Op PUnit := do
  let file ← M.hash.stored o draws.storedSalt draws.nonce config
  modify (fun s => { s with file })

/-- `get_key_pair`: storing a generated one encrypts, which gets the key pair again. -/
def getKeyPair : Nat → Op KeyPair
  | 0 => throw .depth
  | depth + 1 => do
      let cached ← underKeyPair (fun cache _ => (cache, cache))
      match cached with
      | some keyPair => return keyPair
      | none =>
          let (changed, config) ← ensureKeyPair draws.keyPair (← get).file
          if changed then
            match (← get).config with
            | some current => do
                acquire .write
                let current := { current with keyPair := config.keyPair }
                modify (fun s => { s with config := some current })
                M.store draws (M.ops (getKeyPair depth)) current
                release
            | none => M.store draws (M.ops (getKeyPair depth)) config
          return config.keyPair

/-- What encrypts and decrypts in a call. -/
def callOps : CryptOps Op := M.ops (M.getKeyPair draws 2)

/-! ## The initialiser -/

/-- `Config::load` -/
def load : Op Config := do
  let (changed, config) ← ensureKeyPair draws.keyPair (← get).file
  let (store, config) ← M.hash.loaded (M.callOps draws) draws.salt draws.newId config
  if changed || store then do
    M.store draws (M.callOps draws) config
    return config
  else return config

/-- The use of `CONFIG`, which initialises it. -/
def force : Op Config := do
  match (← get).config with
  | some config => return config
  | none =>
      if (← get).initializing then throw .initializer
      else do
        modify (fun s => { s with initializing := true })
        let config ← M.load draws
        modify (fun s => { s with config := some config, initializing := false })
        return config

/-- What is done under `CONFIG.read()`. -/
def reading {α : Type} (body : Config → Op α) : Op α := do
  let config ← M.force draws
  acquire .read
  let a ← body config
  release
  return a

/-- What is done under `CONFIG.write()`, and leaves a configuration. -/
def writing {α : Type} (body : Config → Op (Config × α)) : Op α := do
  let config ← M.force draws
  acquire .write
  let (config, a) ← body config
  modify (fun s => { s with config := some config })
  release
  return a

/-- A configuration that is stored under `CONFIG.write()`. -/
def storing {α : Type} (config : Config) (a : α) : Op (Config × α) := do
  M.store draws (M.callOps draws) config
  return (config, a)

/-! ## Operations -/

/-- `Config::get` -/
def configGet : Op Config := M.reading draws pure

def setKeyConfirmed (v : Bool) : Op PUnit :=
  M.writing draws (fun config =>
    if config.keyConfirmed = v then pure (config, ⟨⟩)
    else
      let config := { config with keyConfirmed := v }
      M.storing draws (if v then config else { config with keysConfirmed := ∅ }) ⟨⟩)

def getHostKeyConfirmed (host : String) : Op Bool :=
  M.reading draws (fun config => pure (config.keysConfirmed.get? host = some true))

def setHostKeyConfirmed (host : String) (v : Bool) : Op PUnit := do
  if (← M.getHostKeyConfirmed draws host) = v then return ⟨⟩
  else
    M.writing draws (fun config =>
      M.storing draws { config with keysConfirmed := config.keysConfirmed.insert host v } ⟨⟩)

def setId (id : String) : Op PUnit :=
  M.writing draws (fun config =>
    if id = config.id then pure (config, ⟨⟩) else M.storing draws { config with id } ⟨⟩)

/-- `clear_trusted_devices`: the empty list is encrypted and stored. -/
def clearTrustedDevices : Op PUnit := do
  let trustedDevices ← (M.callOps draws).encryptStrOrOriginal draws.nonce "[]" passwordEncVersion
    (1024 * 1024)
  modify (fun s => { s with trustedDevices })

/-- Whether it is the password of `HARD_SETTINGS`, and none is stored. -/
def isHardCoded (hard : Option String) (password : String) : Op Bool :=
  if hard = some password then M.reading draws (fun config => pure (decide (config.password = "")))
  else pure false

/-- `compute_permanent_password_storage_for_update`, or no password: the configuration, which may
get a salt, and what is to be stored. -/
def computePermanentPasswordStorage (password : String) (config : Config) : Config × String :=
  if password = "" then (config, "")
  else
    let config := PasswordHash.withSalt draws.salt config
    (config, M.hash.storageOf password config.salt)

/-- What `set_permanent_password` does under `CONFIG.write()`. -/
def storePermanentPassword (password : String) (config : Config) : Op (Config × PUnit) := do
  let (config, stored) := M.computePermanentPasswordStorage draws password config
  if stored = config.password then return (config, ⟨⟩)
  else
    let config := { config with password := stored }
    M.store draws (M.callOps draws) config
    M.clearTrustedDevices draws
    return (config, ⟨⟩)

/-- `disabled` is `is_disable_change_permanent_password`, `hard` the password of
`HARD_SETTINGS`. -/
def setPermanentPassword (disabled : Bool) (hard : Option String) (password : String) :
    Op PUnit := do
  if disabled then return ⟨⟩
  else do
    let hardCoded ← M.isHardCoded draws hard password
    if hardCoded then return ⟨⟩
    else M.writing draws (M.storePermanentPassword draws password)

def getLocalPermanentPasswordStorageAndSalt : Op (String × String) :=
  M.reading draws (fun config => pure (config.password, config.salt))

def setPermanentPasswordStorageForSync (storage salt : String) : Op Bool :=
  M.writing draws (fun config => do
    if config.password = storage ∧ config.salt = salt then return (config, false)
    else
      let config := { config with password := storage, salt }
      M.store draws (M.callOps draws) config
      M.clearTrustedDevices draws
      return (config, true))

def setSalt (salt : String) : Op PUnit :=
  M.writing draws (fun config =>
    if salt = config.salt then pure (config, ⟨⟩)
    else if ¬ M.hash.passwordIsEmptyOrNotHashed config.password ∧ config.salt ≠ "" then
      pure (config, ⟨⟩)
    else M.storing draws { config with salt } ⟨⟩)

def getSalt : Op String := do
  let salt ← M.reading draws (fun config => pure config.salt)
  if salt = "" then do
    M.setSalt draws draws.salt
    return draws.salt
  else return salt

/-- `invalidate_key_pair_cache_if_changed` -/
def invalidateKeyPairCacheIfChanged (newKeyPair : KeyPair) : Op PUnit :=
  underKeyPair (fun cache _ => (⟨⟩, if cache = some newKeyPair then cache else none))

/-- `Config::set` -/
def configSet (cfg : Config) : Op Bool := do
  let changed ← M.writing draws (fun config =>
    if config = cfg then pure (config, false) else M.storing draws cfg true)
  invalidateKeyPairCacheIfChanged cfg.keyPair
  return changed

end Machine

/-! ## Peers -/

/-- The parts of a peer's configuration that are encrypted in its file. -/
structure PeerConfig where
  password : Bytes
  options : OrdMap String String

def PeerConfig.encryptedOptions : List String := ["rdp_password", "os-username", "os-password"]

namespace Machine

variable {Digest : Type} (M : Machine Digest) (draws : Draws)

def peerStored (config : PeerConfig) : Op PeerConfig := do
  let o := M.callOps draws
  let password ← o.encryptVecOrOriginal draws.nonce config.password encryptMaxLen
  PeerConfig.encryptedOptions.foldlM (fun config opt =>
    match config.options.get? opt with
    | none => pure config
    | some v => do
        let v ← o.encryptStrOrOriginal draws.nonce v passwordEncVersion encryptMaxLen
        return { config with options := config.options.insert opt v }) { config with password }

/-- `PeerConfig::load`: the file, the configuration, and what is stored again. -/
def peerLoad (file : PeerConfig) : Op (PeerConfig × Option PeerConfig) :=
  M.reading draws (fun _ => do
    let o := M.callOps draws
    let (password, _, store) ← o.decryptVecOrOriginal file.password
    let (config, store) ← PeerConfig.encryptedOptions.foldlM (fun p opt =>
      match p.1.options.get? opt with
      | none => pure p
      | some v => do
          let (v, _, store2) ← o.decryptStrOrOriginal v passwordEncVersion
          return ({ p.1 with options := p.1.options.insert opt v }, p.2 || store2))
      ({ file with password }, store)
    if store then do
      let stored ← M.peerStored draws config
      return (config, some stored)
    else return (config, none))

/-- `PeerConfig::store`: what is written into its file. -/
def peerStore (config : PeerConfig) : Op PeerConfig :=
  M.reading draws (fun _ => M.peerStored draws config)

end Machine

end HbbCommon.Config
