import HbbCommon.Base.TSys
import HbbCommon.Config.Options
import HbbCommon.Config.Secretbox

/-!
# Secrets in the files

The proxy password and the unlock pin of `CONFIG2`, and the password and three options of a
peer, are encrypted in their files. Storing writes what the encryption returns, whatever that
is; loading decrypts, and stores again what was in the clear.
-/

namespace HbbCommon.Config

open HbbCommon.Base

namespace keys

def optionProxyUrl : String := "proxy-url"

def optionProxyUsername : String := "proxy-username"

def optionProxyPassword : String := "proxy-password"

end keys

section

variable {m : Type → Type} [Monad m] (o : CryptOps m) (nonces : String → Nat)

/-- What `Config2::store` writes into the file; each value has its nonce. -/
def Config2.stored (config : Config2) : m Config2 := do
  let socks ←
    match config.socks with
    | none => pure none
    | some socks => do
        let password ← o.encryptStrOrOriginal (nonces "socks") socks.password passwordEncVersion
          encryptMaxLen
        pure (some { socks with password })
  let unlockPin ← o.encryptStrOrOriginal (nonces "unlock_pin") config.unlockPin
    passwordEncVersion encryptMaxLen
  return { config with socks, unlockPin }

/-- What `Config2::load` makes of the file, and whether to store it. -/
def Config2.loaded (file : Config2) : m (Config2 × Bool) := do
  let (socks, store) ←
    match file.socks with
    | none => pure (none, false)
    | some socks => do
        let (password, _, store) ← o.decryptStrOrOriginal socks.password passwordEncVersion
        pure (some { socks with password }, store)
  let (unlockPin, _, store2) ← o.decryptStrOrOriginal file.unlockPin passwordEncVersion
  return ({ file with socks, unlockPin }, store || store2)

/-- What `PeerConfig::store` writes into the file. -/
def PeerConfig.stored (config : PeerConfig) : m PeerConfig := do
  let password ← o.encryptVecOrOriginal (nonces "password") config.password encryptMaxLen
  PeerConfig.encryptedOptions.foldlM (fun config opt =>
    match config.options.get? opt with
    | none => pure config
    | some v => do
        let v ← o.encryptStrOrOriginal (nonces opt) v passwordEncVersion encryptMaxLen
        return { config with options := config.options.insert opt v }) { config with password }

/-- What `PeerConfig::load` makes of the file, and whether to store it. -/
def PeerConfig.loaded (file : PeerConfig) : m (PeerConfig × Bool) := do
  let (password, _, store) ← o.decryptVecOrOriginal file.password
  PeerConfig.encryptedOptions.foldlM (fun p opt =>
    match p.1.options.get? opt with
    | none => pure p
    | some v => do
        let (v, _, store2) ← o.decryptStrOrOriginal v passwordEncVersion
        return ({ p.1 with options := p.1.options.insert opt v }, p.2 || store2))
    ({ file with password }, store)

end

/-- With the key of a process these are the calls of that process. -/
theorem Machine.peerStored_eq {Digest : Type} (M : Machine Digest) (draws : Draws) :
    M.peerStored draws = PeerConfig.stored (M.callOps draws) (fun _ => draws.nonce) := rfl

/-! ## The setters -/

/-- `CONFIG2` and its file. -/
structure Config2Store where
  config2 : Config2
  file : Config2

section

variable (lib : Sodium) (source : KeySource) (nonces : String → Nat)

/-- `config.store()` of a changed configuration -/
def Config2Store.write (config : Config2) : Config2Store where
  config2 := config
  file := (Config2.stored (lib.ops source) nonces config).run

/-- The start of the process on a file. -/
def Config2Store.boot (file : Config2) : Config2Store :=
  let (config, store) := (Config2.loaded (lib.ops source) file).run
  if store then .write lib source nonces config else { config2 := config, file }

/-- What the next start of the process loads. -/
def Config2Store.reloaded (s : Config2Store) : Config2 :=
  (Config2.loaded (lib.ops source) s.file).run.1

/-- Whether a value is the default of an option. -/
def Settings.equalToDefault (settings : Settings) (key value : String) : Bool :=
  (settings.default.get? key).any (· = value)

/-- The proxy is that of the default settings. -/
def Settings.isDefaultSocks (settings : Settings) (socks : Option Socks5Server) : Bool :=
  let given := socks.getD { proxy := "", username := "", password := "" }
  settings.default.contains keys.optionProxyUrl &&
    settings.equalToDefault keys.optionProxyUrl given.proxy &&
    settings.equalToDefault keys.optionProxyUsername given.username &&
    settings.equalToDefault keys.optionProxyPassword given.password

/-- `Config::set_socks` -/
def setSocks (settings : Settings) (socks : Option Socks5Server) (s : Config2Store) :
    Config2Store :=
  if settings.overwrite.contains keys.optionProxyUrl then s
  else if s.config2.socks = socks then s
  else if s.config2.socks = none ∧ settings.isDefaultSocks socks then s
  else .write lib source nonces { s.config2 with socks }

/-- `Config::set_unlock_pin`, where `disabled` is `is_disable_unlock_pin`. -/
def setUnlockPin (disabled : Bool) (pin : String) (s : Config2Store) : Config2Store :=
  if disabled then s
  else if pin = s.config2.unlockPin then s
  else .write lib source nonces { s.config2 with unlockPin := pin }

end

/-- What a process does to `CONFIG2`: the two setters, and any other change, which is stored. -/
inductive Config2Call
  | setSocks (socks : Option Socks5Server)
  | setUnlockPin (disabled : Bool) (pin : String)
  | change (config : Config2)

/-- A process from its start on a file. -/
def config2Store (lib : Sodium) (source : KeySource) (settings : Settings)
    (nonces : String → Nat) (file : Config2) : TSys Config2Store ((String → Nat) × Config2Call) where
  init := .boot lib source nonces file
  step s call :=
    match call with
    | (nonces, .setSocks socks) => some (setSocks lib source nonces settings socks s)
    | (nonces, .setUnlockPin disabled pin) => some (setUnlockPin lib source nonces disabled pin s)
    | (nonces, .change config) => some (.write lib source nonces config)

end HbbCommon.Config
