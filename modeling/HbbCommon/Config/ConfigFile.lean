import HbbCommon.Base.ByteFields
import HbbCommon.Config.Logic.KeyPair

/-!
# The file of the configuration

What `load_path` makes of the file when it can be read and when it cannot, and the two places
that act on it before anything else does: `Config::load` and `get_key_pair`. The other calls
find the key pair published, so here a value is encrypted at once.
-/

set_option linter.dupNamespace false

namespace HbbCommon.Config

open HbbCommon.Base

/-- What `fs::read_to_string` returns. -/
inductive ReadResult
  | text (text : String)
  | notFound
  | failed

/-- `toml05` on a configuration -/
structure Toml where
  fromStr : String → Option Config
  toStringPretty : Config → String

/-- A file; `store_path_atomic` puts a new one in its place. -/
structure ConfigFile where
  content : Bytes
  serial : Nat

/-- The file of the configuration, when there is one, `KEY_PAIR`, and `CONFIG` once it is
initialised. -/
structure ConfigDisk where
  file : Option ConfigFile
  keyPair : Option KeyPair
  config : Option Config

/-- `Config::default` -/
def Config.default : Config where
  id := ""
  encId := ""
  password := ""
  salt := ""
  keyPair := ([], [])
  keyConfirmed := false
  keysConfirmed := ∅

def loadPath (toml : Toml) : ReadResult → Config
  | .notFound => .default
  | .failed => .default
  | .text text => (toml.fromStr text).getD .default

/-- `store_path`, which may fail -/
def ConfigDisk.storePath (writes : Bool) (text : String) (s : ConfigDisk) : ConfigDisk :=
  if writes then
    { s with
      file := some
        { content := utf8Bytes text
          serial := (s.file.map ConfigFile.serial).getD 0 + 1 } }
  else s

/-- What `ensure_key_pair` makes of a configuration; its key pair is cached then. -/
def ensuredKeyPair (generated : KeyPair) (cache : Option KeyPair) (config : Config) :
    Bool × Config :=
  match cache with
  | some keyPair =>
      if config.keyPair ≠ keyPair then (true, { config with keyPair }) else (false, config)
  | none =>
      if config.keyPair.1 = [] then (true, { config with keyPair := generated })
      else (false, config)

namespace Machine

variable {Digest : Type} (M : Machine Digest) (toml : Toml) (draws : Draws)

/-- `Config::store` once the key pair is cached -/
def storeConfig (writes : Bool) (keyPair : KeyPair) (config : Config) (s : ConfigDisk) :
    ConfigDisk :=
  s.storePath writes (toml.toStringPretty (M.fileOf keyPair draws config))

/-- `Config::load` -/
def loadConfig (read : ReadResult) (writes : Bool) (s : ConfigDisk) : Config × ConfigDisk :=
  let (changed, config) := ensuredKeyPair draws.keyPair s.keyPair (loadPath toml read)
  let keyPair := config.keyPair
  let s := { s with keyPair := some keyPair }
  let (store, config) := loadedConfig M.hash (M.pureOps keyPair) draws.salt config draws.newId
  (config, if changed || store then M.storeConfig toml draws writes keyPair config s else s)

/-- `get_key_pair` -/
def getKeyPairOf (read : ReadResult) (writes : Bool) (s : ConfigDisk) : KeyPair × ConfigDisk :=
  match s.keyPair with
  | some keyPair => (keyPair, s)
  | none =>
      let (changed, config) := ensuredKeyPair draws.keyPair none (loadPath toml read)
      let keyPair := config.keyPair
      let s := { s with keyPair := some keyPair }
      let s :=
        if changed then
          match s.config with
          | some current =>
              let current := { current with keyPair }
              M.storeConfig toml draws writes keyPair current { s with config := some current }
          | none => M.storeConfig toml draws writes keyPair config s
        else s
      (keyPair, s)

end Machine

end HbbCommon.Config
