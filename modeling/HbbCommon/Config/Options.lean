import HbbCommon.Config.Config2

/-!
# Options

An option is set for itself (`set_option`) or with all the others (`set_options`). The two pairing
passphrases are encrypted, and a change of the passphrase for direct access clears the paired
viewers. On reading, an overwritten value goes before the stored one, and that before the default.
`OVERWRITE_SETTINGS` and `DEFAULT_SETTINGS` are arguments.
-/

namespace HbbCommon.Config

open HbbCommon.Base

abbrev OptionMap := OrdMap String String

namespace keys

def optionDirectAccessPairingPassphrase : String := "direct-access-pairing-passphrase"

def optionPeerPairingPassphrase : String := "peer-pairing-passphrase"

end keys

/-- `OVERWRITE_SETTINGS` and `DEFAULT_SETTINGS`. -/
structure Settings where
  overwrite : OptionMap
  default : OptionMap

def Settings.isOptionCanSave (settings : Settings) (k v : String) : Bool :=
  if settings.overwrite.contains k ∨ (settings.default.get? k).any (· = v) then false else true

/-- `get_or` -/
def Settings.getOr (settings : Settings) (options : OptionMap) (k : String) : Option String :=
  ((settings.overwrite.get? k).or (options.get? k)).or (settings.default.get? k)

def isEncryptedOption (k : String) : Bool :=
  k = keys.optionDirectAccessPairingPassphrase ∨ k = keys.optionPeerPairingPassphrase

/-- An empty text counts as none. -/
def nonEmpty (v : String) : Option String := if v = "" then none else some v

section

variable (crypt : Crypt)

/-- `maybe_decrypt_option_value` on a copy. -/
def plaintextOptionValue (k value : String) : String :=
  if ¬ isEncryptedOption k ∨ value = "" then value
  else (crypt.decryptStrOrOriginal value passwordEncVersion).1

def plaintextOptionFromMap (options : OptionMap) (key : String) : Option String :=
  ((options.get? key).filter (· ≠ "")).map (plaintextOptionValue crypt key)

/-- The value and whether it may be stored. -/
def maybeEncryptOptionValue (nonce : Nat) (k v : String) : String × Bool :=
  if ¬ isEncryptedOption k ∨ v = "" then (v, true)
  else if v.length > encryptMaxLen then (v, false)
  else
    let encrypted := crypt.encryptStrOrOriginal nonce v passwordEncVersion encryptMaxLen
    if encrypted = "" then (v, false) else (encrypted, true)

end

/-- The viewers and their cache are cleared. -/
def Statics.clearViewers (s : Statics) : Statics :=
  { s with config2 := { s.config2 with pairedViewers := "" }, pairedViewers := ([], true) }

def Statics.setOptionMap (options : OptionMap) (s : Statics) : Statics :=
  { s with config2 := { s.config2 with options := options } }

section

variable (libs : ConfigLibs) (settings : Settings)

/-- `Config::set_option` -/
def setOption (nonce : Nat) (k v : String) (s : Statics) : Statics :=
  let clearPairedViewers := k = keys.optionDirectAccessPairingPassphrase
  let options := s.config2.options
  if ¬ settings.isOptionCanSave k v then
    if options.contains k then
      let s := s.setOptionMap (options.erase k)
      if clearPairedViewers then s.clearViewers else s
    else s
  else
    let plain := plaintextOptionValue libs.crypt k v
    let previousPlain := plaintextOptionFromMap libs.crypt options k
    if previousPlain = nonEmpty plain then s
    else
      match maybeEncryptOptionValue libs.crypt nonce k plain with
      | (_, false) => s
      | (stored, true) =>
          if nonEmpty stored ≠ options.get? k then
            let s := s.setOptionMap
              (if stored = "" then options.erase k else options.insert k stored)
            if clearPairedViewers then s.clearViewers else s
          else s

def purifyOptions (v : OptionMap) : OptionMap := v.filter settings.isOptionCanSave

/-- What the loop of `set_options` makes of a value, and whether it is accepted. -/
def settleOption (nonces : String → Nat) (previous : OptionMap) (key value : String) :
    String × Bool :=
  if isEncryptedOption key ∧ value ≠ "" then
    let plain := plaintextOptionValue libs.crypt key value
    match previous.get? key with
    | some old =>
        if plaintextOptionValue libs.crypt key old = plain then (old, true)
        else maybeEncryptOptionValue libs.crypt (nonces key) key plain
    | none => maybeEncryptOptionValue libs.crypt (nonces key) key plain
  else maybeEncryptOptionValue libs.crypt (nonces key) key value

/-- A rejected option keeps its previous value. -/
def restoreOption (previous : OptionMap) (v : OptionMap) (key : String) : OptionMap :=
  match previous.get? key with
  | some old => v.insert key old
  | none => v.erase key

/-- The options that `set_options` is about to store. -/
def settleOptions (nonces : String → Nat) (v previous : OptionMap) : OptionMap :=
  let settled := (purifyOptions settings v).mapVals (settleOption libs nonces previous)
  let rejectedKeys := (settled.entries.filter (fun e => !e.2.2)).map Prod.fst
  rejectedKeys.foldl (restoreOption previous) (settled.mapVals (fun _ p => p.1))

/-- The critical section of `set_options` that stores the options. -/
def writeOptions (v previous : OptionMap) (s : Statics) : Statics :=
  let key := keys.optionDirectAccessPairingPassphrase
  let directPairingChanged :=
    plaintextOptionFromMap libs.crypt v key ≠ plaintextOptionFromMap libs.crypt previous key
  if s.config2.options = v then s
  else
    let s := s.setOptionMap v
    if directPairingChanged then s.clearViewers else s

/-- `Config::set_options` -/
def setOptions (nonces : String → Nat) (v : OptionMap) (s : Statics) : Statics :=
  let previous := s.config2.options
  writeOptions libs (settleOptions libs settings nonces v previous) previous s

/-- `Config::get_option` -/
def getOption (k : String) (s : Statics) : String :=
  plaintextOptionValue libs.crypt k ((settings.getOr s.config2.options k).getD "")

/-- `HashMap::extend` -/
def extend (m other : OptionMap) : OptionMap :=
  other.entries.foldl (fun m e => m.insert e.1 e.2) m

/-- `Config::get_options` -/
def getOptions (s : Statics) : OptionMap :=
  (extend (extend settings.default s.config2.options) settings.overwrite).mapVals
    (plaintextOptionValue libs.crypt)

end

end HbbCommon.Config
