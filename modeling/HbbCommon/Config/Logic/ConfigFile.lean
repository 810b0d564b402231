import HbbCommon.Config.ConfigFile

/-!
# A configuration that cannot be read

It reads as the default one, which has no key pair and no id. So loading it generates both, or
takes the key pair that is cached, and stores the result over the file; what was in it is gone
for good.
-/

namespace HbbCommon.Config

open HbbCommon.Base

variable {Digest : Type} {M : Machine Digest} {toml : Toml} {draws : Draws} {s : ConfigDisk}
  {file : ConfigFile} {read : ReadResult} {writes : Bool}

/-- The file is there, and cannot be read or parsed. -/
def FailsToLoad (toml : Toml) (file : ConfigFile) (read : ReadResult) : Prop :=
  read = .failed ∨
    ∃ text, read = .text text ∧ utf8Bytes text = file.content ∧ toml.fromStr text = none

theorem FailsToLoad.loadPath_eq (h : FailsToLoad toml file read) :
    loadPath toml read = .default := by
  rcases h with rfl | ⟨text, rfl, -, hparse⟩
  · rfl
  · show (toml.fromStr text).getD .default = .default
    rw [hparse]
    rfl

/-- A file is replaced exactly when the write succeeds. -/
theorem storePath_file_eq_iff (text : String) :
    (s.storePath writes text).file = s.file ↔ writes = false := by
  unfold ConfigDisk.storePath
  cases writes with
  | false => simp
  | true =>
      rw [if_pos rfl]
      refine iff_of_false (fun heq => ?_) (by simp)
      have hserial := congrArg (fun file => (file.map ConfigFile.serial).getD 0) heq
      simp at hserial

/-! ## The default configuration is loaded -/

/-- The key pair that is published. -/
def publishedKey (draws : Draws) (cache : Option KeyPair) : KeyPair := cache.getD draws.keyPair

theorem ensuredKeyPair_default (draws : Draws) (cache : Option KeyPair) :
    ensuredKeyPair draws.keyPair cache .default =
      (!decide (cache = some ([], [])),
        { Config.default with keyPair := publishedKey draws cache }) := by
  unfold ensuredKeyPair publishedKey
  cases cache with
  | none => simp [Config.default]
  | some keyPair =>
      by_cases hempty : keyPair = ([], [])
      · simp [Config.default, hempty]
      · have hne : Config.default.keyPair ≠ keyPair := Ne.symm hempty
        simp [hne, hempty]

/-- A configuration without an id gets a new one, when there is one. -/
theorem loadedConfig_default (p : CryptOps Id) (salt : String) (newId : Option String)
    (keyPair : KeyPair) :
    loadedConfig M.hash p salt { Config.default with keyPair } newId =
      (newId.isSome, { Config.default with keyPair, id := newId.getD "" }) := by
  have hmigrated : migrated M.hash p salt { Config.default with keyPair } =
      (false, { Config.default with keyPair }) := by
    rw [migrated_eq, if_pos (.inl rfl)]
  have hid : (p.loadedId { Config.default with keyPair } : Option String × Bool) = (none, false) := rfl
  rw [loadedConfig_eq, hmigrated]
  dsimp only
  rw [hid]
  cases newId <;> rfl

/-- What is stored over the file: nothing of it is there. -/
def freshConfig (draws : Draws) (cache : Option KeyPair) : Config :=
  { Config.default with keyPair := publishedKey draws cache, id := draws.newId.getD "" }

theorem loadConfig_of_fails (hread : loadPath toml read = .default) :
    M.loadConfig toml draws read writes s =
      (freshConfig draws s.keyPair,
        if s.keyPair = some ([], []) ∧ draws.newId = none then
          { s with keyPair := some (publishedKey draws s.keyPair) }
        else M.storeConfig toml draws writes (publishedKey draws s.keyPair)
          (freshConfig draws s.keyPair)
          { s with keyPair := some (publishedKey draws s.keyPair) }) := by
  unfold Machine.loadConfig
  rw [hread, ensuredKeyPair_default]
  dsimp only
  rw [loadedConfig_default]
  dsimp only
  refine Prod.ext rfl ?_
  by_cases hkept : s.keyPair = some ([], []) ∧ draws.newId = none
  · rw [if_pos hkept, if_neg (by simp [hkept])]
  · rw [if_neg hkept, if_pos]
    · rfl
    · rw [Bool.or_eq_true, Bool.not_eq_true', decide_eq_false_iff_not, Option.isSome_iff_ne_none]
      exact not_and_or.mp hkept

theorem getKeyPairOf_of_fails (hread : loadPath toml read = .default) (hcache : s.keyPair = none) :
    M.getKeyPairOf toml draws read writes s =
      (draws.keyPair,
        match s.config with
        | some current =>
            M.storeConfig toml draws writes draws.keyPair { current with keyPair := draws.keyPair }
              { s with
                keyPair := some draws.keyPair
                config := some { current with keyPair := draws.keyPair } }
        | none =>
            M.storeConfig toml draws writes draws.keyPair
              { Config.default with keyPair := draws.keyPair }
              { s with keyPair := some draws.keyPair }) := by
  unfold Machine.getKeyPairOf
  rw [hcache, hread]
  dsimp only
  rw [ensuredKeyPair_default]
  rfl

/-! ## The file -/

/-- A file that cannot be read stays exactly when the write fails or nothing is written: by
`Config::load` when the cached key pair is the empty one and there is no new id, by
`get_key_pair` when a key pair is cached. -/
theorem failed_read_keeps_file_iff (M : Machine Digest) (toml : Toml) (draws : Draws)
    {s : ConfigDisk} {file : ConfigFile} {read : ReadResult} (hfile : s.file = some file)
    (hfails : FailsToLoad toml file read) (writes : Bool) :
    ((M.loadConfig toml draws read writes s).2.file = some file ↔
      writes = false ∨ s.keyPair = some ([], []) ∧ draws.newId = none) ∧
    ((M.getKeyPairOf toml draws read writes s).2.file = some file ↔
      writes = false ∨ s.keyPair.isSome) := by
  rw [← hfile]
  have hread := hfails.loadPath_eq
  constructor
  · rw [loadConfig_of_fails hread]
    dsimp only
    split
    · rename_i hkept
      exact iff_of_true rfl (.inr hkept)
    · rename_i hkept
      refine (storePath_file_eq_iff _).trans ⟨.inl, fun h => h.resolve_right hkept⟩
  · cases hcache : s.keyPair with
    | some keyPair =>
        refine iff_of_true ?_ (.inr rfl)
        unfold Machine.getKeyPairOf
        rw [hcache]
    | none =>
        rw [getKeyPairOf_of_fails hread hcache]
        dsimp only
        have hwrite : writes = false ↔ writes = false ∨ (none : Option KeyPair).isSome := by simp
        rw [← hwrite]
        cases hconfig : s.config with
        | some current => exact storePath_file_eq_iff _
        | none => exact storePath_file_eq_iff _

/-- What replaces the file has neither its id nor its password. -/
theorem failed_read_overwrites (hfails : FailsToLoad toml file read)
    (hkept : ¬ (s.keyPair = some ([], []) ∧ draws.newId = none)) :
    (M.loadConfig toml draws read true s).2.file.map ConfigFile.content =
        some (utf8Bytes (toml.toStringPretty
          (M.fileOf (publishedKey draws s.keyPair) draws (freshConfig draws s.keyPair)))) ∧
      (M.fileOf (publishedKey draws s.keyPair) draws (freshConfig draws s.keyPair)).password =
        "" := by
  rw [loadConfig_of_fails hfails.loadPath_eq, if_neg hkept]
  refine ⟨rfl, ?_⟩
  unfold Machine.fileOf
  rw [storedFile_eq, migrated_eq, if_pos (.inl rfl)]
  rfl

/-! ## The process -/

theorem ensuredKeyPair_config (p : Process) :
    (ensuredKeyPair draws.keyPair p.keyPair p.file).2 =
      { p.file with keyPair := Machine.startKey draws p } := by
  unfold ensuredKeyPair Machine.startKey
  cases p.keyPair with
  | some keyPair =>
      dsimp only
      by_cases hsame : p.file.keyPair = keyPair
      · rw [if_neg (not_not_intro hsame), ← hsame]
      · rw [if_pos hsame]
  | none =>
      dsimp only
      by_cases hempty : p.file.keyPair.1 = []
      · rw [if_pos hempty, if_pos hempty]
      · rw [if_neg hempty, if_neg hempty]

/-- On what was read `Config::load` of the process makes the same configuration and publishes
the same key pair. -/
theorem loadConfig_refines {p : Process} (hfree : p.keyPairHeld = false)
    (hcache : p.keyPair = s.keyPair) (hfile : p.file = loadPath toml read) :
    ∃ p', (M.load draws).exec p = (.ok (M.loadConfig toml draws read writes s).1, p') ∧
      p'.keyPair = (M.loadConfig toml draws read writes s).2.keyPair := by
  obtain ⟨stored, hload, -⟩ := exec_load (M := M) draws hfree
  have hensured : (ensuredKeyPair draws.keyPair p.keyPair p.file).2 =
      { p.file with keyPair := Machine.startKey draws p } := ensuredKeyPair_config p
  have hconfig : (M.loadConfig toml draws read writes s).1 =
      (M.loadedUnder (Machine.startKey draws p) draws p.file).2 := by
    unfold Machine.loadConfig Machine.loadedUnder
    dsimp only
    rw [← hcache, ← hfile, hensured]
  have hkey : (M.loadConfig toml draws read writes s).2.keyPair =
      some (Machine.startKey draws p) := by
    have hpublished : (ensuredKeyPair draws.keyPair s.keyPair (loadPath toml read)).2.keyPair =
        Machine.startKey draws p := by
      rw [← hcache, ← hfile, hensured]
    unfold Machine.loadConfig Machine.storeConfig ConfigDisk.storePath
    dsimp only
    rw [hpublished]
    split
    · split <;> rfl
    · rfl
  rw [hconfig, hkey]
  exact ⟨_, hload, rfl⟩

/-- A machine whose encryption only marks its texts. -/
def plainMachine : Machine String where
  uid := some [7]
  mobile := false
  sealBox _ _ s := "=" ++ s
  openBox _ body := if body.toList.head? = some '=' then some (body.drop 1).toString else none
  isBase64 body := body.toList.head? = some '='
  isPayload body := body.toList.head? = some '='
  sealBoxVec _ _ v := 61 :: v
  openBoxVec _ body := if body.head? = some 61 then some body.tail else none
  isBase64Vec body := body.head? = some 61
  isPayloadVec body := body.head? = some 61
  hash := { sha256 := id, encode := id, decode := some }

def firstDraws : Draws where
  keyPair := ([1], [2])
  salt := "salt"
  storedSalt := "salt"
  nonce := 0
  newId := some "1000000000"
  keyPair_ne := by decide
  salt_ne := by decide
  storedSalt_ne := by decide

/-- Of a configuration the id and the password. -/
def idToml : Toml where
  fromStr _ := none
  toStringPretty config :=
    "password = '" ++ config.password ++ "'\nenc_id = '" ++ config.encId ++ "'\n"

/-- A file with a password and an id, at the start of a process. -/
def storedDisk : ConfigDisk where
  file := some ⟨utf8Bytes "password = '01secret'\nenc_id = '00=123456789'\n", 0⟩
  keyPair := none
  config := none

theorem failed_read_keeps_file_sample :
    FailsToLoad idToml ⟨utf8Bytes "password = '01secret'\nenc_id = '00=123456789'\n", 0⟩ .failed ∧
      (plainMachine.loadConfig idToml firstDraws .failed false storedDisk).2.file =
        some ⟨utf8Bytes "password = '01secret'\nenc_id = '00=123456789'\n", 0⟩ :=
  ⟨.inl rfl, (failed_read_keeps_file_iff plainMachine idToml firstDraws (show storedDisk.file = _ from rfl)
    (.inl rfl) false).1.mpr (.inl rfl)⟩

/-- The file is not read, once, and replaced by one with another id and no password. -/
theorem failed_read_loses_identity :
    FailsToLoad idToml ⟨utf8Bytes "password = '01secret'\nenc_id = '00=123456789'\n", 0⟩ .failed ∧
      (plainMachine.loadConfig idToml firstDraws .failed true storedDisk).2.file.map
          ConfigFile.content =
        some (utf8Bytes "password = ''\nenc_id = '00=1000000000'\n") ∧
      (plainMachine.getKeyPairOf idToml firstDraws .failed true storedDisk).2.file.map
          ConfigFile.content =
        some (utf8Bytes "password = ''\nenc_id = ''\n") ∧
      (plainMachine.loadConfig idToml firstDraws .failed true storedDisk).2.file.map
          ConfigFile.content ≠ storedDisk.file.map ConfigFile.content ∧
      (plainMachine.getKeyPairOf idToml firstDraws .failed true storedDisk).2.file.map
          ConfigFile.content ≠ storedDisk.file.map ConfigFile.content :=
  ⟨.inl rfl, by decide +kernel, by decide +kernel, by decide +kernel, by decide +kernel⟩

end HbbCommon.Config
