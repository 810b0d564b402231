import HbbCommon.Config.Logic.Secrets
import HbbCommon.Config.Stores

/-!
# Secrets after a restart

What is encrypted for its file is there again after a restart, unless it is too long: then the
file has an empty value in its place. Nothing of this is seen before the restart, since
`CONFIG2` keeps what was set.
-/

namespace HbbCommon.Config

open HbbCommon.Base

variable {lib : Sodium} {source : KeySource} {nonces : String → Nat} {settings : Settings}

/-! ## One value -/

/-- What a text is after it was stored and loaded. -/
def reloadStr (lib : Sodium) (source : KeySource) (drawn : Nat) (s : String) : String :=
  (lib.decryptStrOrOriginal source
    (lib.encryptStrOrOriginal source drawn s passwordEncVersion encryptMaxLen)
    passwordEncVersion).1

def reloadVec (lib : Sodium) (source : KeySource) (drawn : Nat) (v : Bytes) : Bytes :=
  (lib.decryptVecOrOriginal source (lib.encryptVecOrOriginal source drawn v encryptMaxLen)).1

theorem reloadStr_eq (hideal : lib.Ideal) (drawn : Nat) {s : String}
    (hplain : lib.isEncrypted source s = false) :
    reloadStr lib source drawn s = if s.length > encryptMaxLen then "" else s := by
  unfold reloadStr
  split
  · rename_i hlength
    have hstored : lib.encryptStrOrOriginal source drawn s passwordEncVersion encryptMaxLen = "" := by
      unfold Sodium.encryptStrOrOriginal CryptOps.encryptStrOrOriginal
      rw [if_neg (by rw [show (lib.ops source).isEncrypted s = false from hplain]; simp),
        if_pos hlength]
      rfl
    rw [hstored]
    rfl
  · rename_i hlength
    by_cases hempty : s = ""
    · subst hempty
      rfl
    · exact congrArg Prod.fst (hideal.decryptStr_plain hempty hplain (Nat.not_lt.mp hlength))

theorem reloadVec_eq (hideal : lib.Ideal) (drawn : Nat) {v : Bytes}
    (hplain : lib.isEncryptedVec source v = false) :
    reloadVec lib source drawn v = if v.length > encryptMaxLen then [] else v := by
  unfold reloadVec
  split
  · rename_i hlength
    have hstored : lib.encryptVecOrOriginal source drawn v encryptMaxLen = [] := by
      unfold Sodium.encryptVecOrOriginal CryptOps.encryptVecOrOriginal
      rw [if_neg (by rw [show (lib.ops source).isEncryptedVec v = false from hplain]; simp),
        if_pos hlength]
      rfl
    rw [hstored]
    rfl
  · rename_i hlength
    by_cases hempty : v = []
    · subst hempty
      rfl
    · exact congrArg Prod.fst (hideal.decryptVec_plain hempty hplain (Nat.not_lt.mp hlength))

/-- A value that is set is what the next start loads, or it is too long and the one before is
kept. -/
def Survives {α : Type} (tooLong : Prop) (given : α) (before after : Option α) : Prop :=
  after = some given ∨ tooLong ∧ after = before

/-- A value that is written survives exactly when it fits, or the one before was empty too. -/
theorem survives_written_iff {α : Type} {tooLong : Prop} [Decidable tooLong] {given empty : α}
    {before after : Option α} (hempty : tooLong → given ≠ empty)
    (hafter : after = some (if tooLong then empty else given)) :
    Survives tooLong given before after ↔ ¬ tooLong ∨ before = some empty := by
  subst hafter
  unfold Survives
  by_cases hlong : tooLong
  · rw [if_pos hlong, Option.some_inj]
    have hne : empty ≠ given := (hempty hlong).symm
    simp [hlong, hne, eq_comm]
  · simp [hlong]

/-! ## `CONFIG2` -/

theorem reloaded_write (config : Config2) :
    Config2Store.reloaded lib source (.write lib source nonces config) =
      { config with
        socks := config.socks.map (fun socks =>
          { socks with password := reloadStr lib source (nonces "socks") socks.password })
        unlockPin := reloadStr lib source (nonces "unlock_pin") config.unlockPin } := by
  obtain ⟨_, _, _, _, _, _, socks, _⟩ := config
  cases socks <;> rfl

/-- The proxy password that the next start loads. -/
def Config2Store.reloadedPassword (lib : Sodium) (source : KeySource) (s : Config2Store) :
    Option String :=
  (s.reloaded lib source).socks.map Socks5Server.password

/-- The next start loads what is in `CONFIG2`, as far as it fits. -/
structure Synced (lib : Sodium) (source : KeySource) (s : Config2Store) : Prop where
  socks : ∀ socks, s.config2.socks = some socks → lib.isEncrypted source socks.password = false →
    socks.password.length ≤ encryptMaxLen → (s.reloaded lib source).socks = some socks
  unlockPin : lib.isEncrypted source s.config2.unlockPin = false →
    s.config2.unlockPin.length ≤ encryptMaxLen →
      (s.reloaded lib source).unlockPin = s.config2.unlockPin

theorem synced_write (hideal : lib.Ideal) (config : Config2) :
    Synced lib source (.write lib source nonces config) := by
  refine ⟨fun socks hsocks hplain hlength => ?_, fun hplain hlength => ?_⟩
  · have hconfig : config.socks = some socks := hsocks
    rw [reloaded_write, hconfig]
    simp only [Option.map_some]
    rw [reloadStr_eq hideal _ hplain, if_neg (Nat.not_lt.mpr hlength)]
  · rw [reloaded_write]
    exact (reloadStr_eq hideal _ hplain).trans (if_neg (Nat.not_lt.mpr hlength))

theorem synced_boot (hideal : lib.Ideal) (file : Config2) :
    Synced lib source (.boot lib source nonces file) := by
  unfold Config2Store.boot
  dsimp only
  split
  · exact synced_write hideal _
  · exact ⟨fun _ hsocks _ _ => hsocks, fun _ _ => rfl⟩

theorem synced_setSocks (hideal : lib.Ideal) {s : Config2Store} (h : Synced lib source s)
    (socks : Option Socks5Server) :
    Synced lib source (setSocks lib source nonces settings socks s) := by
  unfold setSocks
  split
  · exact h
  · split
    · exact h
    · split
      · exact h
      · exact synced_write hideal _

theorem synced_setUnlockPin (hideal : lib.Ideal) {s : Config2Store} (h : Synced lib source s)
    (disabled : Bool) (pin : String) :
    Synced lib source (setUnlockPin lib source nonces disabled pin s) := by
  unfold setUnlockPin
  split
  · exact h
  · split
    · exact h
    · exact synced_write hideal _

/-- In every state of a process the next start loads what fits. -/
theorem synced_of_reach (hideal : lib.Ideal) {file : Config2} {s : Config2Store}
    (h : (config2Store lib source settings nonces file).Reach (fun _ _ => True) s) :
    Synced lib source s := by
  refine h.invariant (synced_boot hideal file) ?_
  rintro s ⟨nonces, call⟩ s' hs - hstep
  cases call with
  | setSocks socks =>
      cases hstep
      exact synced_setSocks hideal hs socks
  | setUnlockPin disabled pin =>
      cases hstep
      exact synced_setUnlockPin hideal hs disabled pin
  | change config =>
      cases hstep
      exact synced_write hideal config

/-- The settings do not let `set_socks` set the proxy. -/
def Settings.refusesSocks (settings : Settings) (config : Config2) (socks : Socks5Server) : Prop :=
  settings.overwrite.contains keys.optionProxyUrl ∨
    config.socks = none ∧ settings.isDefaultSocks (some socks)

theorem ne_empty_of_tooLong {s : String} (h : s.length > encryptMaxLen) : s ≠ "" := by
  rintro rfl
  simp at h

/-- A proxy password survives a restart exactly when it fits, or is the one of `CONFIG2`
already, or an empty one was stored before. -/
theorem setSocks_survives_iff (hideal : lib.Ideal) {s : Config2Store} (h : Synced lib source s)
    {socks : Socks5Server} (hplain : lib.isEncrypted source socks.password = false)
    (haccepted : ¬ settings.refusesSocks s.config2 socks) :
    Survives (socks.password.length > encryptMaxLen) socks.password
        (s.reloadedPassword lib source)
        ((setSocks lib source nonces settings (some socks) s).reloadedPassword lib source) ↔
      socks.password.length ≤ encryptMaxLen ∨ s.config2.socks = some socks ∨
        s.reloadedPassword lib source = some "" := by
  obtain ⟨hover, hdefault⟩ := not_or.mp haccepted
  unfold setSocks
  rw [if_neg hover]
  by_cases hsame : s.config2.socks = some socks
  · rw [if_pos hsame]
    refine iff_of_true ?_ (.inr (.inl hsame))
    by_cases hlong : socks.password.length > encryptMaxLen
    · exact .inr ⟨hlong, rfl⟩
    · refine .inl ?_
      unfold Config2Store.reloadedPassword
      rw [h.socks socks hsame hplain (Nat.not_lt.mp hlong)]
      rfl
  · rw [if_neg hsame, if_neg hdefault]
    have hafter : (Config2Store.write lib source nonces
        { s.config2 with socks := some socks }).reloadedPassword lib source =
        some (if socks.password.length > encryptMaxLen then "" else socks.password) := by
      unfold Config2Store.reloadedPassword
      rw [reloaded_write]
      show some (reloadStr lib source (nonces "socks") socks.password) = _
      rw [reloadStr_eq hideal _ hplain]
    rw [survives_written_iff ne_empty_of_tooLong hafter]
    simp [hsame]

/-- An unlock pin survives a restart exactly when it fits, or is the one of `CONFIG2` already,
or an empty one was stored before. -/
theorem setUnlockPin_survives_iff (hideal : lib.Ideal) {s : Config2Store}
    (h : Synced lib source s) {pin : String} (hplain : lib.isEncrypted source pin = false) :
    Survives (pin.length > encryptMaxLen) pin (some (s.reloaded lib source).unlockPin)
        (some ((setUnlockPin lib source nonces false pin s).reloaded lib source).unlockPin) ↔
      pin.length ≤ encryptMaxLen ∨ s.config2.unlockPin = pin ∨
        (s.reloaded lib source).unlockPin = "" := by
  unfold setUnlockPin
  rw [if_neg (by simp)]
  by_cases hsame : pin = s.config2.unlockPin
  · rw [if_pos hsame]
    refine iff_of_true ?_ (.inr (.inl hsame.symm))
    by_cases hlong : pin.length > encryptMaxLen
    · exact .inr ⟨hlong, rfl⟩
    · rw [hsame] at hplain hlong ⊢
      exact .inl (congrArg some (h.unlockPin hplain (Nat.not_lt.mp hlong)))
  · rw [if_neg hsame]
    have hafter : some ((Config2Store.write lib source nonces
        { s.config2 with unlockPin := pin }).reloaded lib source).unlockPin =
        some (if pin.length > encryptMaxLen then "" else pin) := by
      rw [reloaded_write]
      show some (reloadStr lib source (nonces "unlock_pin") pin) = _
      rw [reloadStr_eq hideal _ hplain]
    rw [survives_written_iff ne_empty_of_tooLong hafter]
    simp [Ne.symm hsame]

/-! ## Peers -/

/-- The value of an option, when there is one, is replaced. -/
def mapOption (f : String → String → String) (config : PeerConfig) (opt : String) : PeerConfig :=
  match config.options.get? opt with
  | none => config
  | some v => { config with options := config.options.insert opt (f opt v) }

theorem foldl_mapOption (f : String → String → String) (config : PeerConfig) {opts : List String}
    (hnodup : opts.Nodup) : (opts.foldl (mapOption f) config).password = config.password ∧
      ∀ opt, (opts.foldl (mapOption f) config).options.get? opt =
        if opt ∈ opts then (config.options.get? opt).map (f opt) else config.options.get? opt := by
  induction opts generalizing config with
  | nil => simp
  | cons opt opts ih =>
      rw [List.nodup_cons] at hnodup
      have hstep : (mapOption f config opt).password = config.password ∧
          ∀ opt', (mapOption f config opt).options.get? opt' =
            if opt' = opt then (config.options.get? opt).map (f opt)
            else config.options.get? opt' := by
        unfold mapOption
        cases hget : config.options.get? opt with
        | none =>
            refine ⟨rfl, fun opt' => ?_⟩
            by_cases hopt : opt' = opt
            · rw [if_pos hopt, hopt, hget]
              rfl
            · rw [if_neg hopt]
        | some v =>
            refine ⟨rfl, fun opt' => ?_⟩
            rw [OrdMap.get?_insert]
            rfl
      obtain ⟨hpassword, hoptions⟩ := ih (mapOption f config opt) hnodup.2
      refine ⟨hpassword.trans hstep.1, fun opt' => ?_⟩
      rw [List.foldl_cons, hoptions opt', hstep.2 opt']
      by_cases hopt : opt' = opt
      · subst hopt
        simp [hnodup.1]
      · simp [hopt]

theorem PeerConfig.nodup_encryptedOptions : PeerConfig.encryptedOptions.Nodup := by decide

/-- A peer's configuration as it is after it was stored and loaded. -/
def PeerConfig.reloaded (lib : Sodium) (source : KeySource) (nonces : String → Nat)
    (config : PeerConfig) : PeerConfig :=
  (PeerConfig.loaded (lib.ops source)
    (PeerConfig.stored (lib.ops source) nonces config).run).run.1

theorem PeerConfig.stored_eq (config : PeerConfig) :
    (PeerConfig.stored (lib.ops source) nonces config).run =
      PeerConfig.encryptedOptions.foldl
        (mapOption (fun opt v =>
          lib.encryptStrOrOriginal source (nonces opt) v passwordEncVersion encryptMaxLen))
        { config with
          password := lib.encryptVecOrOriginal source (nonces "password") config.password
            encryptMaxLen } := by
  rfl

/-- One option of the loop of `PeerConfig.loaded`. -/
def PeerConfig.loadOption (lib : Sodium) (source : KeySource) (p : PeerConfig × Bool)
    (opt : String) : Id (PeerConfig × Bool) :=
  match p.1.options.get? opt with
  | none => pure p
  | some v => do
      let (v, _, store2) ← (lib.ops source).decryptStrOrOriginal v passwordEncVersion
      return ({ p.1 with options := p.1.options.insert opt v }, p.2 || store2)

theorem PeerConfig.loaded_eq (file : PeerConfig) :
    (PeerConfig.loaded (lib.ops source) file).run.1 =
      PeerConfig.encryptedOptions.foldl
        (mapOption (fun _ v => (lib.decryptStrOrOriginal source v passwordEncVersion).1))
        { file with password := (lib.decryptVecOrOriginal source file.password).1 } := by
  let step := PeerConfig.loadOption lib source
  -- the configurations that the loop goes through, without the marks
  have hfold : ∀ (opts : List String) (p : PeerConfig × Bool),
      (opts.foldlM step p).run.1 = opts.foldl
        (mapOption (fun _ v => (lib.decryptStrOrOriginal source v passwordEncVersion).1)) p.1 := by
    intro opts
    induction opts with
    | nil => exact fun _ => rfl
    | cons opt opts ih =>
        intro p
        have hstep : (step p opt).run.1 =
            mapOption (fun _ v => (lib.decryptStrOrOriginal source v passwordEncVersion).1) p.1
              opt := by
          unfold mapOption
          dsimp only [step]
          unfold PeerConfig.loadOption
          cases p.1.options.get? opt <;> rfl
        rw [List.foldl_cons, ← hstep]
        exact ih (step p opt)
  exact hfold PeerConfig.encryptedOptions _

theorem PeerConfig.reloaded_password (config : PeerConfig) :
    (config.reloaded lib source nonces).password =
      reloadVec lib source (nonces "password") config.password := by
  unfold PeerConfig.reloaded
  rw [loaded_eq, (foldl_mapOption _ _ nodup_encryptedOptions).1, stored_eq,
    (foldl_mapOption _ _ nodup_encryptedOptions).1]
  rfl

theorem PeerConfig.reloaded_option (config : PeerConfig) {opt : String}
    (hopt : opt ∈ PeerConfig.encryptedOptions) :
    (config.reloaded lib source nonces).options.get? opt =
      (config.options.get? opt).map (reloadStr lib source (nonces opt)) := by
  unfold PeerConfig.reloaded
  rw [loaded_eq, (foldl_mapOption _ _ nodup_encryptedOptions).2, if_pos hopt, stored_eq]
  dsimp only
  rw [(foldl_mapOption _ _ nodup_encryptedOptions).2, if_pos hopt, Option.map_map]
  rfl

/-- What a peer's file holds for the next load, when there is a file. -/
def peerFile (lib : Sodium) (source : KeySource) (file : Option PeerConfig) : Option PeerConfig :=
  file.map (fun file => (PeerConfig.loaded (lib.ops source) file).run.1)

theorem peerPassword_survives_iff (hideal : lib.Ideal) (old : Option PeerConfig)
    {config : PeerConfig} (hplain : lib.isEncryptedVec source config.password = false) :
    Survives (config.password.length > encryptMaxLen) config.password
        ((peerFile lib source old).map PeerConfig.password)
        (some (config.reloaded lib source nonces).password) ↔
      config.password.length ≤ encryptMaxLen ∨
        (peerFile lib source old).map PeerConfig.password = some [] := by
  have hempty : config.password.length > encryptMaxLen → config.password ≠ [] := by
    intro hlong hnil
    rw [hnil] at hlong
    simp at hlong
  have hafter : (config.reloaded lib source nonces).password =
      if config.password.length > encryptMaxLen then [] else config.password := by
    rw [PeerConfig.reloaded_password, reloadVec_eq hideal _ hplain]
  rw [survives_written_iff hempty (congrArg some hafter), Nat.not_lt]

theorem peerOption_survives_iff (hideal : lib.Ideal) (old : Option PeerConfig)
    {config : PeerConfig} {opt v : String} (hopt : opt ∈ PeerConfig.encryptedOptions)
    (hv : config.options.get? opt = some v) (hplain : lib.isEncrypted source v = false) :
    Survives (v.length > encryptMaxLen) v
        ((peerFile lib source old).bind (fun config => config.options.get? opt))
        ((config.reloaded lib source nonces).options.get? opt) ↔
      v.length ≤ encryptMaxLen ∨
        (peerFile lib source old).bind (fun config => config.options.get? opt) = some "" := by
  have hafter : (config.reloaded lib source nonces).options.get? opt =
      some (if v.length > encryptMaxLen then "" else v) := by
    rw [PeerConfig.reloaded_option config hopt, hv, Option.map_some, reloadStr_eq hideal _ hplain]
  rw [survives_written_iff ne_empty_of_tooLong hafter, Nat.not_lt]

/-- In every state of a process a secret that is set survives the restart exactly when it has at
most as many characters (a peer's password: bytes) as are encrypted, or nothing is written since
`CONFIG2` has the value, or an empty value was stored before. What the settings refuse changes
nothing. -/
theorem secrets_survive_iff (hideal : lib.Ideal) {file : Config2} {s : Config2Store}
    (hs : (config2Store lib source settings nonces file).Reach (fun _ _ => True) s) :
    (∀ nonces socks, lib.isEncrypted source socks.password = false →
      ¬ settings.refusesSocks s.config2 socks →
      (Survives (socks.password.length > encryptMaxLen) socks.password
          (s.reloadedPassword lib source)
          ((setSocks lib source nonces settings (some socks) s).reloadedPassword lib source) ↔
        socks.password.length ≤ encryptMaxLen ∨ s.config2.socks = some socks ∨
          s.reloadedPassword lib source = some "")) ∧
    (∀ nonces socks, settings.refusesSocks s.config2 socks →
      setSocks lib source nonces settings (some socks) s = s) ∧
    (∀ nonces pin, lib.isEncrypted source pin = false →
      (Survives (pin.length > encryptMaxLen) pin (some (s.reloaded lib source).unlockPin)
          (some ((setUnlockPin lib source nonces false pin s).reloaded lib source).unlockPin) ↔
        pin.length ≤ encryptMaxLen ∨ s.config2.unlockPin = pin ∨
          (s.reloaded lib source).unlockPin = "")) ∧
    (∀ nonces pin, setUnlockPin lib source nonces true pin s = s) ∧
    ∀ nonces old (config : PeerConfig),
      (lib.isEncryptedVec source config.password = false →
        (Survives (config.password.length > encryptMaxLen) config.password
            ((peerFile lib source old).map PeerConfig.password)
            (some (config.reloaded lib source nonces).password) ↔
          config.password.length ≤ encryptMaxLen ∨
            (peerFile lib source old).map PeerConfig.password = some [])) ∧
      ∀ opt ∈ PeerConfig.encryptedOptions, ∀ v, config.options.get? opt = some v →
        lib.isEncrypted source v = false →
        (Survives (v.length > encryptMaxLen) v
            ((peerFile lib source old).bind (fun config => config.options.get? opt))
            ((config.reloaded lib source nonces).options.get? opt) ↔
          v.length ≤ encryptMaxLen ∨
            (peerFile lib source old).bind (fun config => config.options.get? opt) =
              some "") := by
  have hsynced := synced_of_reach hideal hs
  refine ⟨fun _ _ hplain haccepted => setSocks_survives_iff hideal hsynced hplain haccepted,
    fun _ socks hrefused => ?_, fun _ _ hplain => setUnlockPin_survives_iff hideal hsynced hplain,
    fun _ _ => if_pos rfl, fun _ old config => ⟨peerPassword_survives_iff hideal old,
      fun _ hopt _ hv hplain => peerOption_survives_iff hideal old hopt hv hplain⟩⟩
  unfold setSocks
  rcases hrefused with hover | hdefault
  · rw [if_pos hover]
  · by_cases hover : settings.overwrite.contains keys.optionProxyUrl
    · rw [if_pos hover]
    · rw [if_neg hover, if_neg (by simp [hdefault.1]), if_pos hdefault]

/-- A file without secrets. -/
def newConfig2 : Config2 where
  rendezvousServer := ""
  natType := 0
  serial := 0
  unlockPin := ""
  trustedDevices := ""
  pairedViewers := ""
  socks := none
  options := ∅

def newConfig2Store : Config2Store :=
  .boot Sodium.showing Sodium.desktop (fun _ => 0) newConfig2

theorem secrets_survive_sample :
    let s := setUnlockPin Sodium.showing Sodium.desktop (fun _ => 0) false "1234" newConfig2Store
    Sodium.showing.isEncrypted Sodium.desktop "1234" = false ∧
      Survives ("1234".length > encryptMaxLen) "1234"
        (some (newConfig2Store.reloaded Sodium.showing Sodium.desktop).unlockPin)
        (some (s.reloaded Sodium.showing Sodium.desktop).unlockPin) := by
  have hreach : (config2Store Sodium.showing Sodium.desktop ⟨∅, ∅⟩ (fun _ => 0) newConfig2).Reach
      (fun _ _ => True) newConfig2Store := .init
  have hplain : Sodium.showing.isEncrypted Sodium.desktop "1234" = false := by decide +kernel
  exact ⟨hplain, ((secrets_survive_iff Sodium.showing_ideal hreach).2.2.1 (fun _ => 0) "1234"
    hplain).mpr (.inl (by decide))⟩

def longPin : String := .ofList (List.replicate 129 '1')

/-- A pin is stored, and a longer one is set: the file has none, and neither is there after the
restart. -/
theorem long_pin_is_lost :
    let s := setUnlockPin Sodium.showing Sodium.desktop (fun _ => 0) false "1234" newConfig2Store
    let s' := setUnlockPin Sodium.showing Sodium.desktop (fun _ => 0) false longPin s
    Sodium.showing.isEncrypted Sodium.desktop longPin = false ∧
      (s.reloaded Sodium.showing Sodium.desktop).unlockPin = "1234" ∧
      s'.config2.unlockPin = longPin ∧
      (s'.reloaded Sodium.showing Sodium.desktop).unlockPin = "" ∧
      ¬ Survives (longPin.length > encryptMaxLen) longPin
        (some (s.reloaded Sodium.showing Sodium.desktop).unlockPin)
        (some (s'.reloaded Sodium.showing Sodium.desktop).unlockPin) := by
  intro s s'
  have hbefore : (s.reloaded Sodium.showing Sodium.desktop).unlockPin = "1234" := by decide +kernel
  have hafter : (s'.reloaded Sodium.showing Sodium.desktop).unlockPin = "" := by decide +kernel
  refine ⟨by decide +kernel, hbefore, by decide +kernel, hafter, ?_⟩
  rw [hbefore, hafter]
  rintro (h | ⟨-, h⟩)
  · exact absurd h (by decide +kernel)
  · exact absurd h (by decide)

end HbbCommon.Config
