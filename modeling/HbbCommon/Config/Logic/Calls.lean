import HbbCommon.Config.Calls
import HbbCommon.Config.Logic.ConfigFile
import HbbCommon.Config.Logic.Operations

/-!
# What holds between two calls

Between two calls no lock is held, and the key pair of `CONFIG` is that of the file and that of the
cache. Every call keeps this, unless `Config::set` is given a configuration without a key pair; so
every call finds a key pair where it needs one, and returns.
-/

namespace HbbCommon.Config

open HbbCommon.Base Effect

variable {Digest : Type} {M : Machine Digest} {draws : Draws} {s t u : Process} {c c' : Config}
  {K : KeyPair}

/-! ## Between two calls -/

/-- No lock is held, and there is one key pair: that of the file, of the cache and of `CONFIG`. -/
structure Settled (s : Process) : Prop where
  idle : Idle s
  cached : ∀ K, s.keyPair = some K → s.file.keyPair = K ∧ K.1 ≠ []
  config : ∀ c, s.config = some c → s.file.keyPair = c.keyPair ∧ c.keyPair.1 ≠ []

theorem settled_boot (file : Config) (trustedDevices : String) :
    Settled (.boot file trustedDevices) :=
  ⟨⟨rfl, rfl, rfl⟩, (fun K h => by cases h), (fun c h => by cases h)⟩

theorem keyReady_of_file (hs : Settled s) (hne : s.file.keyPair.1 ≠ []) :
    KeyReady s.file.keyPair s := by
  refine ⟨hs.idle.keyPairHeld, ?_⟩
  cases hcache : s.keyPair with
  | some K => exact .inl (congrArg some (hs.cached K hcache).1.symm)
  | none => exact .inr ⟨rfl, rfl, hne⟩

theorem Settled.keyReady (hs : Settled s) (hc : s.config = some c) : KeyReady c.keyPair s := by
  obtain ⟨hfile, hne⟩ := hs.config c hc
  rw [← hfile] at hne ⊢
  exact keyReady_of_file hs hne

theorem Settled.cache_of_empty (hs : Settled s) (hempty : s.file.keyPair.1 = []) :
    s.keyPair = none := by
  cases hcache : s.keyPair with
  | none => rfl
  | some K =>
      obtain ⟨hfile, hK⟩ := hs.cached K hcache
      exact absurd (hfile ▸ hempty) hK

/-- Caching the key pair of the file changes nothing that matters. -/
theorem Settled.mayCache (hs : Settled s) (hne : s.file.keyPair.1 ≠ [])
    (ht : MayCache s.file.keyPair s t) : Settled t := by
  refine ⟨hs.idle.mayCache ht, ?_, ?_⟩
  · rcases ht with rfl | rfl
    · exact hs.cached
    · rintro K hK
      cases hK
      exact ⟨rfl, hne⟩
  · rcases ht with rfl | rfl
    · exact hs.config
    · exact hs.config

/-- A configuration with the same key pair is stored. -/
theorem Settled.stored (hs : Settled s) (hc : s.config = some c) (hkey : c'.keyPair = c.keyPair)
    (hu : MayCache c.keyPair s u) (devices : String) :
    Settled { u with
      file := M.fileOf c.keyPair draws c', config := some c', trustedDevices := devices } := by
  obtain ⟨hfile, hne⟩ := hs.config c hc
  have hidle := hs.idle.mayCache hu
  have hwritten : (M.fileOf c.keyPair draws c').keyPair = c.keyPair :=
    (fileOf_keyPair M c.keyPair draws c').trans hkey
  refine ⟨⟨hidle.hold, hidle.initializing, hidle.keyPairHeld⟩, ?_, ?_⟩
  · intro K hK
    have hsame : K = c.keyPair := by
      rcases hu with rfl | rfl
      · rw [← (hs.cached K hK).1, hfile]
      · cases hK
        rfl
    rw [hsame]
    exact ⟨hwritten, hne⟩
  · intro c'' hc''
    cases hc''
    rw [hkey]
    exact ⟨hwritten, hne⟩

/-! ## The first use -/

theorem loadedUnder_keyPair (K : KeyPair) (draws : Draws) (file : Config) :
    (M.loadedUnder K draws file).2.keyPair = K := by
  have hmigrated := (sameButPassword_migrated M.hash (M.pureOps K) draws.salt
    { file with keyPair := K }).keyPair
  unfold Machine.loadedUnder
  rw [loadedConfig_eq]
  simp only
  split
  · exact hmigrated
  · split
    · exact hmigrated
    · exact hmigrated

/-- What the initialiser leaves. -/
structure Booted (M : Machine Digest) (draws : Draws) (s : Process) (c : Config) (t : Process) :
    Prop where
  config : t.config = some c
  loaded : c = (M.loadedUnder (Machine.startKey draws s) draws s.file).2
  file : t.file = M.fileOf (Machine.startKey draws s) draws c ∨
    t.file = s.file ∧ s.file.keyPair = Machine.startKey draws s ∧
      (M.loadedUnder (Machine.startKey draws s) draws s.file).1 = false

/-- `CONFIG` is there after its first use, and nothing waits. -/
theorem exec_force (M : Machine Digest) (draws : Draws) (hs : Settled s) :
    ∃ c t, (M.force draws).exec s = (.ok c, t) ∧ Settled t ∧ t.config = some c ∧
      (s.config = some c ∧ t = s ∨ s.config = none ∧ Booted M draws s c t) := by
  cases hc : s.config with
  | some c => exact ⟨c, s, exec_force_some draws hc, hs, hc, .inl ⟨rfl, rfl⟩⟩
  | none =>
      obtain ⟨stored, hforce, hkept⟩ := exec_force_none (M := M) draws hs.idle hc
      have hne : (Machine.startKey draws s).1 ≠ [] :=
        startKey_ne draws (fun K hK => (hs.cached K hK).2)
      generalize hK : Machine.startKey draws s = K at *
      have hfile : (if stored then M.fileOf K draws (M.loadedUnder K draws s.file).2
          else s.file).keyPair = K := by
        split
        · exact (fileOf_keyPair M K draws _).trans (loadedUnder_keyPair K draws s.file)
        · exact (hkept (by simpa using ‹¬ stored = true›)).1
      refine ⟨_, _, hforce, ⟨⟨hs.idle.hold, hs.idle.initializing, hs.idle.keyPairHeld⟩, ?_, ?_⟩,
        rfl, .inr ⟨rfl, rfl, by rw [hK], ?_⟩⟩
      · intro K' hK'
        cases hK'
        exact ⟨hfile, hne⟩
      · intro c' hc'
        cases hc'
        rw [loadedUnder_keyPair]
        exact ⟨hfile, hne⟩
      · rw [hK]
        cases stored with
        | true => exact .inl rfl
        | false => exact .inr ⟨rfl, hkept rfl⟩

/-- A computation that uses `CONFIG` first. -/
def UsesConfig {α : Type} (M : Machine Digest) (draws : Draws) (x : Op α) : Prop :=
  ∀ s c t, (M.force draws).exec s = (.ok c, t) → t.config = some c → x.exec s = x.exec t

theorem usesConfig_reading {α : Type} (body : Config → Op α) :
    UsesConfig M draws (M.reading draws body) :=
  fun _ _ _ hforce hc => exec_reading_of_force hforce hc

theorem usesConfig_writing {α : Type} (body : Config → Op (Config × α)) :
    UsesConfig M draws (M.writing draws body) :=
  fun _ _ _ hforce hc => exec_writing_of_force hforce hc

theorem UsesConfig.bind {α β : Type} {x : Op α} (h : UsesConfig M draws x) (f : α → Op β) :
    UsesConfig M draws (x >>= f) := by
  intro s c t hforce hc
  rw [exec_bind, exec_bind, h s c t hforce hc]

theorem usesConfig_setPermanentPassword (hard : Option String) (password : String) :
    UsesConfig M draws (M.setPermanentPassword draws false hard password) := by
  intro s c t hforce hc
  unfold Machine.setPermanentPassword Machine.isHardCoded
  rw [if_neg Bool.false_ne_true]
  by_cases hhard : hard = some password
  · rw [if_pos hhard]
    exact (usesConfig_reading _).bind _ s c t hforce hc
  · rw [if_neg hhard]
    exact usesConfig_writing _ s c t hforce hc

/-! ## The configuration that a call leaves -/

def ConfigCall.after (M : Machine Digest) (draws : Draws) (c : Config) : ConfigCall → Config
  | .setKeyConfirmed v => if c.keyConfirmed = v then c else keyConfirmedSet v c
  | .setHostKeyConfirmed host v =>
      if decide (c.keysConfirmed.get? host = some true) = v then c else hostKeyConfirmedSet host v c
  | .setId id => { c with id }
  | .setPermanentPassword disabled hard password =>
      if passwordRefused disabled hard password c then c
      else if (passwordSet M.hash draws.salt password c).password = c.password then
        PasswordHash.withSalt draws.salt c
      else passwordSet M.hash draws.salt password c
  | .setPermanentPasswordStorageForSync storage salt => { c with password := storage, salt }
  | .setSalt salt => if saltRefused M.hash salt c then c else { c with salt }
  | .getSalt => if c.salt = "" then { c with salt := draws.salt } else c
  | .configSet cfg => cfg
  | _ => c

/-- `CONFIG` was `c` and is `c'` now, which is in the file unless nothing was stored. -/
structure Left (M : Machine Digest) (draws : Draws) (s : Process) (c c' : Config) (t : Process) :
    Prop where
  settled : Settled t
  config : t.config = some c'
  file : t.file = M.fileOf c.keyPair draws c' ∨
    t.file = s.file ∧ (c' = c ∨ c' = PasswordHash.withSalt draws.salt c)

theorem after_keyPair (call : ConfigCall) (h : ∀ cfg, call ≠ .configSet cfg) :
    (call.after M draws c).keyPair = c.keyPair := by
  cases call with
  | setKeyConfirmed v =>
      show (if c.keyConfirmed = v then c else keyConfirmedSet v c).keyPair = _
      unfold keyConfirmedSet
      split
      · rfl
      · split <;> rfl
  | setHostKeyConfirmed host v =>
      show (if decide (c.keysConfirmed.get? host = some true) = v then c
        else hostKeyConfirmedSet host v c).keyPair = _
      split <;> rfl
  | setPermanentPassword disabled hard password =>
      show (if passwordRefused disabled hard password c then c
        else if (passwordSet M.hash draws.salt password c).password = c.password then
          PasswordHash.withSalt draws.salt c
        else passwordSet M.hash draws.salt password c).keyPair = _
      split
      · rfl
      · split
        · exact (sameButPassword_withSalt draws.salt c).keyPair
        · exact passwordSet_keyPair M.hash draws.salt password c
  | setSalt salt =>
      show (if saltRefused M.hash salt c then c else { c with salt }).keyPair = _
      split <;> rfl
  | getSalt =>
      show (if c.salt = "" then { c with salt := draws.salt } else c).keyPair = _
      split <;> rfl
  | configSet cfg => exact absurd rfl (h cfg)
  | _ => rfl

theorem left_same (hs : Settled s) (hc : s.config = some c) : Left M draws s c c s :=
  ⟨hs, hc, .inr ⟨rfl, .inl rfl⟩⟩

theorem Left.mayCache (hs : Settled s) (hc : s.config = some c) (ht : MayCache c.keyPair s t) :
    Left M draws s c c t := by
  obtain ⟨hfile, hne⟩ := hs.config c hc
  rw [← hfile] at hne ht
  refine ⟨hs.mayCache hne ht, ?_, .inr ⟨?_, .inl rfl⟩⟩
  · rcases ht with rfl | rfl <;> exact hc
  · rcases ht with rfl | rfl <;> rfl

theorem Left.wrote (hs : Settled s) (hc : s.config = some c) (hkey : c'.keyPair = c.keyPair)
    (ht : Wrote M c.keyPair draws s c' t) : Left M draws s c c' t := by
  rcases ht with ⟨rfl, hc'⟩ | ⟨u, devices, hu, rfl⟩
  · rw [hc] at hc'
    cases hc'
    exact left_same hs hc
  · exact ⟨hs.stored hc hkey hu devices, rfl, .inl rfl⟩

theorem withSalt_keyPair (salt : String) (c : Config) :
    (PasswordHash.withSalt salt c).keyPair = c.keyPair :=
  (sameButPassword_withSalt salt c).keyPair

/-- Only the salt of `CONFIG` changes. -/
theorem left_withSalt (hs : Settled s) (hc : s.config = some c) :
    Left M draws s c (PasswordHash.withSalt draws.salt c)
      { s with config := some (PasswordHash.withSalt draws.salt c) } := by
  refine ⟨⟨⟨hs.idle.hold, hs.idle.initializing, hs.idle.keyPairHeld⟩, hs.cached, ?_⟩, rfl,
    .inr ⟨rfl, .inr rfl⟩⟩
  intro c' hc'
  cases hc'
  rw [withSalt_keyPair]
  exact hs.config c hc

theorem exec_ignoring {α : Type} {x : Op α} {a : α} (h : x.exec s = (.ok a, t)) :
    (ignoring x).exec s = (.ok ⟨⟩, t) := by
  unfold ignoring
  rw [exec_bind_ok h]
  rfl

/-! ## Peers -/

theorem returns_foldlM {α β : Type} {I : Process → Prop} {f : β → α → Op β}
    (hf : ∀ b a, ∃ b', Returns I (f b a) b') (l : List α) (b : β) :
    ∃ b', Returns I (l.foldlM f b) b' := by
  induction l generalizing b with
  | nil => exact ⟨b, .pure⟩
  | cons a l ih =>
      obtain ⟨b', hb'⟩ := hf b a
      obtain ⟨b'', hb''⟩ := ih b'
      rw [List.foldlM_cons]
      exact ⟨b'', hb'.bind hb''⟩

section

variable {I : Process → Prop} {p : CryptOps Id}

/-- One option of the loop of `peerStored`. -/
def storeOption (M : Machine Digest) (draws : Draws) (config : PeerConfig) (opt : String) :
    Op PeerConfig :=
  match config.options.get? opt with
  | none => pure config
  | some v => do
      let v ← (M.callOps draws).encryptStrOrOriginal draws.nonce v passwordEncVersion
        encryptMaxLen
      return { config with options := config.options.insert opt v }

/-- One option of the loop of `peerLoad`. -/
def loadOption (M : Machine Digest) (draws : Draws) (p : PeerConfig × Bool) (opt : String) :
    Op (PeerConfig × Bool) :=
  match p.1.options.get? opt with
  | none => pure p
  | some v => do
      let (v, _, store2) ← (M.callOps draws).decryptStrOrOriginal v passwordEncVersion
      return ({ p.1 with options := p.1.options.insert opt v }, p.2 || store2)

theorem peerStored_returns (h : OpsAgree M I True (M.callOps draws) p) (config : PeerConfig) :
    ∃ stored, Returns I (M.peerStored draws config) stored := by
  have hpassword := h.encryptVecOrOriginal draws.nonce config.password encryptMaxLen (.inl trivial)
  generalize (p.encryptVecOrOriginal draws.nonce config.password encryptMaxLen : Bytes) = password
    at hpassword
  obtain ⟨stored, hstored⟩ := returns_foldlM (I := I) (f := storeOption M draws)
    (fun config opt => by
      unfold storeOption
      cases config.options.get? opt with
      | none => exact ⟨config, .pure⟩
      | some v =>
          exact ⟨_, (h.encryptStrOrOriginal draws.nonce v passwordEncVersion encryptMaxLen
            (.inl trivial)).bind .pure⟩) PeerConfig.encryptedOptions { config with password }
  exact ⟨stored, hpassword.bind hstored⟩

end

/-- What is done under `CONFIG.read()` where there is a key pair. -/
theorem exec_reading_returns {α : Type} {body : Config → Op α} (hs : Settled s)
    (hc : s.config = some c)
    (hbody : ∀ I, OpsAgree M I True (M.callOps draws) (M.pureOps c.keyPair) →
      ∃ a, Returns I (body c) a) :
    ∃ a t, (M.reading draws body).exec s = (.ok a, t) ∧ MayCache c.keyPair s t := by
  have hready := (hs.keyReady hc).held .read
  obtain ⟨a, ha⟩ := hbody _ (ops_agree draws (fun _ => hready) 1)
  obtain ⟨u, hu, hcache⟩ := ha _ .refl
  refine ⟨a, _, exec_reading (exec_force_some draws hc) hs.idle.hold hu, ?_⟩
  have hhold := hs.idle.hold
  obtain ⟨file, config, initializing, hold, keyPair, keyPairHeld, trustedDevices⟩ := s
  cases hhold
  rcases hcache with rfl | rfl
  · exact .inl rfl
  · exact .inr rfl

theorem exec_peerLoad (M : Machine Digest) (draws : Draws) (hs : Settled s)
    (hc : s.config = some c) (file : PeerConfig) :
    ∃ a t, (M.peerLoad draws file).exec s = (.ok a, t) ∧ MayCache c.keyPair s t := by
  refine exec_reading_returns hs hc (fun I h => ?_)
  have hpassword := h.decryptVecOrOriginal file.password (.inl trivial)
  generalize ((M.pureOps c.keyPair).decryptVecOrOriginal file.password : Bytes × Bool × Bool) =
    password at hpassword
  obtain ⟨password, decrypted, store⟩ := password
  obtain ⟨loaded, hloaded⟩ := returns_foldlM (I := I) (f := loadOption M draws)
    (fun p opt => by
      unfold loadOption
      cases p.1.options.get? opt with
      | none => exact ⟨p, .pure⟩
      | some v =>
          exact ⟨_, (h.decryptStrOrOriginal v passwordEncVersion (.inl trivial)).bind .pure⟩)
    PeerConfig.encryptedOptions ({ file with password }, store)
  obtain ⟨config, store⟩ := loaded
  cases store with
  | false => exact ⟨_, hpassword.bind (hloaded.bind .pure)⟩
  | true =>
      obtain ⟨stored, hstored⟩ := peerStored_returns h config
      exact ⟨_, hpassword.bind (hloaded.bind (hstored.bind .pure))⟩

theorem exec_peerStore (M : Machine Digest) (draws : Draws) (hs : Settled s)
    (hc : s.config = some c) (config : PeerConfig) :
    ∃ a t, (M.peerStore draws config).exec s = (.ok a, t) ∧ MayCache c.keyPair s t :=
  exec_reading_returns hs hc (fun _ h => peerStored_returns h config)

/-! ## A new configuration -/

theorem Wrote.file_keyPair (hs : Settled s) (hc : s.config = some c)
    (ht : Wrote M c.keyPair draws s c' t) : t.file.keyPair = c'.keyPair := by
  rcases ht with ⟨rfl, hc'⟩ | ⟨u, devices, -, rfl⟩
  · exact (hs.config c' hc').1
  · exact fileOf_keyPair M c.keyPair draws c'

/-- The cache is emptied when the key pair of the new configuration is another one. -/
theorem exec_configSet (M : Machine Digest) (draws : Draws) (hs : Settled s)
    (hc : s.config = some c) (cfg : Config) (hne : cfg.keyPair.1 ≠ []) :
    ∃ changed t, (M.configSet draws cfg).exec s = (.ok changed, t) ∧ Left M draws s c cfg t := by
  obtain ⟨changed, t, hwrite, ht⟩ : ∃ changed t, (M.writing draws (fun config =>
      if config = cfg then pure (config, false) else M.storing draws cfg true)).exec s =
        (.ok changed, t) ∧ Wrote M c.keyPair draws s cfg t := by
    by_cases hsame : c = cfg
    · exact ⟨false, s, exec_writing_pure hs.idle hc (if_pos hsame), .inl ⟨rfl, hsame ▸ hc⟩⟩
    · exact ⟨true, exec_writing_storing hs.idle hc (if_neg hsame) (.inl (hs.keyReady hc))⟩
  have hidle := hs.idle.wrote ht
  have hfile := ht.file_keyPair hs hc
  have hinvalidate : (Machine.invalidateKeyPairCacheIfChanged cfg.keyPair).exec t = (.ok ⟨⟩, { t with
      keyPair := if t.keyPair = some cfg.keyPair then t.keyPair else none }) := by
    rw [Machine.invalidateKeyPairCacheIfChanged, exec_underKeyPair hidle.keyPairHeld]
  refine ⟨changed, { t with
    keyPair := if t.keyPair = some cfg.keyPair then t.keyPair else none }, ?_, ?_⟩
  · unfold Machine.configSet
    rw [exec_bind_ok hwrite]
    exact exec_bind_ok hinvalidate
  · refine ⟨⟨⟨hidle.hold, hidle.initializing, hidle.keyPairHeld⟩, ?_, ?_⟩, ht.config, ?_⟩
    · intro K hK
      split at hK
      · rename_i hcached
        rw [hcached] at hK
        cases hK
        exact ⟨hfile, hne⟩
      · cases hK
    · intro c' hc'
      have hsame : c' = cfg := Option.some.inj (hc'.symm.trans ht.config)
      rw [hsame]
      exact ⟨hfile, hne⟩
    · rcases ht with ⟨rfl, hc'⟩ | ⟨u, devices, -, rfl⟩
      · rw [hc] at hc'
        cases hc'
        exact .inr ⟨rfl, .inl rfl⟩
      · exact .inl rfl

/-! ## Every call -/

/-- A configuration that is set has a key pair. -/
def ConfigCall.KeepsKey : ConfigCall → Prop
  | .configSet cfg => cfg.keyPair.1 ≠ []
  | _ => True

/-- What a call does once `CONFIG` is there. -/
theorem exec_call (M : Machine Digest) (draws : Draws) (hs : Settled s)
    (hc : s.config = some c) (call : ConfigCall) (hkeeps : call.KeepsKey) :
    ∃ t, (call.exec M draws).exec s = (.ok ⟨⟩, t) ∧
      Left M draws s c (call.after M draws c) t := by
  have hkey := hs.keyReady hc
  cases call with
  | get => exact ⟨s, exec_ignoring (exec_reading_pure hs.idle hc id), left_same hs hc⟩
  | getKeyPair =>
      have hreturns : Returns _ (M.getKeyPair draws 3) c.keyPair := getKeyPair_returns hkey 2
      obtain ⟨t, ht, hcache⟩ := hreturns s .refl
      exact ⟨t, exec_ignoring ht, .mayCache hs hc hcache⟩
  | getExistingKeyPair =>
      obtain ⟨t, ht, hcache⟩ := getExistingKeyPair_returns hkey s .refl
      exact ⟨t, exec_ignoring ht, .mayCache hs hc hcache⟩
  | setKeyConfirmed v =>
      obtain ⟨t, ht, hwrote⟩ := exec_setKeyConfirmed (M := M) draws hs.idle hc v (.inr (.inl hkey))
      exact ⟨t, ht, .wrote hs hc (after_keyPair (.setKeyConfirmed v) (fun _ => nofun)) hwrote⟩
  | setHostKeyConfirmed host v =>
      obtain ⟨t, ht, hwrote⟩ := exec_setHostKeyConfirmed (M := M) draws hs.idle hc host v
        (.inr (.inl hkey))
      exact ⟨t, ht,
        .wrote hs hc (after_keyPair (.setHostKeyConfirmed host v) (fun _ => nofun)) hwrote⟩
  | setId id =>
      obtain ⟨t, ht, hwrote⟩ := exec_setId (M := M) draws hs.idle hc id (.inr (.inl hkey))
      exact ⟨t, ht, .wrote hs hc rfl hwrote⟩
  | setPermanentPassword disabled hard password =>
      obtain ⟨t, ht, hleft⟩ := exec_setPermanentPassword (M := M) draws hs.idle hc disabled hard
        password (.inr (.inr ⟨hkey, .inr rfl⟩))
      refine ⟨t, ht, ?_⟩
      show Left M draws s c (if passwordRefused disabled hard password c then c
        else if (passwordSet M.hash draws.salt password c).password = c.password then
          PasswordHash.withSalt draws.salt c
        else passwordSet M.hash draws.salt password c) t
      split at hleft
      · rename_i hrefused
        rw [if_pos hrefused, hleft]
        exact left_same hs hc
      · rename_i hrefused
        rw [if_neg hrefused]
        split at hleft
        · rename_i hsame
          rw [if_pos hsame, hleft]
          exact left_withSalt hs hc
        · rename_i hsame
          rw [if_neg hsame]
          exact .wrote hs hc (passwordSet_keyPair M.hash draws.salt password c) hleft
  | setPermanentPasswordStorageForSync storage salt =>
      obtain ⟨changed, t, ht, hwrote⟩ := exec_setPermanentPasswordStorageForSync (M := M) draws
        hs.idle hc storage salt (.inr ⟨hkey, .inr rfl⟩)
      exact ⟨t, exec_ignoring ht, .wrote hs hc rfl hwrote⟩
  | setSalt salt =>
      obtain ⟨t, ht, hwrote⟩ := exec_setSalt (M := M) draws hs.idle hc salt (.inr (.inl hkey))
      exact ⟨t, ht, .wrote hs hc (after_keyPair (.setSalt salt) (fun _ => nofun)) hwrote⟩
  | getSalt =>
      obtain ⟨salt, t, ht, hwrote⟩ := exec_getSalt (M := M) draws hs.idle hc (.inr (.inl hkey))
      exact ⟨t, exec_ignoring ht, .wrote hs hc (after_keyPair .getSalt (fun _ => nofun)) hwrote⟩
  | configSet cfg =>
      obtain ⟨changed, t, ht, hleft⟩ := exec_configSet M draws hs hc cfg hkeeps
      exact ⟨t, exec_ignoring ht, hleft⟩
  | peerLoad file =>
      obtain ⟨a, t, ht, hcache⟩ := exec_peerLoad M draws hs hc file
      exact ⟨t, exec_ignoring ht, .mayCache hs hc hcache⟩
  | peerStore config =>
      obtain ⟨a, t, ht, hcache⟩ := exec_peerStore M draws hs hc config
      exact ⟨t, exec_ignoring ht, .mayCache hs hc hcache⟩

/-- A key pair is generated where the file has none. -/
theorem exec_getKeyPair_boot (M : Machine Digest) (draws : Draws) (hs : Settled s)
    (hc : s.config = none) :
    ∃ K t, (M.getKeyPair draws 3).exec s = (.ok K, t) ∧ Settled t ∧ t.config = none ∧
      (t.file = s.file ∨ s.file.keyPair.1 = [] ∧
        t.file = M.fileOf draws.keyPair draws { s.file with keyPair := draws.keyPair }) := by
  by_cases hne : s.file.keyPair.1 = []
  · have hcache := hs.cache_of_empty hne
    have hread : (underKeyPair (fun cache _ => (cache, cache))).exec s = (.ok none, s) := by
      rw [exec_underKeyPair hs.idle.keyPairHeld, hcache]
      exact congrArg (Prod.mk _) (setKeyPair_self hcache)
    have hensure := exec_ensureKeyPair draws.keyPair s.file hs.idle.keyPairHeld
    rw [hcache] at hensure
    simp only [if_pos hne] at hensure
    have hready : KeyReady draws.keyPair { s with keyPair := some draws.keyPair } :=
      ⟨hs.idle.keyPairHeld, .inl rfl⟩
    obtain ⟨u, hstore, hu⟩ := exec_store (M := M) draws (.inl hready) 1
      (c := { s.file with keyPair := draws.keyPair })
    rw [hu.eq_of_cached rfl] at hstore
    refine ⟨draws.keyPair, { s with
      keyPair := some draws.keyPair
      file := M.fileOf draws.keyPair draws { s.file with keyPair := draws.keyPair } }, ?_,
      ⟨⟨hs.idle.hold, hs.idle.initializing, hs.idle.keyPairHeld⟩, ?_, ?_⟩, hc, .inr ⟨hne, rfl⟩⟩
    · have hstore : (M.store draws (M.ops (M.getKeyPair draws 2))
          { s.file with keyPair := draws.keyPair }).exec { s with keyPair := some draws.keyPair } =
          _ := hstore
      unfold Machine.getKeyPair
      rw [exec_bind_ok hread]
      simp only
      rw [exec_bind_ok (exec_get s), exec_bind_ok hensure]
      obtain ⟨file, config, initializing, hold, keyPair, keyPairHeld, trustedDevices⟩ := s
      cases hc
      exact exec_bind_ok hstore
    · intro K hK
      cases hK
      exact ⟨fileOf_keyPair M draws.keyPair draws _, draws.keyPair_ne⟩
    · intro c hc'
      exact nomatch hc'.symm.trans hc
  · have hreturns : Returns _ (M.getKeyPair draws 3) s.file.keyPair :=
      getKeyPair_returns (keyReady_of_file hs hne) 2
    obtain ⟨t, ht, hcache⟩ := hreturns s .refl
    refine ⟨_, t, ht, hs.mayCache hne hcache, ?_, .inl ?_⟩
    · rcases hcache with rfl | rfl <;> exact hc
    · rcases hcache with rfl | rfl <;> rfl

theorem exec_getExistingKeyPair_boot (hs : Settled s) (hc : s.config = none) :
    ∃ K t, getExistingKeyPair.exec s = (.ok K, t) ∧ Settled t ∧ t.config = none ∧
      t.file = s.file := by
  by_cases hne : s.file.keyPair.1 = []
  · have hcache := hs.cache_of_empty hne
    refine ⟨none, s, ?_, hs, hc, rfl⟩
    rw [getExistingKeyPair, exec_underKeyPair hs.idle.keyPairHeld, hcache]
    simp only [if_neg (not_not.mpr hne)]
    rw [setKeyPair_self hcache]
  · obtain ⟨t, ht, hcache⟩ := getExistingKeyPair_returns (keyReady_of_file hs hne) s .refl
    refine ⟨_, t, ht, hs.mayCache hne hcache, ?_, ?_⟩
    · rcases hcache with rfl | rfl <;> exact hc
    · rcases hcache with rfl | rfl <;> rfl

/-! ## The call before `CONFIG` is there -/

/-- A call that leaves `CONFIG` to its next use. -/
def ConfigCall.isLazy : ConfigCall → Bool
  | .getKeyPair | .getExistingKeyPair | .setPermanentPassword true .. => true
  | _ => false

theorem usesConfig_exec {call : ConfigCall} (h : call.isLazy = false) :
    UsesConfig M draws (call.exec M draws) := by
  cases call with
  | getKeyPair | getExistingKeyPair => cases h
  | setPermanentPassword disabled hard password =>
      cases disabled with
      | true => cases h
      | false => exact usesConfig_setPermanentPassword hard password
  | setHostKeyConfirmed host v => exact (usesConfig_reading _).bind _
  | getSalt => exact ((usesConfig_reading _).bind _).bind _
  | setPermanentPasswordStorageForSync storage salt => exact (usesConfig_writing _).bind _
  | configSet cfg => exact ((usesConfig_writing _).bind _).bind _
  | get | peerLoad _ | peerStore _ => exact (usesConfig_reading _).bind _
  | setKeyConfirmed _ | setId _ | setSalt _ => exact usesConfig_writing _

/-- What a call does before `CONFIG` is there, when it leaves it to its next use. -/
theorem exec_lazy (M : Machine Digest) (draws : Draws) (hs : Settled s)
    (hc : s.config = none) {call : ConfigCall} (h : call.isLazy = true) :
    ∃ t, (call.exec M draws).exec s = (.ok ⟨⟩, t) ∧ Settled t ∧
      t.config = none ∧ (t.file = s.file ∨ s.file.keyPair.1 = [] ∧
        t.file = M.fileOf draws.keyPair draws { s.file with keyPair := draws.keyPair }) := by
  cases call with
  | getKeyPair =>
      obtain ⟨K, t, ht, hrest⟩ := exec_getKeyPair_boot M draws hs hc
      exact ⟨t, exec_ignoring ht, hrest⟩
  | getExistingKeyPair =>
      obtain ⟨K, t, ht, hsettled, hnone, hfile⟩ := exec_getExistingKeyPair_boot hs hc
      exact ⟨t, exec_ignoring ht, hsettled, hnone, .inl hfile⟩
  | setPermanentPassword disabled hard password =>
      cases disabled with
      | true => exact ⟨s, rfl, hs, hc, .inl rfl⟩
      | false => cases h
  | _ => cases h

/-- Every call returns: `CONFIG` is there before it, or is made by it, or stays to be made. -/
theorem exec_any (M : Machine Digest) (draws : Draws) (hs : Settled s) (call : ConfigCall)
    (hkeeps : call.KeepsKey) :
    ∃ t, (call.exec M draws).exec s = (.ok ⟨⟩, t) ∧ Settled t ∧
      ((∃ c s', (s.config = some c ∧ s' = s ∨ s.config = none ∧ Booted M draws s c s') ∧
          Settled s' ∧ s'.config = some c ∧ Left M draws s' c (call.after M draws c) t) ∨
        s.config = none ∧ call.isLazy = true ∧ t.config = none ∧
          (t.file = s.file ∨ s.file.keyPair.1 = [] ∧
            t.file = M.fileOf draws.keyPair draws { s.file with keyPair := draws.keyPair })) := by
  cases hc : s.config with
  | some c =>
      obtain ⟨t, ht, hleft⟩ := exec_call M draws hs hc call hkeeps
      exact ⟨t, ht, hleft.settled, .inl ⟨c, s, .inl ⟨rfl, rfl⟩, hs, hc, hleft⟩⟩
  | none =>
      cases hlazy : call.isLazy with
      | true =>
          obtain ⟨t, ht, hsettled, hrest⟩ := exec_lazy M draws hs hc hlazy
          exact ⟨t, ht, hsettled, .inr ⟨rfl, rfl, hrest⟩⟩
      | false =>
          obtain ⟨c, s', hforce, hs', hc', hbooted⟩ := exec_force M draws hs
          obtain ⟨t, ht, hleft⟩ := exec_call M draws hs' hc' call hkeeps
          rw [hc] at hbooted
          refine ⟨t, ?_, hleft.settled, .inl ⟨c, s', hbooted, hs', hc', hleft⟩⟩
          rw [usesConfig_exec hlazy s c s' hforce hc', ht]

/-! ## Runs -/

def ThreadAction.KeepsKey : ThreadAction → Prop
  | .call made _ => made.KeepsKey
  | .restart => True

/-- Between two calls, and nothing waits. -/
structure Running (s : OneThread) : Prop where
  settled : Settled s.process
  running : s.blocked = none

theorem Running.step {s : OneThread} (hs : Running s) {action : ThreadAction}
    (hkeeps : action.KeepsKey) : Running (s.step M action) := by
  cases action with
  | restart => exact ⟨settled_boot _ _, rfl⟩
  | call call draws =>
      have hkeeps : call.KeepsKey := hkeeps
      obtain ⟨t, ht, hsettled, -⟩ := exec_any M draws hs.settled call hkeeps
      unfold OneThread.step
      rw [hs.running]
      simp only [ht]
      exact ⟨hsettled, rfl⟩

end HbbCommon.Config
