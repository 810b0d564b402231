import HbbCommon.Config.Process

/-!
# The key pair of a process

Where a key pair is cached, or the file has one, whatever encrypts or decrypts returns what it does
under that key pair, and changes nothing but the cache. What encrypts and decrypts nothing needs no
key pair at all.
-/

namespace HbbCommon.Config

open HbbCommon.Base Effect

variable {Digest : Type} (M : Machine Digest) {draws : Draws}

/-! ## Encryption under a key pair -/

namespace Machine

/-- What `get_uuid` returns where this is the key pair. -/
def uuidOf (K : KeyPair) : Bytes := M.uid.getD K.2

/-- What a Base64 text decrypts to where this is the key pair. -/
def opened {β : Type} (K : KeyPair) (openBox : Bytes → β → Option β) (body : β) : Option β :=
  match openBox (keybuf (M.uuidOf K)) body with
  | some plain => some plain
  | none =>
      if M.mobile then none
      else if K.2 ≠ M.uuidOf K then openBox (keybuf K.2) body else none

/-- Encryption and decryption where this is the key pair. -/
def pureOps (K : KeyPair) : CryptOps Id where
  encrypt nonce s := M.sealBox (keybuf (M.uuidOf K)) nonce s
  decrypt body := if M.isBase64 body then M.opened K M.openBox body else none
  isPayload := M.isPayload
  encryptVec nonce v := M.sealBoxVec (keybuf (M.uuidOf K)) nonce v
  decryptVec body := if M.isBase64Vec body then M.opened K M.openBoxVec body else none
  isPayloadVec := M.isPayloadVec

end Machine

/-! ## The functions without effects -/

section

variable (h : PasswordHash Digest) (p : CryptOps Id) (salt : String) (config : Config)

def migrated : Bool × Config := h.migratePermanentPasswordToHashedStorage p salt config

theorem migrated_eq : migrated h p salt config =
    if config.password = "" ∨ h.isPermanentPasswordHashedStorage config.password then
      (false, config)
    else if PasswordHash.startsWithVersion config.password then
      let plain : String × Bool × Bool :=
        p.decryptStrOrOriginal config.password passwordEncVersion
      if ¬ plain.2.1 ∧ ¬ plain.2.2 then (false, config)
      else if h.isPermanentPasswordHashedStorage plain.1 then
        (true, { PasswordHash.withSalt salt config with password := plain.1 })
      else (true, h.hashed plain.1 (PasswordHash.withSalt salt config))
    else (true, h.hashed config.password (PasswordHash.withSalt salt config)) := rfl

def storedFile (nonce : Nat) : Config := h.stored p salt nonce config

theorem storedFile_eq (nonce : Nat) : storedFile h p salt config nonce =
    { (migrated h p salt config).2 with
      encId := p.encryptStrOrOriginal nonce (migrated h p salt config).2.id passwordEncVersion
        encryptMaxLen
      id := "" } := rfl

def loadedConfig (newId : Option String) : Bool × Config := h.loaded p salt newId config

theorem loadedConfig_eq (newId : Option String) : loadedConfig h p salt config newId =
    let valid : Option String × Bool := p.loadedId (migrated h p salt config).2
    match valid.1 with
    | some id =>
        ((migrated h p salt config).1 || valid.2, { (migrated h p salt config).2 with id })
    | none =>
        match newId with
        | some id => (true, { (migrated h p salt config).2 with id })
        | none => ((migrated h p salt config).1 || valid.2, (migrated h p salt config).2) := rfl

/-- Only the password and the salt of a configuration differ. -/
structure SameButPassword (c c' : Config) : Prop where
  id : c'.id = c.id
  encId : c'.encId = c.encId
  keyPair : c'.keyPair = c.keyPair

theorem sameButPassword_withSalt : SameButPassword config (PasswordHash.withSalt salt config) := by
  unfold PasswordHash.withSalt
  split <;> exact ⟨rfl, rfl, rfl⟩

/-- Migrating changes nothing but the password and the salt. -/
theorem sameButPassword_migrated : SameButPassword config (migrated h p salt config).2 := by
  obtain ⟨hid, hencId, hkeyPair⟩ := sameButPassword_withSalt salt config
  rw [migrated_eq]
  split
  · exact ⟨rfl, rfl, rfl⟩
  · split
    · simp only
      split
      · exact ⟨rfl, rfl, rfl⟩
      · split
        · exact ⟨hid, hencId, hkeyPair⟩
        · exact ⟨hid, hencId, hkeyPair⟩
    · exact ⟨hid, hencId, hkeyPair⟩

end

/-! ## What needs a key pair -/

namespace Machine

def encryptUses (s : String) (maxLen : Nat) : Bool :=
  ¬ ((behindVersion s).map M.isPayload).getD false ∧ s.length ≤ maxLen ∧ s ≠ ""

def decryptUses (s : String) : Bool := ((behindVersion s).map M.isBase64).getD false

def encryptVecUses (v : Bytes) (maxLen : Nat) : Bool :=
  ¬ ((behindVersionVec v).map M.isPayloadVec).getD false ∧ v.length ≤ maxLen ∧ v ≠ []

def decryptVecUses (v : Bytes) : Bool := ((behindVersionVec v).map M.isBase64Vec).getD false

def migrateUses (config : Config) : Bool :=
  ¬ M.hash.isPermanentPasswordHashedStorage config.password ∧ M.decryptUses config.password

/-- Storing a configuration decrypts its password or encrypts its id. -/
def storeUses (config : Config) : Bool :=
  M.migrateUses config || M.encryptUses config.id encryptMaxLen

end Machine

/-- `o` does what `p` does; without a key pair, where no key is needed. -/
structure OpsAgree (I : Process → Prop) (keyed : Prop) (o : CryptOps Op) (p : CryptOps Id) :
    Prop where
  encrypt : keyed → ∀ nonce s, Returns I (o.encrypt nonce s) (p.encrypt nonce s)
  decrypt : ∀ body, (keyed ∨ M.isBase64 body = false) →
    Returns I (o.decrypt body) (p.decrypt body)
  encryptVec : keyed → ∀ nonce v, Returns I (o.encryptVec nonce v) (p.encryptVec nonce v)
  decryptVec : ∀ body, (keyed ∨ M.isBase64Vec body = false) →
    Returns I (o.decryptVec body) (p.decryptVec body)
  isPayload : o.isPayload = M.isPayload ∧ p.isPayload = M.isPayload
  isPayloadVec : o.isPayloadVec = M.isPayloadVec ∧ p.isPayloadVec = M.isPayloadVec

namespace OpsAgree

variable {M} {I : Process → Prop} {keyed : Prop} {o : CryptOps Op} {p : CryptOps Id}

theorem isEncrypted (h : OpsAgree M I keyed o p) (s : String) :
    o.isEncrypted s = p.isEncrypted s := by
  unfold CryptOps.isEncrypted
  rw [h.isPayload.1, h.isPayload.2]

theorem isEncryptedVec (h : OpsAgree M I keyed o p) (v : Bytes) :
    o.isEncryptedVec v = p.isEncryptedVec v := by
  unfold CryptOps.isEncryptedVec
  rw [h.isPayloadVec.1, h.isPayloadVec.2]

theorem encryptStrOrOriginal (h : OpsAgree M I keyed o p) (nonce : Nat) (s version : String)
    (maxLen : Nat) (huse : keyed ∨ M.encryptUses s maxLen = false) :
    Returns I (o.encryptStrOrOriginal nonce s version maxLen)
      (p.encryptStrOrOriginal nonce s version maxLen) := by
  unfold CryptOps.encryptStrOrOriginal
  rw [h.isEncrypted]
  refine .ite (fun _ => .pure) (fun hplain => .ite (fun _ => .pure) (fun hlength => ?_))
  refine .ite (fun hne => ?_) (fun _ => .pure)
  refine .bind (h.encrypt ?_ nonce s) .pure
  refine huse.resolve_right ?_
  have hplain : ((behindVersion s).map M.isPayload).getD false = false := by
    simpa [CryptOps.isEncrypted, h.isPayload.2] using hplain
  simp [Machine.encryptUses, hplain, hne.2, Nat.not_lt.mp hlength]

theorem decryptStrOrOriginal (h : OpsAgree M I keyed o p) (s currentVersion : String)
    (huse : keyed ∨ M.decryptUses s = false) :
    Returns I (o.decryptStrOrOriginal s currentVersion)
      (p.decryptStrOrOriginal s currentVersion) := by
  unfold CryptOps.decryptStrOrOriginal Machine.decryptUses at *
  rw [h.isEncrypted]
  cases hbody : behindVersion s with
  | none => exact .pure
  | some body =>
      rw [hbody] at huse
      refine .bind (h.decrypt body huse) ?_
      show Returns I (match (p.decrypt body : Option String) with
        | some plain => _
        | none => _) (match (p.decrypt body : Option String) with
        | some plain => _
        | none => _)
      cases (p.decrypt body : Option String) with
      | none => exact .pure
      | some plain => exact .pure

theorem encryptVecOrOriginal (h : OpsAgree M I keyed o p) (nonce : Nat) (v : Bytes) (maxLen : Nat)
    (huse : keyed ∨ M.encryptVecUses v maxLen = false) :
    Returns I (o.encryptVecOrOriginal nonce v maxLen) (p.encryptVecOrOriginal nonce v maxLen) := by
  unfold CryptOps.encryptVecOrOriginal
  rw [h.isEncryptedVec]
  refine .ite (fun _ => .pure) (fun hplain => .ite (fun _ => .pure) (fun hlength => ?_))
  refine .ite (fun hne => ?_) (fun _ => .pure)
  refine .bind (h.encryptVec ?_ nonce v) .pure
  refine huse.resolve_right ?_
  have hplain : ((behindVersionVec v).map M.isPayloadVec).getD false = false := by
    simpa [CryptOps.isEncryptedVec, h.isPayloadVec.2] using hplain
  simp [Machine.encryptVecUses, hplain, hne, Nat.not_lt.mp hlength]

theorem decryptVecOrOriginal (h : OpsAgree M I keyed o p) (v : Bytes)
    (huse : keyed ∨ M.decryptVecUses v = false) :
    Returns I (o.decryptVecOrOriginal v) (p.decryptVecOrOriginal v) := by
  unfold CryptOps.decryptVecOrOriginal Machine.decryptVecUses at *
  rw [h.isEncryptedVec]
  cases hbody : behindVersionVec v with
  | none => exact .pure
  | some body =>
      rw [hbody] at huse
      refine .bind (h.decryptVec body huse) ?_
      show Returns I (match (p.decryptVec body : Option Bytes) with
        | some plain => _
        | none => _) (match (p.decryptVec body : Option Bytes) with
        | some plain => _
        | none => _)
      cases (p.decryptVec body : Option Bytes) with
      | none => exact .pure
      | some plain => exact .pure

theorem migrate (h : OpsAgree M I keyed o p) (salt : String) (config : Config)
    (huse : keyed ∨ M.migrateUses config = false) :
    Returns I (M.hash.migratePermanentPasswordToHashedStorage o salt config)
      (migrated M.hash p salt config) := by
  unfold migrated PasswordHash.migratePermanentPasswordToHashedStorage
  refine .ite (fun _ => .pure) (fun hplain => .ite (fun _ => ?_) (fun _ => .pure))
  refine .bind (h.decryptStrOrOriginal _ _ (huse.imp_right (fun huse => ?_))) ?_
  · simp only [not_or] at hplain
    simpa [Machine.migrateUses, hplain.2] using huse
  · exact .ite (fun _ => .pure) (fun _ => .ite (fun _ => .pure) (fun _ => .pure))

theorem stored (h : OpsAgree M I keyed o p) (salt : String) (nonce : Nat) (config : Config)
    (huse : keyed ∨ M.storeUses config = false) :
    Returns I (M.hash.stored o salt nonce config) (storedFile M.hash p salt config nonce) := by
  have huses : (keyed ∨ M.migrateUses config = false) ∧
      (keyed ∨ M.encryptUses config.id encryptMaxLen = false) := by
    rcases huse with hkeyed | huse
    · exact ⟨.inl hkeyed, .inl hkeyed⟩
    · rw [Machine.storeUses, Bool.or_eq_false_iff] at huse
      exact ⟨.inr huse.1, .inr huse.2⟩
  refine Returns.bind (h.migrate salt config huses.1) ?_
  have hencrypt := h.encryptStrOrOriginal nonce (migrated M.hash p salt config).2.id
    passwordEncVersion encryptMaxLen (by
      rw [(sameButPassword_migrated M.hash p salt config).id]
      exact huses.2)
  exact Returns.bind hencrypt .pure

theorem loadedId (h : OpsAgree M I True o p) (config : Config) :
    Returns I (o.loadedId config) (p.loadedId config) := by
  unfold CryptOps.loadedId
  refine .bind (h.decryptStrOrOriginal _ _ (.inl trivial)) ?_
  refine .ite (fun _ => .pure) (fun _ => .ite (fun _ => ?_) (fun _ => .pure))
  exact .bind (h.decryptStrOrOriginal _ _ (.inl trivial)) .pure

theorem loaded (h : OpsAgree M I True o p) (salt : String) (newId : Option String)
    (config : Config) :
    Returns I (M.hash.loaded o salt newId config) (loadedConfig M.hash p salt config newId) := by
  rw [loadedConfig_eq]
  refine Returns.bind (h.migrate salt config (.inl trivial)) ?_
  refine Returns.bind (h.loadedId (migrated M.hash p salt config).2) ?_
  simp only
  generalize (p.loadedId (migrated M.hash p salt config).2 : Option String × Bool) = valid
  obtain ⟨_ | id, store⟩ := valid
  · cases newId <;> exact .pure
  · exact .pure

end OpsAgree

/-! ## Where there is a key pair -/

/-- This is the key pair: it is cached, or the file has it. -/
structure KeyReady (K : KeyPair) (s : Process) : Prop where
  free : s.keyPairHeld = false
  key : s.keyPair = some K ∨ (s.keyPair = none ∧ s.file.keyPair = K ∧ K.1 ≠ [])

/-- The key pair may have been cached meanwhile. -/
def MayCache (K : KeyPair) (s t : Process) : Prop := t = s ∨ t = { s with keyPair := some K }

section

variable {K : KeyPair} {s t : Process}

theorem MayCache.refl : MayCache K s s := .inl rfl

theorem KeyReady.mayCache (h : KeyReady K s) (ht : MayCache K s t) : KeyReady K t := by
  rcases ht with rfl | rfl
  · exact h
  · exact ⟨h.free, .inl rfl⟩

theorem MayCache.trans {u : Process} (hst : MayCache K s t) (htu : MayCache K t u) :
    MayCache K s u := by
  rcases hst with rfl | rfl
  · exact htu
  · rcases htu with rfl | rfl
    · exact .inr rfl
    · exact .inr rfl

theorem exec_underKeyPair {α : Type} {body : Option KeyPair → Config → α × Option KeyPair}
    (h : s.keyPairHeld = false) : (underKeyPair body).exec s =
      (.ok (body s.keyPair s.file).1, { s with keyPair := (body s.keyPair s.file).2 }) := by
  obtain ⟨file, config, initializing, hold, keyPair, keyPairHeld, trustedDevices⟩ := s
  cases h
  rfl

/-- A body that leaves the cache as it is leaves the process as it is. -/
theorem setKeyPair_self {cache : Option KeyPair} (h : s.keyPair = cache) :
    { s with keyPair := cache } = s := by
  subst h
  rfl

/-- `ensure_key_pair` publishes the key pair of the configuration, and generates a missing one. -/
theorem exec_ensureKeyPair (generated : KeyPair) (config : Config) (h : s.keyPairHeld = false) :
    (ensureKeyPair generated config).exec s =
      match s.keyPair with
      | some keyPair =>
          (.ok (if config.keyPair ≠ keyPair then (true, { config with keyPair })
            else (false, config)), s)
      | none =>
          if config.keyPair.1 = [] then
            (.ok (true, { config with keyPair := generated }),
              { s with keyPair := some generated })
          else (.ok (false, config), { s with keyPair := some config.keyPair }) := by
  rw [ensureKeyPair, exec_underKeyPair h]
  cases hcache : s.keyPair with
  | some keyPair =>
      simp only
      split
      · rw [setKeyPair_self hcache]
      · rw [setKeyPair_self hcache]
  | none =>
      by_cases hempty : config.keyPair.1 = []
      · simp [hempty]
      · simp [hempty]

theorem getExistingKeyPair_returns (h : KeyReady K s) :
    Returns (MayCache K s) getExistingKeyPair (some K) := by
  intro t ht
  have hready := h.mayCache ht
  rw [getExistingKeyPair, exec_underKeyPair hready.free]
  rcases hready.key with hcache | ⟨hcache, hfile, hne⟩
  · refine ⟨t, ?_, ht⟩
    rw [hcache]
    simp only
    rw [setKeyPair_self hcache]
  · refine ⟨{ t with keyPair := some K }, ?_, ht.trans (.inr rfl)⟩
    rw [hcache, hfile]
    simp only [if_pos hne]

variable {M}

/-- The key pair is returned, from the cache or from the file. -/
theorem getKeyPair_returns (h : KeyReady K s) (depth : Nat) :
    Returns (MayCache K s) (M.getKeyPair draws (depth + 1)) K := by
  intro t ht
  have hready := h.mayCache ht
  have hread : (underKeyPair (fun cache _ => (cache, cache))).exec t = (.ok t.keyPair, t) := by
    rw [exec_underKeyPair hready.free]
  unfold Machine.getKeyPair
  rw [exec_bind_ok hread]
  rcases hready.key with hcache | ⟨hcache, hfile, hne⟩
  · rw [hcache]
    exact ⟨t, rfl, ht⟩
  · rw [hcache]
    have hensure := exec_ensureKeyPair draws.keyPair t.file hready.free
    rw [hcache, hfile] at hensure
    simp only [if_neg hne] at hensure
    simp only
    rw [exec_bind_ok (exec_get t), exec_bind_ok hensure]
    exact ⟨{ t with keyPair := some K }, by rw [← hfile]; rfl, ht.trans (.inr rfl)⟩

theorem getUuid_returns (h : KeyReady K s) (depth : Nat) :
    Returns (MayCache K s) (M.getUuid (M.getKeyPair draws (depth + 1))) (M.uuidOf K) := by
  unfold Machine.getUuid Machine.uuidOf
  cases M.uid with
  | some uid => exact .pure
  | none => exact .bind (getKeyPair_returns h depth) .pure

theorem decryptWith_returns {β : Type} (h : KeyReady K s) (depth : Nat)
    (openBox : Bytes → β → Option β) (body : β) :
    Returns (MayCache K s) (M.decryptWith (M.getKeyPair draws (depth + 1)) openBox body)
      (M.opened K openBox body) := by
  unfold Machine.decryptWith Machine.opened
  refine Returns.bind (getUuid_returns h depth) ?_
  cases openBox (keybuf (M.uuidOf K)) body with
  | some plain => exact .pure
  | none =>
      simp only
      split
      · exact .pure
      · exact .bind (getExistingKeyPair_returns h) .pure

/-- What is encrypted and decrypted is done under the key pair; what needs no key needs none. -/
theorem ops_agree (draws : Draws) {keyed : Prop} (h : keyed → KeyReady K s) (depth : Nat) :
    OpsAgree M (MayCache K s) keyed (M.ops (M.getKeyPair draws (depth + 1))) (M.pureOps K) where
  encrypt hkeyed _ _ := .bind (getUuid_returns (h hkeyed) depth) .pure
  decrypt body huse := by
    refine .ite (fun hbase64 => ?_) (fun _ => .pure)
    refine decryptWith_returns (h (huse.resolve_right ?_)) depth M.openBox body
    simpa using hbase64
  encryptVec hkeyed _ _ := .bind (getUuid_returns (h hkeyed) depth) .pure
  decryptVec body huse := by
    refine .ite (fun hbase64 => ?_) (fun _ => .pure)
    refine decryptWith_returns (h (huse.resolve_right ?_)) depth M.openBoxVec body
    simpa using hbase64
  isPayload := ⟨rfl, rfl⟩
  isPayloadVec := ⟨rfl, rfl⟩

end

/-! ## Storing and loading -/

namespace Machine

/-- What storing a configuration writes where this is the key pair. -/
def fileOf (K : KeyPair) (draws : Draws) (config : Config) : Config :=
  storedFile M.hash (M.pureOps K) draws.storedSalt config draws.nonce

/-- The key pair that is published when the configuration is loaded. -/
def startKey (draws : Draws) (s : Process) : KeyPair :=
  match s.keyPair with
  | some keyPair => keyPair
  | none => if s.file.keyPair.1 = [] then draws.keyPair else s.file.keyPair

/-- Whether what is loaded is stored, and the configuration, where this is the key pair. -/
def loadedUnder (K : KeyPair) (draws : Draws) (file : Config) : Bool × Config :=
  loadedConfig M.hash (M.pureOps K) draws.salt { file with keyPair := K } draws.newId

end Machine

theorem fileOf_keyPair (K : KeyPair) (draws : Draws) (config : Config) :
    (M.fileOf K draws config).keyPair = config.keyPair :=
  (sameButPassword_migrated M.hash (M.pureOps K) draws.storedSalt config).keyPair

/-- No lock is held, and the initialiser does not run. -/
structure Idle (s : Process) : Prop where
  hold : s.hold = .free
  initializing : s.initializing = false
  keyPairHeld : s.keyPairHeld = false

section

variable {M} {K : KeyPair} {s t u : Process} {c c' : Config}

theorem MayCache.eq_of_cached (h : MayCache K s t) (hs : s.keyPair = some K) : t = s := by
  rcases h with rfl | rfl
  · rfl
  · exact setKeyPair_self hs

theorem Idle.mayCache (h : Idle s) (ht : MayCache K s t) : Idle t := by
  rcases ht with rfl | rfl
  · exact h
  · exact ⟨h.hold, h.initializing, h.keyPairHeld⟩

/-- What is stored where there is a key pair, or where none is needed. -/
theorem exec_store (draws : Draws) (huse : KeyReady K s ∨ M.storeUses c = false) (depth : Nat) :
    ∃ t, (M.store draws (M.ops (M.getKeyPair draws (depth + 1))) c).exec s =
      (.ok ⟨⟩, { t with file := M.fileOf K draws c }) ∧ MayCache K s t := by
  obtain ⟨t, ht, hcache⟩ := (ops_agree (M := M) draws (fun h => h) depth).stored
    draws.storedSalt draws.nonce c huse s .refl
  refine ⟨t, ?_, hcache⟩
  rw [Machine.store, exec_bind_ok ht]
  rfl

theorem exec_storeCall (draws : Draws) (huse : KeyReady K s ∨ M.storeUses c = false) :
    ∃ t, (M.store draws (M.callOps draws) c).exec s =
      (.ok ⟨⟩, { t with file := M.fileOf K draws c }) ∧ MayCache K s t :=
  exec_store draws huse 1

theorem startKey_ne (draws : Draws) (h : ∀ keyPair, s.keyPair = some keyPair → keyPair.1 ≠ []) :
    (Machine.startKey draws s).1 ≠ [] := by
  unfold Machine.startKey
  cases hcache : s.keyPair with
  | some keyPair => exact h keyPair hcache
  | none =>
      simp only
      split
      · exact draws.keyPair_ne
      · assumption

/-- `ensure_key_pair` on the file. -/
theorem exec_ensureKeyPair_file (draws : Draws) (h : s.keyPairHeld = false) :
    ∃ changed : Bool, (ensureKeyPair draws.keyPair s.file).exec s =
        (.ok (changed, { s.file with keyPair := Machine.startKey draws s }),
          { s with keyPair := some (Machine.startKey draws s) }) ∧
      (changed = false → s.file.keyPair = Machine.startKey draws s) := by
  rw [exec_ensureKeyPair _ _ h]
  unfold Machine.startKey
  cases hcache : s.keyPair with
  | some keyPair =>
      simp only
      rw [setKeyPair_self hcache]
      by_cases hsame : s.file.keyPair = keyPair
      · refine ⟨false, ?_, fun _ => hsame⟩
        rw [if_neg (by simp [hsame])]
        subst hsame
        rfl
      · refine ⟨true, ?_, fun h => by cases h⟩
        rw [if_pos hsame]
  | none =>
      by_cases hempty : s.file.keyPair.1 = []
      · refine ⟨true, ?_, fun h => by cases h⟩
        simp [hempty]
      · refine ⟨false, ?_, fun _ => by simp [hempty]⟩
        simp [hempty]

/-- Loading never waits: the key pair is published before anything is decrypted. -/
theorem exec_load (draws : Draws) (h : s.keyPairHeld = false) :
    ∃ stored : Bool, (M.load draws).exec s =
        (.ok (M.loadedUnder (Machine.startKey draws s) draws s.file).2,
          { s with
            keyPair := some (Machine.startKey draws s)
            file := if stored then M.fileOf (Machine.startKey draws s) draws
              (M.loadedUnder (Machine.startKey draws s) draws s.file).2 else s.file }) ∧
      (stored = false → s.file.keyPair = Machine.startKey draws s ∧
        (M.loadedUnder (Machine.startKey draws s) draws s.file).1 = false) := by
  obtain ⟨changed, hensure, hkept⟩ := exec_ensureKeyPair_file draws h
  generalize hK : Machine.startKey draws s = K at *
  have hready : KeyReady K { s with keyPair := some K } := ⟨h, .inl rfl⟩
  obtain ⟨t, hload, ht⟩ := (ops_agree (M := M) draws (fun _ => hready) 1).loaded
    draws.salt draws.newId { s.file with keyPair := K } { s with keyPair := some K } .refl
  rw [ht.eq_of_cached rfl] at hload
  have hload : (M.hash.loaded (M.callOps draws) draws.salt draws.newId
      { s.file with keyPair := K }).exec { s with keyPair := some K } =
      (.ok (M.loadedUnder K draws s.file), { s with keyPair := some K }) := hload
  refine ⟨changed || (M.loadedUnder K draws s.file).1, ?_, fun hstored => ?_⟩
  · unfold Machine.load
    rw [exec_bind_ok (exec_get s), exec_bind_ok hensure]
    rw [exec_bind_ok hload]
    simp only
    split
    · obtain ⟨u, hstore, hu⟩ := exec_storeCall (M := M) draws
        (c := (M.loadedUnder K draws s.file).2) (.inl hready)
      rw [hu.eq_of_cached rfl] at hstore
      exact exec_bind_ok hstore
    · rfl
  · rw [Bool.or_eq_false_iff] at hstored
    exact ⟨hkept hstored.1, hstored.2⟩

theorem exec_force_some (draws : Draws) (h : s.config = some c) :
    (M.force draws).exec s = (.ok c, s) := by
  unfold Machine.force
  rw [exec_bind_ok (exec_get s), h]
  rfl

/-- The first use loads the file. -/
theorem exec_force_none (draws : Draws) (hs : Idle s) (h : s.config = none) :
    ∃ stored : Bool, (M.force draws).exec s =
        (.ok (M.loadedUnder (Machine.startKey draws s) draws s.file).2,
          { s with
            config := some (M.loadedUnder (Machine.startKey draws s) draws s.file).2
            keyPair := some (Machine.startKey draws s)
            file := if stored then M.fileOf (Machine.startKey draws s) draws
              (M.loadedUnder (Machine.startKey draws s) draws s.file).2 else s.file }) ∧
      (stored = false → s.file.keyPair = Machine.startKey draws s ∧
        (M.loadedUnder (Machine.startKey draws s) draws s.file).1 = false) := by
  obtain ⟨stored, hload, hkept⟩ := exec_load (M := M) (s := { s with initializing := true }) draws
    hs.keyPairHeld
  refine ⟨stored, ?_, hkept⟩
  unfold Machine.force
  rw [exec_bind_ok (exec_get s), h]
  simp only
  rw [exec_bind_ok (exec_get s), if_neg (by simp [hs.initializing])]
  rw [exec_bind_ok (exec_modify _ s), exec_bind_ok hload]
  obtain ⟨file, config, initializing, hold, keyPair, keyPairHeld, trustedDevices⟩ := s
  cases hs.initializing
  rfl

theorem exec_acquire {hold : Hold} (h : s.hold = .free) :
    (acquire hold).exec s = (.ok ⟨⟩, { s with hold }) := by
  unfold acquire
  rw [exec_bind_ok (exec_get s), if_neg (by simp [h])]
  rfl

theorem exec_reading {α : Type} {a : α} {body : Config → Op α}
    (hforce : (M.force draws).exec s = (.ok c, t)) (hfree : t.hold = .free)
    (hbody : (body c).exec { t with hold := .read } = (.ok a, u)) :
    (M.reading draws body).exec s = (.ok a, { u with hold := .free }) := by
  unfold Machine.reading
  rw [exec_bind_ok hforce, exec_bind_ok (exec_acquire hfree), exec_bind_ok hbody]
  rfl

theorem exec_writing {α : Type} {a : α} {body : Config → Op (Config × α)}
    (hforce : (M.force draws).exec s = (.ok c, t)) (hfree : t.hold = .free)
    (hbody : (body c).exec { t with hold := .write } = (.ok (c', a), u)) :
    (M.writing draws body).exec s = (.ok a, { u with config := some c', hold := .free }) := by
  unfold Machine.writing
  rw [exec_bind_ok hforce, exec_bind_ok (exec_acquire hfree), exec_bind_ok hbody]
  rfl

/-- A process whose `CONFIG` is forced does what it does when it is not. -/
theorem exec_reading_of_force {α : Type} {body : Config → Op α}
    (hforce : (M.force draws).exec s = (.ok c, t)) (hc : t.config = some c) :
    (M.reading draws body).exec s = (M.reading draws body).exec t := by
  unfold Machine.reading
  rw [exec_bind_ok hforce, exec_bind_ok (exec_force_some draws hc)]

theorem exec_writing_of_force {α : Type} {body : Config → Op (Config × α)}
    (hforce : (M.force draws).exec s = (.ok c, t)) (hc : t.config = some c) :
    (M.writing draws body).exec s = (M.writing draws body).exec t := by
  unfold Machine.writing
  rw [exec_bind_ok hforce, exec_bind_ok (exec_force_some draws hc)]

end

/-! ## Operations of an initialised process -/

/-- `CONFIG` is the configuration: it was already, or it has been stored. -/
def Wrote (M : Machine Digest) (K : KeyPair) (draws : Draws) (s : Process) (c : Config)
    (t : Process) : Prop :=
  (t = s ∧ s.config = some c) ∨
    ∃ u devices, MayCache K s u ∧
      t = { u with file := M.fileOf K draws c, config := some c, trustedDevices := devices }

section

variable {M} {K : KeyPair} {s t u : Process} {c c' : Config}

theorem Idle.wrote (h : Idle s) (ht : Wrote M K draws s c t) : Idle t := by
  rcases ht with ⟨rfl, -⟩ | ⟨u, devices, hu, rfl⟩
  · exact h
  · have hidle := h.mayCache hu
    exact ⟨hidle.hold, hidle.initializing, hidle.keyPairHeld⟩

theorem Wrote.config (h : Wrote M K draws s c t) : t.config = some c := by
  rcases h with ⟨rfl, hc⟩ | ⟨u, devices, -, rfl⟩
  · exact hc
  · rfl

theorem KeyReady.held (h : KeyReady K s) (hold : Hold) : KeyReady K { s with hold } :=
  ⟨h.free, h.key⟩

theorem exec_reading_pure {α : Type} (hs : Idle s) (hc : s.config = some c) (f : Config → α) :
    (M.reading draws (fun config => pure (f config))).exec s = (.ok (f c), s) := by
  rw [exec_reading (exec_force_some draws hc) hs.hold rfl]
  obtain ⟨file, config, initializing, hold, keyPair, keyPairHeld, trustedDevices⟩ := s
  cases hs.hold
  rfl

/-- `CONFIG` changes, and nothing is stored. -/
theorem exec_writing_memory {α : Type} {a : α} {body : Config → Op (Config × α)} (hs : Idle s)
    (hc : s.config = some c) (hbody : body c = pure (c', a)) :
    (M.writing draws body).exec s = (.ok a, { s with config := some c' }) := by
  have hpure : (body c).exec { s with hold := .write } =
      (.ok (c', a), { s with hold := .write }) := by
    rw [hbody]
    rfl
  rw [exec_writing (exec_force_some draws hc) hs.hold hpure]
  obtain ⟨file, config, initializing, hold, keyPair, keyPairHeld, trustedDevices⟩ := s
  cases hs.hold
  rfl

/-- Nothing is stored. -/
theorem exec_writing_pure {α : Type} {a : α} {body : Config → Op (Config × α)} (hs : Idle s)
    (hc : s.config = some c) (hbody : body c = pure (c, a)) :
    (M.writing draws body).exec s = (.ok a, s) := by
  rw [exec_writing_memory hs hc hbody]
  obtain ⟨file, config, initializing, hold, keyPair, keyPairHeld, trustedDevices⟩ := s
  cases hc
  rfl

/-- A configuration is stored. -/
theorem exec_writing_storing {α : Type} {a : α} {body : Config → Op (Config × α)} (hs : Idle s)
    (hc : s.config = some c) (hbody : body c = M.storing draws c' a)
    (huse : KeyReady K s ∨ M.storeUses c' = false) :
    ∃ t, (M.writing draws body).exec s = (.ok a, t) ∧ Wrote M K draws s c' t := by
  obtain ⟨u, hstore, hu⟩ := exec_storeCall (M := M) draws
    (s := { s with hold := .write }) (huse.imp_left (fun h => h.held .write))
  have hstoring : (body c).exec { s with hold := .write } =
      (.ok (c', a), { u with file := M.fileOf K draws c' }) := by
    rw [hbody, Machine.storing]
    exact exec_bind_ok hstore
  refine ⟨_, exec_writing (exec_force_some draws hc) hs.hold hstoring, .inr ?_⟩
  obtain ⟨file, config, initializing, hold, keyPair, keyPairHeld, trustedDevices⟩ := s
  cases hs.hold
  rcases hu with rfl | rfl
  · exact ⟨_, trustedDevices, .refl, rfl⟩
  · exact ⟨_, trustedDevices, .inr rfl, rfl⟩

/-- The empty list is encrypted under the key pair. -/
theorem exec_clearTrustedDevices (draws : Draws) (h : KeyReady K s) :
    ∃ t devices, (M.clearTrustedDevices draws).exec s =
      (.ok ⟨⟩, { t with trustedDevices := devices }) ∧ MayCache K s t := by
  obtain ⟨t, hencrypt, ht⟩ := (ops_agree (M := M) draws (fun _ => h) 1).encryptStrOrOriginal
    draws.nonce "[]" passwordEncVersion (1024 * 1024) (.inl trivial) _ .refl
  generalize (M.pureOps K).encryptStrOrOriginal draws.nonce "[]" passwordEncVersion (1024 * 1024) =
    devices at hencrypt
  refine ⟨t, devices, ?_, ht⟩
  unfold Machine.clearTrustedDevices
  exact exec_bind_ok hencrypt

/-- A configuration is stored, and the trusted devices are cleared. -/
theorem exec_writing_clearing {α : Type} {a : α} {body : Config → Op (Config × α)} (hs : Idle s)
    (hc : s.config = some c)
    (hbody : body c = (do
      M.store draws (M.callOps draws) c'
      M.clearTrustedDevices draws
      return (c', a)))
    (hkey : KeyReady K s) (hkept : s.keyPair = some K ∨ c'.keyPair = K) :
    ∃ t, (M.writing draws body).exec s = (.ok a, t) ∧ Wrote M K draws s c' t := by
  obtain ⟨u, hstore, hu⟩ := exec_storeCall (M := M) draws (c := c')
    (s := { s with hold := .write }) (.inl (hkey.held .write))
  -- the key pair is there after the store as well
  have hstored : KeyReady K { u with file := M.fileOf K draws c' } := by
    have hready := (hkey.held .write).mayCache hu
    refine ⟨hready.free, ?_⟩
    rcases hready.key with hcache | ⟨hnone, -, hne⟩
    · exact .inl hcache
    · rcases hkept with hcached | hsame
      · rcases hu with rfl | rfl
        · exact .inl hcached
        · exact .inl rfl
      · exact .inr ⟨hnone, (fileOf_keyPair M K draws c').trans hsame, hne⟩
  obtain ⟨v, devices, hclear, hv⟩ := exec_clearTrustedDevices (M := M) draws hstored
  have hbody' : (body c).exec { s with hold := .write } =
      (.ok (c', a), { v with trustedDevices := devices }) := by
    rw [hbody]
    rw [exec_bind_ok hstore, exec_bind_ok hclear]
    rfl
  refine ⟨_, exec_writing (exec_force_some draws hc) hs.hold hbody', .inr ?_⟩
  obtain ⟨file, config, initializing, hold, keyPair, keyPairHeld, trustedDevices⟩ := s
  cases hs.hold
  rcases hu with rfl | rfl <;> rcases hv with rfl | rfl
  · exact ⟨_, devices, .refl, rfl⟩
  · exact ⟨_, devices, .inr rfl, rfl⟩
  · exact ⟨_, devices, .inr rfl, rfl⟩
  · exact ⟨_, devices, .inr rfl, rfl⟩

end

end HbbCommon.Config
