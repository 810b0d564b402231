import HbbCommon.Config.Logic.Calls

/-!
# What survives a restart

The id is stored encrypted under the key pair, and read back under the key pair of the file. The
permanent password is stored as a hash with its salt; older forms of it become that hash when they
are met.
-/

namespace HbbCommon.Config

open HbbCommon.Base Effect

variable {Digest : Type} {M : Machine Digest} {draws : Draws} {s t : Process} {c c' file : Config}
  {K : KeyPair} {id text : String}

/-- Ideal encryption: what was sealed under a key is opened with it, as Base64 text of a
payload. -/
structure Machine.Ideal (M : Machine Digest) : Prop where
  openBox_sealBox : ∀ key nonce text, text ≠ "" →
    M.openBox key (M.sealBox key nonce text) = some text
  sealBox_ne : ∀ key nonce text, M.sealBox key nonce text ≠ ""
  isBase64_sealBox : ∀ key nonce text, M.isBase64 (M.sealBox key nonce text) = true
  isPayload_of_openBox : ∀ key body text, M.openBox key body = some text → M.isPayload body = true

/-- A text that does not look encrypted. -/
def Machine.LooksPlain (M : Machine Digest) (text : String) : Prop :=
  ((behindVersion text).map M.isPayload).getD false = false

instance (M : Machine Digest) (text : String) : Decidable (M.LooksPlain text) :=
  inferInstanceAs (Decidable (_ = _))

/-- A text that is encrypted and not too long for it. -/
structure Machine.Storable (M : Machine Digest) (text : String) : Prop where
  ne_empty : text ≠ ""
  plain : M.LooksPlain text
  length : text.length ≤ encryptMaxLen

/-- The text of a sealed text, in the configuration. -/
def Machine.sealedText (M : Machine Digest) (keyPair : KeyPair) (nonce : Nat) (text : String) :
    String :=
  "00" ++ M.sealBox (keybuf (M.uuidOf keyPair)) nonce text

section

theorem encrypt_storable (h : M.Storable text) (K : KeyPair) (nonce : Nat) :
    ((M.pureOps K).encryptStrOrOriginal nonce text passwordEncVersion encryptMaxLen : String) =
      M.sealedText K nonce text := by
  have hplain : ¬ (M.pureOps K).isEncrypted text = true := by
    rw [Bool.not_eq_true]
    exact h.plain
  unfold CryptOps.encryptStrOrOriginal
  rw [if_neg hplain, if_neg (Nat.not_lt.mpr h.length), if_pos ⟨rfl, h.ne_empty⟩]
  rfl

theorem encrypt_empty (K : KeyPair) (nonce : Nat) :
    ((M.pureOps K).encryptStrOrOriginal nonce "" passwordEncVersion encryptMaxLen : String) =
      "" := by
  unfold CryptOps.encryptStrOrOriginal CryptOps.isEncrypted
  rw [behindVersion_empty]
  rfl

theorem decrypt_empty (K : KeyPair) :
    ((M.pureOps K).decryptStrOrOriginal "" passwordEncVersion : String × Bool × Bool) =
      ("", false, false) := rfl

/-- What was sealed under the key pair is decrypted under it. -/
theorem decrypt_sealedText (hideal : M.Ideal) (hne : text ≠ "") (K : KeyPair) (nonce : Nat) :
    ((M.pureOps K).decryptStrOrOriginal (M.sealedText K nonce text) passwordEncVersion :
      String × Bool × Bool) = (text, true, false) := by
  have hdecrypt : ((M.pureOps K).decrypt (M.sealBox (keybuf (M.uuidOf K)) nonce text) :
      Option String) = some text := by
    show (if M.isBase64 _ then M.opened K M.openBox _ else none) = _
    rw [if_pos (hideal.isBase64_sealBox _ _ _), Machine.opened, hideal.openBox_sealBox _ _ _ hne]
  unfold CryptOps.decryptStrOrOriginal Machine.sealedText
  rw [behindVersion_append (hideal.sealBox_ne _ _ _)]
  show (match ((M.pureOps K).decrypt (M.sealBox (keybuf (M.uuidOf K)) nonce text) :
      Option String) with
    | some plain => _
    | none => _ : String × Bool × Bool) = _
  rw [hdecrypt]
  rfl

/-- What does not look encrypted is not decrypted. -/
theorem decrypt_plain (hideal : M.Ideal) (hplain : M.LooksPlain text) (hne : text ≠ "")
    (K : KeyPair) :
    ((M.pureOps K).decryptStrOrOriginal text passwordEncVersion : String × Bool × Bool) =
      (text, false, true) := by
  have hnot : (M.pureOps K).isEncrypted text = false := hplain
  have hstore : decide (text ≠ "" ∧ ¬ (M.pureOps K).isEncrypted text = true) = true := by
    simp [hne, hnot]
  unfold CryptOps.decryptStrOrOriginal
  rw [hstore]
  cases hbody : behindVersion text with
  | none => rfl
  | some body =>
      have hdecrypt : ((M.pureOps K).decrypt body : Option String) = none := by
        have hpayload : M.isPayload body = false := by
          unfold Machine.LooksPlain at hplain
          rw [hbody] at hplain
          exact hplain
        have hclosed : ∀ key, M.openBox key body = none := fun key =>
          Option.eq_none_iff_forall_ne_some.mpr (fun text h => by
            rw [hideal.isPayload_of_openBox key body text h] at hpayload
            cases hpayload)
        show (if M.isBase64 body then M.opened K M.openBox body else none) = _
        unfold Machine.opened
        rw [hclosed]
        simp only [hclosed, ite_self]
      show (match ((M.pureOps K).decrypt body : Option String) with
        | some plain => _
        | none => _ : String × Bool × Bool) = _
      rw [hdecrypt]
      rfl

end

/-! ## The id -/

theorem loadedId_eq (p : CryptOps Id) (config : Config) :
    (p.loadedId config : Option String × Bool) =
      let stored : String × Bool × Bool := p.decryptStrOrOriginal config.encId passwordEncVersion
      let clear : String × Bool × Bool := p.decryptStrOrOriginal config.id passwordEncVersion
      if stored.2.1 then (some stored.1, stored.2.2)
      else if config.id ≠ "" ∧ config.encId = "" then
        if clear.2.1 then (none, false) else (some config.id, true)
      else (none, false) := rfl

/-- The file gives this id: there is none, or it is in the clear, or sealed under the key pair of
the file. -/
inductive FileId (M : Machine Digest) (file : Config) : String → Prop
  | missing (hid : file.id = "") (hencId : file.encId = "") : FileId M file ""
  | clear (hstorable : M.Storable file.id) (hencId : file.encId = "") : FileId M file file.id
  | sealed {id : String} (nonce : Nat) (hstorable : M.Storable id) (hkey : file.keyPair.1 ≠ [])
      (hencId : file.encId = M.sealedText file.keyPair nonce id) : FileId M file id

theorem fileId_fileOf (hid : c.id = "" ∨ M.Storable c.id) (hne : c.keyPair.1 ≠ [])
    (huuid : M.uuidOf c.keyPair = M.uuidOf K) : FileId M (M.fileOf K draws c) c.id := by
  have hencId : (M.fileOf K draws c).encId =
      (M.pureOps K).encryptStrOrOriginal draws.nonce c.id passwordEncVersion encryptMaxLen := by
    unfold Machine.fileOf
    rw [storedFile_eq]
    dsimp only
    rw [(sameButPassword_migrated M.hash (M.pureOps K) draws.storedSalt c).id]
  have hclear : (M.fileOf K draws c).id = "" := by
    unfold Machine.fileOf
    rw [storedFile_eq]
  rcases hid with hempty | hstorable
  · rw [hempty]
    rw [hempty, encrypt_empty] at hencId
    exact .missing hclear hencId
  · rw [encrypt_storable hstorable] at hencId
    refine .sealed draws.nonce hstorable ?_ ?_
    · rw [fileOf_keyPair]
      exact hne
    · rw [hencId, fileOf_keyPair]
      unfold Machine.sealedText
      rw [huuid]

/-- A new id is one that can be stored. -/
def Draws.GoodId (M : Machine Digest) (draws : Draws) : Prop :=
  ∀ id, draws.newId = some id → M.Storable id

/-- What is loaded has the id of the file, or a new one where the file has none. -/
theorem loadedUnder_id (draws : Draws) (hideal : M.Ideal) (hid : FileId M file id)
    (hK : file.keyPair.1 ≠ [] → K = file.keyPair) :
    (id ≠ "" → (M.loadedUnder K draws file).2.id = id) ∧
      (draws.GoodId M → (M.loadedUnder K draws file).2.id = "" ∨
        M.Storable (M.loadedUnder K draws file).2.id) ∧
      ((M.loadedUnder K draws file).1 = false → (M.loadedUnder K draws file).2.id = id) := by
  have hmigrated := sameButPassword_migrated M.hash (M.pureOps K) draws.salt
    { file with keyPair := K }
  unfold Machine.loadedUnder
  rw [loadedConfig_eq]
  dsimp only
  generalize hm : (migrated M.hash (M.pureOps K) draws.salt { file with keyPair := K }) = m at *
  have hmid : m.2.id = file.id := hmigrated.id
  have hmencId : m.2.encId = file.encId := hmigrated.encId
  cases hid with
  | missing hid hencId =>
      have hvalid : ((M.pureOps K).loadedId m.2 : Option String × Bool) = (none, false) := by
        rw [loadedId_eq, hmencId, hencId, hmid, hid, decrypt_empty]
        rfl
      rw [hvalid]
      dsimp only
      cases hnew : draws.newId with
      | none =>
          exact ⟨fun h => absurd rfl h, fun _ => .inl (hmid.trans hid), fun _ => hmid.trans hid⟩
      | some new =>
          exact ⟨fun h => absurd rfl h, fun hdraws => .inr (hdraws new hnew), fun h => by cases h⟩
  | clear hstorable hencId =>
      have hvalid : ((M.pureOps K).loadedId m.2 : Option String × Bool) =
          (some file.id, true) := by
        rw [loadedId_eq, hmencId, hencId, hmid, decrypt_empty,
          decrypt_plain hideal hstorable.plain hstorable.ne_empty]
        simp [hstorable.ne_empty]
      rw [hvalid]
      exact ⟨fun _ => rfl, fun _ => .inr hstorable, fun _ => rfl⟩
  | sealed nonce hstorable hkey hencId =>
      have hvalid : ((M.pureOps K).loadedId m.2 : Option String × Bool) = (some id, false) := by
        rw [loadedId_eq, hmencId, hencId, ← hK hkey, decrypt_sealedText hideal hstorable.ne_empty]
        rfl
      rw [hvalid]
      exact ⟨fun _ => rfl, fun _ => .inr hstorable, fun _ => rfl⟩

theorem FileId.storable (h : FileId M file id) : id = "" ∨ M.Storable id := by
  cases h with
  | missing => exact .inl rfl
  | clear hstorable => exact .inr hstorable
  | sealed _ hstorable => exact .inr hstorable

/-- A generated key pair replaces none, and the id stays in the file. -/
theorem fileId_generated (h : FileId M file id) (hempty : file.keyPair.1 = []) :
    FileId M (M.fileOf draws.keyPair draws { file with keyPair := draws.keyPair }) id := by
  have hwritten (hid : file.id = "" ∨ M.Storable file.id) :
      FileId M (M.fileOf draws.keyPair draws { file with keyPair := draws.keyPair }) file.id :=
    fileId_fileOf (c := { file with keyPair := draws.keyPair }) hid draws.keyPair_ne rfl
  cases h with
  | missing hid hencId => exact hid ▸ hwritten (.inl hid)
  | clear hstorable hencId => exact hwritten (.inr hstorable)
  | sealed nonce hstorable hkey => exact absurd hempty hkey

/-! ## Runs -/

theorem Settled.startKey_file (hs : Settled s) (hne : s.file.keyPair.1 ≠ []) :
    Machine.startKey draws s = s.file.keyPair := by
  unfold Machine.startKey
  cases hcache : s.keyPair with
  | some K => exact (hs.cached K hcache).1.symm
  | none => exact if_neg hne

theorem Settled.startKey_config (hs : Settled s) (hc : s.config = some c) :
    Machine.startKey draws s = c.keyPair := by
  obtain ⟨hfile, hne⟩ := hs.config c hc
  rw [hs.startKey_file (hfile ▸ hne), hfile]

/-- The call sets the id. -/
def ConfigCall.setsId : ConfigCall → Bool
  | .setId _ | .configSet _ => true
  | _ => false

/-- An id that is set can be stored, and a configuration that is set keeps what encrypts. -/
def ConfigCall.KeepsUuid (M : Machine Digest) (keyPair : KeyPair) : ConfigCall → Prop
  | .setId id => id = "" ∨ M.Storable id
  | .configSet cfg => (cfg.id = "" ∨ M.Storable cfg.id) ∧ cfg.keyPair.1 ≠ [] ∧
      M.uuidOf cfg.keyPair = M.uuidOf keyPair
  | _ => True

def ThreadAction.KeepsUuid (M : Machine Digest) (s : OneThread) : ThreadAction → Prop
  | .call made draws => draws.GoodId M ∧ made.KeepsUuid M (Machine.startKey draws s.process)
  | .restart => True

def ThreadAction.setsId : ThreadAction → Bool
  | .call made _ => made.setsId
  | .restart => false

theorem ConfigCall.KeepsUuid.keepsKey {call : ConfigCall} (h : call.KeepsUuid M K) :
    call.KeepsKey := by
  cases call with
  | configSet cfg => exact h.2.1
  | _ => trivial

theorem id_withSalt (salt : String) (c : Config) : (PasswordHash.withSalt salt c).id = c.id :=
  (sameButPassword_withSalt salt c).id

theorem id_after {call : ConfigCall} (h : call.setsId = false) :
    (call.after M draws c).id = c.id := by
  cases call with
  | setKeyConfirmed v =>
      show (if c.keyConfirmed = v then c else keyConfirmedSet v c).id = _
      unfold keyConfirmedSet
      split
      · rfl
      · split <;> rfl
  | setHostKeyConfirmed host v =>
      show (if decide (c.keysConfirmed.get? host = some true) = v then c
        else hostKeyConfirmedSet host v c).id = _
      split <;> rfl
  | setPermanentPassword disabled hard password =>
      show (if passwordRefused disabled hard password c then c
        else if (passwordSet M.hash draws.salt password c).password = c.password then
          PasswordHash.withSalt draws.salt c
        else passwordSet M.hash draws.salt password c).id = _
      split
      · rfl
      · split
        · exact id_withSalt draws.salt c
        · unfold passwordSet
          split
          · rfl
          · exact id_withSalt draws.salt c
  | setSalt salt =>
      show (if saltRefused M.hash salt c then c else { c with salt }).id = _
      split <;> rfl
  | getSalt =>
      show (if c.salt = "" then { c with salt := draws.salt } else c).id = _
      split <;> rfl
  | setId | configSet => cases h
  | _ => rfl

theorem ConfigCall.KeepsUuid.storable {call : ConfigCall} (h : call.KeepsUuid M K)
    (hid : c.id = "" ∨ M.Storable c.id) :
    (call.after M draws c).id = "" ∨ M.Storable (call.after M draws c).id := by
  cases hsets : call.setsId with
  | false => rwa [id_after hsets]
  | true =>
      cases call with
      | setId id => exact h
      | configSet cfg => exact h.1
      | _ => cases hsets

theorem ConfigCall.KeepsUuid.uuidOf {call : ConfigCall} (h : call.KeepsUuid M c.keyPair) :
    M.uuidOf (call.after M draws c).keyPair = M.uuidOf c.keyPair := by
  cases call with
  | configSet cfg => exact h.2.2
  | _ => exact congrArg M.uuidOf (after_keyPair _ (fun _ h => by cases h))

/-- The id is that of the file, and of `CONFIG` when it is there. -/
structure KnowsId (M : Machine Digest) (id : String) (s : OneThread) : Prop where
  running : Running s
  file : FileId M s.process.file id
  config : ∀ c, s.process.config = some c → c.id = id

/-- The id of the configuration that a call finds. -/
theorem KnowsId.found (hideal : M.Ideal) {s : OneThread} {s' : Process} (hs : KnowsId M id s)
    (hfound : s.process.config = some c ∧ s' = s.process ∨
      s.process.config = none ∧ Booted M draws s.process c s') :
    (id ≠ "" → c.id = id) ∧
      (draws.GoodId M → (c.id = "" ∨ M.Storable c.id) ∧ FileId M s'.file c.id) ∧
      Machine.startKey draws s.process = c.keyPair := by
  rcases hfound with ⟨hc, rfl⟩ | ⟨-, hbooted⟩
  · have hid := hs.config c hc
    rw [hid]
    exact ⟨fun _ => rfl, fun _ => ⟨hs.file.storable, hs.file⟩,
      hs.running.settled.startKey_config hc⟩
  · have hkey : c.keyPair = Machine.startKey draws s.process := by
      rw [hbooted.loaded, loadedUnder_keyPair]
    obtain ⟨hsame, hstorable, hkept⟩ := loadedUnder_id draws hideal hs.file
      (K := Machine.startKey draws s.process) (hs.running.settled.startKey_file)
    rw [← hbooted.loaded] at hsame hstorable hkept
    refine ⟨hsame, fun hdraws => ⟨hstorable hdraws, ?_⟩, hkey.symm⟩
    rcases hbooted.file with hfile | ⟨hfile, -, hfalse⟩
    · rw [hfile]
      refine fileId_fileOf (hstorable hdraws) ?_ (by rw [hkey])
      rw [hkey]
      exact startKey_ne draws (fun K hK => (hs.running.settled.cached K hK).2)
    · rw [hfile, hkept hfalse]
      exact hs.file

/-- A step leaves an id, the same one unless it sets one or there was none. -/
theorem KnowsId.step (hideal : M.Ideal) {s : OneThread} (hs : KnowsId M id s)
    {action : ThreadAction} (hkeeps : action.KeepsUuid M s) :
    ∃ id', KnowsId M id' (s.step M action) ∧ (action.setsId = false → id ≠ "" → id' = id) := by
  cases action with
  | restart =>
      exact ⟨id, ⟨⟨settled_boot _ _, rfl⟩, hs.file, fun c hc => by cases hc⟩, fun _ _ => rfl⟩
  | call call draws =>
      obtain ⟨hdraws, hcall⟩ : draws.GoodId M ∧
        call.KeepsUuid M (Machine.startKey draws s.process) := hkeeps
      obtain ⟨t, ht, hsettled, hcases⟩ := exec_any M draws hs.running.settled call
        hcall.keepsKey
      have hstep : s.step M (.call call draws) = { process := t, blocked := none } := by
        unfold OneThread.step
        rw [hs.running.running]
        simp only [ht]
      rw [hstep]
      rcases hcases with ⟨c, s', hfound, -, -, hleft⟩ | ⟨-, -, hnone, hfile⟩
      · obtain ⟨hsame, hfound, hkey⟩ := hs.found hideal hfound
        obtain ⟨hstorable, hfile⟩ := hfound hdraws
        rw [hkey] at hcall
        refine ⟨(call.after M draws c).id, ⟨⟨hsettled, rfl⟩, ?_, ?_⟩, ?_⟩
        · rcases hleft.file with hwritten | ⟨hkept, hmemory⟩
          · show FileId M t.file _
            rw [hwritten]
            exact fileId_fileOf (hcall.storable hstorable) (hsettled.config _ hleft.config).2
              hcall.uuidOf
          · show FileId M t.file _
            have hid : (call.after M draws c).id = c.id := by
              rcases hmemory with hmemory | hmemory
              · rw [hmemory]
              · rw [hmemory, id_withSalt]
            rw [hkept, hid]
            exact hfile
        · intro c' hc'
          have hconfig : t.config = some c' := hc'
          rw [hleft.config] at hconfig
          cases hconfig
          rfl
        · intro hsets hne
          rw [id_after hsets]
          exact hsame hne
      · refine ⟨id, ⟨⟨hsettled, rfl⟩, ?_, ?_⟩, fun _ _ => rfl⟩
        · show FileId M t.file _
          rcases hfile with hfile | ⟨hempty, hfile⟩
          · rw [hfile]
            exact hs.file
          · rw [hfile]
            exact fileId_generated hs.file hempty
        · intro c hc
          exact nomatch (show t.config = some c from hc).symm.trans hnone

end HbbCommon.Config
