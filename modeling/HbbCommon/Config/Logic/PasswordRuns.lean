import HbbCommon.Config.Logic.Restart

/-!
# The permanent password over calls and restarts

What is stored means one password: none, or the one whose hash with the salt it is; in an older
file also the one that is there in the clear, or sealed, or whose hash is sealed. Loading and
storing make a hash of an older form and leave a hash alone, and no call changes the salt of a
hash.
-/

set_option linter.dupNamespace false

namespace HbbCommon.Config

open HbbCommon.Base Effect

variable {Digest : Type} {M : Machine Digest} {h : PasswordHash Digest} {draws : Draws}
  {s t : Process} {c c' file : Config} {K : KeyPair} {storage salt password password' text : String}

/-- Ideal hashing: the Base64 text of a digest is decoded, and passwords with the same salt have
different digests. -/
structure PasswordHash.Ideal (h : PasswordHash Digest) : Prop where
  decode_encode : ∀ digest, h.decode (h.encode digest) = some digest
  sha256_inj : ∀ password password' salt,
    h.sha256 (password ++ salt) = h.sha256 (password' ++ salt) → password = password'

/-- The password that a storage and a salt stand for. -/
def Means (h : PasswordHash Digest) (storage salt password : String) : Prop :=
  (password = "" ∧ storage = "") ∨
    (password ≠ "" ∧ salt ≠ "" ∧ storage = h.storageOf password salt)

/-- The password of a configuration. -/
def Config.HasPassword (h : PasswordHash Digest) (c : Config) (password : String) : Prop :=
  Means h c.password c.salt password

theorem decode_storageOf (hideal : h.Ideal) (password salt : String) :
    h.decodePermanentPasswordH1FromStorage (h.storageOf password salt) =
      some (h.computePermanentPasswordH1 password salt) := by
  have hlist : (h.storageOf password salt).toList =
      '0' :: '1' :: (h.encode (h.computePermanentPasswordH1 password salt)).toList := by
    unfold PasswordHash.storageOf PasswordHash.encodePermanentPasswordStorageFromH1
    rw [String.toList_append]
    rfl
  unfold PasswordHash.decodePermanentPasswordH1FromStorage
  rw [hlist]
  show h.decode (String.ofList _) = _
  rw [String.ofList_toList, hideal.decode_encode]

theorem storageOf_ne (hideal : h.Ideal) (password salt : String) :
    h.storageOf password salt ≠ "" := by
  intro heq
  have hdecode := decode_storageOf hideal password salt
  rw [heq] at hdecode
  cases hdecode

theorem isHashed_storageOf (hideal : h.Ideal) (password salt : String) :
    h.isPermanentPasswordHashedStorage (h.storageOf password salt) = true := by
  unfold PasswordHash.isPermanentPasswordHashedStorage
  rw [decode_storageOf hideal]
  rfl

theorem storageOf_inj (hideal : h.Ideal)
    (heq : h.storageOf password salt = h.storageOf password' salt) : password = password' := by
  have hdecode := decode_storageOf hideal password salt
  rw [heq, decode_storageOf hideal password' salt] at hdecode
  exact (hideal.sha256_inj password' password salt (Option.some.inj hdecode)).symm

theorem Means.empty_iff (hideal : h.Ideal) (hm : Means h storage salt password) :
    storage = "" ↔ password = "" := by
  rcases hm with ⟨rfl, rfl⟩ | ⟨hne, -, rfl⟩
  · simp
  · exact iff_of_false (storageOf_ne hideal password salt) hne

/-- A storage that is kept, under a salt that is kept unless there was none, keeps its
password. -/
theorem Means.unique (hideal : h.Ideal) {salt' : String} (hm : Means h storage salt password)
    (hm' : Means h storage salt' password') (hsalt : salt ≠ "" → salt' = salt) :
    password = password' := by
  rcases hm with ⟨rfl, rfl⟩ | ⟨hne, hsalted, rfl⟩
  · exact ((hm'.empty_iff hideal).mp rfl).symm
  · rcases hm' with ⟨-, hempty⟩ | ⟨-, -, heq⟩
    · exact absurd hempty (storageOf_ne hideal password salt)
    · rw [hsalt hsalted] at heq
      exact storageOf_inj hideal heq

theorem Means.unique' (hideal : h.Ideal) (hm : Means h storage salt password)
    (hm' : Means h storage salt password') : password = password' :=
  hm.unique hideal hm' (fun _ => rfl)

/-- The file means this password, in one of its forms. -/
inductive FilePassword (M : Machine Digest) (file : Config) : String → Prop
  | means {password : String} (hmeans : file.HasPassword M.hash password) :
      FilePassword M file password
  | clear (hne : file.password ≠ "") (hplain : M.LooksPlain file.password)
      (hhashed : M.hash.isPermanentPasswordHashedStorage file.password = false) :
      FilePassword M file file.password
  | sealed {password : String} (nonce : Nat) (hne : password ≠ "")
      (hhashed : M.hash.isPermanentPasswordHashedStorage password = false)
      (hkey : file.keyPair.1 ≠ [])
      (hsealed : file.password = M.sealedText file.keyPair nonce password) :
      FilePassword M file password
  | sealedHash {password : String} (nonce : Nat) (hne : password ≠ "") (hsalt : file.salt ≠ "")
      (hkey : file.keyPair.1 ≠ [])
      (hsealed : file.password =
        M.sealedText file.keyPair nonce (M.hash.storageOf password file.salt)) :
      FilePassword M file password

/-- A hash is not migrated again. -/
theorem migrated_of_means (hideal : h.Ideal) (p : CryptOps Id) (newSalt : String)
    (hm : c.HasPassword h password) : migrated h p newSalt c = (false, c) := by
  rw [migrated_eq, if_pos]
  rcases hm with ⟨-, hempty⟩ | ⟨-, -, hstorage⟩
  · exact .inl hempty
  · rw [hstorage]
    exact .inr (isHashed_storageOf hideal password c.salt)

theorem withSalt_salt_ne (hsalt : salt ≠ "") (c : Config) :
    (PasswordHash.withSalt salt c).salt ≠ "" := by
  unfold PasswordHash.withSalt
  split
  · exact hsalt
  · assumption

theorem withSalt_of_salted (hsalt : c.salt ≠ "") (salt : String) :
    PasswordHash.withSalt salt c = c := if_neg hsalt

theorem means_hashed (hne : password ≠ "") (hsalt : salt ≠ "") (c : Config) :
    (h.hashed password (PasswordHash.withSalt salt c)).HasPassword h password :=
  .inr ⟨hne, withSalt_salt_ne hsalt c, rfl⟩

/-- A sealed text starts with the version of the encryption, and is no hash. -/
theorem sealedText_toList (M : Machine Digest) (K : KeyPair) (nonce : Nat) (text : String) :
    (M.sealedText K nonce text).toList =
      '0' :: '0' :: (M.sealBox (keybuf (M.uuidOf K)) nonce text).toList := by
  unfold Machine.sealedText
  rw [String.toList_append]
  rfl

theorem isHashed_sealedText (M : Machine Digest) (K : KeyPair) (nonce : Nat) (text : String) :
    M.hash.isPermanentPasswordHashedStorage (M.sealedText K nonce text) = false := by
  unfold PasswordHash.isPermanentPasswordHashedStorage
    PasswordHash.decodePermanentPasswordH1FromStorage
  rw [sealedText_toList]
  rfl

theorem startsWithVersion_sealedText (M : Machine Digest) (K : KeyPair) (nonce : Nat)
    (text : String) : PasswordHash.startsWithVersion (M.sealedText K nonce text) = true := by
  unfold PasswordHash.startsWithVersion
  rw [sealedText_toList]
  rfl

theorem sealedText_ne (M : Machine Digest) (K : KeyPair) (nonce : Nat) (text : String) :
    M.sealedText K nonce text ≠ "" := by
  intro h
  have hlist := sealedText_toList M K nonce text
  rw [h] at hlist
  cases hlist

/-- What is migrated from a sealed text. -/
theorem migrated_sealedText (hM : M.Ideal) (hne : text ≠ "") (nonce : Nat) (salt : String)
    (hc : c.password = M.sealedText K nonce text) :
    migrated M.hash (M.pureOps K) salt c =
      if M.hash.isPermanentPasswordHashedStorage text then
        (true, { PasswordHash.withSalt salt c with password := text })
      else (true, M.hash.hashed text (PasswordHash.withSalt salt c)) := by
  rw [migrated_eq, hc, if_neg (by simp [sealedText_ne, isHashed_sealedText]),
    if_pos (startsWithVersion_sealedText M K nonce text)]
  simp only [decrypt_sealedText hM hne]
  rw [if_neg (by simp)]

/-- An older form is migrated to the hash of its password. -/
theorem means_migrated (hM : M.Ideal) (hhash : M.hash.Ideal) (hfile : FilePassword M file password)
    (hK : file.keyPair.1 ≠ [] → K = file.keyPair) (hsalt : salt ≠ "") :
    (migrated M.hash (M.pureOps K) salt { file with keyPair := K }).2.HasPassword M.hash
      password := by
  cases hfile with
  | means hmeans =>
      rw [migrated_of_means hhash (c := { file with keyPair := K }) _ _ hmeans]
      exact hmeans
  | clear hne hplain hhashed =>
      rw [migrated_eq, if_neg (by simp [hne, hhashed])]
      simp only [decrypt_plain hM hplain hne]
      split
      · rw [if_neg (by simp), hhashed, if_neg Bool.false_ne_true]
        exact means_hashed hne hsalt _
      · exact means_hashed hne hsalt _
  | sealed nonce hne hhashed hkey hsealed =>
      rw [migrated_sealedText (c := { file with keyPair := K }) hM hne nonce salt
        (by rw [hK hkey]; exact hsealed), hhashed, if_neg Bool.false_ne_true]
      exact means_hashed hne hsalt _
  | sealedHash nonce hne hsalted hkey hsealed =>
      rw [migrated_sealedText (c := { file with keyPair := K }) hM
        (storageOf_ne hhash password file.salt) nonce salt (by rw [hK hkey]; exact hsealed),
        if_pos (isHashed_storageOf hhash password file.salt),
        withSalt_of_salted (c := { file with keyPair := K }) hsalted]
      exact .inr ⟨hne, hsalted, rfl⟩

/-- What is stored means what the configuration means. -/
theorem filePassword_fileOf (hhash : M.hash.Ideal) (hm : c.HasPassword M.hash password) :
    FilePassword M (M.fileOf K draws c) password := by
  have hsame := migrated_of_means hhash (M.pureOps K) draws.storedSalt hm
  refine .means ?_
  unfold Machine.fileOf
  rw [storedFile_eq, hsame]
  exact hm

theorem filePassword_generated (hM : M.Ideal) (hhash : M.hash.Ideal)
    (hfile : FilePassword M file password) (hempty : file.keyPair.1 = []) :
    FilePassword M (M.fileOf draws.keyPair draws { file with keyPair := draws.keyPair })
      password := by
  refine .means ?_
  unfold Machine.fileOf
  rw [storedFile_eq]
  exact means_migrated hM hhash hfile (fun hne => absurd hempty hne) draws.storedSalt_ne

/-- What is loaded means what the file means. -/
theorem means_loadedUnder (hM : M.Ideal) (hhash : M.hash.Ideal)
    (hfile : FilePassword M file password) (hK : file.keyPair.1 ≠ [] → K = file.keyPair) :
    (M.loadedUnder K draws file).2.HasPassword M.hash password := by
  have hmeans := means_migrated hM hhash hfile hK draws.salt_ne
  unfold Machine.loadedUnder
  rw [loadedConfig_eq]
  dsimp only
  split
  · exact hmeans
  · split
    · exact hmeans
    · exact hmeans

/-! ## Calls -/

/-- The password after a call; `meant` is the one that a storage from elsewhere means. -/
def ConfigCall.nextPassword (meant : String) : ConfigCall → String → String
  | .setPermanentPassword disabled hard password, p =>
      if disabled ∨ (p = "" ∧ hard = some password) then p else password
  | .setPermanentPasswordStorageForSync _ _, _ => meant
  | .configSet _, _ => meant
  | _, p => p

/-- What comes from elsewhere means a password, and a configuration has a key pair. -/
def ConfigCall.MeansPassword (h : PasswordHash Digest) (meant : String) : ConfigCall → Prop
  | .setPermanentPasswordStorageForSync storage salt => Means h storage salt meant
  | .configSet cfg => Means h cfg.password cfg.salt meant ∧ cfg.keyPair.1 ≠ []
  | _ => True

theorem ConfigCall.MeansPassword.keepsKey {call : ConfigCall} {meant : String}
    (hcall : call.MeansPassword h meant) : call.KeepsKey := by
  cases call with
  | configSet cfg => exact hcall.2
  | _ => trivial

theorem nextPassword_of_isLazy {call : ConfigCall} (hlazy : call.isLazy = true)
    (meant p : String) : call.nextPassword meant p = p := by
  cases call with
  | getKeyPair | getExistingKeyPair => rfl
  | setPermanentPassword disabled hard password =>
      cases disabled with
      | true =>
          show (if true = true ∨ (p = "" ∧ hard = some password) then p else password) = p
          exact if_pos (.inl rfl)
      | false => cases hlazy
  | _ => cases hlazy

/-- A salt that is missing is missing where there is no password. -/
theorem means_withSalt (hm : c.HasPassword h password) (salt : String) :
    (PasswordHash.withSalt salt c).HasPassword h password := by
  rcases hm with ⟨rfl, hempty⟩ | ⟨hne, hsalted, hstorage⟩
  · refine .inl ⟨rfl, ?_⟩
    unfold PasswordHash.withSalt
    split <;> exact hempty
  · rw [withSalt_of_salted hsalted]
    exact .inr ⟨hne, hsalted, hstorage⟩

/-- The salt of a hash stays. -/
theorem means_saltSet (hideal : h.Ideal) (hm : c.HasPassword h password)
    (haccepted : ¬ saltRefused h salt c = true) :
    ({ c with salt } : Config).HasPassword h password := by
  rcases hm with ⟨rfl, hempty⟩ | ⟨hne, hsalted, hstorage⟩
  · exact .inl ⟨rfl, hempty⟩
  · refine absurd ?_ haccepted
    have hhashed : h.passwordIsEmptyOrNotHashed c.password = false := by
      unfold PasswordHash.passwordIsEmptyOrNotHashed
      rw [hstorage, isHashed_storageOf hideal]
      simp [storageOf_ne hideal]
    unfold saltRefused
    simp [hhashed, hsalted]

theorem means_passwordSet (hsalt : salt ≠ "") (c : Config) :
    (passwordSet h salt password c).HasPassword h password := by
  unfold passwordSet
  by_cases hne : password = ""
  · rw [if_pos hne]
    exact .inl ⟨hne, rfl⟩
  · rw [if_neg hne]
    exact means_hashed hne hsalt c

theorem passwordRefused_iff (hideal : h.Ideal) {p : String} (hm : c.HasPassword h p)
    (disabled : Bool) (hard : Option String) (password : String) :
    passwordRefused disabled hard password c = true ↔
      (disabled = true ∨ (p = "" ∧ hard = some password)) ∨ (password = "" ∧ p = "") := by
  unfold passwordRefused
  rw [decide_eq_true_eq, hm.empty_iff hideal]
  tauto

/-- A password that is set already is kept, with its salt. -/
theorem means_of_same (hideal : h.Ideal) {p : String} (hm : c.HasPassword h p)
    (hsalt : salt ≠ "") (hsame : (passwordSet h salt password c).password = c.password) :
    p = password := by
  have hset : (passwordSet h salt password c).HasPassword h password := means_passwordSet hsalt c
  unfold Config.HasPassword at hset
  rw [hsame] at hset
  refine Means.unique hideal hm hset (fun hsalted => ?_)
  unfold passwordSet
  split
  · rfl
  · show (PasswordHash.withSalt salt c).salt = c.salt
    rw [withSalt_of_salted hsalted]

/-- What the configuration means after a call. -/
theorem means_after (draws : Draws) (hideal : M.hash.Ideal) {p meant : String}
    (hm : c.HasPassword M.hash p)
    {call : ConfigCall} (hcall : call.MeansPassword M.hash meant) :
    (call.after M draws c).HasPassword M.hash (call.nextPassword meant p) := by
  cases call with
  | setKeyConfirmed v =>
      show (if c.keyConfirmed = v then c else keyConfirmedSet v c).HasPassword M.hash p
      unfold keyConfirmedSet
      split
      · exact hm
      · split <;> exact hm
  | setHostKeyConfirmed host v =>
      show (if decide (c.keysConfirmed.get? host = some true) = v then c
        else hostKeyConfirmedSet host v c).HasPassword M.hash p
      split <;> exact hm
  | setPermanentPassword disabled hard password =>
      have hrefused := passwordRefused_iff hideal hm disabled hard password
      show (if passwordRefused disabled hard password c then c
        else if (passwordSet M.hash draws.salt password c).password = c.password then
          PasswordHash.withSalt draws.salt c
        else passwordSet M.hash draws.salt password c).HasPassword M.hash
          (if disabled ∨ (p = "" ∧ hard = some password) then p else password)
      by_cases hkeep : disabled ∨ (p = "" ∧ hard = some password)
      · rw [if_pos (hrefused.mpr (.inl hkeep)), if_pos hkeep]
        exact hm
      · rw [if_neg hkeep]
        split
        · obtain ⟨rfl, rfl⟩ := (hrefused.mp ‹_›).resolve_left hkeep
          exact hm
        · split
          · rename_i hsame
            rw [← means_of_same hideal hm draws.salt_ne hsame]
            exact means_withSalt hm draws.salt
          · exact means_passwordSet draws.salt_ne c
  | setPermanentPasswordStorageForSync storage salt => exact hcall
  | setSalt salt =>
      show (if saltRefused M.hash salt c then c else { c with salt }).HasPassword M.hash p
      split
      · exact hm
      · exact means_saltSet hideal hm ‹_›
  | getSalt =>
      show (if c.salt = "" then { c with salt := draws.salt } else c).HasPassword M.hash p
      exact means_withSalt hm draws.salt
  | configSet cfg => exact hcall.1
  | _ => exact hm

/-! ## Runs -/

/-- The file means the password, and `CONFIG` does when it is there. -/
structure KnowsPassword (M : Machine Digest) (p : String) (s : OneThread) : Prop where
  running : Running s
  file : FilePassword M s.process.file p
  config : ∀ c, s.process.config = some c → c.HasPassword M.hash p

theorem Booted.startKey_eq (hbooted : Booted M draws s c t) :
    c.keyPair = Machine.startKey draws s := by
  rw [hbooted.loaded, loadedUnder_keyPair]

/-- The configuration that a call finds means the password. -/
theorem KnowsPassword.found (hM : M.Ideal) (hhash : M.hash.Ideal) {p : String} {s : OneThread}
    {s' : Process} (hs : KnowsPassword M p s)
    (hfound : s.process.config = some c ∧ s' = s.process ∨
      s.process.config = none ∧ Booted M draws s.process c s') :
    c.HasPassword M.hash p ∧ FilePassword M s'.file p := by
  rcases hfound with ⟨hc, rfl⟩ | ⟨-, hbooted⟩
  · exact ⟨hs.config c hc, hs.file⟩
  · have hmeans : c.HasPassword M.hash p := by
      rw [hbooted.loaded]
      exact means_loadedUnder hM hhash hs.file hs.running.settled.startKey_file
    refine ⟨hmeans, ?_⟩
    rcases hbooted.file with hfile | ⟨hfile, -⟩
    · rw [hfile]
      exact filePassword_fileOf hhash hmeans
    · rw [hfile]
      exact hs.file

/-- What a step makes of the password. -/
def ThreadAction.nextPassword (meant : String) : ThreadAction → String → String
  | .call made _, p => made.nextPassword meant p
  | .restart, p => p

def ThreadAction.MeansPassword (h : PasswordHash Digest) (meant : String) : ThreadAction → Prop
  | .call made _ => made.MeansPassword h meant
  | .restart => True

theorem KnowsPassword.step (hM : M.Ideal) (hhash : M.hash.Ideal) {p meant : String}
    {s : OneThread} (hs : KnowsPassword M p s) {action : ThreadAction}
    (haction : action.MeansPassword M.hash meant) :
    KnowsPassword M (action.nextPassword meant p) (s.step M action) := by
  cases action with
  | restart => exact ⟨⟨settled_boot _ _, rfl⟩, hs.file, fun c hc => by cases hc⟩
  | call call draws =>
      have hcall : call.MeansPassword M.hash meant := haction
      obtain ⟨t, ht, hsettled, hcases⟩ := exec_any M draws hs.running.settled call
        hcall.keepsKey
      have hstep : s.step M (.call call draws) = { process := t, blocked := none } := by
        unfold OneThread.step
        rw [hs.running.running]
        simp only [ht]
      rw [hstep]
      rcases hcases with ⟨c, s', hfound, -, -, hleft⟩ | ⟨-, hlazy, hnone, hfile⟩
      · obtain ⟨hmeans, hfile⟩ := hs.found hM hhash hfound
        have hafter := means_after draws hhash hmeans hcall
        refine ⟨⟨hsettled, rfl⟩, ?_, ?_⟩
        · show FilePassword M t.file (call.nextPassword meant p)
          rcases hleft.file with hwritten | ⟨hkept, hmemory⟩
          · rw [hwritten]
            exact filePassword_fileOf hhash hafter
          · have hsame : p = call.nextPassword meant p := by
              rcases hmemory with hmemory | hmemory
              · rw [hmemory] at hafter
                exact Means.unique hhash hmeans hafter (fun _ => rfl)
              · rw [hmemory] at hafter
                exact (means_withSalt hmeans draws.salt).unique' hhash hafter
            rw [hkept, ← hsame]
            exact hfile
        · intro c' hc'
          have hconfig : t.config = some c' := hc'
          rw [hleft.config] at hconfig
          cases hconfig
          exact hafter
      · have hsame : (ThreadAction.call call draws).nextPassword meant p = p :=
          nextPassword_of_isLazy hlazy meant p
        rw [hsame]
        refine ⟨⟨hsettled, rfl⟩, ?_, ?_⟩
        · show FilePassword M t.file p
          rcases hfile with hfile | ⟨hempty, hfile⟩
          · rw [hfile]
            exact hs.file
          · rw [hfile]
            exact filePassword_generated hM hhash hs.file hempty
        · intro c hc
          exact nomatch (show t.config = some c from hc).symm.trans hnone

end HbbCommon.Config
