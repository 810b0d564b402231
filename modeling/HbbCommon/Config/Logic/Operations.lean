import HbbCommon.Config.Logic.KeyPair

/-!
# What the operations do

An operation on an initialised process that holds no lock returns, where there is a key pair or
none is needed, and leaves the configuration it was asked for, in `CONFIG` and in the file.
-/

namespace HbbCommon.Config

open HbbCommon.Base Effect

variable {Digest : Type}

/-! ## The configuration that is left -/

def keyConfirmedSet (v : Bool) (c : Config) : Config :=
  if v then { c with keyConfirmed := v } else { c with keyConfirmed := v, keysConfirmed := ∅ }

def hostKeyConfirmedSet (host : String) (v : Bool) (c : Config) : Config :=
  { c with keysConfirmed := c.keysConfirmed.insert host v }

def passwordSet (h : PasswordHash Digest) (salt password : String) (c : Config) : Config :=
  if password = "" then { c with password := "" }
  else h.hashed password (PasswordHash.withSalt salt c)

/-- Whether `set_permanent_password` leaves everything as it is. -/
def passwordRefused (disabled : Bool) (hard : Option String) (password : String) (c : Config) :
    Bool :=
  disabled ∨ (hard = some password ∧ c.password = "") ∨ (password = "" ∧ c.password = "")

/-- Whether `set_salt` leaves everything as it is. -/
def saltRefused (h : PasswordHash Digest) (salt : String) (c : Config) : Bool :=
  salt = c.salt ∨ (¬ h.passwordIsEmptyOrNotHashed c.password ∧ c.salt ≠ "")

section

variable {M : Machine Digest} {K : KeyPair} {s t u : Process} {c c' : Config} (draws : Draws)

theorem wrote_same (hc : s.config = some c) : Wrote M K draws s c s := .inl ⟨rfl, hc⟩

theorem exec_setKeyConfirmed (hs : Idle s) (hc : s.config = some c) (v : Bool)
    (huse : c.keyConfirmed = v ∨ KeyReady K s ∨ M.storeUses (keyConfirmedSet v c) = false) :
    ∃ t, (M.setKeyConfirmed draws v).exec s = (.ok ⟨⟩, t) ∧
      Wrote M K draws s (if c.keyConfirmed = v then c else keyConfirmedSet v c) t := by
  by_cases hsame : c.keyConfirmed = v
  · rw [if_pos hsame]
    exact ⟨s, exec_writing_pure hs hc (if_pos hsame), wrote_same draws hc⟩
  · rw [if_neg hsame]
    exact exec_writing_storing hs hc (if_neg hsame) (huse.resolve_left hsame)

theorem exec_setHostKeyConfirmed (hs : Idle s) (hc : s.config = some c) (host : String) (v : Bool)
    (huse : decide (c.keysConfirmed.get? host = some true) = v ∨ KeyReady K s ∨
      M.storeUses (hostKeyConfirmedSet host v c) = false) :
    ∃ t, (M.setHostKeyConfirmed draws host v).exec s = (.ok ⟨⟩, t) ∧
      Wrote M K draws s (if decide (c.keysConfirmed.get? host = some true) = v then c
        else hostKeyConfirmedSet host v c) t := by
  have hread : (M.getHostKeyConfirmed draws host).exec s =
      (.ok (decide (c.keysConfirmed.get? host = some true)), s) := exec_reading_pure hs hc _
  unfold Machine.setHostKeyConfirmed
  rw [exec_bind_ok hread]
  by_cases hsame : decide (c.keysConfirmed.get? host = some true) = v
  · rw [if_pos hsame, if_pos hsame]
    exact ⟨s, rfl, wrote_same draws hc⟩
  · rw [if_neg hsame, if_neg hsame]
    exact exec_writing_storing hs hc rfl (huse.resolve_left hsame)

theorem exec_setId (hs : Idle s) (hc : s.config = some c) (id : String)
    (huse : id = c.id ∨ KeyReady K s ∨ M.storeUses { c with id } = false) :
    ∃ t, (M.setId draws id).exec s = (.ok ⟨⟩, t) ∧ Wrote M K draws s { c with id } t := by
  by_cases hsame : id = c.id
  · refine ⟨s, exec_writing_pure hs hc (if_pos hsame), .inl ⟨rfl, ?_⟩⟩
    rw [hc, hsame]
  · exact exec_writing_storing hs hc (if_neg hsame) (huse.resolve_left hsame)

theorem exec_setSalt (hs : Idle s) (hc : s.config = some c) (salt : String)
    (huse : saltRefused M.hash salt c = true ∨ KeyReady K s ∨
      M.storeUses { c with salt } = false) :
    ∃ t, (M.setSalt draws salt).exec s = (.ok ⟨⟩, t) ∧
      Wrote M K draws s (if saltRefused M.hash salt c then c else { c with salt }) t := by
  by_cases hsame : salt = c.salt
  · rw [if_pos (by simp [saltRefused, hsame])]
    exact ⟨s, exec_writing_pure hs hc (if_pos hsame), wrote_same draws hc⟩
  · by_cases hhashed : ¬ M.hash.passwordIsEmptyOrNotHashed c.password ∧ c.salt ≠ ""
    · rw [if_pos (by simp [saltRefused, hhashed])]
      refine ⟨s, exec_writing_pure hs hc ?_, wrote_same draws hc⟩
      rw [if_neg hsame, if_pos hhashed]
    · have hnot : ¬ saltRefused M.hash salt c = true := by
        rw [saltRefused, decide_eq_true_eq]
        exact not_or.mpr ⟨hsame, hhashed⟩
      rw [if_neg hnot]
      refine exec_writing_storing hs hc ?_ (huse.resolve_left hnot)
      rw [if_neg hsame, if_neg hhashed]

theorem exec_getSalt (hs : Idle s) (hc : s.config = some c)
    (huse : c.salt ≠ "" ∨ KeyReady K s ∨ M.storeUses { c with salt := draws.salt } = false) :
    ∃ salt t, (M.getSalt draws).exec s = (.ok salt, t) ∧
      Wrote M K draws s (if c.salt = "" then { c with salt := draws.salt } else c) t := by
  have hread : (M.reading draws (fun config => pure config.salt)).exec s = (.ok c.salt, s) :=
    exec_reading_pure hs hc _
  unfold Machine.getSalt
  rw [exec_bind_ok hread]
  by_cases hempty : c.salt = ""
  · rw [if_pos hempty, if_pos hempty]
    have hnot : ¬ saltRefused M.hash draws.salt c = true := by
      rw [saltRefused, decide_eq_true_eq]
      exact not_or.mpr ⟨fun h => draws.salt_ne (h.trans hempty), fun h => h.2 hempty⟩
    obtain ⟨t, hset, hwrote⟩ := exec_setSalt (M := M) draws hs hc draws.salt
      (.inr (huse.resolve_left (not_not.mpr hempty)))
    rw [if_neg hnot] at hwrote
    refine ⟨draws.salt, t, ?_, hwrote⟩
    rw [exec_bind_ok hset]
    rfl
  · rw [if_neg hempty, if_neg hempty]
    exact ⟨c.salt, s, rfl, wrote_same draws hc⟩

/-- A password is refused, or its storage is the one that is there, or it is stored and the
trusted devices are cleared. -/
theorem setPermanentPassword_cases (hs : Idle s) (hc : s.config = some c) (disabled : Bool)
    (hard : Option String) (password : String) :
    if passwordRefused disabled hard password c then
      (M.setPermanentPassword draws disabled hard password).exec s = (.ok ⟨⟩, s)
    else if (passwordSet M.hash draws.salt password c).password = c.password then
      (M.setPermanentPassword draws disabled hard password).exec s =
        (.ok ⟨⟩, { s with config := some (PasswordHash.withSalt draws.salt c) })
    else ∃ body : Config → Op (Config × PUnit),
      (M.setPermanentPassword draws disabled hard password).exec s =
          (M.writing draws body).exec s ∧
        body c = (do
          M.store draws (M.callOps draws) (passwordSet M.hash draws.salt password c)
          M.clearTrustedDevices draws
          return (passwordSet M.hash draws.salt password c, ⟨⟩)) := by
  by_cases hdisabled : disabled = true
  · rw [if_pos (by simp [passwordRefused, hdisabled])]
    unfold Machine.setPermanentPassword
    rw [if_pos hdisabled]
    rfl
  · have hhardCoded : (M.isHardCoded draws hard password).exec s =
        (.ok (decide (hard = some password ∧ c.password = "")), s) := by
      unfold Machine.isHardCoded
      by_cases hhard : hard = some password
      · rw [if_pos hhard, exec_reading_pure hs hc]
        simp [hhard]
      · rw [if_neg hhard]
        simp [hhard]
    have hexec : (M.setPermanentPassword draws disabled hard password).exec s =
        (if hard = some password ∧ c.password = "" then pure ⟨⟩
          else M.writing draws (M.storePermanentPassword draws password) : Op PUnit).exec s := by
      unfold Machine.setPermanentPassword
      rw [if_neg hdisabled, exec_bind_ok hhardCoded]
      simp only [decide_eq_true_eq]
    rw [hexec]
    by_cases hpreset : hard = some password ∧ c.password = ""
    · rw [if_pos (show passwordRefused disabled hard password c = true by
        simp [passwordRefused, hpreset]), if_pos hpreset]
      rfl
    · rw [if_neg hpreset]
      by_cases hempty : password = ""
      · subst hempty
        by_cases hnone : c.password = ""
        · rw [if_pos (show passwordRefused disabled hard "" c = true by
            simp [passwordRefused, hnone])]
          exact exec_writing_pure hs hc (if_pos hnone.symm)
        · have hnot : ¬ passwordRefused disabled hard "" c = true := by
            simp [passwordRefused, hdisabled, hnone]
          have hchanged : ¬ (passwordSet M.hash draws.salt "" c).password = c.password :=
            fun h => hnone h.symm
          rw [if_neg hnot, if_neg hchanged]
          exact ⟨_, rfl, if_neg (fun h => hnone h.symm)⟩
      · have hnot : ¬ passwordRefused disabled hard password c = true := by
          simpa [passwordRefused, hdisabled, hempty] using hpreset
        have hcompute : M.computePermanentPasswordStorage draws password c =
            (PasswordHash.withSalt draws.salt c,
              M.hash.storageOf password (PasswordHash.withSalt draws.salt c).salt) :=
          if_neg hempty
        have hset : passwordSet M.hash draws.salt password c =
            M.hash.hashed password (PasswordHash.withSalt draws.salt c) := if_neg hempty
        have hpassword : (PasswordHash.withSalt draws.salt c).password = c.password := by
          unfold PasswordHash.withSalt
          split <;> rfl
        rw [if_neg hnot]
        by_cases hsame : (passwordSet M.hash draws.salt password c).password = c.password
        · rw [if_pos hsame]
          refine exec_writing_memory hs hc ?_
          unfold Machine.storePermanentPassword
          rw [hcompute]
          rw [hset] at hsame
          exact if_pos (hsame.trans hpassword.symm)
        · rw [if_neg hsame]
          rw [hset] at hsame ⊢
          refine ⟨_, rfl, ?_⟩
          unfold Machine.storePermanentPassword
          rw [hcompute]
          exact if_neg (fun h => hsame (h.trans hpassword))

theorem passwordSet_keyPair (h : PasswordHash Digest) (salt password : String) (c : Config) :
    (passwordSet h salt password c).keyPair = c.keyPair := by
  unfold passwordSet
  split
  · rfl
  · exact (sameButPassword_withSalt salt c).keyPair

/-- A password that is set is stored, unless its storage is the one that is there: then a missing
salt may have been created in `CONFIG` alone. -/
theorem exec_setPermanentPassword (hs : Idle s) (hc : s.config = some c) (disabled : Bool)
    (hard : Option String) (password : String)
    (huse : passwordRefused disabled hard password c = true ∨
      (passwordSet M.hash draws.salt password c).password = c.password ∨
      (KeyReady K s ∧ (s.keyPair = some K ∨ c.keyPair = K))) :
    ∃ t, (M.setPermanentPassword draws disabled hard password).exec s = (.ok ⟨⟩, t) ∧
      if passwordRefused disabled hard password c then t = s
      else if (passwordSet M.hash draws.salt password c).password = c.password then
        t = { s with config := some (PasswordHash.withSalt draws.salt c) }
      else Wrote M K draws s (passwordSet M.hash draws.salt password c) t := by
  have hcases := setPermanentPassword_cases (M := M) draws hs hc disabled hard password
  by_cases hrefused : passwordRefused disabled hard password c = true
  · rw [if_pos hrefused] at hcases
    exact ⟨s, hcases, by rw [if_pos hrefused]⟩
  · rw [if_neg hrefused] at hcases
    simp only [if_neg hrefused]
    by_cases hsame : (passwordSet M.hash draws.salt password c).password = c.password
    · rw [if_pos hsame] at hcases
      exact ⟨_, hcases, by rw [if_pos hsame]⟩
    · rw [if_neg hsame] at hcases
      simp only [if_neg hsame]
      obtain ⟨body, hexec, hbody⟩ := hcases
      obtain ⟨hkey, hkept⟩ := (huse.resolve_left hrefused).resolve_left hsame
      rw [hexec]
      exact exec_writing_clearing hs hc hbody hkey
        (hkept.imp_right (passwordSet_keyPair M.hash draws.salt password c).trans)

theorem exec_setPermanentPasswordStorageForSync (hs : Idle s) (hc : s.config = some c)
    (storage salt : String)
    (huse : (c.password = storage ∧ c.salt = salt) ∨
      (KeyReady K s ∧ (s.keyPair = some K ∨ c.keyPair = K))) :
    ∃ changed t, (M.setPermanentPasswordStorageForSync draws storage salt).exec s =
        (.ok changed, t) ∧
      Wrote M K draws s { c with password := storage, salt } t := by
  unfold Machine.setPermanentPasswordStorageForSync
  by_cases hsame : c.password = storage ∧ c.salt = salt
  · refine ⟨false, s, exec_writing_pure hs hc (if_pos hsame), .inl ⟨rfl, ?_⟩⟩
    rw [hc, ← hsame.1, ← hsame.2]
  · obtain ⟨hkey, hkept⟩ := huse.resolve_left hsame
    refine ⟨true, exec_writing_clearing hs hc ?_ hkey hkept⟩
    rw [if_neg hsame]

end

end HbbCommon.Config
