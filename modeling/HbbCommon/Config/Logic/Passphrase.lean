import HbbCommon.Config.Options

/-!
# The passphrase for direct access

The two setters find out in different ways whether the passphrase changes; both clear the paired
viewers when what it decrypts to does. A value that cannot be saved takes the stored passphrase
away, and the viewers with it.
-/

namespace HbbCommon.Config

open HbbCommon.Base

variable {libs : ConfigLibs} {settings : Settings}

/-! ## What `set_options` stores -/

theorem get?_restoreOption (previous v : OptionMap) (key k : String) :
    (restoreOption previous v key).get? k = if k = key then previous.get? key else v.get? k := by
  unfold restoreOption
  cases hget : previous.get? key with
  | none => simp only [OrdMap.get?_erase]
  | some old => simp only [OrdMap.get?_insert]

theorem get?_foldl_restoreOption (previous : OptionMap) (keys : List String) (v : OptionMap)
    (k : String) : (keys.foldl (restoreOption previous) v).get? k =
      if k ∈ keys then previous.get? k else v.get? k := by
  induction keys generalizing v with
  | nil => simp
  | cons key rest ih =>
      rw [List.foldl_cons, ih, get?_restoreOption]
      by_cases hrest : k ∈ rest
      · simp [hrest]
      · by_cases hkey : k = key
        · simp [hkey]
        · simp [hrest, hkey]

/-- An option that can be saved is settled for itself. -/
theorem get?_settleOptions (nonces : String → Nat) (v previous : OptionMap) (k : String) :
    (settleOptions libs settings nonces v previous).get? k =
      match (purifyOptions settings v).get? k with
      | none => none
      | some value =>
          match settleOption libs nonces previous k value with
          | (value, true) => some value
          | (_, false) => previous.get? k := by
  unfold settleOptions
  simp only [get?_foldl_restoreOption]
  have hmem : k ∈ ((((purifyOptions settings v).mapVals
      (settleOption libs nonces previous)).entries.filter (fun e => !e.2.2)).map Prod.fst) ↔
      ∃ value, (purifyOptions settings v).get? k = some value ∧
        (settleOption libs nonces previous k value).2 = false := by
    rw [List.mem_map]
    constructor
    · rintro ⟨⟨k', p⟩, hp, rfl⟩
      obtain ⟨hin, hrejected⟩ := List.mem_filter.mp hp
      have hget := OrdMap.mem_entries_iff.mp hin
      rw [OrdMap.get?_mapVals, Option.map_eq_some_iff] at hget
      obtain ⟨value, hvalue, rfl⟩ := hget
      exact ⟨value, hvalue, by simpa using hrejected⟩
    · rintro ⟨value, hvalue, hrejected⟩
      refine ⟨(k, settleOption libs nonces previous k value), List.mem_filter.mpr ⟨?_, ?_⟩, rfl⟩
      · rw [OrdMap.mem_entries_iff, OrdMap.get?_mapVals, hvalue]
        rfl
      · simp [hrejected]
  rw [OrdMap.get?_mapVals, OrdMap.get?_mapVals]
  cases hget : (purifyOptions settings v).get? k with
  | none => rw [if_neg (by rw [hmem, hget]; simp)]; rfl
  | some value =>
      cases hsettle : settleOption libs nonces previous k value with
      | mk stored accepted =>
          cases accepted with
          | true =>
              rw [if_neg]
              · simp [hsettle]
              · rw [hmem, hget]
                rintro ⟨value', hvalue', hrejected⟩
                cases hvalue'
                rw [hsettle] at hrejected
                cases hrejected
          | false =>
              rw [if_pos (hmem.mpr ⟨value, hget, by rw [hsettle]⟩)]
              simp [hsettle]

/-! ## The stored passphrase -/

/-- What the stored passphrase decrypts to; an absent one counts as empty. -/
def passphrase (libs : ConfigLibs) (s : Statics) : String :=
  (plaintextOptionFromMap libs.crypt s.config2.options
    keys.optionDirectAccessPairingPassphrase).getD ""

/-- An encrypted option that is not empty has a plain text that is not. -/
theorem plaintextOptionValue_ne_empty (hideal : libs.crypt.Ideal) {k value : String}
    (hvalue : value ≠ "") : plaintextOptionValue libs.crypt k value ≠ "" := by
  unfold plaintextOptionValue Crypt.decryptStrOrOriginal
  split
  · exact hvalue
  · split
    · rename_i plain hplain
      obtain ⟨body, -, hdecrypt⟩ := Option.bind_eq_some_iff.mp hplain
      exact hideal.ne_empty_of_decrypt body plain hdecrypt
    · exact hvalue

/-- The stored text of the passphrase; an absent one counts as empty. -/
def storedPassphrase (s : Statics) : String :=
  (s.config2.options.get? keys.optionDirectAccessPairingPassphrase).getD ""

theorem passphrase_eq_getD (libs : ConfigLibs) (s : Statics) :
    passphrase libs s = plaintextOptionValue libs.crypt keys.optionDirectAccessPairingPassphrase
      (storedPassphrase s) := by
  unfold passphrase storedPassphrase plaintextOptionFromMap
  cases s.config2.options.get? keys.optionDirectAccessPairingPassphrase with
  | none => simp [plaintextOptionValue]
  | some value =>
      by_cases hvalue : value = ""
      · simp [hvalue, Option.filter_some, plaintextOptionValue]
      · simp [hvalue, Option.filter_some]

theorem passphrase_congr {s s' : Statics} (h : storedPassphrase s' = storedPassphrase s) :
    passphrase libs s' = passphrase libs s := by
  rw [passphrase_eq_getD, passphrase_eq_getD, h]

/-! ## What the setters do -/

/-- Neither the stored passphrase nor the viewers change. -/
structure SamePairing (s s' : Statics) : Prop where
  stored : storedPassphrase s' = storedPassphrase s
  viewers : s'.config2.pairedViewers = s.config2.pairedViewers
  cache : s'.pairedViewers = s.pairedViewers

/-- The viewers are cleared. -/
structure Unpaired (s : Statics) : Prop where
  viewers : s.config2.pairedViewers = ""
  cache : s.pairedViewers = ([], true)

theorem setOption_outcome (libs : ConfigLibs) (settings : Settings) (nonce : Nat) (k v : String)
    (s : Statics) : SamePairing s (setOption libs settings nonce k v s) ∨
      (k = keys.optionDirectAccessPairingPassphrase ∧
        Unpaired (setOption libs settings nonce k v s)) := by
  have hsame : SamePairing s s := ⟨rfl, rfl, rfl⟩
  -- a change of another option
  have hother : ∀ options : OptionMap, k ≠ keys.optionDirectAccessPairingPassphrase →
      (∀ j, j ≠ k → options.get? j = s.config2.options.get? j) →
      SamePairing s (s.setOptionMap options) := by
    intro options hk hget
    exact ⟨congrArg (·.getD "") (hget _ hk.symm), rfl, rfl⟩
  have herase : ∀ j, j ≠ k → (s.config2.options.erase k).get? j = s.config2.options.get? j := by
    intro j hj
    rw [OrdMap.get?_erase, if_neg hj]
  by_cases hk : k = keys.optionDirectAccessPairingPassphrase
  · subst hk
    unfold setOption
    simp only [if_true]
    split
    · split
      · exact .inr ⟨trivial, rfl, rfl⟩
      · exact .inl hsame
    · split
      · exact .inl hsame
      · split
        · exact .inl hsame
        · split
          · exact .inr ⟨trivial, rfl, rfl⟩
          · exact .inl hsame
  · refine .inl ?_
    unfold setOption
    simp only [if_neg hk]
    split
    · split
      · exact hother _ hk herase
      · exact hsame
    · split
      · exact hsame
      · split
        · exact hsame
        · split
          · refine hother _ hk (fun j hj => ?_)
            split
            · exact herase j hj
            · rw [OrdMap.get?_insert, if_neg hj]
          · exact hsame

/-- A call of a setter, with what is random in it. -/
inductive OptionCall
  | setOption (nonce : Nat) (k v : String)
  | setOptions (nonces : String → Nat) (v : OptionMap)

def OptionCall.run (libs : ConfigLibs) (settings : Settings) : OptionCall → Statics → Statics
  | .setOption nonce k v => HbbCommon.Config.setOption libs settings nonce k v
  | .setOptions nonces v => HbbCommon.Config.setOptions libs settings nonces v

/-- Libraries whose lists are not looked at. -/
def markingLibs : ConfigLibs where
  crypt := .marking
  devices := { toString := fun _ => "[]", fromStr := fun _ => [] }
  viewers := { toString := fun _ => "[]", fromStr := fun _ => [] }

/-- A configuration with a passphrase and a list of viewers. -/
def pairedConfig : Config2 where
  rendezvousServer := ""
  natType := 0
  serial := 0
  unlockPin := ""
  trustedDevices := ""
  pairedViewers := "00=viewers"
  socks := none
  options := (∅ : OptionMap).insert keys.optionDirectAccessPairingPassphrase "00=secret"

def pairedStatics : Statics :=
  { config2 := pairedConfig, trustedDevices := ([], false), pairedViewers := ([], false) }

end HbbCommon.Config
