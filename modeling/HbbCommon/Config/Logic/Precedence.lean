import HbbCommon.Config.Logic.Passphrase

/-!
# Which value of an option is read

Values equal to the default are taken out of the map on writing, and overwritten keys with
them; on reading both come from their own layers. Either setter leaves, for a key that is not
overwritten, what reads as the plain text that was set.
-/

namespace HbbCommon.Config

open HbbCommon.Base

variable {libs : ConfigLibs} {settings : Settings} {k v : String} {s : Statics}

/-! ## One value -/

theorem plaintextOptionValue_of_not (h : ¬ isEncryptedOption k ∨ v = "") :
    plaintextOptionValue libs.crypt k v = v := if_pos h

/-- The plain text of the value does not itself look like a cipher text. -/
def PlainText (libs : ConfigLibs) (k v : String) : Prop :=
  isEncryptedOption k → libs.crypt.isEncrypted (plaintextOptionValue libs.crypt k v) = false

/-- The value is refused for its length. -/
def TooLong (libs : ConfigLibs) (k v : String) : Prop :=
  isEncryptedOption k ∧ (plaintextOptionValue libs.crypt k v).length > encryptMaxLen

instance (libs : ConfigLibs) (k v : String) : Decidable (PlainText libs k v) :=
  inferInstanceAs (Decidable (_ → _))

instance (libs : ConfigLibs) (k v : String) : Decidable (TooLong libs k v) :=
  inferInstanceAs (Decidable (_ ∧ _))

/-- What is stored for a plain text reads as it. -/
theorem maybeEncryptOptionValue_accepted (hideal : libs.crypt.Ideal) (nonce : Nat)
    {plain : String} (hplain : isEncryptedOption k → libs.crypt.isEncrypted plain = false)
    (hlength : isEncryptedOption k → plain.length ≤ encryptMaxLen) :
    ∃ stored, maybeEncryptOptionValue libs.crypt nonce k plain = (stored, true) ∧
      plaintextOptionValue libs.crypt k stored = plain ∧ (stored = "" → plain = "") := by
  unfold maybeEncryptOptionValue
  by_cases hk : ¬ isEncryptedOption k ∨ plain = ""
  · rw [if_pos hk]
    exact ⟨plain, rfl, plaintextOptionValue_of_not hk, id⟩
  · rw [if_neg hk]
    obtain ⟨henc, hne⟩ := not_or.mp hk
    rw [not_not] at henc
    have hdecrypt := Crypt.decrypt_encryptStrOrOriginal nonce hideal hne (hplain henc)
      (hlength henc)
    have hstored : libs.crypt.encryptStrOrOriginal nonce plain passwordEncVersion encryptMaxLen ≠
        "" := by
      intro hempty
      rw [hempty, Crypt.decryptStrOrOriginal_empty] at hdecrypt
      exact hne (congrArg Prod.fst hdecrypt).symm
    simp only
    rw [if_neg (Nat.not_lt.mpr (hlength henc)), if_neg hstored]
    refine ⟨_, rfl, ?_, fun h => absurd h hstored⟩
    unfold plaintextOptionValue
    rw [if_neg (by simp [henc, hstored]), hdecrypt]

theorem maybeEncryptOptionValue_refused {nonce : Nat} {plain : String}
    (hk : isEncryptedOption k) (hlength : plain.length > encryptMaxLen) :
    maybeEncryptOptionValue libs.crypt nonce k plain = (plain, false) := by
  have hne : plain ≠ "" := by
    rintro rfl
    simp at hlength
  unfold maybeEncryptOptionValue
  rw [if_neg (by simp [hk, hne]), if_pos hlength]

/-- The loop of `set_options` settles a value on one that reads as it, or refuses it. -/
theorem settleOption_reads (hideal : libs.crypt.Ideal) (nonces : String → Nat)
    (previous : OptionMap) (hplain : PlainText libs k v) :
    (∃ stored, settleOption libs nonces previous k v = (stored, true) ∧
      plaintextOptionValue libs.crypt k stored = plaintextOptionValue libs.crypt k v ∧
      (TooLong libs k v → previous.get? k = some stored)) ∨
    TooLong libs k v ∧ (settleOption libs nonces previous k v).2 = false := by
  have hsettle : ∀ plain, plain = plaintextOptionValue libs.crypt k v →
      (∃ stored, maybeEncryptOptionValue libs.crypt (nonces k) k plain = (stored, true) ∧
        plaintextOptionValue libs.crypt k stored = plaintextOptionValue libs.crypt k v ∧
        (TooLong libs k v → previous.get? k = some stored)) ∨
      TooLong libs k v ∧ (maybeEncryptOptionValue libs.crypt (nonces k) k plain).2 = false := by
    rintro plain rfl
    by_cases hlong : TooLong libs k v
    · refine .inr ⟨hlong, ?_⟩
      rw [maybeEncryptOptionValue_refused hlong.1 hlong.2]
    · obtain ⟨stored, hstored, hreads, -⟩ := maybeEncryptOptionValue_accepted hideal (nonces k)
        hplain (fun hk => Nat.not_lt.mp (fun h => hlong ⟨hk, h⟩))
      exact .inl ⟨stored, hstored, hreads, fun h => absurd h hlong⟩
  unfold settleOption
  by_cases hcond : isEncryptedOption k ∧ v ≠ ""
  · rw [if_pos hcond]
    simp only
    cases hold : previous.get? k with
    | none =>
        have := hsettle _ rfl
        rwa [hold] at this
    | some old =>
        simp only
        by_cases hsame : plaintextOptionValue libs.crypt k old = plaintextOptionValue libs.crypt k v
        · rw [if_pos hsame]
          exact .inl ⟨old, rfl, hsame, fun _ => rfl⟩
        · rw [if_neg hsame]
          have := hsettle _ rfl
          rwa [hold] at this
  · rw [if_neg hcond]
    refine hsettle v (plaintextOptionValue_of_not ?_).symm
    rw [not_and_or, not_not] at hcond
    exact hcond

/-! ## The setters -/

theorem isOptionCanSave_iff : settings.isOptionCanSave k v ↔
    settings.overwrite.get? k = none ∧ settings.default.get? k ≠ some v := by
  unfold Settings.isOptionCanSave OrdMap.contains
  cases settings.overwrite.get? k with
  | some o => simp
  | none =>
      cases settings.default.get? k with
      | none => simp
      | some d => simp

theorem options_writeOptions (options previous : OptionMap) (s : Statics) :
    (writeOptions libs options previous s).config2.options = options := by
  unfold writeOptions
  simp only
  split
  · assumption
  · split <;> rfl

/-- What is read of a key, by its layers. -/
theorem getOption_of_overwrite {o : String} (h : settings.overwrite.get? k = some o) :
    getOption libs settings k s = plaintextOptionValue libs.crypt k o := by
  unfold getOption Settings.getOr
  rw [h]
  rfl

theorem getOption_of_options {value : String} (hover : settings.overwrite.get? k = none)
    (h : s.config2.options.get? k = some value) :
    getOption libs settings k s = plaintextOptionValue libs.crypt k value := by
  unfold getOption Settings.getOr
  rw [hover, h]
  rfl

theorem getOption_of_default (hover : settings.overwrite.get? k = none)
    (h : s.config2.options.get? k = none) :
    getOption libs settings k s =
      plaintextOptionValue libs.crypt k ((settings.default.get? k).getD "") := by
  unfold getOption Settings.getOr
  rw [hover, h]
  rfl

theorem getOption_congr {s' : Statics}
    (h : s'.config2.options.get? k = s.config2.options.get? k) :
    getOption libs settings k s' = getOption libs settings k s := by
  unfold getOption Settings.getOr
  rw [h]

/-- What `get_option` gives after `set_options` of a map. -/
def afterSetOptions (libs : ConfigLibs) (settings : Settings) (m : OptionMap) (k : String)
    (s : Statics) : String :=
  match settings.overwrite.get? k with
  | some o => plaintextOptionValue libs.crypt k o
  | none =>
      match m.get? k with
      | some v =>
          -- a default is not encrypted, and so not refused
          if TooLong libs k v ∧ settings.default.get? k ≠ some v then getOption libs settings k s
          else plaintextOptionValue libs.crypt k v
      | none => plaintextOptionValue libs.crypt k ((settings.default.get? k).getD "")

theorem getOption_setOptions (hideal : libs.crypt.Ideal) (nonces : String → Nat) (m : OptionMap)
    (k : String) (s : Statics) (hplain : ∀ v, m.get? k = some v → PlainText libs k v) :
    getOption libs settings k (setOptions libs settings nonces m s) =
      afterSetOptions libs settings m k s := by
  have hoptions : (setOptions libs settings nonces m s).config2.options.get? k =
      (settleOptions libs settings nonces m s.config2.options).get? k :=
    congrArg (·.get? k) (options_writeOptions _ _ _)
  rw [get?_settleOptions] at hoptions
  unfold afterSetOptions
  cases hover : settings.overwrite.get? k with
  | some o => exact getOption_of_overwrite hover
  | none =>
      dsimp only
      cases hm : m.get? k with
      | none =>
          rw [purifyOptions, OrdMap.get?_filter, hm] at hoptions
          exact getOption_of_default hover hoptions
      | some v =>
          dsimp only
          by_cases hdefault : settings.default.get? k = some v
          · have hnone : (purifyOptions settings m).get? k = none := by
              rw [purifyOptions, OrdMap.get?_filter, hm]
              exact Option.filter_some_neg
                (Bool.eq_false_iff.mpr (fun h => (isOptionCanSave_iff.mp h).2 hdefault))
            rw [hnone] at hoptions
            rw [if_neg (fun h => h.2 hdefault), getOption_of_default hover hoptions, hdefault]
            rfl
          · have hsome : (purifyOptions settings m).get? k = some v := by
              rw [purifyOptions, OrdMap.get?_filter, hm]
              exact Option.filter_some_pos (isOptionCanSave_iff.mpr ⟨hover, hdefault⟩)
            rw [hsome] at hoptions
            dsimp only at hoptions
            rcases settleOption_reads hideal nonces s.config2.options (hplain v hm) with
              ⟨stored, hsettle, hreads, hkept⟩ | ⟨hlong, hrefused⟩
            · rw [hsettle] at hoptions
              rw [getOption_of_options hover hoptions, hreads]
              split
              · rename_i hcond
                rw [getOption_of_options hover (hkept hcond.1), hreads]
              · rfl
            · rw [if_pos ⟨hlong, hdefault⟩]
              refine getOption_congr ?_
              generalize settleOption libs nonces s.config2.options k v = settled at *
              obtain ⟨value, accepted⟩ := settled
              cases hrefused
              exact hoptions

@[simp] theorem options_clearViewers (s : Statics) :
    s.clearViewers.config2.options = s.config2.options := rfl

/-- `set_option` changes one key. -/
theorem get?_setOption_other {nonce : Nat} {j : String} (hj : j ≠ k) :
    (setOption libs settings nonce k v s).config2.options.get? j = s.config2.options.get? j := by
  have herase : (s.config2.options.erase k).get? j = s.config2.options.get? j := by
    rw [OrdMap.get?_erase, if_neg hj]
  have hclear : ∀ (P : Prop) [Decidable P] (options : OptionMap),
      (if P then (s.setOptionMap options).clearViewers else s.setOptionMap options).config2.options =
        options := by
    intro P _ options
    split <;> rfl
  unfold setOption
  simp only
  split
  · split
    · rw [hclear]
      exact herase
    · rfl
  · split
    · rfl
    · split
      · rfl
      · split
        · rw [hclear]
          split
          · exact herase
          · rw [OrdMap.get?_insert, if_neg hj]
        · rfl

/-- What `get_option` gives after `set_option` of an accepted value. -/
def afterSetOption (libs : ConfigLibs) (settings : Settings) (k v : String) : String :=
  match settings.overwrite.get? k with
  | some o => plaintextOptionValue libs.crypt k o
  | none => plaintextOptionValue libs.crypt k v

theorem getOption_setOption (hideal : libs.crypt.Ideal) (nonce : Nat) (s : Statics) (hv : v ≠ "")
    (hplain : PlainText libs k v) (haccepted : ¬ TooLong libs k v) :
    getOption libs settings k (setOption libs settings nonce k v s) =
      afterSetOption libs settings k v := by
  unfold afterSetOption
  cases hover : settings.overwrite.get? k with
  | some o => exact getOption_of_overwrite hover
  | none =>
      dsimp only
      have hclear : ∀ (P : Prop) [Decidable P] (options : OptionMap),
          (if P then (s.setOptionMap options).clearViewers
            else s.setOptionMap options).config2.options = options := by
        intro P _ options
        split <;> rfl
      by_cases hdefault : settings.default.get? k = some v
      · -- the value is taken out, and the default is read
        have hnone : (setOption libs settings nonce k v s).config2.options.get? k = none := by
          unfold setOption
          rw [if_pos (by rw [isOptionCanSave_iff]; exact fun h => h.2 hdefault)]
          simp only
          split
          · rw [hclear, OrdMap.get?_erase, if_pos rfl]
          · rename_i hcontains
            exact OrdMap.contains_eq_false_iff.mp (by simpa using hcontains)
        rw [getOption_of_default hover hnone, hdefault]
        rfl
      · obtain ⟨stored, hstored, hreads, hempty⟩ := maybeEncryptOptionValue_accepted hideal nonce
          hplain (fun hk => Nat.not_lt.mp (fun h => haccepted ⟨hk, h⟩))
        have hne := plaintextOptionValue_ne_empty (k := k) hideal hv
        have hnonempty : ∀ w : String, w ≠ "" → nonEmpty w = some w := fun w hw => if_neg hw
        have hstored_ne : stored ≠ "" := fun h => hne (hempty h)
        suffices h : ∃ value, (setOption libs settings nonce k v s).config2.options.get? k =
            some value ∧ plaintextOptionValue libs.crypt k value =
              plaintextOptionValue libs.crypt k v by
          obtain ⟨value, hvalue, hsame⟩ := h
          rw [getOption_of_options hover hvalue, hsame]
        unfold setOption
        rw [if_neg (by rw [not_not, isOptionCanSave_iff]; exact ⟨hover, hdefault⟩)]
        simp only
        rw [hnonempty _ hne, hstored]
        dsimp only
        rw [hnonempty _ hstored_ne]
        split
        · rename_i hprevious
          obtain ⟨value, hvalue, hsame⟩ := Option.map_eq_some_iff.mp hprevious
          exact ⟨value, (Option.filter_eq_some_iff.mp hvalue).1, hsame⟩
        · split
          · rw [hclear, OrdMap.get?_insert, if_pos rfl]
            exact ⟨stored, rfl, hreads⟩
          · rename_i hget
            exact ⟨stored, (not_not.mp hget).symm, hreads⟩

/-! ## All options at once -/

theorem get?_foldl_insert (entries : List (String × String))
    (hnodup : (entries.map Prod.fst).Nodup) (m : OptionMap) (k : String) :
    (entries.foldl (fun m e => m.insert e.1 e.2) m).get? k =
      ((entries.find? (fun e => decide (e.1 = k))).map Prod.snd).or (m.get? k) := by
  induction entries generalizing m with
  | nil => rfl
  | cons e rest ih =>
      rw [List.map_cons, List.nodup_cons] at hnodup
      rw [List.foldl_cons, ih hnodup.2, OrdMap.get?_insert, List.find?_cons]
      by_cases hk : e.1 = k
      · have hrest : rest.find? (fun e => decide (e.1 = k)) = none := by
          refine List.find?_eq_none.mpr (fun e' he' heq => hnodup.1 ?_)
          rw [hk, ← of_decide_eq_true heq]
          exact List.mem_map_of_mem he'
        rw [hrest, decide_eq_true hk, if_pos hk.symm]
        rfl
      · rw [decide_eq_false hk, if_neg (fun h => hk h.symm)]

theorem get?_extend (m other : OptionMap) (k : String) :
    (extend m other).get? k = (other.get? k).or (m.get? k) :=
  get?_foldl_insert other.entries other.keys_nodup m k

theorem get?_getOptions (libs : ConfigLibs) (settings : Settings) (s : Statics) (k : String) :
    (getOptions libs settings s).get? k =
      (settings.getOr s.config2.options k).map (plaintextOptionValue libs.crypt k) := by
  unfold getOptions Settings.getOr
  rw [OrdMap.get?_mapVals, get?_extend, get?_extend, Option.or_assoc]

/-- A key is in `get_options` when a layer has it, with what `get_option` gives. -/
theorem getOptions_iff (libs : ConfigLibs) (settings : Settings) (s : Statics) (k : String) :
    (getOptions libs settings s).get? k =
      if settings.overwrite.contains k ∨ s.config2.options.contains k ∨
          settings.default.contains k then
        some (getOption libs settings k s)
      else none := by
  rw [get?_getOptions]
  unfold getOption Settings.getOr OrdMap.contains
  cases settings.overwrite.get? k with
  | some o => simp
  | none =>
      cases s.config2.options.get? k with
      | some value => simp
      | none =>
          cases settings.default.get? k with
          | some d => simp
          | none => simp

/-- After a setter an option reads as the plain text of the overwritten value, else of the
value that was set, else of the default; and all options read at once are these. -/
theorem option_precedence (hideal : libs.crypt.Ideal) (settings : Settings) (s : Statics) :
    (∀ nonces m k, (∀ v, m.get? k = some v → PlainText libs k v) →
      getOption libs settings k (setOptions libs settings nonces m s) =
        afterSetOptions libs settings m k s) ∧
    (∀ nonce k v, v ≠ "" → PlainText libs k v → ¬ TooLong libs k v →
      getOption libs settings k (setOption libs settings nonce k v s) =
        afterSetOption libs settings k v) ∧
    (∀ nonce k v j, j ≠ k →
      getOption libs settings j (setOption libs settings nonce k v s) =
        getOption libs settings j s) ∧
    ∀ k, (getOptions libs settings s).get? k =
      if settings.overwrite.contains k ∨ s.config2.options.contains k ∨
          settings.default.contains k then
        some (getOption libs settings k s)
      else none :=
  ⟨fun nonces m k => getOption_setOptions hideal nonces m k s,
    fun nonce _ _ => getOption_setOption hideal nonce s,
    fun _ _ _ _ hj => getOption_congr (get?_setOption_other hj),
    getOptions_iff libs settings s⟩

theorem option_precedence_sample :
    let settings : Settings := ⟨∅, (∅ : OptionMap).insert "theme" "light"⟩
    let m : OptionMap := (∅ : OptionMap).insert keys.optionPeerPairingPassphrase "another"
    let after := setOptions markingLibs settings (fun _ => 0) m pairedStatics
    PlainText markingLibs keys.optionPeerPairingPassphrase "another" ∧
      after.config2.options.get? keys.optionPeerPairingPassphrase = some "00=another" ∧
      getOption markingLibs settings keys.optionPeerPairingPassphrase after = "another" ∧
      getOption markingLibs settings keys.optionDirectAccessPairingPassphrase after = "" ∧
      getOption markingLibs settings "theme" after = "light" := by
  intro settings m after
  have hideal : markingLibs.crypt.Ideal := Crypt.marking_ideal
  have hset := (option_precedence hideal settings pairedStatics).1 (fun _ => 0) m
  refine ⟨by decide +kernel, by decide +kernel, ?_, ?_, ?_⟩
  · exact (hset keys.optionPeerPairingPassphrase
      (fun v hv => by cases hv; decide +kernel)).trans (by decide +kernel)
  · exact (hset keys.optionDirectAccessPairingPassphrase
      (fun v hv => by cases hv)).trans (by decide +kernel)
  · exact (hset "theme" (fun v hv => by cases hv)).trans (by decide +kernel)

/-- An overwritten value that is a cipher text is not what is read, but what it decrypts to. -/
theorem overwrite_value_is_decrypted :
    let settings : Settings :=
      ⟨(∅ : OptionMap).insert keys.optionPeerPairingPassphrase "00=secret", ∅⟩
    let after := setOptions markingLibs settings (fun _ => 0) ∅ pairedStatics
    settings.overwrite.get? keys.optionPeerPairingPassphrase = some "00=secret" ∧
      plaintextOptionValue markingLibs.crypt keys.optionPeerPairingPassphrase "00=secret" =
        "secret" ∧
      markingLibs.crypt.isEncrypted "secret" = false ∧
      getOption markingLibs settings keys.optionPeerPairingPassphrase after ≠ "00=secret" := by
  decide +kernel

end HbbCommon.Config
