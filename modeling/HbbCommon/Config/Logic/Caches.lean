import HbbCommon.Base.TSys
import HbbCommon.Config.Options

/-!
# The caches of the two lists

Every operation on a list, and every change of an option that clears one, leaves its cache with
what the configuration says. `Config2::set` replaces the configuration and does not touch the
caches: they stay coherent as long as it does not change a list whose cache is synced.
-/

namespace HbbCommon.Config

open HbbCommon.Base

variable {α β : Type}

/-- A text has no more characters than bytes. -/
theorem length_le_utf8ByteSize (s : String) : s.length ≤ s.utf8ByteSize := by
  induction s using String.push_induction with
  | empty => simp
  | push s c ih =>
      rw [String.length_push, String.utf8ByteSize_push]
      have := c.utf8Size_pos
      omega

/-! ## One list -/

/-- The text of a list is read back, and starts as lists do. -/
structure JsonList.Lawful (json : JsonList α) : Prop where
  fromStr_toString : ∀ list, json.fromStr (json.toString list) = list
  head : ∀ list, (json.toString list).toList.head? = some '['

namespace DeviceList

/-- The text and the cache of a list are places of their own. -/
structure Lawful (l : DeviceList α) : Prop where
  json : l.json.Lawful
  stored_setStored : ∀ text config, l.stored (l.setStored text config) = text
  cache_setCache : ∀ cache s, l.cache (l.setCache cache s) = cache
  config2_setCache : ∀ cache s, (l.setCache cache s).config2 = s.config2

/-- What is done with one list does not touch the other. -/
structure Apart (l : DeviceList α) (l' : DeviceList β) : Prop where
  stored_setStored : ∀ text config, l'.stored (l.setStored text config) = l'.stored config
  cache_setCache : ∀ cache s, l'.cache (l.setCache cache s) = l'.cache s
  config2_setCache : ∀ cache s, (l.setCache cache s).config2 = s.config2
  cache_config2 : ∀ config (s : Statics), l'.cache { s with config2 := config } = l'.cache s

variable (l : DeviceList α) (crypt : Crypt) (now : Int64)

/-- The entries of the decrypted list in a configuration that are not outdated. -/
def current (config : Config2) : List α :=
  match l.read crypt config with
  | some (list, _) => l.keep now list
  | none => []

/-- A synced cache is what the configuration says. -/
def Coherent (s : Statics) : Prop :=
  (l.cache s).2 = true → (l.cache s).1 = l.current crypt now s.config2

variable {l crypt now} {nonce : Nat} {list : List α} {s t : Statics}

theorem keep_keep : l.keep now (l.keep now list) = l.keep now list := by
  simp [keep]

theorem toString_plain (crypt : Crypt) (hl : l.json.Lawful) (list : List α) :
    crypt.isEncrypted (l.json.toString list) = false ∧ l.json.toString list ≠ "" := by
  have hhead := hl.head list
  constructor
  · unfold Crypt.isEncrypted behindVersion
    cases hchars : (l.json.toString list).toList with
    | nil => rfl
    | cons c rest =>
        rw [hchars] at hhead
        cases hhead
        rfl
  · intro hempty
    rw [hempty] at hhead
    cases hhead

/-- A list that was stored is read back. -/
theorem read_setStored (nonce : Nat) (hideal : crypt.Ideal) (hl : l.Lawful)
    (hsize : (l.json.toString list).utf8ByteSize ≤ maxLen) (config : Config2) :
    l.read crypt (l.setStored (crypt.encryptStrOrOriginal nonce (l.json.toString list)
      passwordEncVersion maxLen) config) = some (list, false) := by
  obtain ⟨hplain, hne⟩ := toString_plain crypt hl.json list
  have hdecrypt := Crypt.decrypt_encryptStrOrOriginal nonce hideal hne hplain
    ((length_le_utf8ByteSize _).trans hsize)
  rw [read, hl.stored_setStored, hdecrypt]
  simp only [hl.json.fromStr_toString]

theorem read_of_empty {config : Config2} (h : l.stored config = "") : l.read crypt config = none := by
  rw [read, h, Crypt.decryptStrOrOriginal_empty]

/-- A list that is set is refused for its size, or it is in the cache and in the configuration. -/
theorem set_outcome (now : Int64) (nonce : Nat) (hideal : crypt.Ideal) (hl : l.Lawful)
    (list : List α) (s : Statics) :
    l.set crypt now nonce list s = s ∨
      (l.cache (l.set crypt now nonce list s) = (l.keep now list, true) ∧
        l.current crypt now (l.set crypt now nonce list s).config2 = l.keep now list) := by
  unfold set
  simp only
  split
  · exact .inl rfl
  · rename_i hsize
    right
    constructor
    · rw [writeStored, hl.cache_setCache]
    · rw [writeStored, hl.config2_setCache, current,
        read_setStored _ hideal hl (Nat.not_lt.mp hsize)]
      exact keep_keep

theorem coherent_set (hideal : crypt.Ideal) (hl : l.Lawful) (h : l.Coherent crypt now s) :
    l.Coherent crypt now (l.set crypt now nonce list s) := by
  rcases set_outcome now nonce hideal hl list s with hsame | ⟨hcache, hcurrent⟩
  · rw [hsame]
    exact h
  · intro _
    rw [hcache, hcurrent]

/-- The list that is read is the one in the configuration, and stays there. -/
theorem get_outcome (nonce : Nat) (hideal : crypt.Ideal) (hl : l.Lawful)
    (h : l.Coherent crypt now s) :
    (l.get crypt now nonce s).1 = l.current crypt now s.config2 ∧
      l.Coherent crypt now (l.get crypt now nonce s).2 := by
  unfold get
  by_cases hsynced : (l.cache s).2 = true
  · rw [if_pos hsynced]
    exact ⟨h hsynced, h⟩
  · rw [if_neg hsynced]
    cases hread : l.read crypt s.config2 with
    | none =>
        refine ⟨?_, h⟩
        rw [current, hread]
    | some read =>
        obtain ⟨list, store⟩ := read
        have hcurrent : l.current crypt now s.config2 = l.keep now list := by
          rw [current, hread]
        refine ⟨hcurrent.symm, fun _ => ?_⟩
        rw [hl.cache_setCache, hl.config2_setCache]
        split
        · rcases set_outcome now nonce hideal hl (l.keep now list) s with
            hsame | ⟨-, hkept⟩
          · rw [hsame, hcurrent]
          · rw [hkept, keep_keep]
        · exact hcurrent.symm

/-! ## The other list -/

/-- The text and the cache of a list are as they were. -/
def Untouched (l : DeviceList α) (s t : Statics) : Prop :=
  l.cache t = l.cache s ∧ l.stored t.config2 = l.stored s.config2

theorem Untouched.refl : l.Untouched s s := ⟨rfl, rfl⟩

theorem Untouched.trans {u : Statics} (hst : l.Untouched s t) (htu : l.Untouched t u) :
    l.Untouched s u :=
  ⟨htu.1.trans hst.1, htu.2.trans hst.2⟩

theorem Untouched.current (h : l.Untouched s t) :
    l.current crypt now t.config2 = l.current crypt now s.config2 := by
  unfold DeviceList.current read
  rw [h.2]

theorem Untouched.coherent (h : l.Untouched s t) (hs : l.Coherent crypt now s) :
    l.Coherent crypt now t := by
  unfold Coherent
  rw [h.1, h.current]
  exact hs

theorem untouched_set {l' : DeviceList β} (hapart : l.Apart l') (list : List α) (s : Statics) :
    l'.Untouched s (l.set crypt now nonce list s) := by
  unfold set
  simp only
  split
  · exact .refl
  · constructor
    · rw [writeStored, hapart.cache_setCache, hapart.cache_config2]
    · rw [writeStored, hapart.config2_setCache]
      exact hapart.stored_setStored _ _

theorem untouched_get {l' : DeviceList β} (hapart : l.Apart l') (s : Statics) :
    l'.Untouched s (l.get crypt now nonce s).2 := by
  unfold get
  split
  · exact .refl
  · split
    · exact .refl
    · rename_i list store _
      have hcache : ∀ t, l'.Untouched s t →
          l'.Untouched s (l.setCache (l.keep now list, true) t) := by
        rintro t ⟨hcache, hstored⟩
        constructor
        · rw [hapart.cache_setCache, hcache]
        · rw [hapart.config2_setCache, hstored]
      refine hcache _ ?_
      split
      · exact untouched_set hapart _ s
      · exact .refl

end DeviceList

/-! ## Both lists -/

/-- What the configuration relies on of its libraries. -/
structure ConfigLibs.Lawful (libs : ConfigLibs) : Prop where
  crypt : libs.crypt.Ideal
  devices : libs.devices.Lawful
  viewers : libs.viewers.Lawful

section

variable {libs : ConfigLibs} {settings : Settings} {now : Int64} {s t : Statics}

theorem trustedDevices_lawful (h : libs.Lawful) : (trustedDevices libs).Lawful :=
  ⟨h.devices, fun _ _ => rfl, fun _ _ => rfl, fun _ _ => rfl⟩

theorem pairedViewers_lawful (h : libs.Lawful) : (pairedViewers libs).Lawful :=
  ⟨h.viewers, fun _ _ => rfl, fun _ _ => rfl, fun _ _ => rfl⟩

theorem devices_apart : (trustedDevices libs).Apart (pairedViewers libs) :=
  ⟨fun _ _ => rfl, fun _ _ => rfl, fun _ _ => rfl, fun _ _ => rfl⟩

theorem viewers_apart : (pairedViewers libs).Apart (trustedDevices libs) :=
  ⟨fun _ _ => rfl, fun _ _ => rfl, fun _ _ => rfl, fun _ _ => rfl⟩

/-- Both caches say what the configuration says. -/
structure Coherent (libs : ConfigLibs) (now : Int64) (s : Statics) : Prop where
  devices : (trustedDevices libs).Coherent libs.crypt now s
  viewers : (pairedViewers libs).Coherent libs.crypt now s

theorem coherent_setDevices (hlibs : libs.Lawful) (h : Coherent libs now s) (nonce : Nat)
    (list : List TrustedDevice) :
    Coherent libs now ((trustedDevices libs).set libs.crypt now nonce list s) :=
  ⟨DeviceList.coherent_set hlibs.crypt (trustedDevices_lawful hlibs) h.devices,
    (DeviceList.untouched_set devices_apart list s).coherent h.viewers⟩

theorem coherent_setViewers (hlibs : libs.Lawful) (h : Coherent libs now s) (nonce : Nat)
    (list : List PairedViewer) :
    Coherent libs now ((pairedViewers libs).set libs.crypt now nonce list s) :=
  ⟨(DeviceList.untouched_set viewers_apart list s).coherent h.devices,
    DeviceList.coherent_set hlibs.crypt (pairedViewers_lawful hlibs) h.viewers⟩

theorem coherent_getDevices (hlibs : libs.Lawful) (h : Coherent libs now s) (nonce : Nat) :
    Coherent libs now ((trustedDevices libs).get libs.crypt now nonce s).2 :=
  ⟨(DeviceList.get_outcome _ hlibs.crypt (trustedDevices_lawful hlibs) h.devices).2,
    (DeviceList.untouched_get devices_apart s).coherent h.viewers⟩

theorem coherent_getViewers (hlibs : libs.Lawful) (h : Coherent libs now s) (nonce : Nat) :
    Coherent libs now ((pairedViewers libs).get libs.crypt now nonce s).2 :=
  ⟨(DeviceList.untouched_get viewers_apart s).coherent h.devices,
    (DeviceList.get_outcome _ hlibs.crypt (pairedViewers_lawful hlibs) h.viewers).2⟩

/-! ## Changes of the options -/

/-- A change of the options, and what it may clear. -/
def OptionChange (s t : Statics) : Prop :=
  t = s ∨ ∃ options, t = s.setOptionMap options ∨ t = (s.setOptionMap options).clearViewers

theorem setOption_change (nonce : Nat) (k v : String) (s : Statics) :
    OptionChange s (setOption libs settings nonce k v s) := by
  -- an option map that is stored, with or without the viewers cleared
  have hstore : ∀ (options : OptionMap) (clear : Prop) [Decidable clear], OptionChange s
      (if clear then (s.setOptionMap options).clearViewers else s.setOptionMap options) := by
    intro options clear _
    split
    · exact .inr ⟨options, .inr rfl⟩
    · exact .inr ⟨options, .inl rfl⟩
  unfold setOption
  simp only
  split
  · split
    · exact hstore _ _
    · exact .inl rfl
  · split
    · exact .inl rfl
    · split
      · exact .inl rfl
      · split
        · exact hstore _ _
        · exact .inl rfl

theorem writeOptions_change (libs : ConfigLibs) (options previous : OptionMap) (s : Statics) :
    OptionChange s (writeOptions libs options previous s) := by
  unfold writeOptions
  simp only
  split
  · exact .inl rfl
  · split
    · exact .inr ⟨_, .inr rfl⟩
    · exact .inr ⟨_, .inl rfl⟩

theorem setOptions_change (nonces : String → Nat) (v : OptionMap) (s : Statics) :
    OptionChange s (setOptions libs settings nonces v s) :=
  writeOptions_change _ _ _ s

theorem OptionChange.coherent (h : OptionChange s t) (hs : Coherent libs now s) :
    Coherent libs now t := by
  rcases h with rfl | ⟨options, rfl | rfl⟩
  · exact hs
  · exact ⟨hs.devices, hs.viewers⟩
  · refine ⟨hs.devices, fun _ => ?_⟩
    show [] = (pairedViewers libs).current libs.crypt now
      ((s.setOptionMap options).clearViewers).config2
    rw [DeviceList.current, DeviceList.read_of_empty rfl]

end

/-! ## Calls -/

/-- A call, with the nonces of what it encrypts. -/
inductive Call
  | config2Set (config : Config2)
  | setOption (nonce : Nat) (k v : String)
  | setOptions (nonces : String → Nat) (v : OptionMap)
  | getTrustedDevices (nonces : Nat → Nat)
  | addTrustedDevice (nonces : Nat → Nat) (device : TrustedDevice)
  | removeTrustedDevices (nonces : Nat → Nat) (hwids : List Bytes)
  | clearTrustedDevices (nonces : Nat → Nat)
  | getPairedViewers (nonces : Nat → Nat)
  | addPairedViewer (nonces : Nat → Nat) (viewer : PairedViewer)
  | removePairedViewers (nonces : Nat → Nat) (signPks : List Bytes)
  | clearPairedViewers (nonces : Nat → Nat)
  | hasPairedViewer (nonces : Nat → Nat) (scope id : String) (signPk : Bytes)

section

variable (libs : ConfigLibs) (settings : Settings) (now : Int64)

def Call.run : Call → Statics → Statics
  | .config2Set config, s => (config.set s).2
  | .setOption nonce k v, s => HbbCommon.Config.setOption libs settings nonce k v s
  | .setOptions nonces v, s => HbbCommon.Config.setOptions libs settings nonces v s
  | .getTrustedDevices nonces, s => (HbbCommon.Config.getTrustedDevices libs now nonces s).2
  | .addTrustedDevice nonces device, s =>
      HbbCommon.Config.addTrustedDevice libs now nonces device s
  | .removeTrustedDevices nonces hwids, s =>
      HbbCommon.Config.removeTrustedDevices libs now nonces hwids s
  | .clearTrustedDevices nonces, s => HbbCommon.Config.clearTrustedDevices libs now nonces s
  | .getPairedViewers nonces, s => (HbbCommon.Config.getPairedViewers libs now nonces s).2
  | .addPairedViewer nonces viewer, s => HbbCommon.Config.addPairedViewer libs now nonces viewer s
  | .removePairedViewers nonces signPks, s =>
      HbbCommon.Config.removePairedViewers libs now nonces signPks s
  | .clearPairedViewers nonces, s => HbbCommon.Config.clearPairedViewers libs now nonces s
  | .hasPairedViewer nonces scope id signPk, s =>
      (HbbCommon.Config.hasPairedViewer libs now nonces scope id signPk s).2

/-- Calls one at a time, from a process that has just started. -/
def calls (config : Config2) : TSys Statics Call where
  init := { config2 := config, trustedDevices := ([], false), pairedViewers := ([], false) }
  step s call := some (call.run libs settings now s)

/-- `Config2::set` does not change a list whose cache is synced: the entries that are not outdated
are the ones the configuration had. -/
def Call.KeepsLists (s : Statics) : Call → Prop
  | .config2Set config =>
      (s.trustedDevices.2 = true → (trustedDevices libs).current libs.crypt now config =
        (trustedDevices libs).current libs.crypt now s.config2) ∧
      (s.pairedViewers.2 = true → (pairedViewers libs).current libs.crypt now config =
        (pairedViewers libs).current libs.crypt now s.config2)
  | _ => True

/-- The caches are coherent, and what is asked is answered from the configuration. -/
structure AnswersFromConfig (s : Statics) : Prop where
  coherent : Coherent libs now s
  trustedDevices : ∀ nonces, (HbbCommon.Config.getTrustedDevices libs now nonces s).1 =
    (trustedDevices libs).current libs.crypt now s.config2
  hasPairedViewer : ∀ nonces scope id signPk, scope ≠ "" → signPk ≠ [] →
    (HbbCommon.Config.hasPairedViewer libs now nonces scope id signPk s).1 =
      hasViewer now scope id signPk ((pairedViewers libs).current libs.crypt now s.config2)

end

section

variable {libs : ConfigLibs} {settings : Settings} {now : Int64} {s : Statics}

theorem answersFromConfig_iff (hlibs : libs.Lawful) :
    AnswersFromConfig libs now s ↔ Coherent libs now s := by
  refine ⟨AnswersFromConfig.coherent, fun h => ⟨h, fun nonces => ?_, ?_⟩⟩
  · exact (DeviceList.get_outcome _ hlibs.crypt (trustedDevices_lawful hlibs) h.devices).1
  · intro nonces scope id signPk hscope hsignPk
    have hget := (DeviceList.get_outcome (nonces 0) hlibs.crypt
      (pairedViewers_lawful hlibs) h.viewers).1
    unfold HbbCommon.Config.hasPairedViewer
    rw [if_neg (by simp [hscope, hsignPk])]
    show hasViewer now scope id signPk
      ((pairedViewers libs).get libs.crypt now (nonces 0) s).1 = _
    rw [hget]

/-- A call keeps the caches coherent exactly when it does not change a cached list behind its
cache. -/
theorem coherent_run_iff (hlibs : libs.Lawful) (h : Coherent libs now s) (call : Call) :
    Coherent libs now (call.run libs settings now s) ↔ call.KeepsLists libs now s := by
  cases call with
  | config2Set config =>
      have hset : ((config.set s).2).config2 = config ∧
          ((config.set s).2).trustedDevices = s.trustedDevices ∧
          ((config.set s).2).pairedViewers = s.pairedViewers := by
        unfold Config2.set
        split
        · rename_i hsame
          exact ⟨hsame, rfl, rfl⟩
        · exact ⟨rfl, rfl, rfl⟩
      obtain ⟨hconfig, hdevices, hviewers⟩ := hset
      -- each cache is what the old configuration said
      have hlist : ∀ {α : Type} (l : DeviceList α), l.cache (config.set s).2 = l.cache s →
          l.Coherent libs.crypt now s →
          (l.Coherent libs.crypt now (config.set s).2 ↔ ((l.cache s).2 = true →
            l.current libs.crypt now config = l.current libs.crypt now s.config2)) := by
        intro α l hcache hcoherent
        unfold DeviceList.Coherent at hcoherent ⊢
        rw [hcache, hconfig]
        constructor
        · intro hnew hsynced
          rw [← hnew hsynced, hcoherent hsynced]
        · intro hkeeps hsynced
          rw [hkeeps hsynced, hcoherent hsynced]
      constructor
      · rintro ⟨hd, hv⟩
        exact ⟨(hlist (trustedDevices libs) hdevices h.devices).mp hd,
          (hlist (pairedViewers libs) hviewers h.viewers).mp hv⟩
      · rintro ⟨hd, hv⟩
        exact ⟨(hlist (trustedDevices libs) hdevices h.devices).mpr hd,
          (hlist (pairedViewers libs) hviewers h.viewers).mpr hv⟩
  | setOption nonce k v => exact iff_of_true ((setOption_change nonce k v s).coherent h) trivial
  | setOptions nonces v => exact iff_of_true ((setOptions_change nonces v s).coherent h) trivial
  | getTrustedDevices nonces => exact iff_of_true (coherent_getDevices hlibs h _) trivial
  | addTrustedDevice nonces device =>
      exact iff_of_true (coherent_setDevices hlibs (coherent_getDevices hlibs h _) _ _) trivial
  | removeTrustedDevices nonces hwids =>
      exact iff_of_true (coherent_setDevices hlibs (coherent_getDevices hlibs h _) _ _) trivial
  | clearTrustedDevices nonces => exact iff_of_true (coherent_setDevices hlibs h _ _) trivial
  | getPairedViewers nonces => exact iff_of_true (coherent_getViewers hlibs h _) trivial
  | addPairedViewer nonces viewer =>
      refine iff_of_true ?_ trivial
      show Coherent libs now (HbbCommon.Config.addPairedViewer libs now nonces viewer s)
      unfold HbbCommon.Config.addPairedViewer
      split
      · exact h
      · exact coherent_setViewers hlibs (coherent_getViewers hlibs h _) _ _
  | removePairedViewers nonces signPks =>
      exact iff_of_true (coherent_setViewers hlibs (coherent_getViewers hlibs h _) _ _) trivial
  | clearPairedViewers nonces => exact iff_of_true (coherent_setViewers hlibs h _ _) trivial
  | hasPairedViewer nonces scope id signPk =>
      refine iff_of_true ?_ trivial
      show Coherent libs now (HbbCommon.Config.hasPairedViewer libs now nonces scope id signPk s).2
      unfold HbbCommon.Config.hasPairedViewer
      split
      · exact h
      · exact coherent_getViewers hlibs h _

/-- Everything asked along a run is answered from the configuration exactly when no call of the
run changes a cached list behind its cache. -/
theorem caches_coherent_iff (hlibs : libs.Lawful) (config : Config2) (run : List Call) :
    (∀ before s, before <+: run → (calls libs settings now config).run before = some s →
      AnswersFromConfig libs now s) ↔
    (calls libs settings now config).Follows (fun s call => call.KeepsLists libs now s)
      (calls libs settings now config).init run := by
  have hinit : Coherent libs now (calls libs settings now config).init :=
    ⟨fun h => absurd h (by simp [calls, trustedDevices]),
      fun h => absurd h (by simp [calls, pairedViewers])⟩
  rw [TSys.follows_iff (I := Coherent libs now) (fun s call => ⟨_, rfl⟩) ?_ hinit]
  · simp only [answersFromConfig_iff hlibs]
    rfl
  · intro s call t hs hstep
    cases hstep
    exact coherent_run_iff hlibs hs call

end

/-! ## Samples -/

/-- The texts of some lists as `serde_json` writes them; every other list has some text of its
own. -/
noncomputable def knownJson [DecidableEq α] [Countable α] (known : List (List α × String)) :
    JsonList α :=
  let code := Classical.choose (exists_injective_nat (List α))
  let toString list :=
    if list = [] then "[]"
    else match known.lookup list with
      | some text => text
      | none => String.ofList ('[' :: '+' :: List.replicate (code list) '+')
  { toString, fromStr := Function.invFun toString }

theorem knownJson_lawful [DecidableEq α] [Countable α] {known : List (List α × String)}
    (htext : ∀ e ∈ known, e.2.toList.take 2 = ['[', '{'])
    (hdiffer : ∀ e ∈ known, ∀ e' ∈ known, e.2 = e'.2 → e.1 = e'.1) :
    (knownJson known).Lawful := by
  have hcode := Classical.choose_spec (exists_injective_nat (List α))
  -- the three kinds of texts differ in their second characters
  have hkinds : ∀ list, (list = [] ∧ ((knownJson known).toString list).toList = ['[', ']']) ∨
      (∃ e ∈ known, list = e.1 ∧ (knownJson known).toString list = e.2 ∧
        ∃ rest, ((knownJson known).toString list).toList = '[' :: '{' :: rest) ∨
      ((knownJson known).toString list).toList = '[' :: '+' :: List.replicate
        (Classical.choose (exists_injective_nat (List α)) list) '+' := by
    intro list
    unfold knownJson
    simp only
    split
    · exact .inl ⟨‹_›, rfl⟩
    · split
      · rename_i text hlookup
        obtain ⟨e, he, hlist, rfl⟩ : ∃ e ∈ known, list = e.1 ∧ text = e.2 := by
          obtain ⟨before, after, rfl, -⟩ := List.lookup_eq_some_iff.mp hlookup
          exact ⟨(list, text), by simp, rfl, rfl⟩
        refine .inr (.inl ⟨e, he, hlist, rfl, ?_⟩)
        match e.2.toList, htext e he with
        | _ :: _ :: rest, h => cases h; exact ⟨rest, rfl⟩
      · exact .inr (.inr (String.toList_ofList ..))
  constructor
  · refine Function.leftInverse_invFun (fun a b hab => ?_)
    have hab : (knownJson known).toString a = (knownJson known).toString b := hab
    have hchars := congrArg String.toList hab
    rcases hkinds a with ⟨ha, hchars_a⟩ | ⟨e, he, ha, htext_a, rest, hchars_a⟩ | hchars_a <;>
      rcases hkinds b with ⟨hb, hchars_b⟩ | ⟨e', he', hb, htext_b, rest', hchars_b⟩ | hchars_b <;>
      rw [hchars_a, hchars_b] at hchars
    · rw [ha, hb]
    · simp at hchars
    · simp at hchars
    · simp at hchars
    · rw [ha, hb]
      exact hdiffer e he e' he' (by rw [← htext_a, ← htext_b, hab])
    · simp at hchars
    · simp at hchars
    · simp at hchars
    · refine hcode ?_
      simpa using congrArg List.length hchars
  · intro list
    rcases hkinds list with ⟨-, hchars⟩ | ⟨_, _, _, _, _, hchars⟩ | hchars <;>
      rw [hchars] <;> rfl

instance instCountableChar : Countable Char :=
  Function.Injective.countable (f := Char.toNat) (fun _ _ h => Char.toNat_inj.mp h)

instance instCountableString : Countable String :=
  Function.Injective.countable (f := String.toList) (fun _ _ h => String.toList_inj.mp h)

instance : Countable TrustedDevice :=
  Function.Injective.countable (f := fun d => (d.hwid, d.time, d.id, d.name, d.platform))
    (fun a b h => by
      cases a
      cases b
      simpa using h)

instance : Countable PairedViewer :=
  Function.Injective.countable
    (f := fun d => (d.signPk, d.time, d.id, d.name, d.platform, d.scope))
    (fun a b h => by
      cases a
      cases b
      simpa using h)

def sampleDevice : TrustedDevice := ⟨[7], 0, "laptop", "office", "Linux"⟩

def sampleViewer : PairedViewer := ⟨[9], 0, "phone", "home", "Android", "direct"⟩

def anotherViewer : PairedViewer := ⟨[5], 0, "tablet", "car", "iOS", "direct"⟩

noncomputable def sampleLibs : ConfigLibs where
  crypt := .marking
  devices := knownJson [([sampleDevice],
    "[\x7b\"hwid\":[7],\"time\":0,\"id\":\"laptop\",\"name\":\"office\"," ++
      "\"platform\":\"Linux\"\x7d]")]
  viewers :=
    let sample := "\x7b\"sign_pk\":[9],\"time\":0,\"id\":\"phone\",\"name\":\"home\"," ++
      "\"platform\":\"Android\",\"scope\":\"direct\"\x7d"
    let another := "\x7b\"sign_pk\":[5],\"time\":0,\"id\":\"tablet\",\"name\":\"car\"," ++
      "\"platform\":\"iOS\",\"scope\":\"direct\"\x7d"
    knownJson [([sampleViewer], "[" ++ sample ++ "]"),
      ([sampleViewer, anotherViewer], "[" ++ sample ++ "," ++ another ++ "]")]

theorem sampleLibs_lawful : sampleLibs.Lawful :=
  ⟨Crypt.marking_ideal, knownJson_lawful (by decide +kernel) (by decide +kernel),
    knownJson_lawful (by decide +kernel) (by decide +kernel)⟩

def emptyConfig : Config2 where
  rendezvousServer := ""
  natType := 0
  serial := 0
  unlockPin := ""
  trustedDevices := ""
  pairedViewers := ""
  socks := none
  options := ∅

/-- The configuration is replaced, a device is added and the list is read. -/
def sampleCalls : List Call :=
  [.config2Set { emptyConfig with serial := 1 }, .addTrustedDevice id sampleDevice,
    .getTrustedDevices id]

theorem caches_coherent_sample :
    ((calls sampleLibs ⟨∅, ∅⟩ 0 emptyConfig).run sampleCalls).isSome = true ∧
      ∀ before s, before <+: sampleCalls →
        (calls sampleLibs ⟨∅, ∅⟩ 0 emptyConfig).run before = some s →
        AnswersFromConfig sampleLibs 0 s := by
  refine ⟨rfl, (caches_coherent_iff sampleLibs_lawful emptyConfig _).mpr ?_⟩
  refine ⟨⟨fun h => ?_, fun h => ?_⟩, fun _ _ => ⟨trivial, fun _ _ => ⟨trivial, fun _ _ => ?_⟩⟩⟩
  · cases h
  · cases h
  · trivial

/-- A list of devices that is emptied through `Config2::set` is still answered from the cache. -/
theorem emptied_list_is_answered :
    ∃ s, (calls sampleLibs ⟨∅, ∅⟩ 0 emptyConfig).run
        [.addTrustedDevice id sampleDevice, .config2Set emptyConfig] = some s ∧
      s.config2.trustedDevices = "" ∧ s.trustedDevices.2 = true ∧
      (trustedDevices sampleLibs).current sampleLibs.crypt 0 s.config2 = [] ∧
      (getTrustedDevices sampleLibs 0 id s).1 = [sampleDevice] := by
  refine ⟨_, rfl, ?_⟩
  decide +kernel

end HbbCommon.Config
