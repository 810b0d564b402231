import HbbCommon.Transport.Pairing

/-!
# Writing a trusted peer

The temporary file of a record is no record, so a call that fails changes no record. It
leaves the temporary file when its permissions cannot be set, and then no later call of the
process writes the record.
-/

namespace HbbCommon.Transport

open HbbCommon.Base

/-! ## Names -/

/-- A name with one dot behind its stem is split there. -/
theorem splitAtDot_append {stem ext : List Char} (hstem : stem ≠ []) (hext : '.' ∉ ext) :
    splitAtDot (.ofList (stem ++ '.' :: ext)) = some (.ofList stem, .ofList ext) := by
  have hall : ∀ c ∈ ext.reverse, decide (c ≠ '.') = true := by
    intro c hc
    rw [decide_eq_true_iff]
    rintro rfl
    exact hext (List.mem_reverse.mp hc)
  have hdrop : ((stem ++ '.' :: ext).reverse).dropWhile (· ≠ '.') = '.' :: stem.reverse := by
    rw [List.reverse_append, List.reverse_cons, List.append_assoc, List.dropWhile_append_of_pos hall]
    rfl
  have htake : ((stem ++ '.' :: ext).reverse).takeWhile (· ≠ '.') = ext.reverse := by
    rw [List.reverse_append, List.reverse_cons, List.append_assoc, List.takeWhile_append_of_pos hall]
    simp
  obtain ⟨last, before, hlast⟩ := List.exists_cons_of_ne_nil
    (List.reverse_eq_nil_iff.not.mpr hstem)
  unfold splitAtDot
  rw [String.toList_ofList, hdrop, htake, hlast]
  simp [← hlast]

theorem splitAtDot_string {stem ext : String} (hstem : stem ≠ "") (hext : '.' ∉ ext.toList) :
    splitAtDot (stem ++ "." ++ ext) = some (stem, ext) := by
  have hlist : stem ++ "." ++ ext = .ofList (stem.toList ++ '.' :: ext.toList) := by
    apply String.toList_injective
    simp
  rw [hlist, splitAtDot_append (by simpa using hstem) hext]
  simp

theorem dot_notMem_hexLower (input : Bytes) : '.' ∉ (hexLower input).toList := by
  have hdigit : ∀ n, hexDigit n ≠ '.' := by
    intro n
    by_cases hn : n < 16
    · interval_cases n <;> decide
    · rw [hexDigit, List.getD_eq_default _ _ (by simpa using hn)]
      decide
  simp [hexLower, (hdigit _).symm]

theorem hexDigit_injOn {m n : Nat} (hm : m < 16) (hn : n < 16) (h : hexDigit m = hexDigit n) :
    m = n := by
  have hall : ∀ m < 16, ∀ n < 16, hexDigit m = hexDigit n → m = n := by decide
  exact hall m hm n hn h

theorem hexLower_injective : Function.Injective hexLower := by
  intro a b h
  have hlist : a.flatMap (fun b => [hexDigit (b.toNat / 16), hexDigit (b.toNat % 16)]) =
      b.flatMap (fun b => [hexDigit (b.toNat / 16), hexDigit (b.toNat % 16)]) := by
    simpa [hexLower] using congrArg String.toList h
  clear h
  induction a generalizing b with
  | nil =>
      cases b with
      | nil => rfl
      | cons y ys => cases hlist
  | cons x xs ih =>
      cases b with
      | nil => cases hlist
      | cons y ys =>
          simp only [List.flatMap_cons, List.cons_append, List.nil_append,
            List.cons.injEq] at hlist
          obtain ⟨hhigh, hlow, hrest⟩ := hlist
          have hx := x.toNat_lt
          have hy := y.toNat_lt
          have hdiv := hexDigit_injOn (by omega) (by omega) hhigh
          have hmod := hexDigit_injOn (by omega) (by omega) hlow
          have hxy : x = y := UInt8.toNat_inj.mp (by omega)
          rw [hxy, ih hrest]

theorem hexLower_ne_empty {input : Bytes} (h : input ≠ []) : hexLower input ≠ "" := by
  obtain ⟨b, rest, rfl⟩ := List.exists_cons_of_ne_nil h
  simp [hexLower]

/-- The suffix of the temporary files of a process. -/
def temporarySuffix (pid : Nat) : String := "tmp-" ++ toString pid

theorem dot_notMem_temporarySuffix (pid : Nat) : '.' ∉ (temporarySuffix pid).toList := by
  have hdigits : '.' ∉ (toString pid).toList := by
    intro hmem
    have := Nat.isDigit_of_mem_toDigits (by decide) (by decide) (c := '.') (n := pid) (b := 10) (by simpa using hmem)
    cases this
  simpa [temporarySuffix] using hdigits

namespace FileTrustedPeerStore

/-- The digest of a peer id, as text. -/
def recordStem (libs : PairingLibs) (peerId : String) : String :=
  hexLower (libs.sha256 (utf8Bytes peerId)).val

/-- The file of a record. -/
def recordName (libs : PairingLibs) (peerId : String) : String := recordStem libs peerId ++ ".json"

/-- The temporary file of a record. -/
def temporaryName (libs : PairingLibs) (pid : Nat) (peerId : String) : String :=
  recordStem libs peerId ++ "." ++ temporarySuffix pid

variable (libs : PairingLibs) (pid : Nat) (peerId : String)

theorem recordStem_ne_empty : recordStem libs peerId ≠ "" := by
  refine hexLower_ne_empty (fun h => ?_)
  have hlength := (libs.sha256 (utf8Bytes peerId)).property
  rw [h] at hlength
  cases hlength

theorem splitAtDot_recordName :
    splitAtDot (recordName libs peerId) = some (recordStem libs peerId, "json") := by
  have hname : recordName libs peerId = recordStem libs peerId ++ "." ++ "json" := by
    rw [recordName, String.append_assoc]
    rfl
  rw [hname, splitAtDot_string (recordStem_ne_empty libs peerId) (by decide)]

theorem splitAtDot_temporaryName : splitAtDot (temporaryName libs pid peerId) =
    some (recordStem libs peerId, temporarySuffix pid) :=
  splitAtDot_string (recordStem_ne_empty libs peerId) (dot_notMem_temporarySuffix pid)

theorem temporaryPath_recordName :
    temporaryPath (recordName libs peerId) pid = temporaryName libs pid peerId := by
  rw [temporaryPath, withExtension, splitAtDot_recordName]
  rfl

theorem extension_recordName : extension (recordName libs peerId) = some "json" := by
  rw [extension, splitAtDot_recordName]
  rfl

theorem extension_temporaryName :
    extension (temporaryName libs pid peerId) = some (temporarySuffix pid) := by
  rw [extension, splitAtDot_temporaryName]
  rfl

/-- A temporary file is no record. -/
theorem recordName_ne_temporaryName (peerId' : String) :
    recordName libs peerId' ≠ temporaryName libs pid peerId := by
  intro h
  have hext := extension_recordName libs peerId'
  rw [h, extension_temporaryName, Option.some.injEq] at hext
  have hlist := congrArg String.toList hext
  simp [temporarySuffix] at hlist

/-- Ids have one file if they have one digest. -/
theorem recordName_eq_iff {libs : PairingLibs} {a b : String} :
    recordName libs a = recordName libs b ↔
    libs.sha256 (utf8Bytes a) = libs.sha256 (utf8Bytes b) := by
  constructor
  · intro h
    have hstem : recordStem libs a = recordStem libs b := by
      have hsplit := congrArg splitAtDot h
      rw [splitAtDot_recordName, splitAtDot_recordName] at hsplit
      exact congrArg Prod.fst (Option.some.inj hsplit)
    exact Subtype.ext (hexLower_injective hstem)
  · intro h
    rw [recordName, recordName, recordStem, recordStem, h]

/-! ## Writing a record -/

variable {libs pid peerId} {α : Type} {d : Directory} {faults : Faults} {record : TrustedPeerRecord}
  {encoded : Bytes}

@[simp] theorem exec_check (result : Except PairingError α) :
    (check result).exec d = (result, d) := rfl

@[simp] theorem exec_call (x : Effect Directory FileError α) :
    (call x).exec d = ((x.exec d).1.mapError .io, (x.exec d).2) := rfl

/-- What the directory is when the clean-up is done, where the temporary file was not there before
and got the data. -/
def leftBehind (faults : Faults) (d : Directory) (temporary : String) (data : Bytes) : Directory :=
  if faults.remove then d.insert temporary data else d

/-- A valid record has a file name and a text. -/
structure IsWritable (libs : PairingLibs) (record : TrustedPeerRecord) (encoded : Bytes) : Prop where
  valid : record.validate libs = .ok ()
  text : libs.toVecPretty (.fromRecord libs record) = some encoded

theorem validatePeerId_of_validate (h : record.validate libs = .ok ()) :
    validatePeerId record.peerId = .ok () := by
  unfold TrustedPeerRecord.validate at h
  cases hid : validatePeerId record.peerId with
  | error error =>
      rw [hid] at h
      cases h
  | ok none => rfl

theorem recordPath_of_valid (libs : PairingLibs) (h : validatePeerId peerId = .ok ()) :
    recordPath libs peerId = .ok (recordName libs peerId) := by
  rw [recordPath, h]
  rfl

theorem exec_cleanUp (temporary : String) (data : Bytes) (error : FileError)
    (hnew : d.get? temporary = none) :
    (cleanUp faults temporary error).exec (d.insert temporary data) =
      (.error (.io error), leftBehind faults d temporary data) := by
  cases hremove : faults.remove with
  | true =>
      simp [cleanUp, Effect.exec_bind, leftBehind, hremove, Directory.unlessFault, Except.mapError]
  | false =>
      simp [cleanUp, Effect.exec_bind, leftBehind, hremove, Directory.unlessFault,
        Directory.removeFile, OrdMap.contains, Except.mapError, OrdMap.erase_insert,
        OrdMap.erase_eq_of_get?_none hnew]

theorem exec_writeAndSync (name : String) (data : Bytes) :
    (writeAndSync faults name data).exec d =
      if faults.writeAll then (.error .other, d.insert name faults.written)
      else if faults.syncAll then (.error .other, d.insert name data)
      else (.ok (), d.insert name data) := by
  cases hwrite : faults.writeAll with
  | true => simp [writeAndSync, hwrite, Effect.exec_bind, Directory.writeAll]
  | false =>
      cases hsync : faults.syncAll with
      | true =>
          simp [writeAndSync, hwrite, hsync, Effect.exec_bind, Directory.writeAll,
            Directory.unlessFault]
      | false => simp [writeAndSync, hwrite, hsync, Directory.writeAll, Directory.unlessFault]

/-- The temporary file takes the place of the record. -/
theorem exec_rename {temporary path : String} (data : Bytes) (hnew : d.get? temporary = none) :
    (Directory.rename temporary path).exec (d.insert temporary data) =
      (.ok (), d.insert path data) := by
  simp [Directory.rename, OrdMap.erase_insert, OrdMap.erase_eq_of_get?_none hnew]

/-- A record is written, or the first call that fails decides what is left. -/
theorem exec_writeRecord (h : IsWritable libs record encoded)
    (hnew : d.get? (temporaryName libs pid record.peerId) = none) :
    (writeRecord libs pid faults record).exec d =
      let temporary := temporaryName libs pid record.peerId
      if faults.createNew then (.error (.io .other), d)
      else if faults.setPermissions then (.error (.io .other), d.insert temporary [])
      else if faults.writeAll then
        (.error (.io .other), leftBehind faults d temporary faults.written)
      else if faults.syncAll ∨ faults.rename then
        (.error (.io .other), leftBehind faults d temporary encoded)
      else (.ok (), d.insert (recordName libs record.peerId) encoded) := by
  have hpath := recordPath_of_valid libs (validatePeerId_of_validate h.valid)
  have hcontains : d.contains (temporaryName libs pid record.peerId) = false :=
    OrdMap.contains_eq_false_iff.mpr hnew
  simp only [writeRecord, Effect.exec_bind, exec_check, exec_call, h.valid, hpath, h.text,
    temporaryPath_recordName, Directory.unlessFault]
  cases hcreate : faults.createNew with
  | true => simp [Except.mapError]
  | false =>
      simp only [Directory.createNew, Effect.exec_ofFun, hcontains, Bool.false_eq_true, if_false,
        Except.mapError]
      cases hperm : faults.setPermissions with
      | true => simp
      | false =>
          simp only [Bool.false_eq_true, if_false, Effect.exec_pure, Effect.exec_attempt,
            exec_writeAndSync, OrdMap.insert_insert]
          cases hwrite : faults.writeAll with
          | true => simp [exec_cleanUp _ _ _ hnew]
          | false =>
              cases hsync : faults.syncAll with
              | true => simp [exec_cleanUp _ _ _ hnew]
              | false =>
                  cases hrename : faults.rename with
                  | true => simp [Effect.exec_bind, Except.mapError, exec_cleanUp _ _ _ hnew]
                  | false => simp [Effect.exec_bind, Except.mapError, exec_rename _ hnew]

/-! ## Calls that fail -/

/-- The calls that write a record. -/
inductive WriteCall
  | insert
  | replaceAuthenticated
  deriving DecidableEq

def WriteCall.run (call : WriteCall) (libs : PairingLibs) (pid : Nat) (faults : Faults)
    (record : TrustedPeerRecord) : StoreM Unit :=
  match call with
  | .insert => FileTrustedPeerStore.insert libs pid faults record
  | .replaceAuthenticated => FileTrustedPeerStore.replaceAuthenticated libs pid faults record

/-- Only a replacement may find a record of the peer. -/
def Admits (call : WriteCall) (libs : PairingLibs) (record : TrustedPeerRecord) (d : Directory) :
    Prop :=
  call = .insert → d.get? (recordName libs record.peerId) = none

/-- A call can write the record when it meets no failure. -/
structure CanWrite (call : WriteCall) (libs : PairingLibs) (pid : Nat)
    (record : TrustedPeerRecord) (d : Directory) : Prop where
  writable : ∃ encoded, IsWritable libs record encoded
  admits : Admits call libs record d
  new : d.get? (temporaryName libs pid record.peerId) = none

variable {call : WriteCall}

theorem exec_run (hadmits : Admits call libs record d) :
    (call.run libs pid faults record).exec d = (writeRecord libs pid faults record).exec d := by
  cases call with
  | replaceAuthenticated => rfl
  | insert =>
      have hnone := OrdMap.contains_eq_false_iff.mpr (hadmits rfl)
      cases hvalid : record.validate libs with
      | error error =>
          simp [WriteCall.run, FileTrustedPeerStore.insert, writeRecord, Effect.exec_bind, hvalid]
      | ok none =>
          have hpath := recordPath_of_valid libs (validatePeerId_of_validate hvalid)
          simp [WriteCall.run, FileTrustedPeerStore.insert, Effect.exec_bind, hvalid, hpath, hnone]

/-- A call that cannot write the record fails and leaves the directory as it is, whatever else
fails. -/
theorem exec_run_of_not_canWrite (faults : Faults) (h : ¬ CanWrite call libs pid record d) :
    ∃ error, (call.run libs pid faults record).exec d = (.error error, d) := by
  by_cases hadmits : Admits call libs record d
  · rw [exec_run hadmits]
    cases hvalid : record.validate libs with
    | error error => exact ⟨error, by simp [writeRecord, Effect.exec_bind, hvalid]⟩
    | ok none =>
        have hpath := recordPath_of_valid libs (validatePeerId_of_validate hvalid)
        cases htext : libs.toVecPretty (.fromRecord libs record) with
        | none =>
            exact ⟨.invalidRecord, by simp [writeRecord, Effect.exec_bind, hvalid, hpath, htext]⟩
        | some encoded =>
            have hpresent : d.contains (temporaryName libs pid record.peerId) = true := by
              rw [← Bool.not_eq_false, OrdMap.contains_eq_false_iff]
              exact fun hnew => h ⟨⟨encoded, hvalid, htext⟩, hadmits, hnew⟩
            cases hcreate : faults.createNew with
            | true =>
                exact ⟨.io .other, by simp [writeRecord, Effect.exec_bind, hvalid, hpath, htext,
                  Directory.unlessFault, hcreate, Except.mapError]⟩
            | false =>
                exact ⟨.io .alreadyExists, by simp [writeRecord, Effect.exec_bind, hvalid, hpath,
                  htext, Directory.unlessFault, Directory.createNew, hcreate, hpresent,
                  temporaryPath_recordName, Except.mapError]⟩
  · obtain ⟨rfl, hpresent⟩ := Classical.not_imp.mp hadmits
    have hcontains : d.contains (recordName libs record.peerId) = true := by
      rw [← Bool.not_eq_false, OrdMap.contains_eq_false_iff]
      exact hpresent
    cases hvalid : record.validate libs with
    | error error =>
        exact ⟨error, by simp [WriteCall.run, FileTrustedPeerStore.insert, Effect.exec_bind, hvalid]⟩
    | ok none =>
        have hpath := recordPath_of_valid libs (validatePeerId_of_validate hvalid)
        exact ⟨.alreadyPaired, by simp [WriteCall.run, FileTrustedPeerStore.insert,
          Effect.exec_bind, hvalid, hpath, hcontains]⟩

/-- Without a failure the record is written if and only if it can be. -/
theorem run_ok_iff : ((call.run libs pid .none record).exec d).1 = .ok () ↔
    CanWrite call libs pid record d := by
  constructor
  · intro hok
    by_contra h
    obtain ⟨error, hexec⟩ := exec_run_of_not_canWrite .none h
    rw [hexec] at hok
    cases hok
  · intro h
    obtain ⟨encoded, hwritable⟩ := h.writable
    rw [exec_run h.admits, exec_writeRecord hwritable h.new]
    rfl

theorem load_congr {d' : Directory} (peerId : String)
    (h : ∀ id, d'.get? (recordName libs id) = d.get? (recordName libs id)) :
    load libs d' peerId = load libs d peerId := by
  cases hid : validatePeerId peerId with
  | error error => rw [load, load, recordPath, hid]; rfl
  | ok none => rw [load, load, recordPath_of_valid libs hid]; simp only [bind, Except.bind, h]

/-- What a call does to a directory in which it can write the record, when it fails: nothing, or it
leaves the temporary file. -/
theorem exec_run_error (h : CanWrite call libs pid record d) {error : PairingError}
    (herror : ((call.run libs pid faults record).exec d).1 = .error error) :
    ((faults.createNew ∨ (¬ faults.setPermissions ∧ ¬ faults.remove)) ∧
      ((call.run libs pid faults record).exec d).2 = d) ∨
    (¬ (faults.createNew ∨ (¬ faults.setPermissions ∧ ¬ faults.remove)) ∧
      ∃ data, ((call.run libs pid faults record).exec d).2 =
        d.insert (temporaryName libs pid record.peerId) data) := by
  obtain ⟨encoded, hwritable⟩ := h.writable
  rw [exec_run h.admits, exec_writeRecord hwritable h.new] at herror ⊢
  cases hcreate : faults.createNew with
  | true => exact .inl (by simp)
  | false =>
      cases hperm : faults.setPermissions with
      | true => exact .inr ⟨by simp, [], by simp⟩
      | false =>
          rw [hcreate, hperm] at herror
          cases hremove : faults.remove with
          | false =>
              refine .inl ⟨by simp, ?_⟩
              simp only [leftBehind, hremove] at herror ⊢
              grind
          | true =>
              refine .inr ⟨by simp, ?_⟩
              simp only [leftBehind, hremove] at herror ⊢
              grind

/-- A call that fails changes no record. -/
theorem load_exec_run {error : PairingError}
    (herror : ((call.run libs pid faults record).exec d).1 = .error error) (id : String) :
    load libs ((call.run libs pid faults record).exec d).2 id = load libs d id := by
  by_cases h : CanWrite call libs pid record d
  · obtain ⟨-, hsame⟩ | ⟨-, data, hleft⟩ := exec_run_error h herror
    · rw [hsame]
    · rw [hleft]
      refine load_congr id (fun id => ?_)
      rw [OrdMap.get?_insert, if_neg (recordName_ne_temporaryName libs pid record.peerId id)]
  · obtain ⟨_, hexec⟩ := exec_run_of_not_canWrite faults h
    rw [hexec]

/-! ## The libraries on a few records -/

/-- SHA-256 of the texts and certificates below. -/
def sampleSha256 (input : Bytes) : FixedBytes 32 :=
  if input = utf8Bytes "alice" then
    ⟨[43, 216, 6, 201, 127, 14, 0, 175, 26, 31, 195, 50, 143, 167, 99, 169,
      38, 151, 35, 200, 219, 143, 172, 79, 147, 175, 113, 219, 24, 109, 110, 144], rfl⟩
  else if input = utf8Bytes "alias" then
    ⟨[26, 10, 106, 54, 202, 10, 57, 83, 185, 151, 221, 174, 183, 34, 203, 49,
      233, 228, 33, 176, 56, 246, 166, 126, 245, 85, 147, 242, 29, 207, 146, 177], rfl⟩
  else if input = utf8Bytes "bob" then
    ⟨[129, 182, 55, 216, 252, 210, 198, 218, 99, 89, 230, 150, 49, 19, 161, 23,
      13, 231, 149, 228, 183, 37, 184, 77, 30, 11, 76, 253, 158, 197, 140, 233], rfl⟩
  else if input = [1] then
    ⟨[75, 245, 18, 47, 52, 69, 84, 197, 59, 222, 46, 187, 140, 210, 183, 227,
      209, 96, 10, 214, 49, 195, 133, 165, 215, 204, 226, 60, 119, 133, 69, 154], rfl⟩
  else if input = [2] then
    ⟨[219, 193, 180, 201, 0, 255, 228, 141, 87, 91, 93, 165, 198, 56, 4, 1,
      37, 246, 93, 176, 254, 62, 36, 73, 75, 118, 234, 152, 100, 87, 217, 134], rfl⟩
  else ⟨List.replicate 32 0, rfl⟩

/-- Keys, certificates and pins with their texts. -/
def sampleBase64 : List (Bytes × String) :=
  [(List.replicate 32 7, "BwcHBwcHBwcHBwcHBwcHBwcHBwcHBwcHBwcHBwcHBwc="),
    (List.replicate 32 8, "CAgICAgICAgICAgICAgICAgICAgICAgICAgICAgICAg="),
    ([1], "AQ=="), ([2], "Ag=="),
    ((sampleSha256 [1]).val, "S/USLzRFVMU73i67jNK349FgCtYxw4Wl18ziPHeFRZo="),
    ((sampleSha256 [2]).val, "28G0yQD/5I1XW12lxjgEASX2XbD+PiRJS3bqmGRX2YY=")]

def sampleRecord (peerId : String) (certificate : UInt8) : TrustedPeerRecord :=
  { peerId := peerId
    identityKey := ⟨List.replicate 32 (certificate + 6), rfl⟩
    certificateDer := [certificate]
    certificatePin := sampleSha256 [certificate]
    confirmedAtUnixMs := 5 }

/-- A record as JSON, where no text of it has a character that is escaped. -/
def sampleToVecPretty (p : PersistedTrustedPeer) : Bytes :=
  utf8Bytes ("\x7b\n  \"version\": " ++ toString p.version.toNat ++
    ",\n  \"peer_id\": \"" ++ p.peerId ++
    "\",\n  \"identity_key_base64\": \"" ++ p.identityKeyBase64 ++
    "\",\n  \"certificate_der_base64\": \"" ++ p.certificateDerBase64 ++
    "\",\n  \"certificate_pin_base64\": \"" ++ p.certificatePinBase64 ++
    "\",\n  \"confirmed_at_unix_ms\": " ++ toString p.confirmedAtUnixMs.toNat ++ "\n\x7d")

def sampleBase64Encode (data : Bytes) : String :=
  ((sampleBase64.find? (·.1 = data)).map Prod.snd).getD ""

def sampleRecords : List TrustedPeerRecord :=
  [sampleRecord "alice" 1, sampleRecord "alias" 1, sampleRecord "bob" 2]

def sampleLibs : PairingLibs :=
  { sha256 := sampleSha256
    base64Encode := sampleBase64Encode
    base64Decode := fun text => (sampleBase64.find? (·.2 = text)).map Prod.fst
    toVecPretty := fun p => some (sampleToVecPretty p)
    fromSlice := fun encoded => (sampleRecords.map (fun record =>
      { version := 1
        peerId := record.peerId
        identityKeyBase64 := sampleBase64Encode record.identityKey.val
        certificateDerBase64 := sampleBase64Encode record.certificateDer
        certificatePinBase64 := sampleBase64Encode record.certificatePin.val
        confirmedAtUnixMs := record.confirmedAtUnixMs })).find? (fun p =>
          sampleToVecPretty p = encoded)
    readDir := fun d => d.entries }

theorem sampleRecord_valid {record : TrustedPeerRecord} (h : record ∈ sampleRecords) :
    record.validate sampleLibs = .ok () := by
  have hall : ∀ record ∈ sampleRecords, record.validate sampleLibs = .ok () := by decide +kernel
  exact hall record h

/-! ## A call that failed and the next one -/

/-- A call that fails changes no record. The next call of the process writes the record if and
only if the failed one could have written it and left no temporary file: it could not create the
file, or its permissions were set and a file that could not be written or renamed was removed. -/
theorem failed_write_iff {error : PairingError}
    (herror : ((call.run libs pid faults record).exec d).1 = .error error) :
    ((∀ id, load libs ((call.run libs pid faults record).exec d).2 id = load libs d id) ∧
      ((call.run libs pid .none record).exec
        ((call.run libs pid faults record).exec d).2).1 = .ok ()) ↔
    CanWrite call libs pid record d ∧
      (faults.createNew ∨ (¬ faults.setPermissions ∧ ¬ faults.remove)) := by
  have hload : ∀ id, load libs ((call.run libs pid faults record).exec d).2 id = load libs d id :=
    load_exec_run herror
  rw [run_ok_iff]
  by_cases h : CanWrite call libs pid record d
  · obtain ⟨hclean, hsame⟩ | ⟨hdirty, data, hleft⟩ := exec_run_error h herror
    · rw [hsame]
      exact ⟨fun _ => ⟨h, hclean⟩, fun _ => ⟨fun _ => rfl, h⟩⟩
    · constructor
      · intro hnext
        have hnew := hnext.2.new
        rw [hleft] at hnew
        simp at hnew
      · intro hclean
        exact absurd hclean.2 hdirty
  · obtain ⟨_, hexec⟩ := exec_run_of_not_canWrite faults h
    rw [hexec]
    exact ⟨fun hnext => absurd hnext.2 h, fun hcan => absurd hcan.1 h⟩

/-- The rename fails and the temporary file is removed. -/
theorem failed_write_rename :
    let faults : Faults := { Faults.none with rename := true }
    let after := ((WriteCall.insert.run sampleLibs 7 faults (sampleRecord "alice" 1)).exec ∅).2
    (∀ id, load sampleLibs after id = load sampleLibs ∅ id) ∧
      ((WriteCall.insert.run sampleLibs 7 .none (sampleRecord "alice" 1)).exec after).1 =
        .ok () := by
  intro faults after
  have herror : ((WriteCall.insert.run sampleLibs 7 faults (sampleRecord "alice" 1)).exec ∅).1 =
      .error (.io .other) := by decide +kernel
  exact (failed_write_iff herror).mpr
    ⟨⟨⟨_, by decide +kernel, rfl⟩, fun _ => rfl, rfl⟩, .inr ⟨by decide, by decide⟩⟩

/-- The permissions of the temporary file cannot be set, and the next call finds the file. -/
theorem failed_write_blocks :
    let faults : Faults := { Faults.none with setPermissions := true }
    let call := (WriteCall.insert.run sampleLibs 7 faults (sampleRecord "alice" 1)).exec ∅
    call.1 = .error (.io .other) ∧
      ((WriteCall.insert.run sampleLibs 7 .none (sampleRecord "alice" 1)).exec call.2).1 =
        .error (.io .alreadyExists) := by
  decide +kernel

end FileTrustedPeerStore

end HbbCommon.Transport
