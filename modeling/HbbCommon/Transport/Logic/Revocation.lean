import HbbCommon.Base.TSys
import HbbCommon.Transport.Logic.TrustedPeers

/-!
# Revoking a peer

Every file of a store that was written without failures is a record, and a record is read back as
it was written. So the loop of `remove_peer_and_aliases` finds the records that share the identity
key and the certificate pin, and removes the requested one last.
-/

namespace HbbCommon.Transport

open HbbCommon.Base

namespace FileTrustedPeerStore

variable {libs : PairingLibs} {records : Set TrustedPeerRecord} {d : Directory}
  {record target : TrustedPeerRecord} {data : Bytes}

/-- What the libraries do with the records that are written. -/
structure LawfulOn (libs : PairingLibs) (records : Set TrustedPeerRecord) : Prop where
  decode_encode : ∀ record ∈ records,
    ∀ data ∈ [record.identityKey.val, record.certificateDer, record.certificatePin.val],
      libs.base64Decode (libs.base64Encode data) = some data
  length_encode : ∀ record ∈ records,
    ∀ data ∈ [record.identityKey.val, record.certificateDer, record.certificatePin.val],
      (libs.base64Encode data).utf8ByteSize = 4 * ((data.length + 2) / 3)
  fromSlice_toVecPretty : ∀ record ∈ records, ∀ encoded,
    libs.toVecPretty (.fromRecord libs record) = some encoded →
      libs.fromSlice encoded = some (.fromRecord libs record)
  /-- Only characters of the peer id are escaped. -/
  length_toVecPretty : ∀ record ∈ records, ∀ encoded,
    libs.toVecPretty (.fromRecord libs record) = some encoded →
      encoded.length ≤ 256 + 6 * record.peerId.utf8ByteSize +
        (libs.base64Encode record.identityKey.val).utf8ByteSize +
        (libs.base64Encode record.certificateDer).utf8ByteSize +
        (libs.base64Encode record.certificatePin.val).utf8ByteSize
  sha256_injOn : ∀ a ∈ records, ∀ b ∈ records,
    libs.sha256 (utf8Bytes a.peerId) = libs.sha256 (utf8Bytes b.peerId) → a.peerId = b.peerId
  readDir_perm : ∀ d, (libs.readDir d).Perm d.entries

/-! ## A record that was written -/

theorem size_of_validatePeerId {peerId : String} (h : validatePeerId peerId = .ok ()) :
    peerId.utf8ByteSize ≤ maxPeerIdBytes := by
  unfold validatePeerId at h
  split at h
  · cases h
  · rename_i hvalid
    omega

theorem certificate_of_validate (h : record.validate libs = .ok ()) :
    record.certificateDer.length ≤ maxCertificateBytes := by
  have hid := validatePeerId_of_validate h
  rw [TrustedPeerRecord.validate, hid] at h
  simp only [bind, Except.bind] at h
  split at h
  · cases h
  · split at h
    · cases h
    · rename_i hvalid
      omega

/-- A record that was written is read back. -/
theorem decodeRecord_of_isWritable (hlibs : LawfulOn libs records)
    (hmem : record ∈ records) (h : IsWritable libs record data) :
    decodeRecord libs data = .ok record := by
  have hid := size_of_validatePeerId (validatePeerId_of_validate h.valid)
  have hcert := certificate_of_validate h.valid
  have hlength := hlibs.length_toVecPretty record hmem data h.text
  have hencode := hlibs.length_encode record hmem
  have hdecode := hlibs.decode_encode record hmem
  simp only [List.mem_cons, List.not_mem_nil, or_false, forall_eq_or_imp, forall_eq] at hencode hdecode
  obtain ⟨hkey, hder, hpin⟩ := hdecode
  rw [hencode.1, hencode.2.1, hencode.2.2, record.identityKey.property,
    record.certificatePin.property] at hlength
  have hshort : ¬ data.length > 64 * 1024 := by
    unfold maxPeerIdBytes at hid
    unfold maxCertificateBytes at hcert
    omega
  have hinto : (PersistedTrustedPeer.fromRecord libs record).intoRecord libs = .ok record := by
    simp [PersistedTrustedPeer.intoRecord, PersistedTrustedPeer.fromRecord,
      PersistedTrustedPeer.decodeArray, hkey, hder, hpin, record.identityKey.property,
      record.certificatePin.property, bind, Except.bind]
    rfl
  rw [decodeRecord, if_neg hshort, hlibs.fromSlice_toVecPretty record hmem data h.text]
  simp only [hinto, bind, Except.bind, h.valid]

/-! ## Stores of records -/

/-- Every file is a record that was written. -/
def Holds (libs : PairingLibs) (records : Set TrustedPeerRecord) (d : Directory) : Prop :=
  ∀ name data, d.get? name = some data →
    ∃ record ∈ records, IsWritable libs record data ∧ name = recordName libs record.peerId

/-- The record of its peer. -/
def Stored (libs : PairingLibs) (d : Directory) (record : TrustedPeerRecord) : Prop :=
  load libs d record.peerId = .ok (some record)

theorem Holds.temporary_none (h : Holds libs records d) (pid : Nat) (peerId : String) :
    d.get? (temporaryName libs pid peerId) = none := by
  cases hget : d.get? (temporaryName libs pid peerId) with
  | none => rfl
  | some data =>
      obtain ⟨record, -, -, hname⟩ := h _ _ hget
      exact absurd hname.symm (recordName_ne_temporaryName libs pid peerId record.peerId)

theorem Holds.insert (h : Holds libs records d) (hmem : record ∈ records)
    (hwritable : IsWritable libs record data) :
    Holds libs records (d.insert (recordName libs record.peerId) data) := by
  intro name data' hget
  obtain ⟨rfl, rfl⟩ | ⟨-, hget⟩ := OrdMap.get?_insert_eq_some hget
  · exact ⟨record, hmem, hwritable, rfl⟩
  · exact h name data' hget

/-- Fewer files. -/
theorem Holds.mono {d' : Directory} (h : Holds libs records d)
    (hsub : ∀ name data, d'.get? name = some data → d.get? name = some data) :
    Holds libs records d' :=
  fun name data hget => h name data (hsub name data hget)

/-- The file of a known peer holds a record of that peer. -/
theorem Holds.record_of_get? (h : Holds libs records d) (hlibs : LawfulOn libs records)
    (hmem : record ∈ records) (hget : d.get? (recordName libs record.peerId) = some data) :
    ∃ r ∈ records, IsWritable libs r data ∧ r.peerId = record.peerId := by
  obtain ⟨r, hr, hwritable, hname⟩ := h _ _ hget
  exact ⟨r, hr, hwritable, hlibs.sha256_injOn r hr record hmem (recordName_eq_iff.mp hname.symm)⟩

theorem load_of_get? {peerId : String} (hid : validatePeerId peerId = .ok ())
    (hget : d.get? (recordName libs peerId) = some data)
    (hdecode : decodeRecord libs data = .ok record) (hvalid : record.validate libs = .ok ()) :
    load libs d peerId =
      if record.peerId ≠ peerId then .error .invalidRecord else .ok (some record) := by
  rw [load, recordPath_of_valid libs hid]
  simp only [bind, Except.bind, hget, hdecode, hvalid]

theorem load_of_none {peerId : String} (hid : validatePeerId peerId = .ok ())
    (hget : d.get? (recordName libs peerId) = none) : load libs d peerId = .ok none := by
  rw [load, recordPath_of_valid libs hid]
  simp only [bind, Except.bind, hget]

/-- The record of a peer is what its file holds. -/
theorem Holds.stored_iff (h : Holds libs records d) (hlibs : LawfulOn libs records) :
    Stored libs d record ↔ record ∈ records ∧
      ∃ data, d.get? (recordName libs record.peerId) = some data ∧
        IsWritable libs record data := by
  constructor
  · intro hstored
    unfold Stored at hstored
    cases hid : validatePeerId record.peerId with
    | error error =>
        rw [load, recordPath, hid] at hstored
        cases hstored
    | ok none =>
        cases hget : d.get? (recordName libs record.peerId) with
        | none =>
            rw [load_of_none hid hget] at hstored
            cases hstored
        | some data =>
            obtain ⟨r, hr, hwritable, -⟩ := h _ _ hget
            rw [load_of_get? hid hget (decodeRecord_of_isWritable hlibs hr hwritable)
              hwritable.valid] at hstored
            split at hstored
            · cases hstored
            · cases hstored
              exact ⟨hr, data, rfl, hwritable⟩
  · rintro ⟨hmem, data, hget, hwritable⟩
    rw [Stored, load_of_get? (validatePeerId_of_validate hwritable.valid) hget
      (decodeRecord_of_isWritable hlibs hmem hwritable) hwritable.valid]
    simp

/-! ## Reading the whole store -/

/-- An entry of the directory that holds the record. -/
def IsEntry (libs : PairingLibs) (records : Set TrustedPeerRecord) (entry : String × Bytes)
    (record : TrustedPeerRecord) : Prop :=
  record ∈ records ∧ IsWritable libs record entry.2 ∧ entry.1 = recordName libs record.peerId

theorem Holds.exists_entries (h : Holds libs records d) :
    ∀ entries : List (String × Bytes), (∀ entry ∈ entries, entry ∈ d.entries) →
      ∃ rs, List.Forall₂ (IsEntry libs records) entries rs := by
  intro entries
  induction entries with
  | nil => exact fun _ => ⟨[], .nil⟩
  | cons entry rest ih =>
      intro hsub
      obtain ⟨rs, hrs⟩ := ih (fun e he => hsub e (List.mem_cons_of_mem _ he))
      obtain ⟨record, hmem, hwritable, hname⟩ := h entry.1 entry.2
        (OrdMap.mem_entries_iff.mp (hsub entry List.mem_cons_self))
      exact ⟨record :: rs, .cons ⟨hmem, hwritable, hname⟩ hrs⟩

/-- The loop of `load_all` reads the records, or stops at the one that is too many. -/
theorem loadEntries_eq (hlibs : LawfulOn libs records)
    {entries : List (String × Bytes)} {rs : List TrustedPeerRecord}
    (h : List.Forall₂ (IsEntry libs records) entries rs) (acc : List TrustedPeerRecord) :
    loadEntries libs acc entries =
      if acc.length + rs.length ≤ 4096 ∨ rs = [] then .ok (acc ++ rs)
      else .error .invalidRecord := by
  induction h generalizing acc with
  | nil => simp [loadEntries]
  | @cons entry record entries rs hentry hrest ih =>
      obtain ⟨hmem, hwritable, hname⟩ := hentry
      obtain ⟨name, data⟩ := entry
      simp only at hwritable hname
      subst hname
      rw [loadEntries, if_neg (by rw [extension_recordName]; simp)]
      by_cases hfull : acc.length ≥ 4096
      · rw [if_pos hfull, if_neg]
        simp only [List.length_cons, reduceCtorEq, or_false]
        omega
      · rw [if_neg hfull]
        simp only [decodeRecord_of_isWritable hlibs hmem hwritable, bind, Except.bind]
        rw [ih]
        simp only [List.length_append, List.length_cons, List.length_nil, List.append_assoc,
          List.cons_append, List.nil_append, reduceCtorEq, or_false]
        by_cases hrs : rs = []
        · subst hrs
          simp only [List.length_nil, or_true, if_true]
          rw [if_pos (by omega)]
        · simp only [hrs, or_false]
          congr 1
          rw [eq_iff_iff]
          omega

theorem IsWritable.unique {r : TrustedPeerRecord} (hlibs : LawfulOn libs records)
    (hr : r ∈ records) (hrecord : record ∈ records) (h : IsWritable libs r data)
    (h' : IsWritable libs record data) : r = record := by
  have hdecode := decodeRecord_of_isWritable hlibs hr h
  rw [decodeRecord_of_isWritable hlibs hrecord h'] at hdecode
  exact (Except.ok.inj hdecode).symm

theorem names_of_entries {entries : List (String × Bytes)} {rs : List TrustedPeerRecord}
    (h : List.Forall₂ (IsEntry libs records) entries rs) :
    rs.map (fun r => recordName libs r.peerId) = entries.map Prod.fst := by
  induction h with
  | nil => rfl
  | cons hentry _ ih => rw [List.map_cons, List.map_cons, ih, hentry.2.2]

theorem mem_of_entries {entries : List (String × Bytes)} {rs : List TrustedPeerRecord}
    (h : List.Forall₂ (IsEntry libs records) entries rs) :
    (∀ r ∈ rs, ∃ entry ∈ entries, IsEntry libs records entry r) ∧
      ∀ entry ∈ entries, ∃ r ∈ rs, IsEntry libs records entry r := by
  induction h with
  | nil => simp
  | cons hentry _ ih =>
      constructor
      · intro r hr
        rcases List.mem_cons.mp hr with rfl | hr
        · exact ⟨_, List.mem_cons_self, hentry⟩
        · obtain ⟨entry, hmem, hr⟩ := ih.1 r hr
          exact ⟨entry, List.mem_cons_of_mem _ hmem, hr⟩
      · intro entry hmem
        rcases List.mem_cons.mp hmem with rfl | hmem
        · exact ⟨_, List.mem_cons_self, hentry⟩
        · obtain ⟨r, hr, hentry⟩ := ih.2 entry hmem
          exact ⟨r, List.mem_cons_of_mem _ hr, hentry⟩

/-- `load_all` returns every record of the store, when there are not too many. -/
theorem Holds.loadAll_eq_ok (h : Holds libs records d)
    (hlibs : LawfulOn libs records) (hsize : d.size ≤ 4096) :
    ∃ rs, loadAll libs d = .ok rs ∧ (rs.map (fun r => recordName libs r.peerId)).Nodup ∧
      ∀ r, r ∈ rs ↔ Stored libs d r := by
  have hperm := hlibs.readDir_perm d
  obtain ⟨rs, hrs⟩ := h.exists_entries (libs.readDir d) (fun e he => hperm.mem_iff.mp he)
  have hlength : rs.length = d.size := by rw [← hrs.length_eq, hperm.length_eq, OrdMap.size]
  have hsorted := List.mergeSort_perm rs (fun left right => left.peerId ≤ right.peerId)
  refine ⟨rs.mergeSort (fun left right => left.peerId ≤ right.peerId), ?_, ?_, fun r => ?_⟩
  · rw [loadAll, loadEntries_eq hlibs hrs, if_pos (.inl (by simpa [hlength] using hsize))]
    rfl
  · rw [(hsorted.map _).nodup_iff, names_of_entries hrs, (hperm.map _).nodup_iff]
    exact d.keys_nodup
  · rw [hsorted.mem_iff, h.stored_iff hlibs]
    obtain ⟨hofRecord, hofEntry⟩ := mem_of_entries hrs
    constructor
    · intro hmem
      obtain ⟨⟨name, data⟩, hentry, hr, hwritable, rfl⟩ := hofRecord r hmem
      exact ⟨hr, data, OrdMap.mem_entries_iff.mp (hperm.mem_iff.mp hentry), hwritable⟩
    · rintro ⟨hr, data, hget, hwritable⟩
      obtain ⟨r', hmem, hr', hwritable', -⟩ := hofEntry (recordName libs r.peerId, data)
        (hperm.mem_iff.mpr (OrdMap.mem_entries_iff.mpr hget))
      rwa [hwritable.unique hlibs hr hr' hwritable']

theorem Holds.loadAll_eq_error (h : Holds libs records d)
    (hlibs : LawfulOn libs records) (hsize : 4096 < d.size) :
    loadAll libs d = .error .invalidRecord := by
  have hperm := hlibs.readDir_perm d
  obtain ⟨rs, hrs⟩ := h.exists_entries (libs.readDir d) (fun e he => hperm.mem_iff.mp he)
  have hlength : rs.length = d.size := by rw [← hrs.length_eq, hperm.length_eq, OrdMap.size]
  rw [loadAll, loadEntries_eq hlibs hrs, if_neg]
  · rfl
  · rintro (hfew | rfl)
    · rw [List.length_nil, Nat.zero_add] at hfew
      omega
    · rw [List.length_nil] at hlength
      omega

/-! ## Removing records one after another -/

def eraseAll (d : Directory) (names : List String) : Directory := names.foldl OrdMap.erase d

theorem get?_eraseAll (d : Directory) (names : List String) (name : String) :
    (eraseAll d names).get? name = if name ∈ names then none else d.get? name := by
  induction names generalizing d with
  | nil => rfl
  | cons n rest ih =>
      show (eraseAll (d.erase n) rest).get? name = _
      rw [ih, OrdMap.get?_erase]
      by_cases hrest : name ∈ rest
      · simp [hrest]
      · by_cases hn : name = n <;> simp [hrest, hn]

theorem get?_eraseAll_eq_some {names : List String} {name : String} :
    (eraseAll d names).get? name = some data ↔ name ∉ names ∧ d.get? name = some data := by
  rw [get?_eraseAll]
  split <;> simp [*]

theorem eraseAll_append (d : Directory) (names names' : List String) :
    eraseAll d (names ++ names') = eraseAll (eraseAll d names) names' :=
  List.foldl_append

theorem size_eraseAll_le (d : Directory) (names : List String) :
    (eraseAll d names).size ≤ d.size := by
  induction names generalizing d with
  | nil => exact le_rfl
  | cons n rest ih => exact (ih (d.erase n)).trans (OrdMap.size_filter_le d _)

theorem exec_remove {fault : Bool} {peerId : String} (hid : validatePeerId peerId = .ok ()) :
    (remove libs fault peerId).exec d =
      if fault then (.error (.io .other), d)
      else (.ok (d.contains (recordName libs peerId)), d.erase (recordName libs peerId)) := by
  simp only [remove, Effect.exec_bind, exec_check, recordPath_of_valid libs hid, exec_call,
    Effect.exec_attempt, Except.mapError, Directory.unlessFault]
  cases fault with
  | true => rfl
  | false =>
      cases hcontains : d.contains (recordName libs peerId) with
      | true => simp [Directory.removeFile, hcontains]
      | false =>
          simp [Directory.removeFile, hcontains,
            OrdMap.erase_eq_of_get?_none (OrdMap.contains_eq_false_iff.mp hcontains)]

theorem exec_removeEach_cons {fails : String → Bool} {id : String} {rest : List String}
    (hid : validatePeerId id = .ok ()) :
    (removeEach libs fails (id :: rest)).exec d =
      if fails id then (.error (.io .other), d)
      else
        let later := (removeEach libs fails rest).exec (d.erase (recordName libs id))
        (later.1.map (fun ids => if d.contains (recordName libs id) then id :: ids else ids),
          later.2) := by
  rw [removeEach, Effect.exec_bind, exec_remove hid]
  cases fails id with
  | true => rfl
  | false =>
      simp only [Bool.false_eq_true, if_false, Effect.exec_bind]
      generalize (removeEach libs fails rest).exec (d.erase (recordName libs id)) = later
      obtain ⟨_ | _, _⟩ := later <;> rfl

/-- Without failures every record of the list is removed. -/
theorem exec_removeEach {ids : List String} (hids : ∀ id ∈ ids, validatePeerId id = .ok ())
    (hnames : (ids.map (recordName libs)).Nodup)
    (hpresent : ∀ id ∈ ids, d.contains (recordName libs id) = true) :
    (removeEach libs (fun _ => false) ids).exec d =
      (.ok ids, eraseAll d (ids.map (recordName libs))) := by
  induction ids generalizing d with
  | nil => rfl
  | cons id rest ih =>
      obtain ⟨hnotMem, hrest⟩ := List.nodup_cons.mp hnames
      have hlater : ∀ id' ∈ rest, (d.erase (recordName libs id)).contains (recordName libs id') := by
        intro id' hid'
        have hne : recordName libs id' ≠ recordName libs id :=
          fun heq => hnotMem (heq ▸ List.mem_map_of_mem hid')
        have := hpresent id' (List.mem_cons_of_mem _ hid')
        unfold OrdMap.contains at this ⊢
        rwa [OrdMap.get?_erase, if_neg hne]
      rw [exec_removeEach_cons (hids id List.mem_cons_self),
        ih (fun i hi => hids i (List.mem_cons_of_mem _ hi)) hrest hlater,
        hpresent id List.mem_cons_self]
      rfl

/-- A removal that fails stops the loop; the records in front of it are gone. -/
theorem removeEach_error {fails : String → Bool} {ids : List String} {error : PairingError}
    (hids : ∀ id ∈ ids, validatePeerId id = .ok ())
    (herror : ((removeEach libs fails ids).exec d).1 = .error error) :
    ∃ removed id rest, ids = removed ++ id :: rest ∧
      ((removeEach libs fails ids).exec d).2 = eraseAll d (removed.map (recordName libs)) := by
  induction ids generalizing d with
  | nil => cases herror
  | cons id rest ih =>
      rw [exec_removeEach_cons (hids id List.mem_cons_self)] at herror ⊢
      cases hfails : fails id with
      | true => exact ⟨[], id, rest, rfl, by simp [eraseAll]⟩
      | false =>
          rw [hfails, if_neg (by simp)] at herror
          rw [if_neg (by simp)]
          have hlater : ((removeEach libs fails rest).exec (d.erase (recordName libs id))).1 =
              .error error := by
            revert herror
            simp only
            generalize ((removeEach libs fails rest).exec (d.erase (recordName libs id))).1 = result
            intro herror
            cases result with
            | ok ids => cases herror
            | error e => exact herror
          obtain ⟨removed, id', rest', hsplit, hstate⟩ :=
            ih (fun i hi => hids i (List.mem_cons_of_mem _ hi)) hlater
          exact ⟨id :: removed, id', rest', by rw [hsplit]; rfl, hstate⟩

/-! ## The records of one identity -/

/-- The records of one identity. -/
def Shares (target record : TrustedPeerRecord) : Prop :=
  record.identityKey = target.identityKey ∧ record.certificatePin = target.certificatePin

instance (target record : TrustedPeerRecord) : Decidable (Shares target record) :=
  inferInstanceAs (Decidable (_ ∧ _))

/-- The ids that are removed, in order. -/
def aliases (rs : List TrustedPeerRecord) (target : TrustedPeerRecord) : List String :=
  ((rs.filter (fun record => Shares target record)).map (·.peerId)).filter (· ≠ target.peerId) ++
    [target.peerId]

theorem exec_removePeerAndAliases (hstored : Stored libs d target) (fails : String → Bool) :
    (removePeerAndAliases libs fails target.peerId).exec d =
      match loadAll libs d with
      | .error error => (.error error, d)
      | .ok rs => (removeEach libs fails (aliases rs target)).exec d := by
  unfold Stored at hstored
  simp only [removePeerAndAliases, Effect.exec_bind, Effect.exec_get, exec_check, hstored]
  cases loadAll libs d with
  | error error => rfl
  | ok rs => rfl

theorem mem_aliases (hstored : Stored libs d target) {rs : List TrustedPeerRecord}
    (hrs : ∀ r, r ∈ rs ↔ Stored libs d r) {id : String} :
    id ∈ aliases rs target ↔ ∃ r, Stored libs d r ∧ r.peerId = id ∧ Shares target r := by
  simp only [aliases, List.mem_append, List.mem_filter, List.mem_map, decide_eq_true_eq,
    List.mem_singleton, hrs]
  constructor
  · rintro (⟨⟨r, ⟨hr, hshares⟩, rfl⟩, -⟩ | rfl)
    · exact ⟨r, hr, rfl, hshares⟩
    · exact ⟨target, hstored, rfl, rfl, rfl⟩
  · rintro ⟨r, hr, rfl, hshares⟩
    by_cases hid : r.peerId = target.peerId
    · exact .inr hid
    · exact .inl ⟨⟨r, ⟨hr, hshares⟩, rfl⟩, by simpa using hid⟩

/-- Records that are stored under one file name are records of one peer. -/
theorem Holds.peerId_inj (h : Holds libs records d) (hlibs : LawfulOn libs records)
    {a b : TrustedPeerRecord} (ha : Stored libs d a) (hb : Stored libs d b)
    (hname : recordName libs a.peerId = recordName libs b.peerId) : a = b := by
  obtain ⟨hamem, data, hget, hwritable⟩ := (h.stored_iff hlibs).mp ha
  obtain ⟨hbmem, data', hget', hwritable'⟩ := (h.stored_iff hlibs).mp hb
  rw [hname, hget'] at hget
  cases hget
  exact hwritable.unique hlibs hamem hbmem hwritable'

theorem Holds.aliases_nodup (h : Holds libs records d) (hlibs : LawfulOn libs records)
    (hstored : Stored libs d target) {rs : List TrustedPeerRecord}
    (hrs : ∀ r, r ∈ rs ↔ Stored libs d r)
    (hnodup : (rs.map (fun r => recordName libs r.peerId)).Nodup) :
    ((aliases rs target).map (recordName libs)).Nodup := by
  rw [aliases, List.map_append, List.nodup_append]
  refine ⟨?_, List.nodup_singleton _, ?_⟩
  · have hsub : ((((rs.filter (fun record => Shares target record)).map (·.peerId)).filter
        (· ≠ target.peerId)).map (recordName libs)).Sublist
        ((rs.map (·.peerId)).map (recordName libs)) :=
      (List.filter_sublist.trans (List.filter_sublist.map _)).map _
    rw [List.map_map] at hsub
    exact hnodup.sublist hsub
  · intro name hname name' hname' heq
    subst heq
    rw [List.map_singleton, List.mem_singleton] at hname'
    obtain ⟨id, hid, rfl⟩ := List.mem_map.mp hname
    obtain ⟨hmap, hne⟩ := List.mem_filter.mp hid
    obtain ⟨r, hr, rfl⟩ := List.mem_map.mp hmap
    have hr := (hrs r).mp (List.mem_filter.mp hr).1
    rw [h.peerId_inj hlibs hr hstored hname'] at hne
    simp at hne

/-- What a load returns when the files of some stored records are gone. -/
theorem Holds.load_eraseAll (h : Holds libs records d) (hlibs : LawfulOn libs records)
    (hstored : Stored libs d record) {ids : List String}
    (hids : ∀ id ∈ ids, ∃ r, Stored libs d r ∧ r.peerId = id) :
    load libs (eraseAll d (ids.map (recordName libs))) record.peerId =
      .ok (if record.peerId ∈ ids then none else some record) := by
  obtain ⟨hmem, data, hget, hwritable⟩ := (h.stored_iff hlibs).mp hstored
  have hid := validatePeerId_of_validate hwritable.valid
  have hiff : recordName libs record.peerId ∈ ids.map (recordName libs) ↔ record.peerId ∈ ids := by
    constructor
    · intro hname
      obtain ⟨id, hin, hname⟩ := List.mem_map.mp hname
      obtain ⟨r, hr, rfl⟩ := hids id hin
      rwa [← h.peerId_inj hlibs hr hstored hname]
    · exact List.mem_map_of_mem
  have hgetAll := get?_eraseAll d (ids.map (recordName libs)) (recordName libs record.peerId)
  by_cases hin : record.peerId ∈ ids
  · rw [if_pos (hiff.mpr hin)] at hgetAll
    rw [if_pos hin, load_of_none hid hgetAll]
  · rw [if_neg (fun hname => hin (hiff.mp hname)), hget] at hgetAll
    rw [if_neg hin, load_of_get? hid hgetAll (decodeRecord_of_isWritable hlibs hmem hwritable)
      hwritable.valid]
    simp

theorem Holds.of_eraseAll (h : Holds libs records d) (names : List String) :
    Holds libs records (eraseAll d names) := by
  exact h.mono (fun name data hget => (get?_eraseAll_eq_some.mp hget).2)

/-- A revocation without failures. -/
theorem Holds.revoke_ok (h : Holds libs records d) (hlibs : LawfulOn libs records)
    (hsize : d.size ≤ 4096) (hstored : Stored libs d target) :
    ∃ ids, (removePeerAndAliases libs (fun _ => false) target.peerId).exec d =
        (.ok ids, eraseAll d (ids.map (recordName libs))) ∧
      (ids.map (recordName libs)).Nodup ∧
      ∀ id, id ∈ ids ↔ ∃ r, Stored libs d r ∧ r.peerId = id ∧ Shares target r := by
  obtain ⟨rs, hload, hnodup, hrs⟩ := h.loadAll_eq_ok hlibs hsize
  have hmem : ∀ id, id ∈ aliases rs target ↔ _ := fun id => mem_aliases hstored hrs
  have hnames := h.aliases_nodup hlibs hstored hrs hnodup
  refine ⟨aliases rs target, ?_, hnames, hmem⟩
  rw [exec_removePeerAndAliases hstored, hload]
  refine exec_removeEach (fun id hid => ?_) hnames (fun id hid => ?_)
  · obtain ⟨r, hr, rfl, -⟩ := (hmem id).mp hid
    obtain ⟨-, data, -, hwritable⟩ := (h.stored_iff hlibs).mp hr
    exact validatePeerId_of_validate hwritable.valid
  · obtain ⟨r, hr, rfl, -⟩ := (hmem id).mp hid
    obtain ⟨-, data, hget, -⟩ := (h.stored_iff hlibs).mp hr
    exact OrdMap.contains_iff.mpr ⟨data, hget⟩

/-- A revocation that fails has removed some aliases, and not the requested record. -/
theorem Holds.revoke_error (h : Holds libs records d) (hlibs : LawfulOn libs records)
    (hsize : d.size ≤ 4096) (hstored : Stored libs d target) {fails : String → Bool}
    {error : PairingError}
    (herror : ((removePeerAndAliases libs fails target.peerId).exec d).1 = .error error) :
    ∃ removed : List String, ((removePeerAndAliases libs fails target.peerId).exec d).2 =
        eraseAll d (removed.map (recordName libs)) ∧
      target.peerId ∉ removed ∧
      ∀ id ∈ removed, ∃ r, Stored libs d r ∧ r.peerId = id ∧ Shares target r := by
  obtain ⟨rs, hload, hnodup, hrs⟩ := h.loadAll_eq_ok hlibs hsize
  have hmem : ∀ id, id ∈ aliases rs target ↔ _ := fun id => mem_aliases hstored hrs
  rw [exec_removePeerAndAliases hstored, hload] at herror ⊢
  have hids : ∀ id ∈ aliases rs target, validatePeerId id = .ok () := by
    intro id hid
    obtain ⟨r, hr, rfl, -⟩ := (hmem id).mp hid
    obtain ⟨-, data, -, hwritable⟩ := (h.stored_iff hlibs).mp hr
    exact validatePeerId_of_validate hwritable.valid
  obtain ⟨removed, id, rest, hsplit, hstate⟩ := removeEach_error hids herror
  -- the requested id is the last one
  have hfront : removed <+: ((rs.filter (fun record => Shares target record)).map
      (·.peerId)).filter (· ≠ target.peerId) := by
    have hlength := congrArg List.length hsplit
    rw [aliases, List.length_append, List.length_append, List.length_singleton,
      List.length_cons] at hlength
    have hremoved : removed <+: aliases rs target := by
      rw [hsplit]
      exact List.prefix_append _ _
    have hothers := List.prefix_append ((((rs.filter (fun record => Shares target record)).map
      (·.peerId)).filter (· ≠ target.peerId))) [target.peerId]
    exact List.prefix_of_prefix_length_le hremoved hothers (by omega)
  refine ⟨removed, hstate, fun hin => ?_, fun id hin => ?_⟩
  · have := (List.mem_filter.mp (hfront.subset hin)).2
    simp at this
  · refine (hmem id).mp ?_
    rw [hsplit]
    exact List.mem_append_left _ hin

/-! ## Stores that are reached -/

/-- The calls that change a store. -/
inductive StoreCall
  | write (call : WriteCall) (pid : Nat) (record : TrustedPeerRecord)
  | remove (peerId : String)

/-- Only the given records are written. -/
def StoreCall.Writes (records : Set TrustedPeerRecord) : StoreCall → Prop
  | .write _ _ record => record ∈ records
  | .remove _ => True

/-- Calls that meet no failure, from the empty directory. -/
def storeSystem (libs : PairingLibs) : TSys Directory StoreCall where
  init := ∅
  step d
    | .write call pid record => some ((call.run libs pid .none record).exec d).2
    | .remove peerId => some ((FileTrustedPeerStore.remove libs false peerId).exec d).2

/-- Every reached store holds records only. -/
theorem holds_of_reach
    (h : (storeSystem libs).Reach (fun _ call => call.Writes records) d) :
    Holds libs records d := by
  refine h.invariant (fun name data hget => by cases hget) (fun d call d' hd hcall hstep => ?_)
  cases call with
  | write call pid record =>
      obtain rfl := Option.some.inj hstep
      by_cases hcan : CanWrite call libs pid record d
      · obtain ⟨encoded, hwritable⟩ := hcan.writable
        rw [exec_run hcan.admits, exec_writeRecord hwritable hcan.new]
        exact hd.insert hcall hwritable
      · obtain ⟨error, hexec⟩ := exec_run_of_not_canWrite .none hcan
        rw [hexec]
        exact hd
  | remove peerId =>
      obtain rfl := Option.some.inj hstep
      cases hid : validatePeerId peerId with
      | error error =>
          have hpath : (check (recordPath libs peerId)).exec d = (.error error, d) := by
            rw [exec_check, recordPath, hid]
            rfl
          rw [FileTrustedPeerStore.remove, Effect.exec_bind_error hpath]
          exact hd
      | ok none =>
          rw [exec_remove hid]
          exact hd.mono (fun name data hget => (OrdMap.get?_erase_eq_some.mp hget).2)

/-- The directory is one from which the records of the target's identity are gone. -/
def RevokedIn (libs : PairingLibs) (d : Directory) (target : TrustedPeerRecord) (d' : Directory) :
    Prop :=
  ∀ record, Stored libs d record →
    load libs d' record.peerId = .ok (if Shares target record then none else some record)

/-- What a revocation does: it removes the records of the identity and returns their ids. When it
fails the requested record is still there, and the next call finishes the revocation. -/
structure Revokes (libs : PairingLibs) (d : Directory) (target : TrustedPeerRecord) : Prop where
  revoked : ∃ ids d', (removePeerAndAliases libs (fun _ => false) target.peerId).exec d =
      (.ok ids, d') ∧ ids.Nodup ∧
    (∀ id, id ∈ ids ↔ ∃ record, Stored libs d record ∧ record.peerId = id ∧
      Shares target record) ∧ RevokedIn libs d target d'
  unfinished : ∀ fails error,
    ((removePeerAndAliases libs fails target.peerId).exec d).1 = .error error →
    Stored libs ((removePeerAndAliases libs fails target.peerId).exec d).2 target ∧
    ∃ ids d', (removePeerAndAliases libs (fun _ => false) target.peerId).exec
        ((removePeerAndAliases libs fails target.peerId).exec d).2 = (.ok ids, d') ∧
      RevokedIn libs d target d'

theorem Holds.revokedIn (h : Holds libs records d) (hlibs : LawfulOn libs records)
    {ids : List String}
    (hids : ∀ id, id ∈ ids ↔ ∃ r, Stored libs d r ∧ r.peerId = id ∧ Shares target r) :
    RevokedIn libs d target (eraseAll d (ids.map (recordName libs))) := by
  intro record hrecord
  rw [h.load_eraseAll hlibs hrecord
    (fun id hid => (hids id).mp hid |>.imp (fun r hr => ⟨hr.1, hr.2.1⟩))]
  have hiff : record.peerId ∈ ids ↔ Shares target record := by
    rw [hids]
    constructor
    · rintro ⟨r, hr, hid, hshares⟩
      rwa [← h.peerId_inj hlibs hr hrecord (by rw [hid])]
    · exact fun hshares => ⟨record, hrecord, rfl, hshares⟩
  simp [hiff]

theorem Holds.revokes (h : Holds libs records d) (hlibs : LawfulOn libs records)
    (hsize : d.size ≤ 4096) (hstored : Stored libs d target) : Revokes libs d target := by
  constructor
  case revoked =>
    obtain ⟨ids, hexec, hnames, hids⟩ := h.revoke_ok hlibs hsize hstored
    exact ⟨ids, _, hexec, hnames.of_map, hids, h.revokedIn hlibs hids⟩
  case unfinished =>
    intro fails error herror
    obtain ⟨removed, hstate, hnotMem, hremoved⟩ := h.revoke_error hlibs hsize hstored herror
    have hload : ∀ record, Stored libs d record →
        load libs (eraseAll d (removed.map (recordName libs))) record.peerId =
          .ok (if record.peerId ∈ removed then none else some record) := fun record hrecord =>
      h.load_eraseAll hlibs hrecord (fun id hid => (hremoved id hid).imp
        (fun r hr => ⟨hr.1, hr.2.1⟩))
    have hrest : Stored libs (eraseAll d (removed.map (recordName libs))) target := by
      rw [Stored, hload target hstored, if_neg hnotMem]
    rw [hstate]
    refine ⟨hrest, ?_⟩
    obtain ⟨ids, hexec, -, hids⟩ :=
      (h.of_eraseAll _).revoke_ok hlibs ((size_eraseAll_le _ _).trans hsize) hrest
    refine ⟨ids, _, hexec, ?_⟩
    rw [← eraseAll_append, ← List.map_append]
    refine h.revokedIn hlibs (fun id => ?_)
    rw [List.mem_append, hids]
    constructor
    · rintro (hid | ⟨r, hr, hid, hshares⟩)
      · exact hremoved id hid
      · obtain ⟨hmem, data, hget, hwritable⟩ := ((h.of_eraseAll _).stored_iff hlibs).mp hr
        have hget := (get?_eraseAll_eq_some.mp hget).2
        exact ⟨r, (h.stored_iff hlibs).mpr ⟨hmem, data, hget, hwritable⟩, hid, hshares⟩
    · rintro ⟨r, hr, rfl, hshares⟩
      by_cases hin : r.peerId ∈ removed
      · exact .inl hin
      · refine .inr ⟨r, ?_, rfl, hshares⟩
        rw [Stored, hload r hr, if_neg hin]

/-- In a store of at most 4096 records a revocation removes the peer under all its names. A larger
store cannot be read, and stays as it is. -/
theorem revocation (hlibs : LawfulOn libs records)
    (h : (storeSystem libs).Reach (fun _ call => call.Writes records) d)
    (hstored : Stored libs d target) :
    (d.size ≤ 4096 → Revokes libs d target) ∧
      (4096 < d.size → ∀ fails,
        (removePeerAndAliases libs fails target.peerId).exec d = (.error .invalidRecord, d)) := by
  have hd := holds_of_reach h
  refine ⟨fun hsize => hd.revokes hlibs hsize hstored, fun hsize fails => ?_⟩
  rw [exec_removePeerAndAliases hstored, hd.loadAll_eq_error hlibs hsize]

theorem sampleLibs_lawfulOn : LawfulOn sampleLibs {r | r ∈ sampleRecords} where
  decode_encode := by
    have hall : ∀ record ∈ sampleRecords,
        ∀ data ∈ [record.identityKey.val, record.certificateDer, record.certificatePin.val],
        sampleLibs.base64Decode (sampleLibs.base64Encode data) = some data := by decide +kernel
    exact hall
  length_encode := by
    have hall : ∀ record ∈ sampleRecords,
        ∀ data ∈ [record.identityKey.val, record.certificateDer, record.certificatePin.val],
        (sampleLibs.base64Encode data).utf8ByteSize = 4 * ((data.length + 2) / 3) := by
      decide +kernel
    exact hall
  fromSlice_toVecPretty := by
    have hall : ∀ record ∈ sampleRecords,
        sampleLibs.fromSlice (sampleToVecPretty (.fromRecord sampleLibs record)) =
          some (.fromRecord sampleLibs record) := by decide +kernel
    rintro record hmem encoded ⟨⟩
    exact hall record hmem
  length_toVecPretty := by
    have hall : ∀ record ∈ sampleRecords,
        (sampleToVecPretty (.fromRecord sampleLibs record)).length ≤ 256 := by decide +kernel
    rintro record hmem encoded ⟨⟩
    have := hall record hmem
    omega
  sha256_injOn := by
    have hall : ∀ a ∈ sampleRecords, ∀ b ∈ sampleRecords,
        sampleSha256 (utf8Bytes a.peerId) = sampleSha256 (utf8Bytes b.peerId) →
          a.peerId = b.peerId := by decide +kernel
    exact hall
  readDir_perm := fun _ => .refl _

/-- A store with a peer under two names, and another peer. -/
def sampleStore : Directory :=
  sampleRecords.foldl (fun d record =>
    ((WriteCall.insert.run sampleLibs 7 .none record).exec d).2) ∅

theorem revocation_sample :
    (sampleStore.size ≤ 4096 → Revokes sampleLibs sampleStore (sampleRecord "alice" 1)) ∧
      (4096 < sampleStore.size → ∀ fails,
        (removePeerAndAliases sampleLibs fails "alice").exec sampleStore =
          (.error .invalidRecord, sampleStore)) := by
  have hguard : ∀ record ∈ sampleRecords,
      (StoreCall.write .insert 7 record).Writes {r | r ∈ sampleRecords} := fun _ h => h
  refine revocation sampleLibs_lawfulOn (TSys.Reach.step (TSys.Reach.step
    (TSys.Reach.step TSys.Reach.init (hguard (sampleRecord "alice" 1) (by simp [sampleRecords])) rfl)
    (hguard (sampleRecord "alias" 1) (by simp [sampleRecords])) rfl)
    (hguard (sampleRecord "bob" 2) (by simp [sampleRecords])) rfl) ?_
  unfold Stored
  decide +kernel

/-! ## A store that is too large -/

/-- One of many ids. -/
def manyId (n : Nat) : String := .singleton (Char.ofNat (0x4e00 + n))

def manyRecord (n : Nat) : TrustedPeerRecord := sampleRecord (manyId n) 1

/-- A digest that keeps short texts apart. -/
def paddedDigest (input : Bytes) : FixedBytes 32 :=
  ⟨(input ++ List.replicate 31 0).take 31 ++ [UInt8.ofNat input.length], by simp⟩

def manySha256 (input : Bytes) : FixedBytes 32 :=
  if input = [1] then sampleSha256 [1] else paddedDigest input

def manyPersisted : List PersistedTrustedPeer :=
  (List.range 4097).map (fun n => .fromRecord sampleLibs (manyRecord n))

def manyFromSlice (encoded : Bytes) : Option PersistedTrustedPeer :=
  manyPersisted.find? (fun p => sampleToVecPretty p = encoded)

def manyLibs : PairingLibs := { sampleLibs with sha256 := manySha256, fromSlice := manyFromSlice }

/-- The records of the many ids. -/
def manyRecords : Set TrustedPeerRecord := {r | ∃ n < 4097, r = manyRecord n}

theorem toNat_manyChar {n : Nat} (hn : n < 4097) : (Char.ofNat (0x4e00 + n)).toNat = 0x4e00 + n := by
  have hvalid : (0x4e00 + n).isValidChar := .inl (by omega)
  rw [Char.ofNat, dif_pos hvalid]
  rfl

theorem manyId_inj {m n : Nat} (hm : m < 4097) (hn : n < 4097) (h : manyId m = manyId n) :
    m = n := by
  have hchar : Char.ofNat (0x4e00 + m) = Char.ofNat (0x4e00 + n) := by
    have := congrArg String.toList h
    simpa [manyId] using this
  have := congrArg Char.toNat hchar
  rw [toNat_manyChar hm, toNat_manyChar hn] at this
  omega

theorem size_manyId (n : Nat) : (manyId n).utf8ByteSize ≤ 4 := by
  simpa [manyId] using Char.utf8Size_le_four (Char.ofNat (0x4e00 + n))

theorem utf8Bytes_inj {a b : String} (h : utf8Bytes a = utf8Bytes b) : a = b := by
  have hb := fromUtf8_eq_some_iff.mpr h.symm
  have ha : fromUtf8 (utf8Bytes a) = some a := fromUtf8_eq_some_iff.mpr rfl
  rw [h, fromUtf8_eq_some_iff.mpr rfl] at ha
  exact (Option.some.inj ha).symm

theorem manySha256_inj {m n : Nat} (hm : m < 4097) (hn : n < 4097)
    (h : manySha256 (utf8Bytes (manyId m)) = manySha256 (utf8Bytes (manyId n))) : m = n := by
  have hne : ∀ k < 4097, utf8Bytes (manyId k) ≠ [1] := by
    intro k hk hone
    have hid : manyId k = "\x01" := utf8Bytes_inj (by rw [hone]; decide +kernel)
    have hchar : Char.ofNat (0x4e00 + k) = '\x01' := by
      have := congrArg String.toList hid
      simpa [manyId] using this
    have := congrArg Char.toNat hchar
    rw [toNat_manyChar hk] at this
    have hone : ('\x01').toNat = 1 := rfl
    omega
  rw [manySha256, manySha256, if_neg (hne m hm), if_neg (hne n hn)] at h
  have hval := congrArg Subtype.val h
  simp only [paddedDigest] at hval
  obtain ⟨hfront, hlast⟩ := List.append_inj' hval (by simp only [List.length_singleton])
  have hlm := size_manyId m
  have hln := size_manyId n
  have hlengths : (utf8Bytes (manyId m)).length = (utf8Bytes (manyId n)).length := by
    have := congrArg UInt8.toNat (List.singleton_inj.mp hlast)
    simp only [length_utf8Bytes, UInt8.toNat_ofNat'] at this ⊢
    omega
  have hbytes := congrArg (List.take (utf8Bytes (manyId m)).length) hfront
  rw [List.take_take, List.take_take, Nat.min_eq_left (by simp only [length_utf8Bytes]; omega),
    List.take_left] at hbytes
  rw [hlengths, List.take_left] at hbytes
  exact manyId_inj hm hn (utf8Bytes_inj hbytes)

theorem manyRecord_valid {n : Nat} (hn : n < 4097) :
    (manyRecord n).validate manyLibs = .ok () := by
  have hid : validatePeerId (manyRecord n).peerId = .ok () := by
    have hsize : (manyRecord n).peerId.utf8ByteSize ≤ 4 := size_manyId n
    have hcontrol : (manyRecord n).peerId.toList.any isControl = false := by
      simp [manyRecord, sampleRecord, manyId, isControl, toNat_manyChar hn]
      omega
    rw [validatePeerId, if_neg]
    rintro (hempty | hlong | hbad)
    · have := congrArg String.toList hempty
      simp [manyRecord, sampleRecord, manyId] at this
    · unfold maxPeerIdBytes at hlong
      omega
    · rw [hcontrol] at hbad
      cases hbad
  rw [TrustedPeerRecord.validate, hid]
  rfl

theorem fromRecord_manyLibs (record : TrustedPeerRecord) :
    PersistedTrustedPeer.fromRecord manyLibs record = .fromRecord sampleLibs record := by
  unfold PersistedTrustedPeer.fromRecord
  rfl

/-- The text of a record has its id in it. -/
theorem manyText_inj {m n : Nat} (hm : m < 4097) (hn : n < 4097)
    (h : sampleToVecPretty (.fromRecord sampleLibs (manyRecord m)) =
      sampleToVecPretty (.fromRecord sampleLibs (manyRecord n))) : m = n := by
  have hstring := congrArg String.toList (utf8Bytes_inj h)
  simp only [PersistedTrustedPeer.fromRecord, manyRecord, sampleRecord, String.toList_append,
    List.append_assoc, List.append_cancel_left_eq, List.append_cancel_right_eq] at hstring
  exact manyId_inj hm hn (String.toList_injective hstring)

theorem manyFromSlice_eq {n : Nat} (hn : n < 4097) :
    manyFromSlice (sampleToVecPretty (.fromRecord sampleLibs (manyRecord n))) =
      some (.fromRecord sampleLibs (manyRecord n)) := by
  have hmem : PersistedTrustedPeer.fromRecord sampleLibs (manyRecord n) ∈ manyPersisted :=
    List.mem_map_of_mem (List.mem_range.mpr hn)
  unfold manyFromSlice
  cases hfind : manyPersisted.find? (fun p =>
      sampleToVecPretty p = sampleToVecPretty (.fromRecord sampleLibs (manyRecord n))) with
  | none =>
      have hall := List.find?_eq_none.mp hfind _ hmem
      simp at hall
  | some p =>
      have htext := List.find?_some hfind
      have hin := List.mem_of_find?_eq_some hfind
      rw [decide_eq_true_eq] at htext
      unfold manyPersisted at hin
      obtain ⟨m, hm, rfl⟩ := List.mem_map.mp hin
      rw [manyText_inj (List.mem_range.mp hm) hn htext]

theorem manyLibs_lawfulOn : LawfulOn manyLibs manyRecords where
  decode_encode := by
    have hall : ∀ data ∈ [(manyRecord 0).identityKey.val, (manyRecord 0).certificateDer,
        (manyRecord 0).certificatePin.val],
        manyLibs.base64Decode (manyLibs.base64Encode data) = some data := by decide +kernel
    rintro record ⟨n, hn, rfl⟩
    exact hall
  length_encode := by
    have hall : ∀ data ∈ [(manyRecord 0).identityKey.val, (manyRecord 0).certificateDer,
        (manyRecord 0).certificatePin.val],
        (manyLibs.base64Encode data).utf8ByteSize = 4 * ((data.length + 2) / 3) := by
      decide +kernel
    rintro record ⟨n, hn, rfl⟩
    exact hall
  fromSlice_toVecPretty := by
    rintro record ⟨n, hn, rfl⟩ encoded htext
    have hfrom : manyLibs.fromSlice = manyFromSlice := by simp only [manyLibs]
    have hto : manyLibs.toVecPretty = fun p => some (sampleToVecPretty p) := rfl
    rw [fromRecord_manyLibs, hto] at htext
    rw [fromRecord_manyLibs, hfrom, ← Option.some.inj htext]
    exact manyFromSlice_eq hn
  length_toVecPretty := by
    rintro record ⟨n, hn, rfl⟩ encoded ⟨⟩
    have hsize := size_manyId n
    have htext : (sampleToVecPretty (.fromRecord manyLibs (manyRecord n))).length =
        (sampleToVecPretty (.fromRecord manyLibs { manyRecord n with peerId := "" })).length +
          (manyId n).utf8ByteSize := by
      simp only [sampleToVecPretty, length_utf8Bytes, String.utf8ByteSize_append,
        PersistedTrustedPeer.fromRecord]
      simp [manyRecord, sampleRecord]
      omega
    have hfixed : (sampleToVecPretty (.fromRecord manyLibs
        { manyRecord n with peerId := "" })).length ≤ 252 := by
      have hall : (sampleToVecPretty (.fromRecord manyLibs
        { manyRecord 0 with peerId := "" })).length ≤ 252 := by decide +kernel
      exact hall
    omega
  sha256_injOn := by
    rintro a ⟨m, hm, rfl⟩ b ⟨n, hn, rfl⟩ h
    rw [manySha256_inj hm hn h]
  readDir_perm := fun _ => .refl _

/-- Stores of as many records as one likes, up to the number of ids. -/
theorem exists_manyStore {n : Nat} (hn : n ≤ 4097) :
    ∃ d, (storeSystem manyLibs).Reach (fun _ call => call.Writes manyRecords) d ∧ d.size = n ∧
      (∀ m < n, Stored manyLibs d (manyRecord m)) ∧
      ∀ m < 4097, n ≤ m → d.get? (recordName manyLibs (manyId m)) = none := by
  induction n with
  | zero => exact ⟨∅, .init, rfl, by simp, fun _ _ _ => rfl⟩
  | succ n ih =>
      obtain ⟨d, hreach, hsize, hstored, hfree⟩ := ih (by omega)
      have hd := holds_of_reach hreach
      have hmem : manyRecord n ∈ manyRecords := ⟨n, by omega, rfl⟩
      obtain ⟨encoded, hwritable⟩ : ∃ encoded, IsWritable manyLibs (manyRecord n) encoded :=
        ⟨_, manyRecord_valid (by omega), rfl⟩
      have hnone : d.get? (recordName manyLibs (manyRecord n).peerId) = none :=
        hfree n (by omega) le_rfl
      have hexec : ((WriteCall.insert.run manyLibs 7 .none (manyRecord n)).exec d).2 =
          d.insert (recordName manyLibs (manyRecord n).peerId) encoded := by
        rw [exec_run (fun _ => hnone), exec_writeRecord hwritable (hd.temporary_none _ _)]
        rfl
      have hreach' : (storeSystem manyLibs).Reach (fun _ call => call.Writes manyRecords)
          (d.insert (recordName manyLibs (manyRecord n).peerId) encoded) := by
        have hwrites : (StoreCall.write .insert 7 (manyRecord n)).Writes manyRecords := hmem
        rw [← hexec]
        exact hreach.step hwrites rfl
      refine ⟨_, hreach', ?_, fun m hm => ?_, fun m hm hle => ?_⟩
      · rw [OrdMap.size_insert_of_none _ hnone, hsize]
      · have hmem' : manyRecord m ∈ manyRecords := ⟨m, by omega, rfl⟩
        refine ((holds_of_reach hreach').stored_iff manyLibs_lawfulOn).mpr ⟨hmem', ?_⟩
        rcases Nat.lt_succ_iff_lt_or_eq.mp hm with hlt | rfl
        · obtain ⟨-, data, hget, hdata⟩ := (hd.stored_iff manyLibs_lawfulOn).mp (hstored m hlt)
          refine ⟨data, ?_, hdata⟩
          rw [OrdMap.get?_insert, if_neg, hget]
          intro hname
          rw [hname, hnone] at hget
          cases hget
        · exact ⟨encoded, by simp, hwritable⟩
      · rw [OrdMap.get?_insert, if_neg, hfree m hm (by omega)]
        intro hname
        have := manySha256_inj hm (by omega) (recordName_eq_iff.mp hname)
        omega

/-- A store of 4097 records is reached, and no peer of it can be revoked. -/
theorem revocation_too_large : LawfulOn manyLibs manyRecords ∧
    ∃ d target, (storeSystem manyLibs).Reach (fun _ call => call.Writes manyRecords) d ∧
      Stored manyLibs d target ∧
      (removePeerAndAliases manyLibs (fun _ => false) target.peerId).exec d =
        (.error .invalidRecord, d) := by
  obtain ⟨d, hreach, hsize, hstored, -⟩ := exists_manyStore le_rfl
  refine ⟨manyLibs_lawfulOn, d, manyRecord 0, hreach, hstored 0 (by decide), ?_⟩
  rw [exec_removePeerAndAliases (hstored 0 (by decide)),
    (holds_of_reach hreach).loadAll_eq_error manyLibs_lawfulOn (by rw [hsize]; decide)]

end FileTrustedPeerStore

end HbbCommon.Transport
