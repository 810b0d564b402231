import HbbCommon.Config.Logic.PeerNames
import HbbCommon.Config.Logic.Stores

/-!
# Stored peers are listed and loaded

The files of peers with regular ids are all in one directory, one for each id; they are listed
as these ids, and each id is loaded from its own file. An id that is read back shorter is not
listed, as the lengths of all ids show.
-/

namespace HbbCommon.Config

open HbbCommon.Base
open HbbCommon.Files (Path Component IsName)
open HbbCommon.Files.Path (dotByte)

variable {lib : Sodium} {source : KeySource}

/-! ## A configuration that is loaded again -/

/-- A text in the clear is not too long, and one that looks encrypted is not decrypted. -/
def TextKept (lib : Sodium) (source : KeySource) (s : String) : Prop :=
  if lib.isEncrypted source s then (lib.decryptStrOrOriginal source s passwordEncVersion).1 = s
  else s.length ≤ encryptMaxLen

def BytesKept (lib : Sodium) (source : KeySource) (v : Bytes) : Prop :=
  if lib.isEncryptedVec source v then (lib.decryptVecOrOriginal source v).1 = v
  else v.length ≤ encryptMaxLen

instance (lib : Sodium) (source : KeySource) (v : Bytes) : Decidable (BytesKept lib source v) := by
  unfold BytesKept
  infer_instance

theorem reloadStr_eq_self_iff (hideal : lib.Ideal) (drawn : Nat) (s : String) :
    reloadStr lib source drawn s = s ↔ TextKept lib source s := by
  unfold TextKept
  by_cases hs : lib.isEncrypted source s = true
  · have hstored : lib.encryptStrOrOriginal source drawn s passwordEncVersion encryptMaxLen = s :=
      Sodium.encryptStr_encrypted hs
    rw [if_pos hs]
    unfold reloadStr
    rw [hstored]
  · rw [if_neg hs, reloadStr_eq hideal drawn (Bool.not_eq_true _ ▸ hs)]
    by_cases hlong : s.length > encryptMaxLen
    · rw [if_pos hlong]
      exact iff_of_false (ne_empty_of_tooLong hlong).symm (Nat.not_le.mpr hlong)
    · rw [if_neg hlong]
      exact iff_of_true rfl (Nat.not_lt.mp hlong)

theorem reloadVec_eq_self_iff (hideal : lib.Ideal) (drawn : Nat) (v : Bytes) :
    reloadVec lib source drawn v = v ↔ BytesKept lib source v := by
  unfold BytesKept
  by_cases hv : lib.isEncryptedVec source v = true
  · have hstored : lib.encryptVecOrOriginal source drawn v encryptMaxLen = v :=
      Sodium.encryptVec_encrypted hv
    rw [if_pos hv]
    unfold reloadVec
    rw [hstored]
  · rw [if_neg hv, reloadVec_eq hideal drawn (Bool.not_eq_true _ ▸ hv)]
    by_cases hlong : v.length > encryptMaxLen
    · rw [if_pos hlong]
      refine iff_of_false (fun hnil => ?_) (Nat.not_le.mpr hlong)
      rw [← hnil] at hlong
      simp at hlong
    · rw [if_neg hlong]
      exact iff_of_true rfl (Nat.not_lt.mp hlong)

/-- The password and the encrypted options of a peer are loaded as they were stored. -/
structure PeerConfig.SecretsKept (lib : Sodium) (source : KeySource) (config : PeerConfig) :
    Prop where
  password : BytesKept lib source config.password
  option : ∀ opt ∈ PeerConfig.encryptedOptions, ∀ v, config.options.get? opt = some v →
    TextKept lib source v

theorem PeerConfig.reloaded_otherOption {nonces : String → Nat} (config : PeerConfig)
    {opt : String} (hopt : opt ∉ PeerConfig.encryptedOptions) :
    (config.reloaded lib source nonces).options.get? opt = config.options.get? opt := by
  unfold PeerConfig.reloaded
  rw [loaded_eq, (foldl_mapOption _ _ nodup_encryptedOptions).2, if_neg hopt, stored_eq]
  dsimp only
  rw [(foldl_mapOption _ _ nodup_encryptedOptions).2, if_neg hopt]

theorem PeerConfig.reloaded_eq_self_iff (hideal : lib.Ideal) {nonces : String → Nat}
    (config : PeerConfig) :
    config.reloaded lib source nonces = config ↔ config.SecretsKept lib source := by
  constructor
  · intro h
    refine ⟨?_, fun opt hopt v hv => ?_⟩
    · rw [← reloadVec_eq_self_iff hideal (nonces "password"), ← config.reloaded_password, h]
    · have hoption : (config.reloaded lib source nonces).options.get? opt =
          (config.options.get? opt).map (reloadStr lib source (nonces opt)) :=
        config.reloaded_option hopt
      rw [h, hv, Option.map_some, Option.some_inj] at hoption
      exact (reloadStr_eq_self_iff hideal (nonces opt) v).mp hoption.symm
  · intro h
    have hpassword : (config.reloaded lib source nonces).password = config.password :=
      config.reloaded_password.trans ((reloadVec_eq_self_iff hideal _ _).mpr h.password)
    have hoptions : (config.reloaded lib source nonces).options = config.options := by
      refine OrdMap.ext_get? (fun opt => ?_)
      by_cases hopt : opt ∈ PeerConfig.encryptedOptions
      · rw [config.reloaded_option hopt]
        cases hv : config.options.get? opt with
        | none => rfl
        | some v =>
            exact congrArg some ((reloadStr_eq_self_iff hideal _ v).mpr (h.option opt hopt v hv))
      · exact config.reloaded_otherOption hopt
    generalize config.reloaded lib source nonces = loaded at hpassword hoptions
    cases loaded
    cases config
    cases hpassword
    cases hoptions
    rfl

/-! ## The files of a call -/

namespace PeerFiles

variable {s : PeerFiles} {p : Path} {file : PeerFile}

theorem loadPath_storePath_ne {q : Path} (h : q.components ≠ p.components) :
    (s.storePath p file).loadPath q = s.loadPath q := by
  have hlookup : (s.storePath p file).files.lookup q.components =
      s.files.lookup q.components := by
    unfold storePath
    dsimp only
    split
    · rfl
    · split
      · rfl
      · exact AList.lookup_insert_ne h
  unfold loadPath
  rw [hlookup]

/-- What replaces a file adds none and removes none. -/
theorem mem_files_storePath (h : p.components ∈ s.files) (k : List Component) :
    k ∈ (s.storePath p file).files ↔ k ∈ s.files := by
  unfold storePath
  dsimp only
  split
  · rfl
  · split
    · rfl
    · rw [AList.mem_insert]
      exact or_iff_right_of_imp (fun heq => heq ▸ h)

end PeerFiles

namespace PeerConfig

variable {dir : Option Path} {s : PeerFiles} {id : String}

/-- What a call returns for what is in a file. -/
def loadedRecord (lib : Sodium) (source : KeySource) (file : PeerRecord) : PeerRecord :=
  { file with secrets := (PeerConfig.loaded (lib.ops source) file.secrets).run.1 }

theorem load_record (draw : Draw) :
    (load dir lib source draw id s).1 = loadedRecord lib source (s.loadPath (path dir id)) := rfl

theorem mem_files_load {draw : Draw} (h : (path dir id).components ∈ s.files)
    (k : List Component) : k ∈ (load dir lib source draw id s).2.files ↔ k ∈ s.files := by
  unfold load
  dsimp only
  split
  · exact PeerFiles.mem_files_storePath h k
  · rfl

theorem loadPath_load {draw : Draw} {q : Path} (h : q.components ≠ (path dir id).components) :
    (load dir lib source draw id s).2.loadPath q = s.loadPath q := by
  unfold load
  dsimp only
  split
  · exact PeerFiles.loadPath_storePath_ne h
  · rfl

/-- Entries whose files are there, with a platform, are loaded from these and stay. -/
theorem loadBatch_eq (draws : String → Draw) {entries : List (String × Nat × Path)}
    (hnodup : (entries.map (fun e => (path dir e.1).components)).Nodup)
    (hmem : ∀ e ∈ entries, (path dir e.1).components ∈ s.files)
    (hplatform : ∀ e ∈ entries, (s.loadPath (path dir e.1)).platform ≠ "") :
    (loadBatch dir lib source draws entries s).1 = entries.map (fun e =>
        (e.1, e.2.1, loadedRecord lib source (s.loadPath (path dir e.1)))) ∧
      ∀ k, k ∈ (loadBatch dir lib source draws entries s).2.files ↔ k ∈ s.files := by
  induction entries generalizing s with
  | nil => exact ⟨rfl, fun _ => Iff.rfl⟩
  | cons e entries ih =>
      obtain ⟨id, t, p⟩ := e
      rw [List.map_cons, List.nodup_cons] at hnodup
      obtain ⟨hid, hmem⟩ := List.forall_mem_cons.mp hmem
      obtain ⟨hidPlatform, hplatform⟩ := List.forall_mem_cons.mp hplatform
      -- the file of another id is not changed
      have hsame : ∀ e ∈ entries, (load dir lib source (draws id) id s).2.loadPath (path dir e.1) =
          s.loadPath (path dir e.1) := fun e he =>
        loadPath_load (fun heq => hnodup.1 (List.mem_map.mpr ⟨e, he, heq⟩))
      have hfiles : ∀ k, k ∈ (load dir lib source (draws id) id s).2.files ↔ k ∈ s.files :=
        mem_files_load hid
      obtain ⟨hrest, hrestFiles⟩ := ih (s := (load dir lib source (draws id) id s).2) hnodup.2
        (fun e he => (hfiles _).mpr (hmem e he))
        (fun e he => hsame e he ▸ hplatform e he)
      have hplatform' : (load dir lib source (draws id) id s).1.platform ≠ "" := hidPlatform
      unfold loadBatch
      dsimp only
      rw [if_neg hplatform']
      refine ⟨?_, fun k => (hrestFiles k).trans (hfiles k)⟩
      rw [hrest, List.map_cons]
      refine congrArg (List.cons _) (List.map_congr_left (fun e he => ?_))
      rw [hsame e he]

end PeerConfig

/-! ## Peers that are stored -/

/-- A peer that is given to `store`. -/
structure StoredPeer where
  id : String
  record : PeerRecord
  draw : Draw

namespace StoredPeer

/-- The peers are stored one after the other. -/
def storeAll (dir : Option Path) (lib : Sodium) (source : KeySource) (peers : List StoredPeer) :
    PeerFiles :=
  peers.foldl (fun s peer => PeerConfig.store dir lib source peer.draw peer.id peer.record s) .empty

/-- The name of the peer's file. -/
def name (peer : StoredPeer) : List UInt8 :=
  utf8Bytes (PeerConfig.stemOf peer.id) ++ utf8Bytes ".toml"

/-- What is in the peer's file. -/
def file (lib : Sodium) (source : KeySource) (peer : StoredPeer) : PeerFile where
  modified := peer.draw.now
  record := { peer.record with
    secrets := (PeerConfig.stored (lib.ops source) peer.draw.nonces peer.record.secrets).run }

/-- What is listed for the peer. -/
def entry (dir : Path) (peer : StoredPeer) : String × Nat × Path :=
  (PeerConfig.decodeName (PeerConfig.stemOf peer.id), peer.draw.now, (dir.push peers).push peer.name)

theorem entry_fst (dir : Path) (peer : StoredPeer) :
    (peer.entry dir).1 = PeerConfig.decodeName (PeerConfig.stemOf peer.id) := by
  unfold entry
  rfl

/-- The file is in the directory of the peers. -/
structure Placed (dir : Path) (peer : StoredPeer) : Prop where
  stem_ne_nil : utf8Bytes (PeerConfig.stemOf peer.id) ≠ []
  isName : IsName peer.name
  components : (PeerConfig.path (some dir) peer.id).components =
    peersKey dir ++ [.normal peer.name]

theorem placed_of_flat (dir : Path) {peer : StoredPeer} (hid : peer.id ≠ "")
    (hflat : PeerConfig.Flat peer.id) : Placed dir peer := by
  have hcomponents : (PeerConfig.path (some dir) peer.id).components =
      peersKey dir ++ [.normal peer.name] := PeerConfig.components_path_of_flat hid hflat
  have hstem : utf8Bytes (PeerConfig.stemOf peer.id) ≠ [] := by
    have hsegments := PeerConfig.filterMap_segments hid hflat
    intro hnil
    have hmem : Component.normal (utf8Bytes (PeerConfig.stemOf peer.id)) ∈
        (Path.segments (utf8Bytes (PeerConfig.idEncoded peer.id))).filterMap Path.component :=
      hsegments ▸ List.mem_cons_self
    obtain ⟨segment, -, hcomponent⟩ := List.mem_filterMap.mp hmem
    rw [← Files.eq_of_component hcomponent, hnil] at hcomponent
    cases hcomponent
  refine ⟨hstem, Files.isName_of_mem_components (p := PeerConfig.path (some dir) peer.id) ?_,
    hcomponents⟩
  rw [hcomponents]
  exact List.mem_append_right _ List.mem_cons_self

/-- The files of the peers stand side by side. -/
structure Together (dir : Path) (lib : Sodium) (source : KeySource) (list : List StoredPeer)
    (s : PeerFiles) : Prop where
  dirs : ∀ k ∈ s.dirs, k <+: peersKey dir
  made : list ≠ [] → peersKey dir ∈ s.dirs
  entries : s.files.entries = (list.map (fun peer =>
    (⟨(PeerConfig.path (some dir) peer.id).components, peer.file lib source⟩ :
      Sigma (fun _ : List Component => PeerFile)))).reverse

theorem Together.mem_files {dir : Path} {list : List StoredPeer} {s : PeerFiles}
    (h : Together dir lib source list s) (k : List Component) : k ∈ s.files ↔
      ∃ peer ∈ list, (PeerConfig.path (some dir) peer.id).components = k := by
  rw [AList.mem_keys, AList.keys, List.keys, h.entries, List.map_reverse, List.mem_reverse,
    List.map_map, List.mem_map]
  rfl

/-- A peer more is stored in a file of its own. -/
theorem Together.store {dir : Path} {list : List StoredPeer} {s : PeerFiles}
    (h : Together dir lib source list s) (hplaced : ∀ peer ∈ list, Placed dir peer)
    {peer : StoredPeer} (hpeer : Placed dir peer)
    (hnew : ∀ other ∈ list, (PeerConfig.path (some dir) other.id).components ≠
      (PeerConfig.path (some dir) peer.id).components) :
    Together dir lib source (list ++ [peer])
      (PeerConfig.store (some dir) lib source peer.draw peer.id peer.record s) := by
  have hdropLast : (PeerConfig.path (some dir) peer.id).components.dropLast = peersKey dir := by
    rw [hpeer.components, List.dropLast_concat]
  have habove : ¬ s.files.keys.any (fun above => above <+: peersKey dir) = true := by
    intro hany
    obtain ⟨above, hmem, hprefix⟩ := List.any_eq_true.mp hany
    obtain ⟨other, hother, rfl⟩ := (h.mem_files above).mp hmem
    have hlength := (of_decide_eq_true hprefix).length_le
    rw [(hplaced other hother).components, List.length_append, List.length_singleton] at hlength
    omega
  have hdirs : ∀ k ∈ s.dirs ++ (peersKey dir).inits, k <+: peersKey dir := by
    intro k hk
    rcases List.mem_append.mp hk with hk | hk
    · exact h.dirs k hk
    · exact (List.mem_inits k _).mp hk
  have hfileName : (PeerConfig.path (some dir) peer.id).fileName ≠ none := by
    unfold Path.fileName
    rw [hpeer.components, List.getLast?_concat]
    exact Option.some_ne_none _
  have hnotDir : (PeerConfig.path (some dir) peer.id).components ∉
      s.dirs ++ (peersKey dir).inits := by
    intro hmem
    have hlength := (hdirs _ hmem).length_le
    rw [hpeer.components, List.length_append, List.length_singleton] at hlength
    omega
  have hfresh : (PeerConfig.path (some dir) peer.id).components ∉ s.files := by
    intro hmem
    obtain ⟨other, hother, heq⟩ := (h.mem_files _).mp hmem
    exact hnew other hother heq
  have hstore : PeerConfig.store (some dir) lib source peer.draw peer.id peer.record s =
      { dirs := s.dirs ++ (peersKey dir).inits
        files := s.files.insert (PeerConfig.path (some dir) peer.id).components
          (peer.file lib source) } := by
    unfold PeerConfig.store PeerFiles.storePath
    dsimp only
    rw [hdropLast, if_neg habove, if_neg (not_or.mpr ⟨hfileName, hnotDir⟩)]
    rfl
  rw [hstore]
  refine ⟨hdirs, fun _ => List.mem_append_right _ ((List.mem_inits _ _).mpr (List.prefix_refl _)),
    ?_⟩
  rw [AList.entries_insert_of_notMem hfresh, h.entries, List.map_append, List.reverse_append]
  rfl

theorem together_storeAll (dir : Path) {list : List StoredPeer}
    (hplaced : ∀ peer ∈ list, Placed dir peer)
    (hnodup : (list.map (fun peer => (PeerConfig.path (some dir) peer.id).components)).Nodup) :
    Together dir lib source list (storeAll (some dir) lib source list) := by
  induction list using List.reverseRecOn with
  | nil => exact ⟨fun _ hk => absurd hk List.not_mem_nil, fun h => absurd rfl h, rfl⟩
  | append_singleton list peer ih =>
      obtain ⟨hlist, hpeer⟩ := List.forall_mem_append.mp hplaced
      rw [List.map_append, List.nodup_append] at hnodup
      have hbefore := ih hlist hnodup.1
      unfold storeAll at hbefore ⊢
      rw [List.foldl_append]
      refine hbefore.store hlist (hpeer peer List.mem_cons_self) (fun other hother => ?_)
      exact hnodup.2.2 _ (List.mem_map_of_mem hother) _ List.mem_cons_self

/-! ## Listing -/

/-- A file is listed with the id that its name is read back as. -/
theorem listed_file {dir : Path} {peer : StoredPeer} (hpeer : Placed dir peer) (modified : Nat) :
    (PeerConfig.entryPath (dir.push peers)
      (PeerConfig.path (some dir) peer.id).components).bind
        (fun p => PeerConfig.listed none p modified) =
      some (PeerConfig.decodeName (PeerConfig.stemOf peer.id), modified,
        (dir.push peers).push peer.name) := by
  have hentry : PeerConfig.entryPath (dir.push peers)
      (PeerConfig.path (some dir) peer.id).components = some ((dir.push peers).push peer.name) := by
    unfold PeerConfig.entryPath
    rw [hpeer.components, List.getLast?_concat, List.dropLast_concat]
    exact if_pos rfl
  have hname : Path.splitAtDot peer.name =
      (utf8Bytes (PeerConfig.stemOf peer.id), some (utf8Bytes "toml")) := by
    unfold name
    rw [← dot_toml]
    exact Path.splitAtDot_append hpeer.stem_ne_nil (by decide +kernel) (by decide +kernel)
  have htext : ∀ t : String, PeerConfig.text (utf8Bytes t) = t := by
    intro t
    unfold PeerConfig.text
    rw [fromUtf8_eq_some_iff.mpr rfl]
    rfl
  have hextension : ((dir.push peers).push peer.name).extension = some (utf8Bytes "toml") := by
    unfold Path.extension
    rw [hpeer.isName.fileName_push, Option.bind_some, hname]
  have hstem : ((dir.push peers).push peer.name).fileStem =
      some (utf8Bytes (PeerConfig.stemOf peer.id)) := by
    unfold Path.fileStem
    rw [hpeer.isName.fileName_push, Option.map_some, hname]
  rw [hentry, Option.bind_some]
  unfold PeerConfig.listed
  rw [hextension, hstem, Option.map_some, Option.map_some, htext, htext, if_pos rfl]
  exact if_pos rfl

/-- The peers are listed in some order. -/
theorem listing_perm {dir : Path} {list : List StoredPeer} {s : PeerFiles}
    (h : Together dir lib source list s) (hplaced : ∀ peer ∈ list, Placed dir peer) :
    (PeerConfig.getVecIdModifiedTimePath (some dir) none s).Perm (list.map (entry dir)) := by
  unfold PeerConfig.getVecIdModifiedTimePath
  dsimp only
  by_cases hnil : list = []
  · subst hnil
    have hentries : s.files.entries = [] := h.entries
    rw [hentries]
    split
    · exact List.mergeSort_perm _ _
    · exact List.Perm.refl _
  · rw [if_pos (show (Config.path (some dir) peers).components ∈ s.dirs from h.made hnil)]
    refine (List.mergeSort_perm _ _).trans ?_
    rw [h.entries]
    refine ((List.reverse_perm _).filterMap _).trans ?_
    rw [List.filterMap_map]
    refine List.Perm.of_eq ?_
    rw [← List.filterMap_eq_map]
    refine List.filterMap_congr (fun peer hpeer => ?_)
    exact listed_file (hplaced peer hpeer) _

/-! ## Loading -/

section

variable {dir : Path} {list : List StoredPeer} {s : PeerFiles}

/-- Two peers whose names are read back as their ids have files of their own. -/
theorem eq_of_components {peer other : StoredPeer} (hpeer : Placed dir peer)
    (hother : Placed dir other) (heq : (PeerConfig.path (some dir) peer.id).components =
      (PeerConfig.path (some dir) other.id).components) :
    PeerConfig.stemOf peer.id = PeerConfig.stemOf other.id := by
  rw [hpeer.components, hother.components] at heq
  have hname := Component.normal.inj (List.singleton_inj.mp (List.append_cancel_left heq))
  exact utf8Bytes_injective (List.append_cancel_right hname)

theorem nodup_components {f : StoredPeer → List Component}
    (hnodup : (list.map StoredPeer.id).Nodup)
    (hinj : ∀ peer ∈ list, ∀ other ∈ list, f peer = f other → peer.id = other.id) :
    (list.map f).Nodup := by
  unfold List.Nodup at hnodup ⊢
  rw [List.pairwise_map] at hnodup ⊢
  exact hnodup.imp_of_mem (fun hpeer hother hne heq => hne (hinj _ hpeer _ hother heq))

theorem Together.loadPath (h : Together dir lib source list s) {peer : StoredPeer}
    (hpeer : peer ∈ list) :
    s.loadPath (PeerConfig.path (some dir) peer.id) = (peer.file lib source).record := by
  have hentry : (⟨(PeerConfig.path (some dir) peer.id).components, peer.file lib source⟩ :
      Sigma (fun _ : List Component => PeerFile)) ∈ s.files.entries := by
    rw [h.entries, List.mem_reverse]
    exact List.mem_map_of_mem hpeer
  have hlookup : s.files.lookup (PeerConfig.path (some dir) peer.id).components =
      some (peer.file lib source) := AList.mem_lookup_iff.mpr hentry
  unfold PeerFiles.loadPath
  rw [hlookup]

/-- What is listed is loaded, in part or as a whole, and stays. -/
theorem batchPeers_eq (h : Together dir lib source list s)
    (hplaced : ∀ peer ∈ list, Placed dir peer)
    (hback : ∀ peer ∈ list, PeerConfig.decodeName (PeerConfig.stemOf peer.id) = peer.id)
    (hplatform : ∀ peer ∈ list, peer.record.platform ≠ "")
    (hnodup : (list.map (fun peer => (PeerConfig.path (some dir) peer.id).components)).Nodup)
    (draws : String → Draw) (start : Nat) (stop : Option Nat) :
    let all := PeerConfig.getVecIdModifiedTimePath (some dir) none s
    let r := PeerConfig.batchPeers (some dir) lib source draws all start stop s
    r.1.1 = ((all.take (stop.getD (start + PeerConfig.batchLoadingCount))).drop start).map
        (fun e => (e.1, e.2.1, PeerConfig.loadedRecord lib source
          (s.loadPath (PeerConfig.path (some dir) e.1)))) ∧
      ∀ k, k ∈ r.2.files ↔ k ∈ s.files := by
  intro all r
  have hperm : all.Perm (list.map (entry dir)) := listing_perm h hplaced
  -- every entry is that of a peer
  have hentries : ∀ e ∈ all, ∃ peer ∈ list, e.1 = peer.id := by
    intro e he
    obtain ⟨peer, hpeer, rfl⟩ := List.mem_map.mp (hperm.mem_iff.mp he)
    exact ⟨peer, hpeer, hback peer hpeer⟩
  have hnodupAll : (all.map (fun e => (PeerConfig.path (some dir) e.1).components)).Nodup := by
    have hids : (list.map (entry dir)).map
        (fun e => (PeerConfig.path (some dir) e.1).components) =
        list.map (fun peer => (PeerConfig.path (some dir) peer.id).components) := by
      rw [List.map_map]
      refine List.map_congr_left (fun peer hpeer => ?_)
      rw [Function.comp_apply, entry_fst, hback peer hpeer]
    rw [(hperm.map _).nodup_iff, hids]
    exact hnodup
  generalize hcount : stop.getD (start + PeerConfig.batchLoadingCount) = count
  have hpart : ∀ stop', stop' ≤ start → (all.take stop').drop start = [] := fun stop' hle =>
    List.drop_eq_nil_of_le ((List.length_take_le _ _).trans hle)
  have hmin : all.take (min count all.length) = all.take count := by
    rw [List.take_eq_take_iff, min_assoc, min_self]
  show (PeerConfig.batchPeers (some dir) lib source draws all start stop s).1.1 = _ ∧
    ∀ k, k ∈ (PeerConfig.batchPeers (some dir) lib source draws all start stop s).2.files ↔
      k ∈ s.files
  unfold PeerConfig.batchPeers
  rw [hcount]
  dsimp only
  by_cases hstart : all.length ≤ start
  · rw [if_pos hstart]
    refine ⟨?_, fun _ => Iff.rfl⟩
    rw [← hmin, hpart _ ((Nat.min_le_right _ _).trans hstart)]
    rfl
  · rw [if_neg hstart]
    by_cases hstop : min count all.length ≤ start
    · rw [if_pos hstop]
      refine ⟨?_, fun _ => Iff.rfl⟩
      rw [← hmin, hpart _ hstop]
      rfl
    · rw [if_neg hstop, hmin]
      have hsub : ((all.take count).drop start).Sublist all :=
        (List.drop_sublist _ _).trans (List.take_sublist _ _)
      refine PeerConfig.loadBatch_eq draws ((hsub.map _).nodup hnodupAll) ?_ ?_
      · intro e he
        obtain ⟨peer, hpeer, hid⟩ := hentries e (hsub.subset he)
        exact (h.mem_files _).mpr ⟨peer, hpeer, by rw [hid]⟩
      · intro e he
        obtain ⟨peer, hpeer, hid⟩ := hentries e (hsub.subset he)
        rw [hid, h.loadPath hpeer]
        exact hplatform peer hpeer

end

end StoredPeer

/-! ## All peers -/

/-- Each peer has a file of its own in the directory of the peers, the listing has their ids, and
what is loaded for a part of the listing are these peers with their configurations; no file is
removed. -/
structure PeersKept (dir : Option Path) (lib : Sodium) (source : KeySource)
    (list : List StoredPeer) : Prop where
  direct : ∀ peer ∈ list, PeerConfig.DirectChild dir peer.id
  injective : ∀ peer ∈ list, ∀ other ∈ list, (PeerConfig.path dir peer.id).components =
    (PeerConfig.path dir other.id).components → peer.id = other.id
  listed : ((PeerConfig.getVecIdModifiedTimePath dir none
    (StoredPeer.storeAll dir lib source list)).map Prod.fst).Perm (list.map StoredPeer.id)
  loaded : ∀ draws start stop,
    let s := StoredPeer.storeAll dir lib source list
    let all := PeerConfig.getVecIdModifiedTimePath dir none s
    let r := PeerConfig.batchPeers dir lib source draws all start stop s
    r.1.1.map Prod.fst = ((all.take (stop.getD (start + PeerConfig.batchLoadingCount))).drop
        start).map Prod.fst ∧
      (∀ e ∈ r.1.1, ∀ peer ∈ list, peer.id = e.1 → e.2.2 = peer.record) ∧
      ∀ k, k ∈ r.2.files ↔ k ∈ s.files

/-- Without a directory no peer has a file. -/
theorem dir_of_direct {dir : Option Path} {id : String} (h : PeerConfig.DirectChild dir id) :
    ∃ d, dir = some d := by
  cases dir with
  | some d => exact ⟨d, rfl⟩
  | none =>
      obtain ⟨n, hn⟩ := h
      cases hn

/-- When the ids that are listed are those of the peers, every id is regular. -/
theorem regular_of_listed {dir : Path} {list : List StoredPeer}
    (hid : ∀ peer ∈ list, peer.id ≠ "") (hnodup : (list.map StoredPeer.id).Nodup)
    (h : PeersKept (some dir) lib source list) : ∀ peer ∈ list, PeerConfig.RegularId peer.id := by
  have hflat : ∀ peer ∈ list, PeerConfig.Flat peer.id := fun peer hpeer =>
    PeerConfig.flat_of_direct (h.direct peer hpeer)
  have hplaced : ∀ peer ∈ list, StoredPeer.Placed dir peer := fun peer hpeer =>
    StoredPeer.placed_of_flat dir (hid peer hpeer) (hflat peer hpeer)
  have htogether : StoredPeer.Together dir lib source list
      (StoredPeer.storeAll (some dir) lib source list) :=
    StoredPeer.together_storeAll dir hplaced (StoredPeer.nodup_components hnodup h.injective)
  have hperm := ((StoredPeer.listing_perm htogether hplaced).map Prod.fst).symm.trans h.listed
  have hsum := (hperm.map String.length).sum_eq
  simp only [List.map_map, Function.comp_def, StoredPeer.entry_fst] at hsum
  -- no name is read back longer than its id
  have hle : ∀ peer ∈ list,
      (PeerConfig.decodeName (PeerConfig.stemOf peer.id)).length ≤ peer.id.length := by
    intro peer hpeer
    by_cases hregular : PeerConfig.RegularId peer.id
    · rw [PeerConfig.decodeName_of_regular (hid peer hpeer) hregular]
    · exact Nat.le_of_lt (PeerConfig.length_decodeName_stemOf_lt (hid peer hpeer)
        (hflat peer hpeer) hregular)
  intro bad hbad
  by_contra hirregular
  have hlt := PeerConfig.length_decodeName_stemOf_lt (hid bad hbad) (hflat bad hbad) hirregular
  have hless := List.sum_lt_sum (fun peer : StoredPeer =>
    (PeerConfig.decodeName (PeerConfig.stemOf peer.id)).length) (fun peer => peer.id.length) hle
    ⟨bad, hbad, hlt⟩
  omega

/-- Peers with regular ids are stored side by side, and their names are read back. -/
theorem together_of_regular (lib : Sodium) (source : KeySource) (dir : Path) {list : List StoredPeer}
    (hid : ∀ peer ∈ list, peer.id ≠ "") (hnodup : (list.map StoredPeer.id).Nodup)
    (hregular : ∀ peer ∈ list, PeerConfig.RegularId peer.id) :
    (∀ peer ∈ list, StoredPeer.Placed dir peer) ∧
      (∀ peer ∈ list, ∀ other ∈ list, (PeerConfig.path (some dir) peer.id).components =
        (PeerConfig.path (some dir) other.id).components → peer.id = other.id) ∧
      StoredPeer.Together dir lib source list (StoredPeer.storeAll (some dir) lib source list) := by
  have hplaced : ∀ peer ∈ list, StoredPeer.Placed dir peer := fun peer hpeer =>
    StoredPeer.placed_of_flat dir (hid peer hpeer) (PeerConfig.flat_of_regular (hregular peer hpeer))
  have hinj : ∀ peer ∈ list, ∀ other ∈ list, (PeerConfig.path (some dir) peer.id).components =
      (PeerConfig.path (some dir) other.id).components → peer.id = other.id := by
    intro peer hpeer other hother heq
    have hstem := StoredPeer.eq_of_components (hplaced peer hpeer) (hplaced other hother) heq
    rw [← PeerConfig.decodeName_of_regular (hid peer hpeer) (hregular peer hpeer), hstem,
      PeerConfig.decodeName_of_regular (hid other hother) (hregular other hother)]
  exact ⟨hplaced, hinj,
    StoredPeer.together_storeAll dir hplaced (StoredPeer.nodup_components hnodup hinj)⟩

/-- What is loaded from the peer's file. -/
theorem loadedRecord_file (peer : StoredPeer) :
    PeerConfig.loadedRecord lib source (peer.file lib source).record = { peer.record with
      secrets := peer.record.secrets.reloaded lib source peer.draw.nonces } := rfl

theorem loadedRecord_eq_iff (hideal : lib.Ideal) (peer : StoredPeer) :
    PeerConfig.loadedRecord lib source (peer.file lib source).record = peer.record ↔
      peer.record.secrets.SecretsKept lib source := by
  have hsecrets : peer.record.secrets.reloaded lib source peer.draw.nonces = peer.record.secrets ↔
      peer.record.secrets.SecretsKept lib source := PeerConfig.reloaded_eq_self_iff hideal _
  rw [loadedRecord_file, ← hsecrets]
  obtain ⟨id, ⟨secrets, platform⟩, draw⟩ := peer
  simp

/-- Peers are each in a file of their own, are listed, and are loaded as they were stored exactly
when there is a directory, their ids are regular and their secrets are kept. -/
theorem peers_kept_iff (hideal : lib.Ideal) (dir : Option Path) {list : List StoredPeer}
    (hnodup : (list.map StoredPeer.id).Nodup) (hid : ∀ peer ∈ list, peer.id ≠ "")
    (hplatform : ∀ peer ∈ list, peer.record.platform ≠ "") :
    PeersKept dir lib source list ↔ ∀ peer ∈ list, dir.isSome = true ∧
      PeerConfig.RegularId peer.id ∧ peer.record.secrets.SecretsKept lib source := by
  constructor
  · intro h peer hpeer
    obtain ⟨d, rfl⟩ := dir_of_direct (h.direct peer hpeer)
    have hregular := regular_of_listed hid hnodup h
    obtain ⟨hplaced, hinj, htogether⟩ := together_of_regular lib source d hid hnodup
      hregular
    have hback := fun peer hpeer =>
      PeerConfig.decodeName_of_regular (hid peer hpeer) (hregular peer hpeer)
    refine ⟨rfl, hregular peer hpeer, (loadedRecord_eq_iff hideal peer).mp ?_⟩
    -- the peer is in the batch of the whole listing
    generalize hs : StoredPeer.storeAll (some d) lib source list = s at htogether
    generalize hall : PeerConfig.getVecIdModifiedTimePath (some d) none s = all
    have hbatch := (StoredPeer.batchPeers_eq htogether hplaced hback hplatform
      (StoredPeer.nodup_components hnodup hinj) (fun _ => peer.draw) 0 (some all.length)).1
    have hown := (h.loaded (fun _ => peer.draw) 0 (some all.length)).2.1
    rw [hs, hall] at hown
    rw [hall, Option.getD_some, List.take_length, List.drop_zero] at hbatch
    have hentry : peer.entry d ∈ all :=
      hall ▸ (StoredPeer.listing_perm htogether hplaced).mem_iff.mpr (List.mem_map_of_mem hpeer)
    have hmem := List.mem_map_of_mem (f := fun e : String × Nat × Path =>
      (e.1, e.2.1, PeerConfig.loadedRecord lib source
        (s.loadPath (PeerConfig.path (some d) e.1)))) hentry
    rw [← hbatch] at hmem
    have hfirst : (peer.entry d).1 = peer.id := by
      rw [StoredPeer.entry_fst, hback peer hpeer]
    have hrecord := hown _ hmem peer hpeer hfirst.symm
    rwa [hfirst, htogether.loadPath hpeer] at hrecord
  · intro h
    cases dir with
    | none =>
        have hnil : list = [] := by
          rw [List.eq_nil_iff_forall_not_mem]
          intro peer hpeer
          cases (h peer hpeer).1
        subst hnil
        refine ⟨fun _ hp => absurd hp List.not_mem_nil, fun _ hp => absurd hp List.not_mem_nil,
          List.Perm.refl _, fun draws start stop => ?_⟩
        have hbatch : PeerConfig.batchPeers none lib source draws [] start stop .empty =
            (([], 0), .empty) := if_pos (Nat.zero_le start)
        show (PeerConfig.batchPeers none lib source draws [] start stop .empty).1.1.map Prod.fst = _ ∧
          (∀ e ∈ (PeerConfig.batchPeers none lib source draws [] start stop .empty).1.1, _) ∧ _
        rw [hbatch]
        refine ⟨?_, fun _ he => absurd he List.not_mem_nil, fun _ => Iff.rfl⟩
        show [] = (([].take _).drop start).map Prod.fst
        rw [List.take_nil, List.drop_nil, List.map_nil]
    | some d =>
        have hregular := fun peer hpeer => (h peer hpeer).2.1
        have hback := fun peer hpeer =>
          PeerConfig.decodeName_of_regular (hid peer hpeer) (hregular peer hpeer)
        obtain ⟨hplaced, hinj, htogether⟩ := together_of_regular lib source d hid
          hnodup hregular
        have hperm := StoredPeer.listing_perm htogether hplaced
        refine ⟨fun peer hpeer => ⟨peer.name, (hplaced peer hpeer).components⟩, hinj, ?_, ?_⟩
        · refine (hperm.map Prod.fst).trans (List.Perm.of_eq ?_)
          rw [List.map_map]
          refine List.map_congr_left (fun peer hpeer => ?_)
          rw [Function.comp_apply, StoredPeer.entry_fst, hback peer hpeer]
        · intro draws start stop
          obtain ⟨hbatch, hfiles⟩ := StoredPeer.batchPeers_eq htogether hplaced hback hplatform
            (StoredPeer.nodup_components hnodup hinj) draws start stop
          refine ⟨?_, fun e he peer hpeer heq => ?_, hfiles⟩
          · rw [hbatch, List.map_map]
            rfl
          · rw [hbatch] at he
            obtain ⟨e', -, rfl⟩ := List.mem_map.mp he
            dsimp only at heq ⊢
            rw [← heq, htogether.loadPath hpeer]
            exact (loadedRecord_eq_iff hideal peer).mpr (h peer hpeer).2.2

def configDir : Path := utf8Bytes "/c"

/-- A peer without secrets. -/
def linuxPeer (id : String) : StoredPeer where
  id
  record := { PeerRecord.default with platform := "Linux" }
  draw := { now := 0, nonces := fun _ => 0 }

theorem peers_kept_sample :
    PeerConfig.idEncoded "a/b" = "base64_YS9i" ∧
      PeersKept (some configDir) Sodium.showing Sodium.desktop
        [linuxPeer "a/b", linuxPeer "peer.1.toml"] := by
  refine ⟨by decide +kernel, (peers_kept_iff Sodium.showing_ideal (some configDir)
    (by decide +kernel) (by decide +kernel) (by decide +kernel)).mpr (fun peer hpeer => ?_)⟩
  have hregular : ∀ peer ∈ [linuxPeer "a/b", linuxPeer "peer.1.toml"],
      PeerConfig.RegularId peer.id ∧ peer.record.secrets = PeerRecord.default.secrets := by
    intro peer hpeer
    simp only [List.mem_cons, List.not_mem_nil, or_false] at hpeer
    rcases hpeer with rfl | rfl
    · exact ⟨by decide +kernel, rfl⟩
    · exact ⟨by decide +kernel, rfl⟩
  refine ⟨rfl, (hregular peer hpeer).1, ?_⟩
  rw [(hregular peer hpeer).2]
  exact ⟨by decide +kernel, fun opt _ v hv => by cases hv⟩

/-- A peer whose id looks encoded is listed without an id, and its file is removed. -/
theorem encoded_looking_peer_is_deleted :
    let s := StoredPeer.storeAll (some configDir) Sodium.showing Sodium.desktop
      [linuxPeer "base64_abc"]
    let all := PeerConfig.getVecIdModifiedTimePath (some configDir) none s
    s.files.keys.length = 1 ∧ all.map Prod.fst = [""] ∧
      (PeerConfig.batchPeers (some configDir) Sodium.showing Sodium.desktop
        (fun _ => { now := 0, nonces := fun _ => 0 }) all 0 none s).2.files.keys = [] ∧
      ¬ PeersKept (some configDir) Sodium.showing Sodium.desktop [linuxPeer "base64_abc"] := by
  intro s all
  have hlisted : all.map Prod.fst = [""] := by decide +kernel
  refine ⟨by decide +kernel, hlisted, by decide +kernel, fun h => ?_⟩
  have hperm : (all.map Prod.fst).Perm ["base64_abc"] := h.listed
  rw [hlisted, List.singleton_perm_singleton] at hperm
  exact absurd hperm (by decide)

end HbbCommon.Config
