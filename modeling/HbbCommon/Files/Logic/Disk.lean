import HbbCommon.Files.Logic.Places

/-!
# What the calls do to a disk

Each call by the nodes, the data and the times it changes, for paths whose places are free.
-/

namespace HbbCommon.Files

open HbbCommon.Base

namespace Disk

variable {d d' d'' : Disk} {p : Path} {k : Key}

/-- The numbers in use are below the free ones. -/
def Numbered (d : Disk) : Prop := ∀ k n, d.nodeAt k = some (.file n) → n < d.next

/-- The data of the file at a key, with its time. -/
def statAt (d : Disk) (k : Key) : Option (Bytes × Nat) :=
  match d.nodeAt k with
  | some (.file n) => some (d.data n, d.modified n)
  | _ => none

theorem statAt_of_nodeAt {n : Nat} (h : d.nodeAt k = some (.file n)) :
    d.statAt k = some (d.data n, d.modified n) := by
  rw [statAt, h]

theorem nodeAt_setNode (hk : ∃ parent segment, k = parent ++ [.normal segment]) (node : Option Node)
    (k' : Key) : (d.setNode k node).nodeAt k' = if k' = k then node else d.nodeAt k' := by
  obtain ⟨parent, segment, rfl⟩ := hk
  have hroot : ¬ (parent ++ [Component.normal segment] = [] ∨
      parent ++ [Component.normal segment] = [.rootDir]) := by
    rintro (h | h)
    · simp at h
    · have hlast := (List.append_inj' (h.trans (List.nil_append [Component.rootDir]).symm) rfl).2
      cases hlast
  unfold nodeAt
  by_cases hsame : k' = parent ++ [.normal segment]
  · subst hsame
    rw [if_neg hroot, if_pos rfl]
    exact Function.update_self _ _ _
  · rw [if_neg hsame]
    split
    · rfl
    · exact Function.update_of_ne hsame _ _

theorem lookup_of_fileKey (h : p.fileKey = some k) : d.lookup p = d.nodeAt k := by
  rw [lookup, h]

theorem lookup_of_dir (h : d.nodeAt p.key = some .dir) : d.lookup p = some .dir := by
  unfold lookup
  cases hfile : p.fileKey with
  | none => simp only [h]
  | some k => simp only [← Path.key_of_fileKey hfile, h]

/-! ## Directories -/

/-- The directories of a key are there, and nothing else changed. -/
structure DirsMade (d d' : Disk) (k : Key) : Prop where
  made : d'.nodeAt k = some .dir
  node : ∀ k', d'.nodeAt k' = d.nodeAt k' ∨
    (d.nodeAt k' = none ∧ d'.nodeAt k' = some .dir ∧ k' <+: k)
  data : d'.data = d.data
  modified : d'.modified = d.modified
  next : d'.next = d.next

theorem DirsMade.same (h : d.nodeAt k = some .dir) : DirsMade d d k :=
  ⟨h, fun _ => .inl rfl, rfl, rfl, rfl⟩

theorem components_of_parent_none (h : p.parent = none) :
    p.components = [] ∨ p.components = [.rootDir] := by
  obtain ⟨first, rest, hp⟩ := List.exists_cons_of_ne_nil (Path.segments_ne_nil p)
  have hrest := Path.filterMap_reverse_dropWhile rest
  rw [Path.components_of_segments hp]
  simp only [Path.parent, hp] at h
  split at h
  · cases h
  · rename_i hdrop
    rw [hdrop] at hrest
    have hnone : rest.filterMap Path.component = [] := hrest.symm
    split at h
    · rename_i hfirst
      unfold Path.componentsOf
      rw [hfirst, hnone]
      by_cases hempty : rest = []
      · exact .inl (by rw [if_neg (fun h => h.2 hempty)]; rfl)
      · exact .inr (by rw [if_pos ⟨rfl, hempty⟩]; rfl)
    · cases h

theorem nodeAt_root : d.nodeAt [] = some .dir := rfl

theorem exec_mkdir : (fileSys.mkdir p).exec d = d.orKeep (d.mkdir p) := rfl

theorem exec_mkdir_dir (h : d.nodeAt p.key = some .dir) :
    (fileSys.mkdir p).exec d = (.error .other, d) ∧ fileSys.isDir p d = (true, d) := by
  refine ⟨?_, ?_⟩
  · rw [exec_mkdir, mkdir, h]
    rfl
  · show (d.lookup p == some .dir, d) = _
    rw [lookup_of_dir h]
    rfl

theorem nodeAt_setNode_of_none (h : d.nodeAt k = none) (node : Option Node) (k' : Key) :
    (d.setNode k node).nodeAt k' = if k' = k then node else d.nodeAt k' := by
  have hroot : ¬ (k = [] ∨ k = [.rootDir]) := by
    intro hroot
    rw [nodeAt, if_pos hroot] at h
    cases h
  unfold nodeAt
  by_cases hsame : k' = k
  · subst hsame
    rw [if_neg hroot, if_pos rfl]
    exact Function.update_self _ _ _
  · rw [if_neg hsame]
    split
    · rfl
    · exact Function.update_of_ne hsame _ _

/-- The directory is made in one that is there. -/
theorem exec_mkdir_new (hnone : d.nodeAt p.key = none)
    (hparent : d.nodeAt p.key.dropLast = some .dir) :
    ∃ d', (fileSys.mkdir p).exec d = (.ok (), d') ∧ DirsMade d d' p.key := by
  refine ⟨d.setNode p.key (some .dir), ?_, ?_, fun k' => ?_, rfl, rfl, rfl⟩
  · rw [exec_mkdir, mkdir, hnone, hparent]
    rfl
  · rw [nodeAt_setNode_of_none hnone, if_pos rfl]
  · rw [nodeAt_setNode_of_none hnone]
    by_cases hsame : k' = p.key
    · exact .inr ⟨hsame ▸ hnone, if_pos hsame, hsame ▸ List.prefix_refl _⟩
    · exact .inl (if_neg hsame)

theorem DirsMade.trans {q : Key} (h : DirsMade d d' q) (h' : DirsMade d' d'' k) (hq : q <+: k) :
    DirsMade d d'' k where
  made := h'.made
  node k' := by
    rcases h'.node k' with hsame | ⟨hnone, hdir, hprefix⟩
    · rcases h.node k' with hsame' | ⟨hnone, hdir, hprefix⟩
      · exact .inl (hsame.trans hsame')
      · exact .inr ⟨hnone, hsame.trans hdir, hprefix.trans hq⟩
    · rcases h.node k' with hsame | ⟨-, hdir', -⟩
      · exact .inr ⟨hsame ▸ hnone, hdir, hprefix⟩
      · rw [hnone] at hdir'
        cases hdir'
  data := h'.data.trans h.data
  modified := h'.modified.trans h.modified
  next := h'.next.trans h.next

/-- Where no file stands in the way, `create_dir_all` makes what is missing. -/
theorem exec_createDirAll {p : Path} {d : Disk}
    (hfree : ∀ k, k <+: p.key → ∀ n, d.nodeAt k ≠ some (.file n)) :
    ∃ d', fileSys.createDirAll p d = (.ok (), d') ∧ DirsMade d d' p.key := by
  induction hlength : p.components.length using Nat.strong_induction_on generalizing p d with
  | _ length ih =>
  rw [FileSys.createDirAll]
  by_cases hempty : p.components = []
  · have hkey : p.key = [] := by rw [Path.key, hempty]; rfl
    rw [if_pos hempty, hkey]
    exact ⟨d, rfl, .same nodeAt_root⟩
  rw [if_neg hempty]
  cases hnode : d.nodeAt p.key with
  | some node =>
      cases node with
      | file n => exact absurd hnode (hfree _ (List.prefix_refl _) n)
      | dir =>
          obtain ⟨hmkdir, hdir⟩ := exec_mkdir_dir hnode
          simp only [hmkdir, hdir]
          exact ⟨d, rfl, .same hnode⟩
  | none =>
      cases habove : d.nodeAt p.key.dropLast with
      | some node =>
          cases node with
          | file n => exact absurd habove (hfree _ (List.dropLast_prefix _) n)
          | dir =>
              obtain ⟨d', hmkdir, hmade⟩ := exec_mkdir_new hnode habove
              simp only [hmkdir]
              exact ⟨d', rfl, hmade⟩
      | none =>
          have hmkdir : (fileSys.mkdir p).exec d = (.error .notFound, d) := by
            rw [exec_mkdir, mkdir, hnode, habove]
            rfl
          simp only [hmkdir]
          split
          · rename_i hparent
            rcases components_of_parent_none hparent with h | h
            · exact absurd h hempty
            · rw [Path.key, h] at hnode
              cases hnode
          · rename_i parent hparent
            obtain ⟨c, hc⟩ := Path.components_parent hparent
            have hkey : p.key = parent.key ++ [c].filter (· ≠ .curDir) := by
              rw [Path.key, hc, List.filter_append]
              rfl
            have hprefix : parent.key <+: p.key := ⟨_, hkey.symm⟩
            obtain ⟨d₁, hall, hmade⟩ := ih parent.components.length
              (by rw [← hlength, hc, List.length_append]; exact Nat.lt_succ_self _)
              (fun k hk => hfree k (hk.trans hprefix)) rfl
            simp only [hall]
            cases hnode₁ : d₁.nodeAt p.key with
            | some node =>
                have hdir : d₁.nodeAt p.key = some .dir := by
                  rcases hmade.node p.key with hsame | ⟨-, hdir, -⟩
                  · rw [hnode₁, hnode] at hsame
                    cases hsame
                  · exact hdir
                obtain ⟨hmkdir, hisDir⟩ := exec_mkdir_dir hdir
                simp only [hmkdir, hisDir]
                exact ⟨d₁, rfl, hmade.trans (.same hdir) hprefix⟩
            | none =>
                have habove₁ : d₁.nodeAt p.key.dropLast = some .dir := by
                  by_cases hcur : c = .curDir
                  · rw [hcur] at hkey
                    have hsame : p.key = parent.key := by simpa using hkey
                    rw [hsame, hmade.made] at hnode₁
                    cases hnode₁
                  · have hlast : p.key = parent.key ++ [c] := by simpa [hcur] using hkey
                    rw [hlast, List.dropLast_concat]
                    exact hmade.made
                obtain ⟨d₂, hmkdir, hmade'⟩ := exec_mkdir_new hnode₁ habove₁
                simp only [hmkdir]
                exact ⟨d₂, rfl, hmade.trans hmade' hprefix⟩

/-! ## Files -/

/-- There is a new file at the key, and nothing else changed. -/
structure FileMade (d d' : Disk) (k : Key) (data : Bytes) : Prop where
  node : ∀ k', d'.nodeAt k' = if k' = k then some (.file d.next) else d.nodeAt k'
  data : d'.data d.next = data
  old : ∀ n, n ≠ d.next → d'.data n = d.data n ∧ d'.modified n = d.modified n
  next : d'.next = d.next + 1

theorem placeOf_of_dir (hfile : p.fileKey = some k) (hparent : d.nodeAt k.dropLast = some .dir) :
    d.placeOf p = .ok k := by
  unfold placeOf
  simp only [hfile, hparent]

theorem createFile_new (hfile : p.fileKey = some k) (hparent : d.nodeAt k.dropLast = some .dir)
    (hnone : d.nodeAt k = none) : ∃ d', d.createFile p = .ok (d.next, d') ∧ FileMade d d' k [] := by
  have hplace : d.openToWrite p = .ok (d.next,
      { (d.setNode k (some (.file d.next))).setData d.next [] with next := d.next + 1 }) := by
    unfold openToWrite fileAtPlace
    simp only [placeOf_of_dir hfile hparent, hnone]
  unfold createFile
  rw [hplace]
  refine ⟨_, rfl, nodeAt_setNode_of_none hnone _, Function.update_self _ _ _, fun n hn => ?_, rfl⟩
  exact ⟨(Function.update_of_ne hn _ _).trans (Function.update_of_ne hn _ _),
    (Function.update_of_ne hn _ _).trans (Function.update_of_ne hn _ _)⟩

/-- A handle that writes from the start of a file. -/
def writer (number pos : Nat) : Handle :=
  { number := some number, pos := pos, readable := false, writable := true }

theorem exec_create (hfile : p.fileKey = some k) (hparent : d.nodeAt k.dropLast = some .dir)
    (hnone : d.nodeAt k = none) :
    ∃ d', (fileSys.create p).exec d = (.ok (writer d.next 0), d') ∧ FileMade d d' k [] := by
  obtain ⟨d', hcreate, hmade⟩ := createFile_new hfile hparent hnone
  refine ⟨d', ?_, hmade⟩
  show d.orKeep (writerOf (d.createFile p)) = _
  rw [hcreate]
  rfl

theorem exec_writeFile (hfile : p.fileKey = some k) (hparent : d.nodeAt k.dropLast = some .dir)
    (hnone : d.nodeAt k = none) (data : Bytes) :
    ∃ d', (fileSys.writeFile p data).exec d = (.ok (), d') ∧ FileMade d d' k data := by
  obtain ⟨d', hcreate, hmade⟩ := createFile_new hfile hparent hnone
  refine ⟨d'.setData d.next data, ?_, hmade.node, Function.update_self _ _ _, fun n hn => ?_,
    hmade.next⟩
  · show d.orKeep (d.writeFile p data) = _
    unfold writeFile
    rw [hcreate]
    rfl
  · rw [← (hmade.old n hn).1, ← (hmade.old n hn).2]
    exact ⟨Function.update_of_ne hn _ _, Function.update_of_ne hn _ _⟩

theorem exec_removeFile_none (h : d.lookup p = none) :
    (fileSys.removeFile p).exec d = (.error .notFound, d) := by
  show d.orKeep (d.removeFile p) = _
  rw [removeFile, h]
  rfl

theorem exec_removeFile {n : Nat} (h : d.lookup p = some (.file n)) :
    (fileSys.removeFile p).exec d = (.ok (), d.setNode p.key none) := by
  show d.orKeep (d.removeFile p) = _
  rw [removeFile, h]
  rfl

theorem exec_rename_none (h : d.lookup p = none) (target : Path) :
    (fileSys.rename p target).exec d = (.error .notFound, d) := by
  show d.orKeep (d.rename p target) = _
  rw [rename, h]
  rfl

theorem exec_rename {n : Nat} {target : Path} (h : d.lookup p = some (.file n))
    (hfile : target.fileKey = some k) (hparent : d.nodeAt k.dropLast = some .dir)
    (hdir : d.nodeAt k ≠ some .dir) : (fileSys.rename p target).exec d =
      (.ok (), (d.setNode p.key none).setNode k (some (.file n))) := by
  show d.orKeep (d.rename p target) = _
  unfold rename
  simp only [h, placeOf_of_dir hfile hparent]
  rfl

/-- The time of the file with a number is set. -/
def setModified (d : Disk) (n time : Nat) : Disk :=
  { d with modified := Function.update d.modified n time }

theorem exec_setFileMtime {n : Nat} (h : d.lookup p = some (.file n)) (time : Nat) :
    (fileSys.setFileMtime p time).exec d = (.ok (), d.setModified n time) := by
  show d.orKeep (d.setFileMtime p time) = _
  rw [setFileMtime, h]
  rfl

theorem exec_setFileMtime_none (h : d.lookup p = none) (time : Nat) :
    (fileSys.setFileMtime p time).exec d = (.error .notFound, d) := by
  show d.orKeep (d.setFileMtime p time) = _
  rw [setFileMtime, h]
  rfl

/-- The other files stay as they are. -/
theorem statAt_setData {n : Nat} (h : d.nodeAt k ≠ some (.file n)) (data : Bytes) :
    (d.setData n data).statAt k = d.statAt k := by
  have hnode : (d.setData n data).nodeAt k = d.nodeAt k := rfl
  unfold statAt
  rw [hnode]
  split
  · rename_i n' hfile
    have hne : n' ≠ n := by
      rintro rfl
      exact h hfile
    exact congrArg some (Prod.ext (Function.update_of_ne hne _ _) (Function.update_of_ne hne _ _))
  · rfl

theorem overwrite_end (old new : Bytes) : overwrite old old.length new = old ++ new := by
  unfold overwrite
  simp

/-- At its end a file grows by what is written. -/
theorem exec_writeAll {n pos : Nat} (h : (d.data n).length = pos) (data : Bytes) :
    (fileSys.writeAll (writer n pos) data).exec d =
      (.ok (writer n (pos + data.length)), d.setData n (d.data n ++ data)) := by
  show d.orKeep (d.writeAll (writer n pos) data) = _
  rw [← overwrite_end, h]
  rfl

/-- A file is read from where it was read to. -/
theorem exec_read (d : Disk) (n pos size : Nat) : ∃ data : { data : Bytes // data.length ≤ size },
    data.val = ((d.data n).drop pos).take size ∧
      (fileSys.read { number := some n, pos := pos, readable := true, writable := false } size).exec
        d = (.ok (data, { number := some n, pos := pos + data.val.length, readable := true,
                          writable := false }), d) :=
  ⟨⟨_, List.length_take_le _ _⟩, rfl, rfl⟩

end Disk

end HbbCommon.Files
