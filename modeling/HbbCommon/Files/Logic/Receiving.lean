import HbbCommon.Files.Logic.Containment
import HbbCommon.Files.Logic.Sending

/-!
# What a write job leaves on its disk

A file is written into its `.download` file, and gets its name when the next file starts or the
job is done. So what stands under the names is old or whole, in the middle of a file too.
-/

namespace HbbCommon.Files

open HbbCommon.Base

/-! ## Names on a disk -/

theorem validName_empty : ValidName "" := by
  unfold ValidName
  decide +kernel

theorem validName_of_validateEach {files : List FileEntry} (h : validateEach files = .ok ()) :
    ∀ entry ∈ files, ValidName entry.name := by
  induction files with
  | nil => exact List.forall_mem_nil _
  | cons file files ih =>
      unfold validateEach at h
      split at h
      · cases h
      · split at h
        · cases h
        · rename_i hname
          exact List.forall_mem_cons.mpr ⟨hname, ih h⟩

theorem validName_of_validate {files : List FileEntry}
    (h : validateTransferFileNames files = .ok ()) : ∀ entry ∈ files, ValidName entry.name := by
  unfold validateTransferFileNames at h
  split at h
  · rename_i file
    split at h
    · rename_i hempty
      intro entry hentry
      rw [List.mem_singleton.mp hentry, hempty]
      exact validName_empty
    · exact validName_of_validateEach h
  · exact validName_of_validateEach h

/-- There are no symbolic links on a disk. -/
theorem exec_validateComponents (d : Disk) (components : List Component)
    (h : ∀ c ∈ components, c = .curDir ∨ ∃ segment, c = .normal segment) (current : Path) :
    (validateComponents Disk.fileSys current components).exec d = (.ok (), d) := by
  induction components generalizing current with
  | nil => rfl
  | cons c components ih =>
      obtain ⟨hfirst, hrest⟩ := List.forall_mem_cons.mp h
      rcases hfirst with rfl | ⟨segment, rfl⟩
      · exact ih hrest current
      · have hlink : (Effect.attempt (Disk.fileSys.symlinkMetadata (current.push segment)) :
            Effect Disk JobError _).exec d =
              (.ok (if (d.lookup (current.push segment)).isSome then .ok false
                else .error .notFound), d) := rfl
        rw [validateComponents, Effect.exec_bind_ok hlink]
        by_cases hthere : (d.lookup (current.push segment)).isSome
        · rw [if_pos hthere]
          exact ih hrest _
        · rw [if_neg hthere]
          exact ih hrest _

theorem exec_validateNoSymlinkComponents {name : String} (h : ValidName name) (d : Disk)
    (base : Path) : (validateNoSymlinkComponents Disk.fileSys base name).exec d = (.ok (), d) := by
  unfold validateNoSymlinkComponents
  split
  · rfl
  · exact exec_validateComponents d _ h.isNested base

theorem exec_joinValidatedPath {name : String} (h : ValidName name) (d : Disk) (base : Path) :
    (joinValidatedPath Disk.fileSys base name).exec d = (.ok (joinName base name), d) := by
  have hvalid : validateFileNameNoTraversal name = .ok () := h
  unfold joinValidatedPath
  simp only [hvalid]
  rw [Effect.exec_bind_ok (exec_validateNoSymlinkComponents h d base)]
  rfl

theorem dropLast_downloadKey {path : Path} (hfile : path.fileKey = some path.key)
    (htext : getString path = path) :
    (downloadKey path).dropLast = path.key.dropLast ∧
      (digestKey path).dropLast = path.key.dropLast := by
  obtain ⟨parent, segment, hkey⟩ := Path.exists_of_fileKey hfile
  have hdownload := Path.fileKey_append hfile (utf8Bytes ".download") (by decide +kernel)
    (by decide +kernel)
  have hdigest := Path.fileKey_append hfile (utf8Bytes ".digest") (by decide +kernel)
    (by decide +kernel)
  unfold downloadKey digestKey downloadOf digestOf
  rw [htext, Path.key_of_fileKey hdownload, Path.key_of_fileKey hdigest, hkey, sideKey_append,
    sideKey_append, List.dropLast_concat, List.dropLast_concat, List.dropLast_concat]
  exact ⟨rfl, rfl⟩

/-- The parent of a file is its directory. -/
theorem key_parent {p parent : Path} {k : Key} (hfile : p.fileKey = some k)
    (hparent : p.parent = some parent) : parent.key = k.dropLast := by
  obtain ⟨before, last, hp, hlast, hk⟩ := Path.fileKey_eq_some_iff.mp hfile
  have hcomponents : ∃ first, p.components = first ++ [.normal last] := by
    cases before with
    | nil =>
        have hne : last ≠ [] ∧ last ≠ Path.dot := by
          refine ⟨?_, ?_⟩ <;> rintro rfl <;> cases hlast
        refine ⟨[], ?_⟩
        rw [Path.components_of_segments hp, Path.componentsOf, if_neg (fun h => hne.1 h.1),
          if_neg hne.2, hlast]
        rfl
    | cons first rest =>
        refine ⟨Path.front first ++ rest.filterMap Path.component, ?_⟩
        have hp' : Path.segments p = first :: (rest ++ [last]) := hp
        rw [Path.components_of_segments hp', Path.componentsOf_of_ne_nil _ (by simp),
          List.filterMap_append, ← List.append_assoc, List.filterMap_cons_some hlast]
        rfl
  obtain ⟨first, hfirst⟩ := hcomponents
  obtain ⟨c, hc⟩ := Path.components_parent hparent
  obtain ⟨rfl, -⟩ := List.append_inj' (hfirst.symm.trans hc) rfl
  have hkey : p.key = parent.key ++ [.normal last] := by
    rw [Path.key, hfirst, List.filter_append]
    rfl
  rw [← Path.key_of_fileKey hfile, hkey, List.dropLast_concat]

theorem parent_of_fileKey {p : Path} {k : Key} (hfile : p.fileKey = some k) :
    ∃ parent, p.parent = some parent := by
  obtain ⟨above, segment, hk⟩ := Path.exists_of_fileKey hfile
  refine Option.ne_none_iff_exists'.mp (fun hnone => ?_)
  rw [← Path.key_of_fileKey hfile, Path.key] at hk
  rcases Disk.components_of_parent_none hnone with hroot | hroot
  · rw [hroot] at hk
    exact absurd (congrArg List.length hk) (by simp)
  · rw [hroot] at hk
    have hlast := congrArg List.getLast? hk
    simp at hlast

namespace DirSetup

variable {setup : DirSetup} {libs : Libs}

def path (setup : DirSetup) (entry : FileEntry) : Path := joinName setup.targetBase entry.name

def key (setup : DirSetup) (entry : FileEntry) : Key := (setup.path entry).key

def download (setup : DirSetup) (entry : FileEntry) : Key := downloadKey (setup.path entry)

def digest (setup : DirSetup) (entry : FileEntry) : Key := digestKey (setup.path entry)

/-- Neither file is a directory of the other. -/
def Apart (setup : DirSetup) (a b : FileEntry) : Prop :=
  ¬ setup.key a <+: setup.key b ∧ ¬ setup.key b <+: setup.key a

instance : Std.Symm setup.Apart := ⟨fun _ _ h => ⟨h.2, h.1⟩⟩

/-- The files of the list are there, and on the other disk nothing is in their way: no file is a
directory of another or has the name of its side files, there are no side files yet, and what
stands under the names and above them is replaced or stays. -/
structure Fits (setup : DirSetup) : Prop where
  names : validateTransferFileNames setup.files = .ok ()
  count : setup.files.length < 2 ^ 31
  sources : ∀ entry ∈ setup.files, ∃ n,
    setup.source.lookup (joinName setup.sourceBase entry.name) = some (.file n)
  text : (fromUtf8 setup.targetBase).isSome = true
  numbered : setup.target.Numbered
  place : ∀ entry ∈ setup.files, (setup.path entry).fileKey.isSome = true
  apart : setup.files.Pairwise setup.Apart
  sides : ∀ a ∈ setup.files, ∀ b ∈ setup.files,
    ¬ setup.download a <+: setup.key b ∧ ¬ setup.digest a <+: setup.key b
  noSides : ∀ entry ∈ setup.files,
    setup.target.nodeAt (setup.download entry) = none ∧
      setup.target.nodeAt (setup.digest entry) = none
  noDir : ∀ entry ∈ setup.files, setup.target.nodeAt (setup.key entry) ≠ some .dir
  above : ∀ entry ∈ setup.files, ∀ k, k <+: (setup.key entry).dropLast →
    ∀ n, setup.target.nodeAt k ≠ some (.file n)

/-- The first `m` files are whole; elsewhere, but for the side files, there are new directories
at most. -/
structure Holds (setup : DirSetup) (m : Nat) (sides : List Key) (d : Disk) : Prop where
  numbered : d.Numbered
  next : setup.target.next ≤ d.next
  old : ∀ n < setup.target.next, d.data n = setup.target.data n
  whole : ∀ entry ∈ setup.files.take m,
    d.statAt (setup.key entry) = some (setup.content entry, entry.modifiedTime)
  frame : ∀ k, k ∉ sides → (∀ entry ∈ setup.files.take m, k ≠ setup.key entry) →
    d.nodeAt k = setup.target.nodeAt k ∨
      (setup.target.nodeAt k = none ∧ d.nodeAt k = some .dir ∧
        ∃ entry ∈ setup.files, k <+: (setup.key entry).dropLast)

/-- A file of the list is being written: its `.download` file holds what was written of it. -/
structure Writes (setup : DirSetup) (m : Nat) (entry : FileEntry) (number : Nat) (part : Bytes)
    (d : Disk) : Prop where
  current : setup.files[m]? = some entry
  holds : setup.Holds m [setup.download entry, setup.digest entry] d
  download : d.nodeAt (setup.download entry) = some (.file number)
  data : d.data number = part
  new : setup.target.next ≤ number
  alone : ∀ k, d.nodeAt k = some (.file number) → k = setup.download entry
  digest : d.nodeAt (setup.digest entry) = none ∨
    ∃ n, d.nodeAt (setup.digest entry) = some (.file n)
  parent : d.nodeAt (setup.key entry).dropLast = some .dir

/-! ## The places of the files -/

section Places

variable (hfits : setup.Fits) {a b entry : FileEntry} {m : Nat}

include hfits

theorem Fits.fileKey (ha : a ∈ setup.files) : (setup.path a).fileKey = some (setup.key a) := by
  obtain ⟨k, hk⟩ := Option.isSome_iff_exists.mp (hfits.place a ha)
  rw [hk, key, Path.key_of_fileKey hk]

theorem Fits.isPlace (ha : a ∈ setup.files) : IsPlace (setup.path a) :=
  isPlace_of_fileKey (hfits.fileKey ha)

theorem Fits.getString_path (a : FileEntry) : getString (setup.path a) = setup.path a :=
  getString_joinName hfits.text a.name

theorem Fits.dropLast_sides (ha : a ∈ setup.files) :
    (setup.download a).dropLast = (setup.key a).dropLast ∧
      (setup.digest a).dropLast = (setup.key a).dropLast :=
  dropLast_downloadKey (hfits.fileKey ha) (hfits.getString_path a)

theorem Fits.key_not_above (ha : a ∈ setup.files) (hb : b ∈ setup.files) :
    ¬ setup.key a <+: (setup.key b).dropLast := by
  intro h
  by_cases hab : a = b
  · subst hab
    obtain ⟨parent, segment, hkey⟩ := Path.exists_of_fileKey (hfits.fileKey ha)
    rw [hkey, List.dropLast_concat] at h
    have hlength := h.length_le
    rw [List.length_append, List.length_singleton] at hlength
    omega
  · exact (hfits.apart.forall ha hb hab).1 (h.trans (List.dropLast_prefix _))

/-- A file has another key than those before it. -/
theorem Fits.key_ne_earlier (hentry : setup.files[m]? = some entry) :
    ∀ b ∈ setup.files.take m, setup.key entry ≠ setup.key b := by
  intro b hb hsame
  obtain ⟨hm, rfl⟩ := List.getElem?_eq_some_iff.mp hentry
  have hsplit : setup.files = setup.files.take m ++ setup.files.drop m :=
    (List.take_append_drop m _).symm
  have hmem : setup.files[m] ∈ setup.files.drop m := by
    rw [List.drop_eq_getElem_cons hm]
    exact List.mem_cons_self
  have hapart := hfits.apart
  rw [hsplit] at hapart
  exact ((List.pairwise_append.mp hapart).2.2 b hb _ hmem).2 (hsame ▸ List.prefix_refl _)

theorem Fits.side_not_above (ha : a ∈ setup.files) (hb : b ∈ setup.files) :
    ¬ setup.download a <+: (setup.key b).dropLast ∧
      ¬ setup.digest a <+: (setup.key b).dropLast :=
  ⟨fun h => (hfits.sides a ha b hb).1 (h.trans (List.dropLast_prefix _)),
    fun h => (hfits.sides a ha b hb).2 (h.trans (List.dropLast_prefix _))⟩

end Places

/-! ## A disk between two files -/

section Holds

variable (hfits : setup.Fits) {m : Nat} {entry : FileEntry} {d : Disk}

theorem mem_of_mem_take {b : FileEntry} (hb : b ∈ setup.files.take m) : b ∈ setup.files :=
  (List.take_subset _ _) hb

include hfits

/-- No side file is there. -/
theorem Holds.noSides (h : setup.Holds m [] d) (hentry : entry ∈ setup.files) :
    d.nodeAt (setup.download entry) = none ∧ d.nodeAt (setup.digest entry) = none := by
  refine ⟨?_, ?_⟩
  · rcases h.frame (setup.download entry) List.not_mem_nil (fun b hb hsame =>
      (hfits.sides entry hentry b (mem_of_mem_take hb)).1 (hsame ▸ List.prefix_refl _)) with
      hsame | ⟨-, -, b, hb, hprefix⟩
    · exact hsame.trans (hfits.noSides entry hentry).1
    · exact absurd hprefix (hfits.side_not_above hentry hb).1
  · rcases h.frame (setup.digest entry) List.not_mem_nil (fun b hb hsame =>
      (hfits.sides entry hentry b (mem_of_mem_take hb)).2 (hsame ▸ List.prefix_refl _)) with
      hsame | ⟨-, -, b, hb, hprefix⟩
    · exact hsame.trans (hfits.noSides entry hentry).2
    · exact absurd hprefix (hfits.side_not_above hentry hb).2

/-- A file that is not whole yet is as it was. -/
theorem Holds.later {sides : List Key} (h : setup.Holds m sides d) (hentry : entry ∈ setup.files)
    (hsides : setup.key entry ∉ sides)
    (hlater : ∀ b ∈ setup.files.take m, setup.key entry ≠ setup.key b) :
    d.nodeAt (setup.key entry) = setup.target.nodeAt (setup.key entry) := by
  rcases h.frame _ hsides hlater with hsame | ⟨-, -, b, hb, hprefix⟩
  · exact hsame
  · exact absurd hprefix (hfits.key_not_above hentry hb)

/-- No file stands above one of the list. -/
theorem Holds.above (h : setup.Holds m [] d) (hentry : entry ∈ setup.files) {k : Key}
    (hk : k <+: (setup.key entry).dropLast) (n : Nat) : d.nodeAt k ≠ some (.file n) := by
  intro hfile
  rcases h.frame k List.not_mem_nil (fun b hb hsame =>
    hfits.key_not_above (mem_of_mem_take hb) hentry (hsame ▸ hk)) with hsame | ⟨-, hdir, -⟩
  · exact hfits.above entry hentry k hk n (hsame ▸ hfile)
  · rw [hfile] at hdir
    cases hdir

end Holds

/-- New directories above a file of the list. -/
theorem Holds.dirsMade {m : Nat} {d d' : Disk} (h : setup.Holds m [] d) {entry : FileEntry}
    (hentry : entry ∈ setup.files) (hmade : d.DirsMade d' (setup.key entry).dropLast) :
    setup.Holds m [] d' where
  numbered k n hk := by
    rw [hmade.next]
    rcases hmade.node k with hsame | ⟨-, hdir, -⟩
    · exact h.numbered k n (hsame ▸ hk)
    · rw [hk] at hdir
      cases hdir
  next := hmade.next ▸ h.next
  old := hmade.data ▸ h.old
  whole b hb := by
    rw [← h.whole b hb]
    unfold Disk.statAt
    rcases hmade.node (setup.key b) with hsame | ⟨hnone, -, -⟩
    · rw [hsame, hmade.data, hmade.modified]
    · have hwhole := h.whole b hb
      rw [Disk.statAt, hnone] at hwhole
      cases hwhole
  frame k hside hwhole := by
    rcases hmade.node k with hsame | ⟨hnone, hdir, hprefix⟩
    · rw [hsame]
      exact h.frame k hside hwhole
    · rcases h.frame k hside hwhole with hsame | ⟨-, hdir', -⟩
      · exact .inr ⟨hsame ▸ hnone, hdir, entry, hentry, hprefix⟩
      · rw [hnone] at hdir'
        cases hdir'

/-! ## The name of a file -/

/-- What `modify_time` does to the disk. -/
def named (setup : DirSetup) (entry : FileEntry) (d : Disk) : Disk :=
  ((Disk.fileSys.setFileMtime (setup.path entry) entry.modifiedTime).exec
    ((Disk.fileSys.rename (downloadOf (getString (setup.path entry))) (setup.path entry)).exec
      ((Disk.fileSys.removeFile (digestOf (getString (setup.path entry)))).exec d).2).2).2

theorem exec_modifyTime {m : Nat} {entry : FileEntry} {stream : Option (DataStream Handle)}
    {t : JobState Disk Handle} (hcount : setup.files.length < 2 ^ 31)
    (hjob : t.job = setup.jobAt setup.targetBase m stream)
    (hentry : setup.files[m]? = some entry) (hname : ValidName entry.name) :
    (TransferJob.modifyTime Disk.fileSys).exec t =
      (.ok (), { t with fs := setup.named entry t.fs }) := by
  have hlt : m < setup.files.length := (List.getElem?_eq_some_iff.mp hentry).1
  have hcurrent : t.job.currentEntry = some entry := by
    rw [hjob, currentEntry_jobAt hcount hlt.le, hentry]
  have htype : t.job.type = .generic := by rw [hjob]; rfl
  have hsource : t.job.dataSource = .filePath setup.targetBase := by rw [hjob]; rfl
  have hresolve : (TransferJob.resolveEntryPath Disk.fileSys setup.targetBase entry.name).exec t =
      (.ok (some (setup.path entry)), t) := by
    simp only [TransferJob.resolveEntryPath, Effect.exec_bind, JobM.exec_job, htype,
      JobM.exec_tryFs, exec_joinValidatedPath hname]
    rfl
  unfold TransferJob.modifyTime TransferJob.atCurrentPath
  simp only [Effect.exec_bind, JobM.exec_job, htype, hsource, hcurrent, hresolve, JobM.exec_ignore]
  rfl

/-- A job behind its list leaves the disk alone. -/
theorem exec_modifyTime_none {m : Nat} {stream : Option (DataStream Handle)}
    {t : JobState Disk Handle} (hcount : setup.files.length < 2 ^ 31)
    (hm : m ≤ setup.files.length) (hjob : t.job = setup.jobAt setup.targetBase m stream)
    (hentry : setup.files[m]? = none) :
    (TransferJob.modifyTime Disk.fileSys).exec t = (.ok (), t) := by
  have hcurrent : t.job.currentEntry = none := by
    rw [hjob, currentEntry_jobAt hcount hm, hentry]
  unfold TransferJob.modifyTime TransferJob.atCurrentPath
  simp only [Effect.exec_bind, JobM.exec_job, hcurrent]
  split
  · rename_i h
    cases h
  · rfl

section Named

variable (hfits : setup.Fits) {m number : Nat} {entry : FileEntry} {part : Bytes} {d : Disk}

include hfits

/-- Before the first file there is nothing to name. -/
theorem Holds.named_first (h : setup.Holds 0 [] d) (hentry : entry ∈ setup.files) :
    setup.Holds 0 [] (setup.named entry d) := by
  have hplace := hfits.isPlace hentry
  obtain ⟨hdownload, hdigest⟩ := h.noSides hfits hentry
  have hremove := Disk.exec_removeFile_none ((Disk.lookup_of_fileKey hplace.digest).trans hdigest)
  have hrename := Disk.exec_rename_none
    ((Disk.lookup_of_fileKey hplace.download).trans hdownload) (setup.path entry)
  have hkey : d.lookup (setup.path entry) = setup.target.nodeAt (setup.key entry) :=
    (Disk.lookup_of_fileKey hplace.file).trans
      (h.later hfits hentry List.not_mem_nil (fun b hb => nomatch hb))
  unfold named
  rw [hremove, hrename]
  cases hnode : setup.target.nodeAt (setup.key entry) with
  | none =>
      rw [Disk.exec_setFileMtime_none (hkey.trans hnode)]
      exact h
  | some node =>
      cases node with
      | dir => exact absurd hnode (hfits.noDir entry hentry)
      | file n =>
          rw [Disk.exec_setFileMtime (hkey.trans hnode)]
          exact ⟨h.numbered, h.next, h.old, (fun b hb => nomatch hb), h.frame⟩

/-- The `.download` file gets the name of its file, with the time, and the digest goes. -/
theorem Writes.named_eq (h : setup.Writes m entry number part d) :
    (∀ k, (setup.named entry d).nodeAt k = if k = setup.key entry then some (.file number)
      else if k = setup.download entry then none else if k = setup.digest entry then none
      else d.nodeAt k) ∧
    (setup.named entry d).data = d.data ∧
    (setup.named entry d).modified = Function.update d.modified number entry.modifiedTime ∧
    (setup.named entry d).next = d.next := by
  have hentry := List.mem_of_getElem? h.current
  have hplace := hfits.isPlace hentry
  have hdownload_ne : setup.key entry ≠ setup.download entry := Ne.symm hplace.download_ne
  have hdigest_ne : setup.key entry ≠ setup.digest entry := Ne.symm hplace.digest_ne
  have hsides_ne : setup.download entry ≠ setup.digest entry := hplace.sides_ne
  have hearlier := hfits.key_ne_earlier h.current
  -- the digest is gone
  obtain ⟨d₁, hremove, hnode₁, hdata₁, hmodified₁, hnext₁⟩ : ∃ d₁,
      ((Disk.fileSys.removeFile (digestOf (getString (setup.path entry)))).exec d).2 = d₁ ∧
      (∀ k, d₁.nodeAt k = if k = setup.digest entry then none else d.nodeAt k) ∧
      d₁.data = d.data ∧ d₁.modified = d.modified ∧ d₁.next = d.next := by
    rcases h.digest with hnone | ⟨n, hfile⟩
    · rw [Disk.exec_removeFile_none ((Disk.lookup_of_fileKey hplace.digest).trans hnone)]
      refine ⟨d, rfl, fun k => ?_, rfl, rfl, rfl⟩
      split
      · rename_i hsame
        rw [hsame, hnone]
      · rfl
    · rw [Disk.exec_removeFile ((Disk.lookup_of_fileKey hplace.digest).trans hfile)]
      exact ⟨_, rfl, Disk.nodeAt_setNode (Path.exists_of_fileKey hplace.digest) none, rfl, rfl, rfl⟩
  -- the download has the name
  have hlookup : d₁.lookup (downloadOf (getString (setup.path entry))) = some (.file number) := by
    rw [Disk.lookup_of_fileKey hplace.download, hnode₁]
    exact (if_neg hsides_ne).trans h.download
  have hparent : d₁.nodeAt (setup.key entry).dropLast = some .dir := by
    rw [hnode₁, if_neg, h.parent]
    intro hsame
    exact (hfits.side_not_above hentry hentry).2 (hsame ▸ List.prefix_refl _)
  have hnoDir : d₁.nodeAt (setup.key entry) ≠ some .dir := by
    rw [hnode₁, if_neg hdigest_ne, h.holds.later hfits hentry ?_ hearlier]
    · exact hfits.noDir entry hentry
    · rw [List.mem_cons, List.mem_singleton]
      exact not_or.mpr ⟨hdownload_ne, hdigest_ne⟩
  have hrename := Disk.exec_rename hlookup (hfits.fileKey hentry) hparent hnoDir
  generalize hd₂ : (d₁.setNode (Path.key (downloadOf (getString (setup.path entry)))) none).setNode
    (setup.key entry) (some (.file number)) = d₂ at hrename
  have hnode₂ : ∀ k, d₂.nodeAt k = if k = setup.key entry then some (.file number)
      else if k = setup.download entry then none else if k = setup.digest entry then none
      else d.nodeAt k := by
    intro k
    rw [← hd₂, Disk.nodeAt_setNode (Path.exists_of_fileKey (hfits.fileKey hentry)),
      ← hnode₁ k]
    exact if_congr Iff.rfl rfl
      (Disk.nodeAt_setNode (Path.exists_of_fileKey hplace.download) none k)
  have hmtime := Disk.exec_setFileMtime (d := d₂) (p := setup.path entry) (n := number)
    ((Disk.lookup_of_fileKey hplace.file).trans ((hnode₂ _).trans (if_pos rfl))) entry.modifiedTime
  unfold DirSetup.named
  rw [hremove, hrename, hmtime]
  refine ⟨hnode₂, ?_, ?_, ?_⟩ <;> rw [← hd₂]
  · exact hdata₁
  · exact congrArg (fun modified => Function.update modified number entry.modifiedTime) hmodified₁
  · exact hnext₁

/-- When all of a file is written and it gets its name, it is whole. -/
theorem Writes.named (h : setup.Writes m entry number (setup.content entry) d) :
    setup.Holds (m + 1) [] (setup.named entry d) := by
  have hentry := List.mem_of_getElem? h.current
  have hearlier := hfits.key_ne_earlier h.current
  have htake : setup.files.take (m + 1) = setup.files.take m ++ [entry] := by
    rw [List.take_add_one, h.current]
    rfl
  obtain ⟨hnode, hdata, hmodified, hnext⟩ := h.named_eq hfits
  refine ⟨?_, hnext ▸ h.holds.next, hdata ▸ h.holds.old, ?_, ?_⟩
  · intro k n hk
    rw [hnode] at hk
    rw [hnext]
    split at hk
    · cases hk
      exact h.holds.numbered _ _ h.download
    · split at hk
      · cases hk
      · split at hk
        · cases hk
        · exact h.holds.numbered k n hk
  · rw [htake]
    intro b hb
    rcases List.mem_append.mp hb with hb | hb
    · have hside := hfits.sides entry hentry b (mem_of_mem_take hb)
      have hdownload : setup.key b ≠ setup.download entry :=
        fun hsame => hside.1 (hsame ▸ List.prefix_refl _)
      have hdigest : setup.key b ≠ setup.digest entry :=
        fun hsame => hside.2 (hsame ▸ List.prefix_refl _)
      have hsame : (setup.named entry d).nodeAt (setup.key b) = d.nodeAt (setup.key b) := by
        rw [hnode, if_neg (hearlier b hb).symm, if_neg hdownload, if_neg hdigest]
      rw [← h.holds.whole b hb]
      unfold Disk.statAt
      rw [hsame, hdata, hmodified]
      split
      · rename_i n hfile
        have hother : n ≠ number := by
          rintro rfl
          exact hdownload (h.alone _ hfile)
        rw [Function.update_of_ne hother]
      · rfl
    · rw [List.mem_singleton.mp hb, Disk.statAt_of_nodeAt ((hnode _).trans (if_pos rfl)), hdata,
        h.data, hmodified, Function.update_self]
  · intro k _ hk
    rw [htake] at hk
    have hother : k ≠ setup.key entry :=
      hk entry (List.mem_append_right _ (List.mem_singleton_self _))
    rw [hnode, if_neg hother]
    by_cases hdownload : k = setup.download entry
    · rw [if_pos hdownload, hdownload]
      exact .inl (hfits.noSides entry hentry).1.symm
    by_cases hdigest : k = setup.digest entry
    · rw [if_neg hdownload, if_pos hdigest, hdigest]
      exact .inl (hfits.noSides entry hentry).2.symm
    rw [if_neg hdownload, if_neg hdigest]
    refine h.holds.frame k ?_ (fun b hb => hk b (List.mem_append_left _ hb))
    rw [List.mem_cons, List.mem_singleton]
    exact not_or.mpr ⟨hdownload, hdigest⟩

end Named

/-! ## The start of a file -/

/-- A handle of the file that is written. -/
def writing (number pos : Nat) : Option (DataStream Handle) :=
  some (.fileStream (Disk.writer number pos))

/-- The state of the write job on its own. -/
def writeState (setup : DirSetup) (m : Nat) (stream : Option (DataStream Handle)) (d : Disk)
    (sent : List FileResponse) : JobState Disk Handle :=
  { job := setup.jobAt setup.targetBase m stream, fs := d, sent }

section Start

variable (hfits : setup.Fits) {m : Nat} {entry : FileEntry} {d : Disk}
  (stream : Option (DataStream Handle)) (sent : List FileResponse)

include hfits

/-- The directory of the file is there, made where it was missing. -/
theorem exec_makeParents (h : setup.Holds m [] d) (hentry : entry ∈ setup.files) :
    ∃ d', (TransferJob.makeParents Disk.fileSys (setup.path entry)).exec
        (setup.writeState m stream d sent) = (.ok (), setup.writeState m stream d' sent) ∧
      setup.Holds m [] d' ∧ d'.nodeAt (setup.key entry).dropLast = some .dir := by
  obtain ⟨parent, hparent⟩ := parent_of_fileKey (hfits.fileKey hentry)
  have hkey := key_parent (hfits.fileKey hentry) hparent
  obtain ⟨d', hexec, hmade⟩ := Disk.exec_createDirAll (p := parent) (d := d)
    (fun k hk n => h.above hfits hentry (hkey ▸ hk) n)
  rw [hkey] at hmade
  refine ⟨d', ?_, h.dirsMade hentry hmade, hmade.made⟩
  unfold TransferJob.makeParents
  simp only [hparent, JobM.exec_ignore, Effect.exec_ofFun]
  rw [show (setup.writeState m stream d sent).fs = d from rfl, hexec]
  rfl

theorem exec_writePaths (libs : Libs) (h : setup.Holds m [] d) (hentry : entry ∈ setup.files) :
    ∃ d', (TransferJob.writePaths libs Disk.fileSys setup.targetBase entry).exec
        (setup.writeState m stream d sent) =
          (.ok (downloadOf (getString (setup.path entry)),
            some (digestOf (getString (setup.path entry)))), setup.writeState m stream d' sent) ∧
      setup.Holds m [] d' ∧ d'.nodeAt (setup.key entry).dropLast = some .dir := by
  obtain ⟨d', hmake, hholds, hdir⟩ := exec_makeParents hfits stream sent h hentry
  refine ⟨d', ?_, hholds, hdir⟩
  have htype : (setup.writeState m stream d sent).job.type = .generic := rfl
  have hjoin := exec_joinValidatedPath (validName_of_validate hfits.names entry hentry)
    (setup.writeState m stream d sent).fs setup.targetBase
  unfold TransferJob.writePaths
  simp only [Effect.exec_bind, JobM.exec_job, htype, JobM.exec_check, hjoin, Except.mapError]
  rw [show joinName setup.targetBase entry.name = setup.path entry from rfl, hmake]
  rfl

/-- The side files are new, and nothing else changed. -/
theorem Holds.started {d₂ d₃ : Disk} {bytes : Bytes} (h : setup.Holds m [] d)
    (hentry : setup.files[m]? = some entry)
    (hdir : d.nodeAt (setup.key entry).dropLast = some .dir)
    (hdownload : d.FileMade d₂ (setup.download entry) [])
    (hdigest : d₂.FileMade d₃ (setup.digest entry) bytes) :
    setup.Writes m entry d.next [] d₃ := by
  have hmem := List.mem_of_getElem? hentry
  have hsides_ne : setup.download entry ≠ setup.digest entry := (hfits.isPlace hmem).sides_ne
  have hnode : ∀ k, d₃.nodeAt k = if k = setup.digest entry then some (.file d₂.next)
      else if k = setup.download entry then some (.file d.next) else d.nodeAt k := by
    intro k
    rw [hdigest.node, hdownload.node]
  have hother : ∀ k, k ≠ setup.download entry → k ≠ setup.digest entry →
      d₃.nodeAt k = d.nodeAt k := fun k hk hk' => by rw [hnode, if_neg hk', if_neg hk]
  have hnext : d₃.next = d.next + 2 := by rw [hdigest.next, hdownload.next]
  have hold : ∀ n < d.next, d₃.data n = d.data n ∧ d₃.modified n = d.modified n := by
    intro n hn
    have hfirst := hdownload.old n (by omega)
    have hsecond := hdigest.old n (by rw [hdownload.next]; omega)
    exact ⟨hsecond.1.trans hfirst.1, hsecond.2.trans hfirst.2⟩
  have habove : ∀ k, k <+: (setup.key entry).dropLast →
      k ≠ setup.download entry ∧ k ≠ setup.digest entry := by
    intro k hk
    refine ⟨?_, ?_⟩ <;> rintro rfl
    · exact (hfits.side_not_above hmem hmem).1 hk
    · exact (hfits.side_not_above hmem hmem).2 hk
  have hparent := habove _ (List.prefix_refl _)
  refine ⟨hentry, ⟨?_, ?_, ?_, ?_, ?_⟩, ?_, ?_, h.next, ?_, .inr ⟨d₂.next, ?_⟩, ?_⟩
  · intro k n hk
    rw [hnode] at hk
    rw [hnext]
    split at hk
    · cases hk
      rw [hdownload.next]
      omega
    · split at hk
      · cases hk
        omega
      · exact (h.numbered k n hk).trans (by omega)
  · rw [hnext]
    exact h.next.trans (by omega)
  · intro n hn
    exact (hold n (hn.trans_le h.next)).1.trans (h.old n hn)
  · intro b hb
    have hside := hfits.sides entry hmem b (mem_of_mem_take hb)
    have hsame := hother (setup.key b) (fun hsame => hside.1 (hsame ▸ List.prefix_refl _))
      (fun hsame => hside.2 (hsame ▸ List.prefix_refl _))
    rw [← h.whole b hb]
    unfold Disk.statAt
    rw [hsame]
    split
    · rename_i n hfile
      have hbelow := hold n (h.numbered _ n hfile)
      rw [hbelow.1, hbelow.2]
    · rfl
  · intro k hside hk
    rw [List.mem_cons, List.mem_singleton, not_or] at hside
    rw [hother k hside.1 hside.2]
    exact h.frame k List.not_mem_nil hk
  · rw [hnode, if_neg hsides_ne, if_pos rfl]
  · rw [(hdigest.old d.next (by rw [hdownload.next]; omega)).1, hdownload.data]
  · intro k hk
    rw [hnode] at hk
    split at hk
    · rw [hdownload.next] at hk
      exact absurd hk (by simp)
    · split at hk
      · assumption
      · exact absurd (h.numbered k _ hk) (Nat.lt_irrefl _)
  · rw [hnode, if_pos rfl]
  · rw [hother _ hparent.1 hparent.2, hdir]

/-- A file is started: its `.download` file is there and empty. -/
theorem exec_startFile (libs : Libs) {m' : Nat} {d' : Disk}
    (hstream : stream = none ∨ ∃ file, stream = some (.fileStream file))
    (hmodify : (TransferJob.modifyTime Disk.fileSys).exec (setup.writeState m' stream d' sent) =
      (.ok (), setup.writeState m' stream d sent))
    (h : setup.Holds m [] d) (hentry : setup.files[m]? = some entry) :
    ∃ number d'', (TransferJob.startFile libs Disk.fileSys setup.targetBase m entry).exec
        (setup.writeState m' stream d' sent) =
          (.ok (), setup.writeState m (writing number 0) d'' sent) ∧
      setup.Writes m entry number [] d'' := by
  have hmem := List.mem_of_getElem? hentry
  have hplace := hfits.isPlace hmem
  have hsides_ne : setup.download entry ≠ setup.digest entry := hplace.sides_ne
  have hsync : (TransferJob.syncStream Disk.fileSys).exec (setup.writeState m' stream d sent) =
      (.ok (), setup.writeState m' stream d sent) := by
    rcases hstream with rfl | ⟨file, rfl⟩ <;> rfl
  have hset : (JobM.modifyJob (fun job => { job with fileNum := (m : Int) })).exec
      (setup.writeState m' stream d sent) = (.ok (), setup.writeState m stream d sent) := rfl
  obtain ⟨d₁, hpaths, hholds, hdir⟩ := exec_writePaths hfits stream sent libs h hmem
  obtain ⟨hdownload, hdigest⟩ := hholds.noSides hfits hmem
  have hremove : (TransferJob.removeDigest Disk.fileSys
      (some (digestOf (getString (setup.path entry))))).exec (setup.writeState m stream d₁ sent) =
        (.ok (), setup.writeState m stream d₁ sent) := by
    have hexists : Disk.fileSys.pathExists (digestOf (getString (setup.path entry))) d₁ =
        (false, d₁) := by
      show ((d₁.lookup _).isSome, d₁) = _
      rw [(Disk.lookup_of_fileKey hplace.digest).trans hdigest]
      rfl
    simp only [TransferJob.removeDigest, Effect.exec_bind, JobM.exec_test]
    rw [show (setup.writeState m stream d₁ sent).fs = d₁ from rfl, hexists]
    rfl
  obtain ⟨hdownloadDir, hdigestDir⟩ := hfits.dropLast_sides hmem
  obtain ⟨d₂, hcreate, hmade⟩ := Disk.exec_create hplace.download
    (by rw [show downloadKey (setup.path entry) = setup.download entry from rfl, hdownloadDir]
        exact hdir) hdownload
  have hnode₂ : ∀ k, k ≠ setup.download entry → d₂.nodeAt k = d₁.nodeAt k :=
    fun k hk => (hmade.node k).trans (if_neg hk)
  have hdir₂ : d₂.nodeAt (setup.digest entry).dropLast = some .dir := by
    rw [hdigestDir, hnode₂, hdir]
    intro hsame
    exact (hfits.side_not_above hmem hmem).1 (hsame ▸ List.prefix_refl _)
  obtain ⟨d₃, hwrite, hmade'⟩ := Disk.exec_writeFile hplace.digest hdir₂
    ((hnode₂ _ (Ne.symm hsides_ne)).trans hdigest)
    (utf8Bytes (libs.digestToString { size := 0, modified := 0 }))
  refine ⟨d₁.next, d₃, ?_, hholds.started hfits hentry hdir hmade hmade'⟩
  have hopen : (JobM.fs (Disk.fileSys.create (downloadOf (getString (setup.path entry))))).exec
      (setup.writeState m stream d₁ sent) =
        (.ok (Disk.writer d₁.next 0), setup.writeState m stream d₂ sent) := by
    rw [JobM.exec_fs, show (setup.writeState m stream d₁ sent).fs = d₁ from rfl, hcreate]
    rfl
  have hstream' : (TransferJob.setStream (some (.fileStream (Disk.writer d₁.next 0)))).exec
      (setup.writeState m stream d₂ sent) =
        (.ok (), setup.writeState m (writing d₁.next 0) d₂ sent) := rfl
  unfold TransferJob.startFile
  rw [Effect.exec_bind_ok hmodify, Effect.exec_bind_ok hsync, Effect.exec_bind_ok hset,
    Effect.exec_bind_ok hpaths, Effect.exec_bind_ok hremove, Effect.exec_bind_ok hopen,
    Effect.exec_bind_ok hstream']
  simp only [Effect.exec_bind, JobM.exec_job, JobM.exec_ignore]
  rw [show (setup.writeState m (writing d₁.next 0) d₂ sent).fs = d₂ from rfl,
    show (setup.writeState m (writing d₁.next 0) d₂ sent).job.digest =
      { size := 0, modified := 0 } from rfl, hwrite]
  rfl

end Start

end DirSetup

end HbbCommon.Files
