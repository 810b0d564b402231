import HbbCommon.Files.Listing
import HbbCommon.Files.Logic.LinkTree

/-!
# What a folder copy lists

The two recursions follow the tree: the one lists the files below the folder under their
relative paths, the other the directories without entries. A directory that has entries,
but only links, is in neither list, and no directory but these is lost.
-/

namespace HbbCommon.Files.Listing

open HbbCommon.Base

variable {t : LinkTree} {a : Place} {n : Name} {path : Path}

/-! ## Reading one directory -/

theorem utf8Bytes_getString {p : Path} (h : (fromUtf8 p).isSome) : utf8Bytes (getString p) = p := by
  obtain ⟨text, htext⟩ := Option.isSome_iff_exists.mp h
  unfold getString
  rw [htext]
  exact (fromUtf8_eq_some_iff.mp htext).symm

/-- Every name below a directory is UTF-8. -/
def Utf8Below (t : LinkTree) (a : Place) : Prop :=
  ∀ rel n, (t.node (a ++ rel ++ [n])).isSome → (fromUtf8 n).isSome

theorem Utf8Below.descend (h : Utf8Below t a) (n : Name) : Utf8Below t (a ++ [n]) := by
  intro rel m hm
  refine h (n :: rel) m ?_
  rwa [List.append_assoc a [n] rel] at hm

/-- The type of an entry says whether it is a file and whether it is a real directory. -/
structure TypeAt (t : LinkTree) (a : Place) (entry : FileEntry) : Prop where
  exists_node : (t.node (a ++ [utf8Bytes entry.name])).isSome
  file_iff : entry.entryType = .file ↔ t.fileAt (a ++ [utf8Bytes entry.name])
  dir_iff : entry.entryType = .dir ↔ t.dirAt (a ++ [utf8Bytes entry.name])

theorem entryTypeOf_eq_file_iff {isDir isSymlink : Bool} :
    entryTypeOf isDir isSymlink = .file ↔ isDir = false ∧ isSymlink = false := by
  cases isDir <;> cases isSymlink <;> simp [entryTypeOf]

theorem entryTypeOf_eq_dir_iff {isDir isSymlink : Bool} :
    entryTypeOf isDir isSymlink = .dir ↔ isDir = true ∧ isSymlink = false := by
  cases isDir <;> cases isSymlink <;> simp [entryTypeOf]

/-- `is_dir` and the metadata of an entry tell files and real directories. -/
theorem typeAt_of_node {inode : Inode} (hpath : t.resolve path = some a) (ha : t.dirAt a)
    (hnode : t.node (a ++ [n]) = some inode) :
    (entryTypeOf (t.isDir (path.push n)) inode.isLink = .file ↔ t.fileAt (a ++ [n])) ∧
      (entryTypeOf (t.isDir (path.push n)) inode.isLink = .dir ↔ t.dirAt (a ++ [n])) := by
  have hdir : t.fileAt (a ++ [n]) ∨ t.dirAt (a ++ [n]) →
      (t.isDir (path.push n) = true ↔ t.dirAt (a ++ [n])) :=
    fun h => LinkTree.isDir_of_resolve (LinkTree.resolve_push hpath ha h)
  rw [entryTypeOf_eq_file_iff, entryTypeOf_eq_dir_iff]
  unfold LinkTree.fileAt LinkTree.dirAt at *
  rw [hnode] at hdir ⊢
  cases inode with
  | file m => simpa [Inode.isFile, Inode.isDir, Inode.isLink] using hdir
  | dir m => simpa [Inode.isFile, Inode.isDir, Inode.isLink] using hdir
  | link target m => simp [Inode.isFile, Inode.isDir, Inode.isLink]

theorem readEntry_ok (hpath : t.resolve path = some a) (ha : t.dirAt a)
    (hentry : (t.node (a ++ [n])).isSome) (hutf8 : (fromUtf8 n).isSome) :
    ∃ entry, readEntry t true (path.push n) = some entry ∧ utf8Bytes entry.name = n ∧
      TypeAt t a entry := by
  have hname := t.isName a n hentry
  have hfile : getFileName (path.push n) = getString n := by
    unfold getFileName getString
    rw [hname.fileName_push path]
    rfl
  have hbytes := utf8Bytes_getString hutf8
  have hne : getString n ≠ "" := by
    intro hempty
    rw [hempty] at hbytes
    exact hname.ne_nil hbytes.symm
  obtain ⟨inode, hnode⟩ := Option.isSome_iff_exists.mp hentry
  obtain ⟨htypeFile, htypeDir⟩ := typeAt_of_node hpath ha hnode
  unfold readEntry
  rw [hfile, if_neg hne, LinkTree.symlinkMetadata_push hpath hname, hnode]
  refine ⟨_, if_neg (by simp), hbytes, ?_, ?_, ?_⟩
  · rwa [hbytes]
  · rwa [hbytes]
  · rwa [hbytes]

/-- A list of names read entry by entry, when every one gives an entry. -/
theorem map_filterMap_of_forall {α β : Type} {f : α → Option β} {g : β → α} {P : β → Prop}
    {l : List α} (h : ∀ a ∈ l, ∃ b, f a = some b ∧ g b = a ∧ P b) :
    (l.filterMap f).map g = l ∧ ∀ b ∈ l.filterMap f, P b := by
  induction l with
  | nil => simp
  | cons a l ih =>
      obtain ⟨⟨b, hb, hg, hP⟩, hrest⟩ := List.forall_mem_cons.mp h
      obtain ⟨hmap, hall⟩ := ih hrest
      rw [List.filterMap_cons_some hb, List.map_cons, hg, hmap]
      exact ⟨rfl, List.forall_mem_cons.mpr ⟨hP, hall⟩⟩

theorem readDir_ok (hpath : t.resolve path = some a) (ha : t.dirAt a) (hutf8 : Utf8Below t a) :
    ∃ entries, readDir t path true = .ok ⟨getString path, entries⟩ ∧
      entries.map (fun entry => utf8Bytes entry.name) = t.list a ∧
      ∀ entry ∈ entries, TypeAt t a entry := by
  have hnames : t.readDir path = some (t.list a) := by
    unfold LinkTree.readDir
    rw [hpath]
    exact if_pos ha
  have hentries : ∀ n ∈ t.list a, ∃ entry, readEntry t true (path.push n) = some entry ∧
      utf8Bytes entry.name = n ∧ TypeAt t a entry := by
    intro n hn
    have hentry := (t.mem_list a n).mp hn
    exact readEntry_ok hpath ha hentry (hutf8 [] n (by rwa [List.append_nil]))
  refine ⟨_, ?_, map_filterMap_of_forall hentries⟩
  unfold readDir
  rw [hnames]

/-! ## The recursions -/

theorem collect_ok {α β : Type} {piece : FileEntry → Option (Except ListError (List α))}
    {g : α → β} {out : FileEntry → List β} {entries : List FileEntry}
    (h : ∀ entry ∈ entries, ∃ l, piece entry = some (.ok l) ∧ l.map g = out entry) :
    ∃ l, collect piece entries = some l ∧ l.map g = entries.flatMap out := by
  induction entries with
  | nil => exact ⟨[], rfl, rfl⟩
  | cons entry entries ih =>
      obtain ⟨⟨l, hl, hout⟩, hrest⟩ := List.forall_mem_cons.mp h
      obtain ⟨l', hl', hout'⟩ := ih hrest
      obtain ⟨ls, hls, rfl⟩ := Option.map_eq_some_iff.mp hl'
      refine ⟨l ++ ls.flatten, ?_, ?_⟩
      · unfold collect
        rw [List.mapM_cons, hl, hls]
        rfl
      · rw [List.map_append, hout, hout', List.flatMap_cons]

/-- What the entries of a directory give is what its names give. -/
theorem flatMap_names {β : Type} {entries : List FileEntry} {f : Name → List β}
    (h : entries.map (fun entry => utf8Bytes entry.name) = t.list a) :
    entries.flatMap (fun entry => f (utf8Bytes entry.name)) = (t.list a).flatMap f := by
  rw [← h, List.flatMap_map]

theorem resolve_entry (hpath : t.resolve path = some a) (ha : t.dirAt a) {entry : FileEntry}
    (hdir : t.dirAt (a ++ [utf8Bytes entry.name])) :
    t.resolve (path.push (utf8Bytes entry.name)) = some (a ++ [utf8Bytes entry.name]) :=
  LinkTree.resolve_push hpath ha (.inr hdir)

/-- The files below a directory are listed, each under its names behind the prefix. -/
theorem readDirRecursive_ok {fuel : Nat} (pre : Path) (hpath : t.resolve path = some a)
    (ha : t.dirAt a) (hutf8 : Utf8Below t a) (hfuel : t.depth < a.length + fuel) :
    ∃ files, readDirRecursive t true fuel path pre = some (.ok files) ∧
      files.map FileEntry.name =
        (t.filesBelow fuel a).map (fun rel => getString (joinNames pre rel)) := by
  induction fuel generalizing a path pre with
  | zero =>
      have := t.length_le a (LinkTree.isSome_of_dirAt ha)
      omega
  | succ fuel ih =>
      obtain ⟨entries, hread, hnames, htypes⟩ := readDir_ok hpath ha hutf8
      -- what one name gives
      let out := fun n : Name =>
        if t.fileAt (a ++ [n]) then [getString (pre.push n)]
        else if t.dirAt (a ++ [n]) then
          (t.filesBelow fuel (a ++ [n])).map (fun rel => getString (joinNames (pre.push n) rel))
        else []
      have hout : (t.filesBelow (fuel + 1) a).map (fun rel => getString (joinNames pre rel)) =
          entries.flatMap (fun entry => out (utf8Bytes entry.name)) := by
        rw [flatMap_names hnames, LinkTree.filesBelow, List.map_flatMap]
        refine List.flatMap_congr (fun n _ => ?_)
        dsimp only [out]
        split
        · rfl
        · split
          · rw [List.map_map]
            rfl
          · rfl
      have hpieces : ∀ entry ∈ entries, ∃ l,
          entryFiles (readDirRecursive t true fuel) path pre entry = some (.ok l) ∧
            l.map FileEntry.name = out (utf8Bytes entry.name) := by
        intro entry hmem
        obtain ⟨-, hfile, hdir⟩ := htypes entry hmem
        unfold entryFiles
        dsimp only [out]
        cases htype : entry.entryType with
        | file =>
            rw [if_pos (hfile.mp htype)]
            exact ⟨_, rfl, rfl⟩
        | dir =>
            have hat := hdir.mp htype
            rw [if_neg (fun h => LinkTree.not_dirAt_of_fileAt h hat), if_pos hat]
            exact ih _ (resolve_entry hpath ha hat) hat (hutf8.descend _)
              (by rw [List.length_append, List.length_singleton]; omega)
        | dirLink =>
            rw [if_neg (fun h => by simp [hfile.mpr h] at htype),
              if_neg (fun h => by simp [hdir.mpr h] at htype)]
            exact ⟨[], rfl, rfl⟩
        | fileLink =>
            rw [if_neg (fun h => by simp [hfile.mpr h] at htype),
              if_neg (fun h => by simp [hdir.mpr h] at htype)]
            exact ⟨[], rfl, rfl⟩
      obtain ⟨files, hfiles, hmap⟩ := collect_ok hpieces
      refine ⟨files, ?_, hmap.trans hout.symm⟩
      rw [readDirRecursive, if_pos ((LinkTree.isDir_of_resolve hpath).mpr ha), hread]
      dsimp only
      rw [hfiles]
      rfl

/-- The empty directories below a directory are listed, each under its names behind the path. -/
theorem readEmptyDirsRecursive_ok {fuel : Nat} (pre : Path) (hpath : t.resolve path = some a)
    (ha : t.dirAt a) (hutf8 : Utf8Below t a) (hfuel : t.depth < a.length + fuel) :
    ∃ dirs, readEmptyDirsRecursive t true fuel path pre = some (.ok dirs) ∧
      dirs.map FileDirectory.path =
        (t.emptyDirsBelow fuel a).map (fun rel => getString (joinNames path rel)) := by
  induction fuel generalizing a path pre with
  | zero =>
      have := t.length_le a (LinkTree.isSome_of_dirAt ha)
      omega
  | succ fuel ih =>
      obtain ⟨entries, hread, hnames, htypes⟩ := readDir_ok hpath ha hutf8
      have hempty : entries = [] ↔ t.list a = [] := by
        rw [← hnames, List.map_eq_nil_iff]
      rw [readEmptyDirsRecursive, if_pos ((LinkTree.isDir_of_resolve hpath).mpr ha), hread]
      dsimp only
      by_cases hnone : t.list a = []
      · rw [if_pos (hempty.mpr hnone), LinkTree.emptyDirsBelow, if_pos hnone]
        exact ⟨_, rfl, rfl⟩
      · rw [if_neg (fun h => hnone (hempty.mp h))]
        let out := fun n : Name =>
          if t.dirAt (a ++ [n]) then
            (t.emptyDirsBelow fuel (a ++ [n])).map
              (fun rel => getString (joinNames (path.push n) rel))
          else []
        have hout : (t.emptyDirsBelow (fuel + 1) a).map
            (fun rel => getString (joinNames path rel)) =
            entries.flatMap (fun entry => out (utf8Bytes entry.name)) := by
          rw [flatMap_names hnames, LinkTree.emptyDirsBelow, if_neg hnone, List.map_flatMap]
          refine List.flatMap_congr (fun n _ => ?_)
          dsimp only [out]
          split
          · rw [List.map_map]
            rfl
          · rfl
        have hpieces : ∀ entry ∈ entries, ∃ l,
            entryEmptyDirs (readEmptyDirsRecursive t true fuel) path pre entry = some (.ok l) ∧
              l.map FileDirectory.path = out (utf8Bytes entry.name) := by
          intro entry hmem
          obtain ⟨-, -, hdir⟩ := htypes entry hmem
          unfold entryEmptyDirs
          dsimp only [out]
          by_cases htype : entry.entryType = .dir
          · have hat := hdir.mp htype
            rw [htype, if_pos hat]
            exact ih _ (resolve_entry hpath ha hat) hat (hutf8.descend _)
              (by rw [List.length_append, List.length_singleton]; omega)
          · rw [if_neg (fun h => htype (hdir.mpr h))]
            refine ⟨[], ?_, rfl⟩
            split
            · rename_i hcase
              exact absurd hcase htype
            · rfl
        obtain ⟨dirs, hdirs, hmap⟩ := collect_ok hpieces
        refine ⟨dirs, ?_, hmap.trans hout.symm⟩
        rw [hdirs]
        rfl

/-! ## What a copy loses -/

theorem isSome_fromUtf8_push {p : Path} (hp : (fromUtf8 p).isSome) (hn : (fromUtf8 n).isSome) :
    (fromUtf8 (p.push n)).isSome := by
  obtain ⟨ptext, hptext⟩ := Option.isSome_iff_exists.mp hp
  obtain ⟨ntext, hntext⟩ := Option.isSome_iff_exists.mp hn
  rw [fromUtf8_eq_some_iff] at hptext hntext
  have hwhole : ∃ text, p.push n = utf8Bytes text := by
    unfold Path.push
    split
    · exact ⟨ntext, hntext⟩
    · split
      · refine ⟨ptext ++ "/" ++ ntext, ?_⟩
        rw [utf8Bytes_append, utf8Bytes_append, ← hptext, ← hntext]
        simp [Path.separator, show utf8Bytes "/" = [47] from rfl]
      · exact ⟨ptext ++ ntext, by rw [utf8Bytes_append, ← hptext, ← hntext]⟩
  obtain ⟨text, htext⟩ := hwhole
  rw [fromUtf8_eq_some_iff.mpr htext]
  rfl

theorem isSome_fromUtf8_joinNames {p : Path} {names : List Name} (hp : (fromUtf8 p).isSome)
    (hnames : ∀ n ∈ names, (fromUtf8 n).isSome) : (fromUtf8 (joinNames p names)).isSome := by
  induction names generalizing p with
  | nil => exact hp
  | cons n names ih =>
      obtain ⟨hn, hrest⟩ := List.forall_mem_cons.mp hnames
      exact ih (isSome_fromUtf8_push hp hn) hrest

theorem getString_injOn {p q : Path} (hp : (fromUtf8 p).isSome) (hq : (fromUtf8 q).isSome)
    (h : getString p = getString q) : p = q := by
  rw [← utf8Bytes_getString hp, ← utf8Bytes_getString hq, h]

theorem Utf8Below.mem {rel : Place} (h : Utf8Below t a) (hrel : (t.node (a ++ rel)).isSome) :
    ∀ n ∈ rel, (fromUtf8 n).isSome := by
  induction rel using List.reverseRecOn with
  | nil => simp
  | append_singleton rel n ih =>
      rw [← List.append_assoc] at hrel
      intro m hm
      rcases List.mem_append.mp hm with hm | hm
      · exact ih (LinkTree.isSome_of_append hrel) m hm
      · rw [List.mem_singleton.mp hm]
        exact h rel n hrel

/-- Entries below a directory have different paths behind one prefix. -/
theorem getString_joinNames_inj {p : Path} (hp : (fromUtf8 p).isSome) (hutf8 : Utf8Below t a)
    {rel rel' : Place} (hrel : (t.node (a ++ rel)).isSome) (hrel' : (t.node (a ++ rel')).isSome)
    (h : getString (joinNames p rel) = getString (joinNames p rel')) : rel = rel' := by
  have hnames : ∀ {rel : Place}, (t.node (a ++ rel)).isSome → ∀ n ∈ rel, IsName n :=
    fun hrel n hn => LinkTree.isName_of_mem hrel n (List.mem_append_right a hn)
  exact joinNames_inj (hnames hrel) (hnames hrel')
    (getString_injOn (isSome_fromUtf8_joinNames hp (hutf8.mem hrel))
      (isSome_fromUtf8_joinNames hp (hutf8.mem hrel')) h)

/-- Every file below the folder is listed once, under its relative path, and nothing else. -/
structure ListsFiles (t : LinkTree) (a : Place) (files : List FileEntry) : Prop where
  nodup : (files.map FileEntry.name).Nodup
  mem_iff : ∀ name, name ∈ files.map FileEntry.name ↔
    ∃ rel, t.fileAt (a ++ rel) ∧ name = getString (joinNames [] rel)

/-- Every directory of the folder is above a listed file, or is a listed directory or above
one. -/
def CoversDirs (t : LinkTree) (a : Place) (path : String) (files : List FileEntry)
    (dirs : List FileDirectory) : Prop :=
  ∀ rel, t.dirAt (a ++ rel) →
    (∃ below, t.fileAt (a ++ (rel ++ below)) ∧
      getString (joinNames [] (rel ++ below)) ∈ files.map FileEntry.name) ∨
    ∃ below, t.dirAt (a ++ (rel ++ below)) ∧
      getString (joinNames (utf8Bytes path) (rel ++ below)) ∈ dirs.map FileDirectory.path

/-- Every directory of the folder that has entries has a file or a directory among them. -/
def NoDirOfLinks (t : LinkTree) (a : Place) : Prop :=
  ∀ rel, t.dirAt (a ++ rel) → t.list (a ++ rel) ≠ [] →
    ∃ n, t.fileAt (a ++ rel ++ [n]) ∨ t.dirAt (a ++ rel ++ [n])

/-- Below a directory there is a file or an empty directory when no directory has only links. -/
theorem exists_leaf (ha : t.dirAt a) (h : NoDirOfLinks t a) :
    ∃ below, t.fileAt (a ++ below) ∨ t.dirAt (a ++ below) ∧ t.list (a ++ below) = [] := by
  induction hlevels : t.depth - a.length using Nat.strong_induction_on generalizing a with
  | _ levels ih =>
    by_cases hempty : t.list a = []
    · exact ⟨[], .inr (by rw [List.append_nil]; exact ⟨ha, hempty⟩)⟩
    · obtain ⟨n, hn⟩ := h [] (by rwa [List.append_nil]) (by rwa [List.append_nil])
      rw [List.append_nil] at hn
      rcases hn with hfile | hdir
      · exact ⟨[n], .inl hfile⟩
      · have hlength := t.length_le _ (LinkTree.isSome_of_dirAt hdir)
        rw [List.length_append, List.length_singleton] at hlength
        have hbelow : NoDirOfLinks t (a ++ [n]) := by
          intro rel hrel hne
          rw [List.append_assoc] at hrel hne ⊢
          exact h _ hrel hne
        obtain ⟨below, hleaf⟩ := ih (t.depth - (a ++ [n]).length)
          (by rw [List.length_append, List.length_singleton]; omega) hdir hbelow rfl
        rw [List.append_assoc] at hleaf
        exact ⟨n :: below, hleaf⟩

theorem listsFiles_of_names {fuel : Nat} {files : List FileEntry} (ha : t.dirAt a)
    (hutf8 : Utf8Below t a) (hfuel : t.depth < a.length + fuel)
    (hnames : files.map FileEntry.name =
      (t.filesBelow fuel a).map (fun rel => getString (joinNames [] rel))) :
    ListsFiles t a files := by
  have hmem : ∀ {rel}, rel ∈ t.filesBelow fuel a ↔ t.fileAt (a ++ rel) :=
    LinkTree.mem_filesBelow ha hfuel
  constructor
  · rw [hnames]
    refine (LinkTree.nodup_filesBelow fuel a).map_on (fun rel hrel rel' hrel' heq => ?_)
    exact getString_joinNames_inj (by rfl) hutf8 (LinkTree.isSome_of_fileAt (hmem.mp hrel))
      (LinkTree.isSome_of_fileAt (hmem.mp hrel')) heq
  · intro name
    rw [hnames, List.mem_map]
    constructor
    · rintro ⟨rel, hrel, rfl⟩
      exact ⟨rel, hmem.mp hrel, rfl⟩
    · rintro ⟨rel, hrel, rfl⟩
      exact ⟨rel, hmem.mpr hrel, rfl⟩

theorem coversDirs_iff {fuel : Nat} {path : String} {files : List FileEntry}
    {dirs : List FileDirectory} (ha : t.dirAt a) (hutf8 : Utf8Below t a)
    (hfuel : t.depth < a.length + fuel) (hfiles : ListsFiles t a files)
    (hpaths : dirs.map FileDirectory.path =
      (t.emptyDirsBelow fuel a).map (fun rel => getString (joinNames (utf8Bytes path) rel))) :
    CoversDirs t a path files dirs ↔ NoDirOfLinks t a := by
  have hmem : ∀ {rel}, rel ∈ t.emptyDirsBelow fuel a ↔
      t.dirAt (a ++ rel) ∧ t.list (a ++ rel) = [] := LinkTree.mem_emptyDirsBelow ha hfuel
  have hutf8path : (fromUtf8 (utf8Bytes path)).isSome := by
    rw [fromUtf8_eq_some_iff.mpr rfl]
    rfl
  constructor
  · intro hcovers rel hrel hne
    -- an entry on the way down to what covers the directory
    have hentry : ∀ below, below ≠ [] → (t.node (a ++ (rel ++ below))).isSome →
        t.fileAt (a ++ (rel ++ below)) ∨ t.dirAt (a ++ (rel ++ below)) →
        ∃ n, t.fileAt (a ++ rel ++ [n]) ∨ t.dirAt (a ++ rel ++ [n]) := by
      intro below hbelow hsome hkind
      obtain ⟨n, rest, rfl⟩ := List.exists_cons_of_ne_nil hbelow
      have hassoc : a ++ (rel ++ n :: rest) = (a ++ rel ++ [n]) ++ rest := by simp
      rw [hassoc] at hsome hkind
      refine ⟨n, ?_⟩
      by_cases hrest : rest = []
      · rwa [hrest, List.append_nil] at hkind
      · exact .inr (LinkTree.dirAt_of_append hrest hsome)
    rcases hcovers rel hrel with ⟨below, hfile, -⟩ | ⟨below, hdir, hlisted⟩
    · refine hentry below ?_ (LinkTree.isSome_of_fileAt hfile) (.inl hfile)
      rintro rfl
      rw [List.append_nil] at hfile
      exact LinkTree.not_dirAt_of_fileAt hfile hrel
    · refine hentry below ?_ (LinkTree.isSome_of_dirAt hdir) (.inr hdir)
      rintro rfl
      rw [List.append_nil] at hlisted
      rw [hpaths, List.mem_map] at hlisted
      obtain ⟨rel', hrel', heq⟩ := hlisted
      obtain ⟨hdir', hempty⟩ := hmem.mp hrel'
      have hsame := getString_joinNames_inj hutf8path hutf8 (LinkTree.isSome_of_dirAt hdir')
        (LinkTree.isSome_of_dirAt hrel) heq
      rw [hsame] at hempty
      exact hne hempty
  · intro hlinks rel hrel
    have hbelow : NoDirOfLinks t (a ++ rel) := by
      intro rest hrest hne
      rw [List.append_assoc] at hrest hne ⊢
      exact hlinks _ hrest hne
    obtain ⟨below, hleaf⟩ := exists_leaf hrel hbelow
    rw [List.append_assoc] at hleaf
    rcases hleaf with hfile | hdir
    · exact .inl ⟨below, hfile, (hfiles.mem_iff _).mpr ⟨_, hfile, rfl⟩⟩
    · refine .inr ⟨below, hdir.1, ?_⟩
      rw [hpaths]
      exact List.mem_map_of_mem (hmem.mpr hdir)

/-- With enough fuel a folder is listed, and every file in it once, under its relative path;
the directories are all covered exactly when none has entries that are all links. -/
theorem folder_copy_covers_iff {path : String} (hpath : t.resolve (utf8Bytes path) = some a)
    (ha : t.dirAt a) (hutf8 : Utf8Below t a) {fuel : Nat} (hfuel : t.depth < fuel) :
    ∃ files dirs, getRecursiveFiles t fuel path true = some (.ok files) ∧
      getEmptyDirsRecursive t fuel path true = some (.ok dirs) ∧
      ListsFiles t a files ∧ (CoversDirs t a path files dirs ↔ NoDirOfLinks t a) := by
  have hlevels : t.depth < a.length + fuel := by omega
  obtain ⟨files, hfiles, hnames⟩ := readDirRecursive_ok [] hpath ha hutf8 hlevels
  obtain ⟨dirs, hdirs, hpaths⟩ := readEmptyDirsRecursive_ok [] hpath ha hutf8 hlevels
  have hlists := listsFiles_of_names ha hutf8 hlevels hnames
  exact ⟨files, dirs, hfiles, hdirs, hlists, coversDirs_iff ha hutf8 hlevels hlists hpaths⟩

/-! ## A directory of links -/

theorem Utf8Below.add (h : Utf8Below t a) {b : Place} {inode : Inode} (hb : t.dirAt b)
    (hn : IsName n) (hfree : t.node (b ++ [n]) = none) (hutf8 : (fromUtf8 n).isSome) :
    Utf8Below (t.add b n inode hb hn hfree) a := by
  intro rel m hm
  by_cases hnew : a ++ rel ++ [m] = b ++ [n]
  · rw [List.singleton_inj.mp (List.append_inj' hnew rfl).2]
    exact hutf8
  · refine h rel m ?_
    show (t.node (a ++ rel ++ [m])).isSome
    rw [← Function.update_of_ne hnew (some inode) t.node]
    exact hm

/-- `/d` with a directory in which there is nothing but a link. -/
def linksOnly : LinkTree :=
  let m : Metadata := { modified := 0, len := 0 }
  let d : Name := utf8Bytes "d"
  let s : Name := utf8Bytes "s"
  ((LinkTree.empty.add [] d (.dir m) (by decide) (by decide +kernel) (by decide +kernel)).add
    [d] s (.dir m) (by decide +kernel) (by decide +kernel) (by decide +kernel)).add
    [d, s] (utf8Bytes "l") (.link (utf8Bytes "/") m) (by decide +kernel) (by decide +kernel)
    (by decide +kernel)

theorem linksOnly_resolve :
    linksOnly.resolve (utf8Bytes "/d") = some [utf8Bytes "d"] := by
  have hcomponents : Path.components (utf8Bytes "/d") = [.rootDir, .normal (utf8Bytes "d")] := by
    decide +kernel
  have hnode : linksOnly.node ([] ++ [utf8Bytes "d"]) = some (.dir ⟨0, 0⟩) := by decide +kernel
  unfold LinkTree.resolve
  rw [if_neg (by decide +kernel), hcomponents, LinkTree.walk, LinkTree.walk, hnode]
  exact LinkTree.walk.eq_1 ..

theorem linksOnly_utf8 (a : Place) : Utf8Below linksOnly a := by
  have hempty : Utf8Below LinkTree.empty a := by
    intro rel n hn
    simp [LinkTree.empty] at hn
  unfold linksOnly
  refine Utf8Below.add ?_ _ _ _ (by decide +kernel)
  refine Utf8Below.add ?_ _ _ _ (by decide +kernel)
  exact hempty.add _ _ _ (by decide +kernel)

theorem folder_copy_covers_sample :
    linksOnly.dirAt [utf8Bytes "d"] ∧
      ∃ files dirs, getRecursiveFiles linksOnly 4 "/d" true = some (.ok files) ∧
        getEmptyDirsRecursive linksOnly 4 "/d" true = some (.ok dirs) ∧
        ListsFiles linksOnly [utf8Bytes "d"] files ∧
        (CoversDirs linksOnly [utf8Bytes "d"] "/d" files dirs ↔
          NoDirOfLinks linksOnly [utf8Bytes "d"]) :=
  ⟨by decide +kernel, folder_copy_covers_iff linksOnly_resolve (by decide +kernel)
    (linksOnly_utf8 _) (by decide +kernel)⟩

/-- A directory with nothing but a link in it is in neither list, and nothing below it is. -/
theorem dir_of_links_is_lost :
    linksOnly.dirAt [utf8Bytes "d", utf8Bytes "s"] ∧
      getRecursiveFiles linksOnly 4 "/d" true = some (.ok []) ∧
      getEmptyDirsRecursive linksOnly 4 "/d" true = some (.ok []) ∧
      ¬ CoversDirs linksOnly [utf8Bytes "d"] "/d" [] [] := by
  have hd : linksOnly.dirAt [utf8Bytes "d"] := by decide +kernel
  have hs : linksOnly.dirAt [utf8Bytes "d", utf8Bytes "s"] := by decide +kernel
  obtain ⟨files, hfiles, hnames⟩ := readDirRecursive_ok [] linksOnly_resolve hd
    (linksOnly_utf8 _) (show linksOnly.depth < 1 + 4 by decide +kernel)
  obtain ⟨dirs, hdirs, hpaths⟩ := readEmptyDirsRecursive_ok [] linksOnly_resolve hd
    (linksOnly_utf8 _) (show linksOnly.depth < 1 + 4 by decide +kernel)
  have hnofiles : linksOnly.filesBelow 4 [utf8Bytes "d"] = [] := by decide +kernel
  have hnodirs : linksOnly.emptyDirsBelow 4 [utf8Bytes "d"] = [] := by decide +kernel
  rw [hnofiles, List.map_nil, List.map_eq_nil_iff] at hnames
  rw [hnodirs, List.map_nil, List.map_eq_nil_iff] at hpaths
  subst hnames hpaths
  refine ⟨hs, hfiles, hdirs, fun hcovers => ?_⟩
  rcases hcovers [utf8Bytes "s"] hs with ⟨below, -, hlisted⟩ | ⟨below, -, hlisted⟩
  · cases hlisted
  · cases hlisted

end HbbCommon.Files.Listing
