import HbbCommon.Files.Transfer
import HbbCommon.Files.Disk
import HbbCommon.Files.Logic.Names

/-!
# Where a write job works

Every path that a write job gives to the file system to be created, opened for writing,
renamed or removed is the base joined with a checked name, with nothing, `.download` or
`.digest` behind it; only `create_dir_all` goes above the base, where directories are
missing. The file system is arbitrary, with a log put around it.
-/

namespace HbbCommon.Files

open HbbCommon.Base

/-! ## A log of what is touched -/

inductive Touch
  | file (path : Path)
  /-- a directory that is made -/
  | dir (path : Path)
  deriving DecidableEq, Repr

section Log

variable {σ φ : Type}

/-- A call that touches nothing. -/
def quiet {α : Type} (call : Effect σ IoError α) : Effect (σ × List Touch) IoError α :=
  Effect.zoom Prod.fst (fun t s => (t, s.2)) id call

/-- A call that touches these paths, whether it succeeds or not. -/
def touching {α : Type} (touches : List Touch) (call : Effect σ IoError α) :
    Effect (σ × List Touch) IoError α :=
  Effect.zoom Prod.fst (fun t s => (t, s.2 ++ touches)) id call

/-- A file system with a log of the paths that are created, opened for writing, renamed,
removed or given another time. -/
def FileSys.logged (fs : FileSys σ φ) : FileSys (σ × List Touch) φ where
  symlinkMetadata path := quiet (fs.symlinkMetadata path)
  pathExists path s := ((fs.pathExists path s.1).1, (fs.pathExists path s.1).2, s.2)
  isDir path s := ((fs.isDir path s.1).1, (fs.isDir path s.1).2, s.2)
  isFile path s := ((fs.isFile path s.1).1, (fs.isFile path s.1).2, s.2)
  metadata path := quiet (fs.metadata path)
  readToString path := quiet (fs.readToString path)
  mkdir path := touching [.dir path] (fs.mkdir path)
  removeFile path := touching [.file path] (fs.removeFile path)
  rename source target := touching [.file source, .file target] (fs.rename source target)
  setFileMtime path time := touching [.file path] (fs.setFileMtime path time)
  writeFile path data := touching [.file path] (fs.writeFile path data)
  openFile path := quiet (fs.openFile path)
  create path := touching [.file path] (fs.create path)
  openWrite path := touching [.file path] (fs.openWrite path)
  seek file offset := quiet (fs.seek file offset)
  read file n := quiet (fs.read file n)
  writeAll file data := quiet (fs.writeAll file data)
  syncAll file := quiet (fs.syncAll file)
  fileMetadata file := quiet (fs.fileMetadata file)

/-- A path that a write job may touch. -/
def Allowed (base : Path) : Touch → Prop
  | .file path => ∃ name, ValidName name ∧ ∃ suffix ∈ sideSuffixes,
      path = joinName base name ++ suffix
  | .dir path => ∃ name, ValidName name ∧
      path.components <+: Path.components (joinName base name)

/-- Only allowed paths are in the log. -/
def Contained (base : Path) (s : σ × List Touch) : Prop := ∀ touch ∈ s.2, Allowed base touch

variable {base : Path} {α : Type}

theorem keeps_quiet (call : Effect σ IoError α) :
    Effect.Keeps (Contained base) (quiet call) (fun _ => True) :=
  Effect.Keeps.zoom (L := fun _ => True) (fun _ _ => ⟨trivial, fun _ _ => trivial⟩)
    (fun _ _ => trivial) (fun _ _ h _ => h)

theorem keeps_touching {touches : List Touch} (h : ∀ touch ∈ touches, Allowed base touch)
    (call : Effect σ IoError α) :
    Effect.Keeps (Contained base) (touching touches call) (fun _ => True) := by
  refine Effect.Keeps.zoom (L := fun _ => True) (fun _ _ => ⟨trivial, fun _ _ => trivial⟩)
    (fun _ _ => trivial) (fun s t hs _ touch hmem => ?_)
  rcases List.mem_append.mp hmem with hmem | hmem
  · exact hs touch hmem
  · exact h touch hmem

theorem contained_mkdir (fs : FileSys σ φ) {name : String} (hname : ValidName name) {path : Path}
    (hpath : path.components <+: Path.components (joinName base name)) {s t : σ × List Touch}
    {result : Except IoError Unit} (hs : Contained base s)
    (h : (fs.logged.mkdir path).exec s = (result, t)) : Contained base t := by
  have hallowed : ∀ touch ∈ [Touch.dir path], Allowed base touch :=
    List.forall_mem_singleton.mpr ⟨name, hname, hpath⟩
  have hkeeps := keeps_touching hallowed (fs.mkdir path)
  have hnext := (hkeeps s hs).1
  have hrun : (touching [.dir path] (fs.mkdir path)).exec s = (result, t) := h
  rwa [hrun] at hnext

theorem contained_isDir (fs : FileSys σ φ) {path : Path} {s t : σ × List Touch} {result : Bool}
    (hs : Contained base s) (h : fs.logged.isDir path s = (result, t)) : Contained base t := by
  cases h
  exact hs

/-- What is made on the way to a directory is an initial part of it. -/
theorem contained_createDirAll (fs : FileSys σ φ) {name : String} (hname : ValidName name)
    {path : Path} (hpath : path.components <+: Path.components (joinName base name))
    {s : σ × List Touch} (hs : Contained base s) :
    Contained base (fs.logged.createDirAll path s).2 := by
  have hparent : ∀ {path parent : Path}, path.components <+: Path.components (joinName base name) →
      path.parent = some parent → parent.components <+: Path.components (joinName base name) := by
    intro path parent hpath hparent
    obtain ⟨c, hc⟩ := Path.components_parent hparent
    rw [hc] at hpath
    exact (List.prefix_append _ _).trans hpath
  fun_induction FileSys.createDirAll fs.logged path s with
  | case1 path s hempty => exact hs
  | case2 path s _ s₁ hmade => exact contained_mkdir fs hname hpath hs hmade
  | case3 path s _ s₁ hmissing _ => exact contained_mkdir fs hname hpath hs hmissing
  | case4 path s _ s₁ hmissing parent hpar error s₂ hall ih =>
      have hmade := ih (hparent hpath hpar) (contained_mkdir fs hname hpath hs hmissing)
      rwa [hall] at hmade
  | case5 path s _ s₁ hmissing parent hpar s₂ hall s₃ hmade ih =>
      have hparents := ih (hparent hpath hpar) (contained_mkdir fs hname hpath hs hmissing)
      rw [hall] at hparents
      exact contained_mkdir fs hname hpath hparents hmade
  | case6 path s _ s₁ hmissing parent hpar s₂ hall error s₃ hmade s₄ hdir ih
  | case7 path s _ s₁ hmissing parent hpar s₂ hall error s₃ hmade s₄ hdir ih =>
      have hparents := ih (hparent hpath hpar) (contained_mkdir fs hname hpath hs hmissing)
      rw [hall] at hparents
      exact contained_isDir fs (contained_mkdir fs hname hpath hparents hmade) hdir
  | case8 path s _ error s₁ _ hmade s₂ hdir
  | case9 path s _ error s₁ _ hmade s₂ hdir =>
      exact contained_isDir fs (contained_mkdir fs hname hpath hs hmade) hdir

/-! ## The calls of a write job -/

/-- The job of a run: of the generic type, into files at the base. -/
def WritesAt (base : Path) (s : JobState (σ × List Touch) φ) : Prop :=
  s.job.type = .generic ∧ s.job.dataSource = .filePath base ∧ Contained base s.fs

theorem keeps_fs {Q : α → Prop} {call : Effect (σ × List Touch) IoError α}
    (h : Effect.Keeps (Contained base) call Q) :
    Effect.Keeps (WritesAt base) (JobM.fs call : JobM (σ × List Touch) φ α) Q :=
  Effect.Keeps.zoom h (fun _ hs => hs.2.2) (fun _ _ hs ht => ⟨hs.1, hs.2.1, ht⟩)

theorem keeps_check {Q : α → Prop} {call : Effect (σ × List Touch) JobError α}
    (h : Effect.Keeps (Contained base) call Q) :
    Effect.Keeps (WritesAt base) (JobM.check call : JobM (σ × List Touch) φ α) Q :=
  Effect.Keeps.zoom h (fun _ hs => hs.2.2) (fun _ _ hs ht => ⟨hs.1, hs.2.1, ht⟩)

theorem keeps_tryFs {ε : Type} {Q : α → Prop} {call : Effect (σ × List Touch) ε α}
    (h : Effect.Keeps (Contained base) call Q) :
    Effect.Keeps (WritesAt base) (JobM.tryFs call : JobM (σ × List Touch) φ (Except ε α))
      (fun r => ∀ a, r = .ok a → Q a) :=
  keeps_fs h.attempt

theorem keeps_ignore {Q : α → Prop} {call : Effect (σ × List Touch) IoError α}
    (h : Effect.Keeps (Contained base) call Q) :
    Effect.Keeps (WritesAt base) (JobM.ignore call : JobM (σ × List Touch) φ Unit)
      (fun _ => True) :=
  (keeps_tryFs h).bind (fun _ _ => .pure trivial)

theorem keeps_test {call : σ × List Touch → Bool × σ × List Touch}
    (h : ∀ s, Contained base s → Contained base (call s).2) :
    Effect.Keeps (WritesAt base) (JobM.test call : JobM (σ × List Touch) φ Bool)
      (fun _ => True) :=
  keeps_fs (fun s hs => ⟨h s hs, fun _ _ => trivial⟩)

theorem keeps_modifyJob {f : TransferJob φ → TransferJob φ}
    (h : ∀ job, (f job).type = job.type ∧ (f job).dataSource = job.dataSource) :
    Effect.Keeps (WritesAt base) (JobM.modifyJob f : JobM (σ × List Touch) φ Unit)
      (fun _ => True) :=
  .modify (fun s hs => ⟨(h s.job).1.trans hs.1, (h s.job).2.trans hs.2.1, hs.2.2⟩)

theorem keeps_job : Effect.Keeps (WritesAt base) (JobM.job : JobM (σ × List Touch) φ _)
    (fun job => job.type = .generic ∧ job.dataSource = .filePath base) := by
  intro s hs
  refine ⟨hs, fun job hjob => ?_⟩
  cases hjob
  exact ⟨hs.1, hs.2.1⟩

theorem keeps_validateComponents (fs : FileSys σ φ) (current : Path) (components : List Component) :
    Effect.Keeps (Contained base) (validateComponents fs.logged current components)
      (fun _ => True) := by
  induction components generalizing current with
  | nil => exact .pure trivial
  | cons c components ih =>
      cases c with
      | curDir => exact ih current
      | normal segment =>
          refine (keeps_quiet (fs.symlinkMetadata _)).attempt.bind (fun r _ => ?_)
          match r with
          | .ok true => exact .throw _
          | .ok false | .error .notFound => exact ih _
          | .error .other => exact .throw _
      | rootDir => exact .throw _
      | parentDir => exact .throw _

theorem keeps_validateNoSymlinkComponents (fs : FileSys σ φ) (name : String) :
    Effect.Keeps (Contained base) (validateNoSymlinkComponents fs.logged base name)
      (fun _ => True) :=
  .ite (fun _ => .pure trivial) (fun _ => keeps_validateComponents fs _ _)

theorem keeps_joinValidatedPath (fs : FileSys σ φ) (name : String) :
    Effect.Keeps (Contained base) (joinValidatedPath fs.logged base name)
      (fun path => ValidName name ∧ path = joinName base name) := by
  unfold joinValidatedPath
  split
  · exact .throw _
  · rename_i hvalid
    exact (keeps_validateNoSymlinkComponents fs name).bind (fun _ _ => .pure ⟨hvalid, rfl⟩)

/-- The path that a job finds for a name of its list. -/
def Resolved (base : Path) (name : String) (path : Path) : Prop :=
  ValidName name ∧ path = joinName base name ∧ getString path = path

/-- A base that is UTF-8 joined with a name is UTF-8. -/
theorem getString_joinName (hbase : (fromUtf8 base).isSome = true) (name : String) :
    getString (joinName base name) = joinName base name := by
  have htext : ∃ text, joinName base name = utf8Bytes text := by
    obtain ⟨text, htext⟩ := Option.isSome_iff_exists.mp hbase
    rw [fromUtf8_eq_some_iff] at htext
    subst htext
    unfold joinName Path.push
    split
    · exact ⟨text, rfl⟩
    · split
      · exact ⟨name, rfl⟩
      · split
        · exact ⟨text ++ "/" ++ name, by
            simp only [utf8Bytes_append, List.append_assoc]
            rfl⟩
        · exact ⟨text ++ name, (utf8Bytes_append _ _).symm⟩
  obtain ⟨text, htext⟩ := htext
  rw [getString, if_pos]
  rw [Option.isSome_iff_exists]
  exact ⟨text, fromUtf8_eq_some_iff.mpr htext⟩

theorem Resolved.allowed {name : String} {path suffix : Path} (h : Resolved base name path)
    (hsuffix : suffix ∈ sideSuffixes) : Allowed base (.file (path ++ suffix)) :=
  ⟨name, h.1, suffix, hsuffix, by rw [h.2.1]⟩

theorem keeps_resolveEntryPath (fs : FileSys σ φ) (hbase : (fromUtf8 base).isSome = true)
    (name : String) :
    Effect.Keeps (WritesAt base)
      (TransferJob.resolveEntryPath fs.logged base name : JobM (σ × List Touch) φ _)
      (fun r => ∀ path, r = some path → Resolved base name path) := by
  refine keeps_job.bind (fun job hjob => ?_)
  rw [hjob.1]
  refine (keeps_tryFs (keeps_joinValidatedPath fs name)).bind (fun r hr => ?_)
  cases r with
  | error error => exact .pure (fun _ h => by cases h)
  | ok path =>
      refine .pure (fun path' h => ?_)
      cases h
      obtain ⟨hname, rfl⟩ := hr path rfl
      exact ⟨hname, rfl, getString_joinName hbase name⟩

theorem downloadOf_mem {name : String} {path : Path} (h : Resolved base name path) :
    Allowed base (.file (downloadOf (getString path))) := by
  rw [h.2.2]
  exact h.allowed (by simp [sideSuffixes])

theorem digestOf_mem {name : String} {path : Path} (h : Resolved base name path) :
    Allowed base (.file (digestOf (getString path))) := by
  rw [h.2.2]
  exact h.allowed (by simp [sideSuffixes])

theorem path_mem {name : String} {path : Path} (h : Resolved base name path) :
    Allowed base (.file path) := by
  have hpath := h.allowed (show [] ∈ sideSuffixes by simp [sideSuffixes])
  rwa [List.append_nil] at hpath

/-- A call that touches one allowed path. -/
theorem keeps_touching_one {touch : Touch} (h : Allowed base touch)
    (call : Effect σ IoError α) :
    Effect.Keeps (Contained base) (touching [touch] call) (fun _ => True) :=
  keeps_touching (List.forall_mem_singleton.mpr h) call

namespace TransferJob

theorem keeps_atCurrentPath (fs : FileSys σ φ) (hbase : (fromUtf8 base).isSome = true)
    {f : FileEntry → Path → JobM (σ × List Touch) φ Unit}
    (hf : ∀ entry path, Resolved base entry.name path →
      Effect.Keeps (WritesAt base) (f entry path) (fun _ => True)) :
    Effect.Keeps (WritesAt base) (atCurrentPath fs.logged f) (fun _ => True) := by
  refine keeps_job.bind (fun job hjob => ?_)
  rw [hjob.1, hjob.2]
  cases job.currentEntry with
  | none => exact .pure trivial
  | some entry =>
      refine (keeps_resolveEntryPath fs hbase entry.name).bind (fun r hr => ?_)
      cases r with
      | none => exact .pure trivial
      | some path => exact hf entry path (hr path rfl)

theorem keeps_modifyTime (fs : FileSys σ φ) (hbase : (fromUtf8 base).isSome = true) :
    Effect.Keeps (WritesAt base) (modifyTime fs.logged) (fun _ => True) := by
  refine keeps_atCurrentPath fs hbase (fun entry path hpath => ?_)
  refine (keeps_ignore (keeps_touching_one (digestOf_mem hpath) _)).bind (fun _ _ => ?_)
  have hallowed : ∀ touch ∈ [Touch.file (downloadOf (getString path)), .file path],
      Allowed base touch :=
    List.forall_mem_cons.mpr ⟨downloadOf_mem hpath, List.forall_mem_singleton.mpr (path_mem hpath)⟩
  refine (keeps_ignore (keeps_touching hallowed _)).bind (fun _ _ => ?_)
  exact keeps_ignore (keeps_touching_one (path_mem hpath) _)

theorem keeps_removeDownloadFile (fs : FileSys σ φ) (hbase : (fromUtf8 base).isSome = true) :
    Effect.Keeps (WritesAt base) (removeDownloadFile fs.logged) (fun _ => True) := by
  refine keeps_atCurrentPath fs hbase (fun entry path hpath => ?_)
  refine (keeps_ignore (keeps_touching_one (downloadOf_mem hpath) _)).bind (fun _ _ => ?_)
  exact keeps_ignore (keeps_touching_one (digestOf_mem hpath) _)

theorem keeps_setStream (stream : Option (DataStream φ)) :
    Effect.Keeps (WritesAt base) (setStream stream : JobM (σ × List Touch) φ Unit)
      (fun _ => True) :=
  keeps_modifyJob (fun _ => ⟨rfl, rfl⟩)

theorem keeps_syncStream (fs : FileSys σ φ) :
    Effect.Keeps (WritesAt base) (syncStream fs.logged) (fun _ => True) := by
  refine keeps_job.bind (fun job _ => ?_)
  split
  · exact keeps_fs (keeps_quiet _)
  · exact .pure trivial

theorem keeps_makeParents (fs : FileSys σ φ) {name : String} (hname : ValidName name) :
    Effect.Keeps (WritesAt base)
      (makeParents fs.logged (joinName base name) : JobM (σ × List Touch) φ Unit)
      (fun _ => True) := by
  unfold makeParents
  split
  · rename_i parent hparent
    obtain ⟨c, hc⟩ := Path.components_parent hparent
    have hprefix : parent.components <+: Path.components (joinName base name) := by
      rw [hc]
      exact List.prefix_append _ _
    exact keeps_ignore (Q := fun _ => True) (fun s hs =>
      ⟨contained_createDirAll fs hname hprefix hs, fun _ _ => trivial⟩)
  · exact .pure trivial

/-- A path whose parents are made is written with its digest next to it. -/
theorem keeps_writePaths (libs : Libs) (fs : FileSys σ φ) (hbase : (fromUtf8 base).isSome = true)
    (entry : FileEntry) :
    Effect.Keeps (WritesAt base) (writePaths libs fs.logged base entry)
      (fun paths => Allowed base (.file paths.1) ∧
        ∀ digestPath, paths.2 = some digestPath → Allowed base (.file digestPath)) := by
  refine keeps_job.bind (fun job hjob => ?_)
  rw [hjob.1]
  refine (keeps_check (keeps_joinValidatedPath fs entry.name)).bind (fun path hpath => ?_)
  obtain ⟨hname, rfl⟩ := hpath
  have hresolved : Resolved base entry.name (joinName base entry.name) :=
    ⟨hname, rfl, getString_joinName hbase _⟩
  have hpaths : Allowed base (.file (downloadOf (getString (joinName base entry.name)))) ∧
      ∀ digestPath, some (digestOf (getString (joinName base entry.name))) = some digestPath →
        Allowed base (.file digestPath) := by
    refine ⟨downloadOf_mem hresolved, fun digestPath h => ?_⟩
    cases h
    exact digestOf_mem hresolved
  exact (keeps_makeParents fs hname).bind (fun _ _ => .pure hpaths)

theorem keeps_removeDigest (fs : FileSys σ φ) {digestPath : Option Path}
    (h : ∀ path, digestPath = some path → Allowed base (.file path)) :
    Effect.Keeps (WritesAt base) (removeDigest fs.logged digestPath : JobM (σ × List Touch) φ Unit)
      (fun _ => True) := by
  cases digestPath with
  | none => exact .pure trivial
  | some path =>
      refine (keeps_test (fun _ hs => hs)).bind (fun present _ => ?_)
      cases present with
      | true => exact keeps_fs (keeps_touching_one (h path rfl) _)
      | false => exact .pure trivial

theorem keeps_startFile (libs : Libs) (fs : FileSys σ φ) (hbase : (fromUtf8 base).isSome = true)
    (fileNum : Int) (entry : FileEntry) :
    Effect.Keeps (WritesAt base) (startFile libs fs.logged base fileNum entry) (fun _ => True) := by
  refine (keeps_modifyTime fs hbase).bind (fun _ _ => ?_)
  refine (keeps_syncStream fs).bind (fun _ _ => ?_)
  refine Effect.Keeps.bind (keeps_modifyJob (fun _ => ⟨rfl, rfl⟩)) (fun _ _ => ?_)
  refine (keeps_writePaths libs fs hbase entry).bind (fun paths hpaths => ?_)
  refine (keeps_removeDigest fs hpaths.2).bind (fun _ _ => ?_)
  refine (keeps_fs (keeps_touching_one hpaths.1 _)).bind (fun file _ => ?_)
  refine (keeps_setStream _).bind (fun _ _ => ?_)
  obtain ⟨path, _ | digestPath⟩ := paths
  · exact .pure trivial
  · refine keeps_job.bind (fun job _ => ?_)
    exact keeps_ignore (keeps_touching_one (hpaths.2 digestPath rfl) _)

theorem keeps_startIfOther (libs : Libs) (fs : FileSys σ φ)
    (hbase : (fromUtf8 base).isSome = true) (fileNum : Int) (entry : FileEntry) :
    Effect.Keeps (WritesAt base) (startIfOther libs fs.logged base fileNum entry)
      (fun _ => True) :=
  keeps_job.bind (fun _ _ => .ite (fun _ => keeps_startFile libs fs hbase fileNum entry)
    (fun _ => .pure trivial))

theorem keeps_writeStream (fs : FileSys σ φ) (data : Bytes) :
    Effect.Keeps (WritesAt base) (writeStream fs.logged data) (fun _ => True) := by
  refine keeps_job.bind (fun job _ => ?_)
  split
  · exact .throw _
  · exact (keeps_fs (keeps_quiet _)).bind (fun _ _ => keeps_setStream _)
  · exact keeps_setStream _

theorem keeps_writeData (libs : Libs) (fs : FileSys σ φ) (block : FileTransferBlock) :
    Effect.Keeps (WritesAt base) (writeData libs fs.logged block) (fun _ => True) := by
  unfold writeData
  split
  · split
    · exact .throw _
    · exact keeps_writeStream fs _
  · exact keeps_writeStream fs _

theorem keeps_write (libs : Libs) (fs : FileSys σ φ) (hbase : (fromUtf8 base).isSome = true)
    (block : FileTransferBlock) :
    Effect.Keeps (WritesAt base) (write libs fs.logged block) (fun _ => True) := by
  refine keeps_job.bind (fun job hjob => ?_)
  refine .ite (fun _ => .throw _) (fun _ => ?_)
  rw [hjob.2]
  dsimp only
  split
  · exact .throw _
  · rename_i entry _
    exact (keeps_startIfOther libs fs hbase block.fileNum entry).bind (fun _ _ =>
      keeps_writeData libs fs block)

theorem keeps_openAtOffset (fs : FileSys σ φ) {name : String} {path : Path}
    (hpath : Resolved base name path) :
    Effect.Keeps (WritesAt base) (openAtOffset fs.logged path : JobM (σ × List Touch) φ _)
      (fun _ => True) := by
  have hboth : ∀ s, Contained base s → Contained base
      (fs.logged.bothExist (downloadOf (getString path)) (digestOf (getString path)) s).2 := by
    intro s hs
    unfold FileSys.bothExist
    split
    · rename_i s₁ heq
      have hs₁ : Contained base (fs.logged.pathExists (downloadOf (getString path)) s).2 := hs
      rw [heq] at hs₁
      exact hs₁
    · rename_i s₁ heq
      have hs₁ : Contained base (fs.logged.pathExists (downloadOf (getString path)) s).2 := hs
      rwa [heq] at hs₁
  refine (keeps_test hboth).bind (fun present _ => ?_)
  cases present with
  | true =>
      refine (keeps_tryFs (keeps_touching_one (downloadOf_mem hpath) _)).bind (fun r _ => ?_)
      cases r <;> exact .pure trivial
  | false =>
      refine (keeps_test (fun _ hs => hs)).bind (fun there _ => ?_)
      cases there with
      | false => exact .pure trivial
      | true =>
          refine (keeps_tryFs (keeps_quiet _)).bind (fun r _ => ?_)
          cases r <;> exact .pure trivial

theorem keeps_setStreamOffset (fs : FileSys σ φ) (hbase : (fromUtf8 base).isSome = true)
    (fileNum offset : Nat) :
    Effect.Keeps (WritesAt base) (setStreamOffset fs.logged fileNum offset) (fun _ => True) := by
  refine keeps_job.bind (fun job hjob => ?_)
  rw [hjob.2]
  dsimp only
  split
  · exact .throw _
  · refine (keeps_resolveEntryPath fs hbase _).bind (fun r hr => ?_)
    cases r with
    | none => exact .pure trivial
    | some path =>
        refine (keeps_openAtOffset fs (hr path rfl)).bind (fun opened _ => ?_)
        cases opened with
        | none => exact .pure trivial
        | some file =>
            refine (keeps_tryFs (keeps_quiet _)).bind (fun r _ => ?_)
            cases r with
            | error error => exact .pure trivial
            | ok file => exact keeps_setStream _

theorem keeps_confirm (fs : FileSys σ φ) (hbase : (fromUtf8 base).isSome = true)
    (r : FileTransferSendConfirmRequest) :
    Effect.Keeps (WritesAt base) (confirm fs.logged r) (fun _ => True) := by
  have hconfirmed : Effect.Keeps (WritesAt base)
      (setFileConfirmed true : JobM (σ × List Touch) φ Unit) (fun _ => True) :=
    keeps_modifyJob (fun _ => ⟨rfl, rfl⟩)
  refine keeps_job.bind (fun job _ => .ite (fun _ => .pure trivial) (fun _ => ?_))
  match r.union with
  | none => exact .pure trivial
  | some (.skip true) => exact keeps_modifyJob (fun _ => ⟨rfl, rfl⟩)
  | some (.skip false) => exact hconfirmed
  | some (.offsetBlk offset) =>
      exact hconfirmed.bind (fun _ _ => .ite (fun _ => keeps_setStreamOffset fs hbase _ _)
        (fun _ => .pure trivial))

theorem keeps_validateAll (fs : FileSys σ φ) (files : List FileEntry) :
    Effect.Keeps (Contained base) (validateAll fs.logged base files) (fun _ => True) := by
  induction files with
  | nil => exact .pure trivial
  | cons file files ih =>
      exact (keeps_validateNoSymlinkComponents fs file.name).bind (fun _ _ => ih)

theorem keeps_setFiles (fs : FileSys σ φ) (files : List FileEntry) :
    Effect.Keeps (WritesAt base) (setFiles fs.logged files) (fun _ => True) := by
  unfold setFiles
  split
  · exact .throw _
  · refine Effect.Keeps.bind (Q := fun _ => True) ?_ (fun _ _ => keeps_modifyJob (fun _ => ⟨rfl, rfl⟩))
    refine keeps_job.bind (fun job hjob => ?_)
    rw [hjob.2]
    exact keeps_check (keeps_validateAll fs files)

end TransferJob

end Log

/-- A call of a write job. -/
inductive WriteCall
  | setFiles (files : List FileEntry)
  | setDigest (size modified : Nat)
  | write (block : FileTransferBlock)
  | modifyTime
  | removeDownloadFile
  | setStreamOffset (fileNum offset : Nat)
  | confirm (r : FileTransferSendConfirmRequest)
  deriving DecidableEq, Repr

section Containment

variable {σ φ : Type}

def WriteCall.run (libs : Libs) (fs : FileSys σ φ) : WriteCall → JobM σ φ Unit
  | .setFiles files => TransferJob.setFiles fs files
  | .setDigest size modified => TransferJob.setDigest size modified
  | .write block => TransferJob.write libs fs block
  | .modifyTime => TransferJob.modifyTime fs
  | .removeDownloadFile => TransferJob.removeDownloadFile fs
  | .setStreamOffset fileNum offset => TransferJob.setStreamOffset fs fileNum offset
  | .confirm r => TransferJob.confirm fs r

/-- The calls one after another, whether they fail or not. -/
def runCalls (libs : Libs) (fs : FileSys σ φ) (s : JobState σ φ) (calls : List WriteCall) :
    JobState σ φ :=
  calls.foldl (fun s call => ((call.run libs fs).exec s).2) s

theorem runCalls_writesAt (libs : Libs) (fs : FileSys σ φ) {base : Path}
    (hbase : (fromUtf8 base).isSome = true) {s : JobState (σ × List Touch) φ}
    (hs : WritesAt base s) (calls : List WriteCall) :
    WritesAt base (runCalls libs fs.logged s calls) := by
  induction calls generalizing s with
  | nil => exact hs
  | cons call calls ih =>
      refine ih ?_
      cases call with
      | setFiles files => exact (TransferJob.keeps_setFiles fs files s hs).1
      | setDigest size modified => exact hs
      | write block => exact (TransferJob.keeps_write libs fs hbase block s hs).1
      | modifyTime => exact (TransferJob.keeps_modifyTime fs hbase s hs).1
      | removeDownloadFile => exact (TransferJob.keeps_removeDownloadFile fs hbase s hs).1
      | setStreamOffset fileNum offset =>
          exact (TransferJob.keeps_setStreamOffset fs hbase fileNum offset s hs).1
      | confirm r => exact (TransferJob.keeps_confirm fs hbase r s hs).1

/-- An initial part of the components of an allowed path. -/
theorem above_or_inside {base path : Path} {name : String} (hname : ValidName name)
    (h : path.components <+: Path.components (joinName base name)) :
    path.components <+: base.components ∨ Path.Inside base path := by
  by_cases hempty : name = ""
  · rw [joinName, if_pos hempty] at h
    exact .inl h
  · have hinside := inside_joinName hname hempty base
      (show [] ∈ sideSuffixes by simp [sideSuffixes])
    rw [List.append_nil] at hinside
    obtain ⟨more, hmore, hnested⟩ := hinside
    rw [hmore] at h
    rcases List.prefix_or_prefix_of_prefix h (List.prefix_append base.components more) with
      habove | ⟨part, hpart⟩
    · exact .inl habove
    · rw [← hpart, List.prefix_append_right_inj] at h
      exact .inr ⟨part, hpart.symm, fun c hc => hnested c (h.subset hc)⟩

/-- Whatever calls a write job gets, a file that it creates, opens for writing, renames or
removes is the base joined with a nested name, with nothing, `.download` or `.digest` behind
it, and lies inside the base unless the name is empty; a directory that it makes lies inside
the base, or is the base or a parent of it. -/
theorem write_contained (libs : Libs) (fs : FileSys σ φ) {base : Path}
    (hbase : (fromUtf8 base).isSome = true) {job : TransferJob φ} (htype : job.type = .generic)
    (hsource : job.dataSource = .filePath base) (s : σ) (calls : List WriteCall) :
    let touches := (runCalls libs fs.logged ⟨job, (s, []), []⟩ calls).fs.2
    (∀ path, .file path ∈ touches → ∃ name, Path.IsNested (utf8Bytes name) ∧
      ∃ suffix ∈ sideSuffixes, path = joinName base name ++ suffix ∧
        (name ≠ "" → Path.Inside base path)) ∧
    ∀ path, .dir path ∈ touches →
      path.components <+: base.components ∨ Path.Inside base path := by
  intro touches
  have hcontained : ∀ touch ∈ touches, Allowed base touch :=
    (runCalls_writesAt libs fs hbase (s := ⟨job, (s, []), []⟩)
      ⟨htype, hsource, fun _ h => by cases h⟩ calls).2.2
  constructor
  · intro path hpath
    obtain ⟨name, hname, suffix, hsuffix, rfl⟩ := hcontained _ hpath
    exact ⟨name, hname.isNested, suffix, hsuffix, rfl,
      fun hne => inside_joinName hname hne base hsuffix⟩
  · intro path hpath
    obtain ⟨name, hname, hprefix⟩ := hcontained _ hpath
    exact above_or_inside hname hprefix

/-! ## A base whose parent is missing -/

/-- Libraries for the runs below, in which nothing is compressed. -/
def plainLibs : Libs where
  zstdCompress _ := none
  zstdRead data n := .ok (data.take n)
  digestToString _ := "{}"
  digestFromStr _ := none
  toStringLossy path := path

/-- A new write job of the generic type. -/
def newWriteJob (base : Path) : TransferJob Handle :=
  { id := 1, type := .generic, dataSource := .filePath base, isLastJob := false
    isResume := false, fileNum := 0, files := [], dataStream := none
    enableOverwriteDetection := false, fileConfirmed := false, fileSkipped := false
    fileIsWaiting := false, digest := { size := 0, modified := 0 } }

/-- One file, one block, and the end. -/
def sampleCalls : List WriteCall :=
  [.setFiles [{ name := "a", modifiedTime := 0 }],
    .write { id := 1, fileNum := 0, data := [7], compressed := false }, .modifyTime]

/-- What a job at `x/y` touches on a disk without directories. -/
def sampleTouches : List Touch :=
  (runCalls plainLibs Disk.fileSys.logged
    ⟨newWriteJob (utf8Bytes "x/y"), (Disk.empty [], []), []⟩ sampleCalls).fs.2

theorem write_contained_sample :
    (∀ path, .file path ∈ sampleTouches → ∃ name, Path.IsNested (utf8Bytes name) ∧
      ∃ suffix ∈ sideSuffixes, path = joinName (utf8Bytes "x/y") name ++ suffix ∧
        (name ≠ "" → Path.Inside (utf8Bytes "x/y") path)) ∧
    ∀ path, .dir path ∈ sampleTouches →
      path.components <+: Path.components (utf8Bytes "x/y") ∨
        Path.Inside (utf8Bytes "x/y") path :=
  write_contained plainLibs Disk.fileSys
    (show (fromUtf8 (utf8Bytes "x/y")).isSome = true by decide +kernel)
    (show (newWriteJob (utf8Bytes "x/y")).type = .generic from rfl) rfl (Disk.empty [])
    sampleCalls

/-- A missing directory above the base is made: it is not the base, and not the base joined
with a nested name. -/
theorem parent_of_base_made :
    (runCalls plainLibs Disk.fileSys.logged
      ⟨newWriteJob (utf8Bytes "x/y"), (Disk.empty [], []), []⟩ sampleCalls).fs.1.node
        [.normal (utf8Bytes "x")] = some .dir ∧
    .dir (utf8Bytes "x") ∈ sampleTouches ∧
    ¬ ∃ name, Path.IsNested (utf8Bytes name) ∧ ∃ suffix ∈ sideSuffixes,
      utf8Bytes "x" = joinName (utf8Bytes "x/y") name ++ suffix := by
  refine ⟨by decide +kernel, by decide +kernel, ?_⟩
  rintro ⟨name, hname, suffix, -, heq⟩
  have hlonger := hname.length_joinName (utf8Bytes "x/y")
  have hlength := congrArg List.length heq
  rw [List.length_append] at hlength
  have hx : (utf8Bytes "x").length = 1 := by decide +kernel
  have hxy : (utf8Bytes "x/y").length = 3 := by decide +kernel
  omega

end Containment

end HbbCommon.Files
