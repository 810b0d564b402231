import HbbCommon.Base.TSys
import HbbCommon.Files.Disk
import HbbCommon.Files.Logic.ReadJobs

/-!
# When a confirmation panics

`confirm` compares the number of the request with the number of the job and hands it to
`set_stream_offset`, which takes it for an index into the files. The number of a job moves
past its last file when that file is read to its end, is skipped or cannot be opened, and a
write job has no files at first; a request with an offset panics then.
-/

namespace HbbCommon.Files

open HbbCommon.Base

variable {σ φ : Type}

namespace TransferJob

/-- The request is for the number of the job and gives an offset, and the job has a path but
no file of that number. -/
def confirmPanics (job : TransferJob φ) (r : FileTransferSendConfirmRequest) : Bool :=
  job.fileNum == r.fileNum &&
    (match r.union, job.dataSource with
    | some (.offsetBlk offset), .filePath _ =>
        decide (offset > 0) && decide (job.files.length ≤ asUsize r.fileNum)
    | _, _ => false)

/-! ## Where the failures go -/

section Failures

variable (fs : FileSys σ φ)

theorem total_job : (JobM.job : JobM σ φ _).Total := fun s => ⟨s.job, rfl⟩

theorem total_tryFs {ε α : Type} (call : Effect σ ε α) : (JobM.tryFs call : JobM σ φ _).Total :=
  (Effect.Total.attempt call).zoom

theorem total_test (call : σ → Bool × σ) : (JobM.test call : JobM σ φ Bool).Total :=
  (Effect.Total.ofState call).zoom

theorem total_setStream (stream : Option (DataStream φ)) :
    (setStream stream : JobM σ φ Unit).Total := Effect.Total.modify _

theorem total_resolveEntryPath (base : Path) (name : String) :
    (resolveEntryPath fs base name).Total := by
  refine total_job.bind (fun job => ?_)
  cases job.type with
  | generic =>
      refine (total_tryFs _).bind (fun result => ?_)
      cases result with
      | ok path => exact .pure _
      | error e => exact .pure _
  | printer => exact .pure _

/-- A call that opens a file, with its error in the log. -/
theorem total_openOrNone (call : Effect σ IoError φ) :
    (do
      match ← JobM.tryFs call with
      | .ok file => return some file
      | .error _ => return none : JobM σ φ (Option φ)).Total := by
  refine (total_tryFs _).bind (fun result => ?_)
  cases result with
  | ok file => exact .pure _
  | error e => exact .pure _

theorem total_openAtOffset (path : Path) : (openAtOffset fs path).Total := by
  refine (total_test _).bind (fun both => ?_)
  refine .ite (total_openOrNone _) ?_
  refine (total_test _).bind (fun found => ?_)
  exact .ite (total_openOrNone _) (.pure _)

/-- What `set_stream_offset` does at an entry. -/
theorem total_seekEntry (base : Path) (entry : FileEntry) (offset : Nat) :
    (do
      match ← resolveEntryPath fs base entry.name with
      | none => return ()
      | some path => do
          match ← openAtOffset fs path with
          | none => return ()
          | some file => do
              match ← JobM.tryFs (fs.seek file offset) with
              | .ok file => setStream (some (.fileStream file))
              | .error _ => return () : JobM σ φ Unit).Total := by
  refine (total_resolveEntryPath fs base entry.name).bind (fun path => ?_)
  cases path with
  | none => exact .pure _
  | some path =>
      refine (total_openAtOffset fs path).bind (fun file => ?_)
      cases file with
      | none => exact .pure _
      | some file =>
          refine (total_tryFs _).bind (fun result => ?_)
          cases result with
          | ok file => exact total_setStream _
          | error e => exact .pure _

end Failures

/-! ## One request -/

variable {fs : FileSys σ φ} {t : JobState σ φ} {base : Path}

/-- `set_stream_offset` panics exactly when there is no entry of that number. -/
theorem setStreamOffset_panicked_iff (hsource : t.job.dataSource = .filePath base)
    (fileNum offset : Nat) :
    ((setStreamOffset fs fileNum offset).exec t).1 = .error .panicked ↔
      t.job.files.length ≤ fileNum := by
  unfold setStreamOffset
  rw [Effect.exec_bind_ok (JobM.exec_job t)]
  simp only [hsource]
  cases hentry : t.job.files[fileNum]? with
  | none =>
      have hlength := List.getElem?_eq_none_iff.mp hentry
      exact iff_of_true rfl hlength
  | some entry =>
      obtain ⟨hlength, -⟩ := List.getElem?_eq_some_iff.mp hentry
      obtain ⟨a, ha⟩ := total_seekEntry fs base entry offset t
      refine iff_of_false (fun h => ?_) (by omega)
      cases ha.symm.trans h

/-- The current file is confirmed. -/
def confirmed (job : TransferJob φ) : TransferJob φ :=
  { job with fileConfirmed := true, fileSkipped := false }

/-- In front of the entry `confirm` sets flags only. -/
theorem exec_confirm_offset {r : FileTransferSendConfirmRequest} {offset : UInt32}
    (hnum : t.job.fileNum = r.fileNum) (hunion : r.union = some (.offsetBlk offset))
    (hoffset : offset > 0) :
    (confirm fs r).exec t = (setStreamOffset fs (asUsize r.fileNum) offset.toNat).exec
      { t with job := t.job.confirmed } := by
  unfold confirm
  rw [Effect.exec_bind_ok (JobM.exec_job t), if_neg (not_not_intro hnum)]
  simp only [hunion, if_pos hoffset]
  rw [Effect.exec_bind_ok (show (setFileConfirmed true : JobM σ φ Unit).exec t = (.ok (), _)
    from rfl)]
  rfl

/-- A request that gives no offset, or is for another number, does not panic. -/
theorem confirm_ok {r : FileTransferSendConfirmRequest}
    (h : t.job.fileNum ≠ r.fileNum ∨ ∀ offset, r.union = some (.offsetBlk offset) → ¬ offset > 0) :
    ((confirm fs r).exec t).1 = .ok () := by
  unfold confirm
  rw [Effect.exec_bind_ok (JobM.exec_job t)]
  by_cases hnum : t.job.fileNum = r.fileNum
  · have hunion := h.resolve_left (not_not_intro hnum)
    simp only [hnum, ne_eq, not_true_eq_false, if_false]
    match hr : r.union with
    | none => rfl
    | some (.skip true) => rfl
    | some (.skip false) => rfl
    | some (.offsetBlk offset) =>
        simp only [if_neg (hunion offset hr)]
        rfl
  · simp only [ne_eq, hnum, not_false_eq_true, if_true]
    rfl

theorem confirm_panicked_iff (r : FileTransferSendConfirmRequest) :
    ((confirm fs r).exec t).1 = .error .panicked ↔ confirmPanics t.job r = true := by
  by_cases hnum : t.job.fileNum = r.fileNum
  · match hunion : r.union with
    | none =>
        rw [confirm_ok (.inr (by simp [hunion]))]
        simp [confirmPanics, hunion]
    | some (.skip skip) =>
        rw [confirm_ok (.inr (by simp [hunion]))]
        simp [confirmPanics, hunion]
    | some (.offsetBlk offset) =>
        by_cases hoffset : offset > 0
        · rw [exec_confirm_offset hnum hunion hoffset]
          cases hsource : t.job.dataSource with
          | filePath base =>
              refine (setStreamOffset_panicked_iff (t := { t with job := t.job.confirmed }) hsource _ _).trans ?_
              simp [confirmPanics, confirmed, hnum, hunion, hsource, hoffset]
          | memoryCursor c =>
              simp [setStreamOffset, Effect.exec_bind, confirmed, hsource, confirmPanics, hunion]
        · rw [confirm_ok (.inr (by simpa [hunion] using hoffset))]
          have hzero : ¬ 0 < offset := hoffset
          have hfalse : confirmPanics t.job r = false := by
            cases hsource : t.job.dataSource <;> simp [confirmPanics, hunion, hsource, hzero]
          simp [hfalse]
  · rw [confirm_ok (.inl hnum)]
    simp [confirmPanics, hnum]

/-! ## Runs -/

/-- How a job is made. `new_read` lists the files of a path. -/
inductive Creation
  | newRead (id : Int) (type : JobType) (dataSource : DataSource) (fileNum : Int)
      (enableOverwriteDetection : Bool) (listed : List FileEntry)
  | newWrite (id : Int) (type : JobType) (dataSource : DataSource) (fileNum : Int)
      (enableOverwriteDetection : Bool)

/-- The fields that `new_read` and `new_write` fill in alike. -/
def newJob (id : Int) (type : JobType) (dataSource : DataSource) (fileNum : Int)
    (enableOverwriteDetection : Bool) (files : List FileEntry) : TransferJob φ :=
  { id, type, dataSource, isLastJob := false, isResume := false, fileNum, files, dataStream := none
    enableOverwriteDetection, fileConfirmed := false, fileSkipped := false, fileIsWaiting := false
    digest := { size := 0, modified := 0 } }

def Creation.job : Creation → TransferJob φ
  | .newRead id type (.filePath path) fileNum detect listed =>
      newJob id type (.filePath path) fileNum detect listed
  | .newRead id type (.memoryCursor c) fileNum detect _ =>
      newJob id type (.memoryCursor c) fileNum detect []
  | .newWrite id type dataSource fileNum detect => newJob id type dataSource fileNum detect []

inductive JobCall (σ : Type)
  | setFiles (files : List FileEntry)
  | openDataStream
  | read
  | write (block : FileTransferBlock)
  | setFileSkipped
  | confirm (r : FileTransferSendConfirmRequest)
  /-- the files change -/
  | environment (fs : σ)

/-- The job of a run, and whether a `confirm` of it has panicked. -/
structure JobRun (σ φ : Type) where
  state : JobState σ φ
  confirmPanicked : Bool

/-- A call of the job, whose result goes to its caller. -/
def JobRun.call {α : Type} (s : JobRun σ φ) (x : JobM σ φ α) : JobRun σ φ :=
  { s with state := (x.exec s.state).2 }

def JobRun.step (libs : Libs) (fs : FileSys σ φ) (s : JobRun σ φ) : JobCall σ → JobRun σ φ
  | .setFiles files => s.call (setFiles fs files)
  | .openDataStream => s.call (openDataStream fs)
  | .read => s.call (read libs fs)
  | .write block => s.call (write libs fs block)
  | .setFileSkipped => s.call (setFileSkipped : JobM σ φ Unit)
  | .confirm r =>
      { s.call (confirm fs r) with
        confirmPanicked := s.confirmPanicked ||
          ((confirm fs r).exec s.state).1 == .error .panicked }
  | .environment changed => { s with state := { s.state with fs := changed } }

def jobSystem (libs : Libs) (fs : FileSys σ φ) (start : Creation) (files : σ) :
    TSys (JobRun σ φ) (JobCall σ) where
  init := { state := { job := start.job, fs := files, sent := [] }, confirmPanicked := false }
  step s call := some (s.step libs fs call)

/-- The call is not a confirmation with an offset behind the last file. -/
def Confirmable (s : JobRun σ φ) : JobCall σ → Prop
  | .confirm r => confirmPanics s.state.job r = false
  | _ => True

theorem confirmPanicked_step (libs : Libs) {s : JobRun σ φ} (hs : s.confirmPanicked = false)
    (call : JobCall σ) :
    (s.step libs fs call).confirmPanicked = false ↔ Confirmable s call := by
  cases call with
  | confirm r =>
      have hiff : ((confirm fs r).exec s.state).1 = .error .panicked ↔ _ := confirm_panicked_iff r
      simp only [JobRun.step, hs, Bool.false_or, Confirmable]
      rw [beq_eq_false_iff_ne, ne_eq, hiff, Bool.not_eq_true]
  | _ => exact iff_of_true hs trivial

/-- No confirmation of a run panics exactly when none of them gives an offset for the number
of a job that has a path but no file of that number. -/
theorem confirmations_ok_iff (libs : Libs) (fs : FileSys σ φ) (start : Creation) (files : σ)
    (calls : List (JobCall σ)) :
    (jobSystem libs fs start files).Follows Confirmable (jobSystem libs fs start files).init calls ↔
      ∀ before s, before <+: calls → (jobSystem libs fs start files).run before = some s →
        s.confirmPanicked = false := by
  refine TSys.follows_iff (I := fun s : JobRun σ φ => s.confirmPanicked = false) ?_ ?_ rfl calls
  · intro s call
    exact ⟨s.step libs fs call, rfl⟩
  · intro s call t hs hstep
    cases hstep
    exact confirmPanicked_step libs hs call

/-- The peer of a read job of one file confirms the number behind it, after the last block and
before the job is removed. -/
def confirmBehindLast : List (JobCall Disk) :=
  [.openDataStream, .read, .confirm { fileNum := 1, union := some (.offsetBlk 1) }]

theorem confirm_behind_last_panics :
    ¬ ∀ (start : Creation) (files : Disk) (calls : List (JobCall Disk)) (s : JobRun Disk Handle),
      (jobSystem ReadJobs.copyLibs Disk.fileSys start files).run calls = some s →
        s.confirmPanicked = false := by
  intro h
  have hpanic := h (.newRead 1 .generic (.filePath []) 0 false [{ name := "a", modifiedTime := 0 }])
    (ReadJobs.diskOf ["a"]) confirmBehindLast _ rfl
  revert hpanic
  decide +kernel

end TransferJob

end HbbCommon.Files
