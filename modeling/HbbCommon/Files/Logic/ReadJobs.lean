import HbbCommon.Files.Disk
import HbbCommon.Files.ReadJobs
import HbbCommon.Files.Logic.Steps

/-!
# A read job ends when its files are dealt with

A job moves on by one file when it sent the end of the file or an error, or when the peer
skips the file. So every file behind it is accounted for, and `Done` is right as long as a job
is not taken for completed because its current file could not be asked about.
-/

namespace HbbCommon.Files

open HbbCommon.Base

variable {σ φ : Type}

/-- The block that ends a file. -/
def endOfFile (id fileNum : Int) : FileResponse :=
  .block { id := id, fileNum := fileNum, data := [], compressed := false }

/-- The file was read to its end, or skipped, or an error was sent for it. The error has the
number of the file behind. -/
def ReadJob.DealtWith (sent : List FileResponse) (r : ReadJob φ) (i : Int) : Prop :=
  endOfFile r.job.id i ∈ sent ∨ i ∈ r.skipped ∨ ∃ error, .error r.job.id error (i + 1) ∈ sent

/-- The files that the job has behind it are dealt with. -/
structure ReadJob.Accounted (sent : List FileResponse) (r : ReadJob φ) : Prop where
  nonneg : 0 ≤ r.start
  started : r.start ≤ r.job.fileNum
  dealt : ∀ i, r.start ≤ i → i < r.job.fileNum → r.DealtWith sent i

/-- The files of the job are on the disk. -/
def DataSource.isFiles : DataSource → Bool
  | .filePath _ => true
  | .memoryCursor _ => false

/-- What no call on a job changes. -/
def TransferJob.fixed (job : TransferJob φ) : Int × JobType × Bool × Bool × Bool :=
  (job.id, job.type, job.isLastJob, job.enableOverwriteDetection, job.dataSource.isFiles)

/-- The job stays at its file, or the file was read to its end or given up with an error. -/
structure Moves (t t' : JobState σ φ) : Prop where
  fixed : t'.job.fixed = t.job.fixed
  sent : t.sent ⊆ t'.sent
  fileNum : t'.job.fileNum = t.job.fileNum ∨
    t'.job.fileNum = t.job.fileNum + 1 ∧ (endOfFile t.job.id t.job.fileNum ∈ t'.sent ∨
      ∃ error, .error t.job.id error (t.job.fileNum + 1) ∈ t'.sent)

/-! ## One job -/

namespace Moves

variable {t t' : JobState σ φ}

theorem refl (t : JobState σ φ) : Moves t t :=
  ⟨rfl, List.Subset.refl _, .inl rfl⟩

theorem id (h : Moves t t') : t'.job.id = t.job.id := congrArg (·.1) h.fixed

/-- A job that is at the same file. -/
theorem stay (h : Moves t t') (job : TransferJob φ) (hfixed : job.fixed = t'.job.fixed)
    (hnum : job.fileNum = t'.job.fileNum) (u : σ) : Moves t { t' with job := job, fs := u } where
  fixed := hfixed.trans h.fixed
  sent := h.sent
  fileNum := by
    show job.fileNum = _ ∨ job.fileNum = _ ∧ _
    rw [hnum]
    exact h.fileNum

theorem send (h : Moves t t') (response : FileResponse) :
    Moves t { t' with sent := t'.sent ++ [response] } where
  fixed := h.fixed
  sent := List.Subset.trans h.sent (List.subset_append_left _ _)
  fileNum := by
    refine h.fileNum.imp_right (And.imp_right ?_)
    rintro (hend | ⟨error, herror⟩)
    · exact .inl (List.mem_append_left _ hend)
    · exact .inr ⟨error, List.mem_append_left _ herror⟩

/-- The next file is the current one when the end of the file or an error is sent. -/
theorem advance (job : TransferJob φ) (hfixed : job.fixed = t.job.fixed)
    (hnum : job.fileNum = t.job.fileNum + 1) (u : σ) {response : FileResponse}
    (hresponse : response = endOfFile t.job.id t.job.fileNum ∨
      ∃ error, response = .error t.job.id error (t.job.fileNum + 1)) :
    Moves t { job := job, fs := u, sent := t.sent ++ [response] } where
  fixed := hfixed
  sent := List.subset_append_left _ _
  fileNum := by
    refine .inr ⟨hnum, ?_⟩
    rcases hresponse with rfl | ⟨error, rfl⟩
    · exact .inl (List.mem_append_right _ (List.mem_singleton_self _))
    · exact .inr ⟨error, List.mem_append_right _ (List.mem_singleton_self _)⟩

end Moves

namespace ReadJob.Accounted

variable {sent sent' : List FileResponse} {r : ReadJob φ}

theorem mono (h : r.Accounted sent) (hsub : sent ⊆ sent') : r.Accounted sent' where
  nonneg := h.nonneg
  started := h.started
  dealt i hstart hi := by
    rcases h.dealt i hstart hi with hend | hskip | ⟨error, herror⟩
    · exact .inl (hsub hend)
    · exact .inr (.inl hskip)
    · exact .inr (.inr ⟨error, hsub herror⟩)

theorem moves {t t' : JobState σ φ} {start : Int} {skipped : List Int}
    (h : ReadJob.Accounted t.sent { job := t.job, start := start, skipped := skipped })
    (hm : Moves t t') :
    ReadJob.Accounted t'.sent { job := t'.job, start := start, skipped := skipped } := by
  have hold := h.mono hm.sent
  have hstarted : start ≤ t.job.fileNum := h.started
  refine ⟨h.nonneg, ?_, fun i hstart hi => ?_⟩
  · show start ≤ t'.job.fileNum
    rcases hm.fileNum with heq | ⟨heq, -⟩ <;> omega
  · show endOfFile t'.job.id i ∈ t'.sent ∨ _
    rw [hm.id]
    have hi : i < t'.job.fileNum := hi
    by_cases hbefore : i < t.job.fileNum
    · have := hold.dealt i hstart hbefore
      rwa [ReadJob.DealtWith] at this
    · rcases hm.fileNum with heq | ⟨heq, hdone⟩
      · omega
      · obtain rfl : i = t.job.fileNum := by omega
        rcases hdone with hend | herror
        · exact .inl hend
        · exact .inr (.inr herror)

/-- The peer skips the file, or leaves the job at it. -/
theorem skip (h : r.Accounted sent) {job : TransferJob φ} (hid : job.id = r.job.id)
    (hnum : job.fileNum = r.job.fileNum ∨ job.fileNum = r.job.fileNum + 1) :
    ReadJob.Accounted sent { r with
      job := job
      skipped := if job.fileNum = r.job.fileNum then r.skipped
        else r.skipped ++ [r.job.fileNum] } where
  nonneg := h.nonneg
  started := by
    have := h.started
    show r.start ≤ job.fileNum
    omega
  dealt i hstart hi := by
    have hi : i < job.fileNum := hi
    show endOfFile job.id i ∈ sent ∨ _
    rw [hid]
    by_cases hbefore : i < r.job.fileNum
    · rcases h.dealt i hstart hbefore with hend | hskip | herror
      · exact .inl hend
      · refine .inr (.inl ?_)
        dsimp only
        split
        · exact hskip
        · exact List.mem_append_left _ hskip
      · exact .inr (.inr (hid.symm ▸ herror))
    · obtain rfl : i = r.job.fileNum := by omega
      refine .inr (.inl ?_)
      rw [if_neg (by omega)]
      exact List.mem_append_right _ (List.mem_singleton_self _)

end ReadJob.Accounted

/-! ## Opening the file of a job -/

/-- What `init_data_stream` does when the file is open. -/
def ask (fs : FileSys σ φ) : JobM σ φ Unit := do
  if (← JobM.job).needsDigest then do
    TransferJob.sendCurrentDigest fs
    TransferJob.setFileIsWaiting true
  else return ()

variable {fs : FileSys σ φ} {t t' : JobState σ φ}

theorem initDataStream_of_open (h : (TransferJob.openDataStream fs).exec t = (.ok false, t')) :
    (TransferJob.initDataStream fs).exec t = (ask fs).exec t' := by
  rw [TransferJob.initDataStream, Effect.exec_bind_ok h]
  rfl

/-- The digest of an open file can be had. -/
def hasDigest (fs : FileSys σ φ) (stream : DataStream φ) (s : σ) : Bool :=
  match stream with
  | .fileStream file => ((fs.fileMetadata file).exec s).1.isOk
  | .bufStream _ => false

/-- The digest of the file that is open is read and sent, or it cannot be had. -/
theorem sendCurrentDigest_cases (fs : FileSys σ φ) (t : JobState σ φ) :
    ((∀ stream, t.job.dataStream = some stream → hasDigest fs stream t.fs = false) ∧
      ∃ error u, (TransferJob.sendCurrentDigest fs).exec t = (.error error, { t with fs := u })) ∨
    ∃ digest u, (TransferJob.sendCurrentDigest fs).exec t =
      (.ok (), { t with fs := u, sent := t.sent ++ [.digest digest] }) := by
  simp only [TransferJob.sendCurrentDigest, TransferJob.getCurrentDigest, Effect.exec_bind,
    JobM.exec_job]
  match hstream : t.job.dataStream with
  | none => exact .inl ⟨fun stream h => by (cases h), _, t.fs, rfl⟩
  | some (.bufStream c) =>
      refine .inl ⟨fun stream h => ?_, _, t.fs, rfl⟩
      cases h
      rfl
  | some (.fileStream file) =>
      rw [JobM.exec_fs]
      match hmetadata : (fs.fileMetadata file).exec t.fs with
      | (.error error, u) =>
          refine .inl ⟨fun stream h => ?_, _, u, rfl⟩
          cases h
          rw [hasDigest, hmetadata]
          rfl
      | (.ok metadata, u) => exact .inr ⟨_, u, rfl⟩

theorem ask_cases (fs : FileSys σ φ) (t : JobState σ φ) :
    (t.job.needsDigest = false ∧ (ask fs).exec t = (.ok (), t)) ∨
    (t.job.needsDigest = true ∧
      (∀ stream, t.job.dataStream = some stream → hasDigest fs stream t.fs = false) ∧
      ∃ error u, (ask fs).exec t = (.error error, { t with fs := u })) ∨
    ∃ digest u, (ask fs).exec t = (.ok (), { t with
      job := { t.job with fileIsWaiting := true }, fs := u, sent := t.sent ++ [.digest digest] }) := by
  cases hneeds : t.job.needsDigest with
  | false =>
      refine .inl ⟨rfl, ?_⟩
      simp [ask, Effect.exec_bind, hneeds]
  | true =>
      rcases sendCurrentDigest_cases fs t with ⟨hno, error, u, h⟩ | ⟨digest, u, h⟩
      · refine .inr (.inl ⟨rfl, hno, error, u, ?_⟩)
        simp [ask, Effect.exec_bind, hneeds, h]
      · refine .inr (.inr ⟨digest, u, ?_⟩)
        simp [ask, Effect.exec_bind, hneeds, h, TransferJob.setFileIsWaiting]

/-- The job is at its file behind the opening, or the opening failed and it is at the next. -/
theorem openDataStream_moves (fs : FileSys σ φ) (t : JobState σ φ) :
    (∃ isDone t', (TransferJob.openDataStream fs).exec t = (.ok isDone, t') ∧ Moves t t') ∨
    ∃ error t', (TransferJob.openDataStream fs).exec t = (.error error, t') ∧
      Moves t (sendError t' error) := by
  match hsource : t.job.dataSource, hentry : t.job.currentEntry, hstream : t.job.dataStream with
  | .filePath base, none, _ =>
      exact .inl ⟨_, _, TransferJob.openDataStream_done hsource hentry,
        (Moves.refl t).stay { t.job with dataStream := none } rfl rfl t.fs⟩
  | .filePath base, some entry, some stream =>
      exact .inl ⟨_, _, TransferJob.openDataStream_open hsource hentry hstream, Moves.refl t⟩
  | .filePath base, some entry, none =>
      match hopen : (fs.openFile (joinName base entry.name)).exec t.fs with
      | (.ok file, u) =>
          exact .inl ⟨_, _, TransferJob.openDataStream_ok hsource hentry hstream hopen,
            (Moves.refl t).stay (t.job.opened file) rfl rfl u⟩
      | (.error error, u) =>
          exact .inr ⟨_, _, TransferJob.openDataStream_error hsource hentry hstream hopen,
            Moves.advance t.job.advance rfl rfl u (.inr ⟨_, rfl⟩)⟩
  | .memoryCursor c, _, none =>
      refine .inl ⟨false, _, ?_, (Moves.refl t).stay { t.job with
        dataSource := .memoryCursor { bytes := [], pos := 0 }, dataStream := some (.bufStream c) }
        (by simp [TransferJob.fixed, DataSource.isFiles, hsource]) rfl t.fs⟩
      simp [TransferJob.openDataStream, Effect.exec_bind, hsource, hstream, Except.map]
  | .memoryCursor c, _, some stream =>
      refine .inl ⟨false, t, ?_, Moves.refl t⟩
      simp [TransferJob.openDataStream, Effect.exec_bind, hsource, hstream]

theorem initJob_moves (fs : FileSys σ φ) (t : JobState σ φ) : Moves t (initJob fs t) := by
  rcases openDataStream_moves fs t with ⟨_ | _, t', hopen, hmoves⟩ | ⟨error, t', hopen, hmoves⟩
  · rw [initJob, initDataStream_of_open hopen]
    rcases ask_cases fs t' with ⟨-, h⟩ | ⟨-, -, error, u, h⟩ | ⟨digest, u, h⟩
    all_goals rw [h]
    · exact hmoves
    · exact (hmoves.stay t'.job rfl rfl u).send _
    · exact (hmoves.send (.digest digest)).stay { t'.job with fileIsWaiting := true }
        rfl rfl u
  · rw [initJob, TransferJob.initDataStream, Effect.exec_bind_ok hopen]
    exact hmoves
  · rw [initJob, TransferJob.initDataStream, Effect.exec_bind_error hopen]
    exact hmoves

/-! ## Reading a block -/

/-- What `handle_read_jobs` makes of what was read. -/
def sendRead : Except JobError (Option FileTransferBlock) × JobState σ φ → JobState σ φ
  | (.error error, t) => sendError t error
  | (.ok (some block), t) => { t with sent := t.sent ++ [.block block] }
  | (.ok none, t) => t

theorem read_moves (libs : Libs) (fs : FileSys σ φ) (t : JobState σ φ) :
    Moves t (sendRead ((TransferJob.read libs fs).exec t)) := by
  by_cases hread : t.job.type = .generic ∧ t.job.enableOverwriteDetection = true ∧
    ¬ t.job.fileConfirmed = true
  · rw [TransferJob.read_unconfirmed hread]
    exact Moves.refl t
  match hsource : t.job.dataSource, hentry : t.job.currentEntry, hstream : t.job.dataStream with
  | .filePath base, none, _ =>
      rw [TransferJob.read_done hread hsource hentry]
      exact (Moves.refl t).stay { t.job with dataStream := none } rfl rfl t.fs
  | .filePath base, some entry, none =>
      rw [TransferJob.read_noStream hread hsource hentry hstream]
      exact (Moves.refl t).send _
  | .filePath base, some entry, some stream =>
      match hfill : TransferJob.fill fs bufSize stream t.fs with
      | (.error error, u) =>
          rw [TransferJob.read_error hread hsource hentry hstream hfill]
          exact Moves.advance t.job.leave rfl rfl u (.inr ⟨_, rfl⟩)
      | (.ok (data, stream'), u) =>
          rw [TransferJob.read_ok hread hsource hentry hstream hfill]
          by_cases hdata : data = []
          · simp only [if_pos hdata, sendRead]
            refine Moves.advance t.job.leave rfl rfl u (.inl ?_)
            simp [endOfFile, TransferJob.fileBlock, hdata]
          · simp only [if_neg hdata, sendRead]
            exact ((Moves.refl t).stay { t.job with dataStream := some stream' }
              rfl rfl u).send _
  | .memoryCursor c, _, none =>
      have h : (TransferJob.read libs fs).exec t = (.error (.message "data stream is None"), t) := by
        simp only [TransferJob.read, Effect.exec_bind, JobM.exec_job, if_neg hread, hsource, hstream]
        rfl
      rw [h]
      exact (Moves.refl t).send _
  | .memoryCursor c, _, some stream =>
      simp only [TransferJob.read, Effect.exec_bind, JobM.exec_job, if_neg hread, hsource, hstream,
        JobM.exec_tryFs, Effect.exec_ofFun]
      rcases TransferJob.fill fs bufSize stream t.fs with ⟨error | ⟨data, stream'⟩, u⟩
      · exact Moves.advance t.job.leave rfl rfl u (.inr ⟨_, rfl⟩)
      · by_cases hdata : data = []
        · simp only [if_pos hdata]
          exact (Moves.refl t).stay { t.job with dataStream := none } rfl rfl u
        · simp only [if_neg hdata]
          exact ((Moves.refl t).stay { t.job with dataStream := some stream' }
            rfl rfl u).send _

theorem readJob_moves (libs : Libs) (fs : FileSys σ φ) (t : JobState σ φ) :
    Moves t (readJob libs fs t).1 := by
  have hmoves := read_moves libs fs t
  unfold readJob
  generalize (TransferJob.read libs fs).exec t = outcome at hmoves ⊢
  match outcome with
  | (.error error, t') => exact hmoves
  | (.ok (some block), t') => exact hmoves
  | (.ok none, t') =>
      have hmoves : Moves t t' := hmoves
      dsimp only
      split
      · split
        · exact hmoves.send _
        · exact hmoves.send _
      · exact hmoves

/-! ## When a job is done -/

/-- The job has no file to ask about, or it is asked about. -/
def TransferJob.IsReady (job : TransferJob φ) : Prop :=
  job.currentEntry = none ∨ job.needsDigest = false

/-- A job that asks about its files has the current one open, or it can open it, and has its
digest; one that cannot be opened is the last of the list. -/
def canAsk (fs : FileSys σ φ) (job : TransferJob φ) (s : σ) : Bool :=
  match job.dataSource, job.currentEntry with
  | .filePath base, some entry =>
      if job.type = .generic ∧ job.enableOverwriteDetection = true then
        match job.dataStream with
        | some stream => !job.needsDigest || hasDigest fs stream s
        | none =>
            match (fs.openFile (joinName base entry.name)).exec s with
            | (.ok file, s) => hasDigest fs (.fileStream file) s
            | (.error _, _) => job.advance.currentEntry.isNone
      else true
  | _, _ => true

theorem ask_isReady (fs : FileSys σ φ) (t : JobState σ φ) (hopen : t.job.dataStream.isSome = true) (h : t.job.needsDigest = true →
    ∀ stream, t.job.dataStream = some stream → hasDigest fs stream t.fs = true) :
    ∃ t', (ask fs).exec t = (.ok (), t') ∧ t'.job.IsReady := by
  rcases ask_cases fs t with ⟨hneeds, hask⟩ | ⟨hneeds, hno, -⟩ | ⟨digest, u, hask⟩
  · exact ⟨t, hask, .inr hneeds⟩
  · obtain ⟨stream, hstream⟩ := Option.isSome_iff_exists.mp hopen
    exact absurd (h hneeds stream hstream) (Bool.eq_false_iff.mp (hno stream hstream))
  · exact ⟨_, hask, .inr (by simp [TransferJob.needsDigest])⟩

/-- A job that can ask is ready behind `init_jobs`. -/
theorem initJob_isReady {base : Path} (hsource : t.job.dataSource = .filePath base)
    (hask : canAsk fs t.job t.fs = true) : (initJob fs t).job.IsReady := by
  by_cases hasks : t.job.type = .generic ∧ t.job.enableOverwriteDetection = true
  · cases hentry : t.job.currentEntry with
    | none =>
        rw [initJob, TransferJob.initDataStream,
          Effect.exec_bind_ok (TransferJob.openDataStream_done hsource hentry)]
        exact .inl hentry
    | some entry =>
        simp only [canAsk, hsource, hentry, if_pos hasks] at hask
        cases hstream : t.job.dataStream with
        | some stream =>
            rw [hstream] at hask
            obtain ⟨t', hrun, hready⟩ := ask_isReady fs t (by rw [hstream]; rfl)
              (fun hneeds stream' h => by
                rw [hstream] at h
                cases h
                simpa [hneeds] using hask)
            rw [initJob, initDataStream_of_open
              (TransferJob.openDataStream_open hsource hentry hstream), hrun]
            exact hready
        | none =>
            rw [hstream] at hask
            match hopen : (fs.openFile (joinName base entry.name)).exec t.fs with
            | (.ok file, u) =>
                rw [hopen] at hask
                obtain ⟨t', hrun, hready⟩ := ask_isReady fs
                  { t with job := t.job.opened file, fs := u } rfl
                  (fun _ stream' h => by
                    cases h
                    exact hask)
                rw [initJob, initDataStream_of_open
                  (TransferJob.openDataStream_ok hsource hentry hstream hopen), hrun]
                exact hready
            | (.error error, u) =>
                rw [hopen] at hask
                rw [initJob, TransferJob.initDataStream, Effect.exec_bind_error
                  (TransferJob.openDataStream_error hsource hentry hstream hopen)]
                exact .inl (Option.isNone_iff_eq_none.mp hask)
  · have hfixed := (initJob_moves fs t).fixed
    simp only [TransferJob.fixed, Prod.mk.injEq] at hfixed
    refine .inr ?_
    rw [TransferJob.needsDigest, hfixed.2.1, hfixed.2.2.2.1]
    rcases not_and_or.mp hasks with h | h <;> simp [h]

/-- A job that was ready is done when it has no file left. -/
theorem readJob_done {libs : Libs} {base : Path} (hsource : t.job.dataSource = .filePath base)
    (hready : t.job.IsReady) (h : (readJob libs fs t).2 = .done) :
    (readJob libs fs t).1.job.currentEntry = none := by
  by_cases hread : t.job.type = .generic ∧ t.job.enableOverwriteDetection = true ∧
    ¬ t.job.fileConfirmed = true
  · have hentry : t.job.jobCompleted = true → t.job.currentEntry = none := by
      intro hcompleted
      refine hready.resolve_right (fun hneeds => ?_)
      simp_all [TransferJob.needsDigest, TransferJob.jobCompleted]
    simp only [readJob, TransferJob.read_unconfirmed hread] at h ⊢
    split at h
    · rename_i hcompleted
      rw [if_pos hcompleted]
      split <;> exact hentry hcompleted
    · cases h
  match hentry : t.job.currentEntry, hstream : t.job.dataStream with
  | none, _ =>
      simp only [readJob, TransferJob.read_done hread hsource hentry]
      split
      · split <;> exact hentry
      · exact hentry
  | some entry, none =>
      simp only [readJob, TransferJob.read_noStream hread hsource hentry hstream] at h
      cases h
  | some entry, some stream =>
      match hfill : TransferJob.fill fs bufSize stream t.fs with
      | (.error error, u) =>
          simp only [readJob, TransferJob.read_error hread hsource hentry hstream hfill] at h
          cases h
      | (.ok (data, stream'), u) =>
          simp only [readJob, TransferJob.read_ok hread hsource hentry hstream hfill] at h
          cases h

/-! ## The list of jobs -/

/-- A job that was sent `Done`: a job of files has none left. -/
structure ReadJob.Ended (sent : List FileResponse) (r : ReadJob φ) : Prop where
  accounted : r.Accounted sent
  past : r.job.dataSource.isFiles = true → (r.job.files.length : Int) ≤ r.job.fileNum

/-- The jobs and the ended jobs, against what was sent. -/
structure ReadJobs.Sound (s : ReadJobs σ φ) : Prop where
  jobs : ∀ r ∈ s.jobs, r.Accounted s.sent
  finished : ∀ r ∈ s.finished, r.Ended s.sent

theorem DataSource.isFiles_iff {source : DataSource} :
    source.isFiles = true ↔ ∃ base, source = .filePath base := by
  cases source <;> simp [isFiles]

theorem asUsize_le {n : Int} (h : 0 ≤ n) : (asUsize n : Int) ≤ n := by
  unfold asUsize
  omega

theorem TransferJob.length_le_of_currentEntry {job : TransferJob φ} (h : job.currentEntry = none)
    (hnum : 0 ≤ job.fileNum) : (job.files.length : Int) ≤ job.fileNum := by
  have hlen := List.getElem?_eq_none_iff.mp h
  have := asUsize_le hnum
  omega

/-- The first job that is not kept from the last session. -/
def firstJob (jobs : List (ReadJob φ)) : Option (ReadJob φ) :=
  jobs.find? (fun r => !r.job.isLastJob)

variable {libs : Libs}

theorem initJobs_sound (fs : FileSys σ φ) (jobs : List (ReadJob φ)) (s : ReadJobs σ φ)
    (h : ∀ r ∈ jobs, r.Accounted s.sent) :
    (∀ r ∈ (initJobs fs s jobs).jobs, r.Accounted (initJobs fs s jobs).sent) ∧
      s.sent ⊆ (initJobs fs s jobs).sent ∧ (initJobs fs s jobs).finished = s.finished := by
  induction jobs generalizing s with
  | nil => exact ⟨fun _ hr => by (cases hr), List.Subset.refl _, rfl⟩
  | cons r jobs ih =>
      obtain ⟨hr, hjobs⟩ := List.forall_mem_cons.mp h
      rw [initJobs]
      split
      · obtain ⟨hall, hsub, hfin⟩ := ih s hjobs
        exact ⟨List.forall_mem_cons.mpr ⟨hr.mono hsub, hall⟩, hsub, hfin⟩
      · have hmoves := initJob_moves fs (s.at_ r.job)
        have hr' := ReadJob.Accounted.moves hr hmoves
        obtain ⟨hall, hsub, hfin⟩ := ih (s.after (initJob fs (s.at_ r.job)))
          (fun r' hr' => (hjobs r' hr').mono hmoves.sent)
        exact ⟨List.forall_mem_cons.mpr ⟨hr'.mono hsub, hall⟩,
          List.Subset.trans hmoves.sent hsub, hfin⟩

/-- When the first job can ask, it is ready behind `init_jobs`. -/
theorem initJobs_firstJob (jobs : List (ReadJob φ)) (s : ReadJobs σ φ)
    (hask : ∀ r, firstJob jobs = some r → canAsk fs r.job s.fs = true) :
    ∀ r, firstJob (initJobs fs s jobs).jobs = some r → r.job.dataSource.isFiles = true →
      r.job.IsReady := by
  induction jobs with
  | nil => exact fun r hr => by cases hr
  | cons r jobs ih =>
      rw [initJobs]
      split
      · rename_i hlast
        have hskip : ∀ jobs : List (ReadJob φ), firstJob (r :: jobs) = firstJob jobs :=
          fun jobs => List.find?_cons_of_neg (by simp [hlast])
        dsimp only
        rw [hskip] at hask ⊢
        exact ih hask
      · rename_i hlast
        have hmoves := initJob_moves fs (s.at_ r.job)
        have hfixed := hmoves.fixed
        simp only [TransferJob.fixed, Prod.mk.injEq] at hfixed
        have hfirst : firstJob (r :: jobs) = some r := List.find?_cons_of_pos (by simp [hlast])
        intro r' hr' hfiles
        have heq : r' = { r with job := (initJob fs (s.at_ r.job)).job } := by
          have hlast' : (initJob fs (s.at_ r.job)).job.isLastJob = false :=
            hfixed.2.2.1.trans (Bool.not_eq_true _ ▸ hlast)
          have hfirst' : firstJob ({ r with job := (initJob fs (s.at_ r.job)).job } ::
              (initJobs fs (s.after (initJob fs (s.at_ r.job))) jobs).jobs) =
                some { r with job := (initJob fs (s.at_ r.job)).job } :=
            List.find?_cons_of_pos (by rw [hlast']; rfl)
          exact Option.some.inj (hr'.symm.trans hfirst')
        subst heq
        have hbase : r.job.dataSource.isFiles = true := hfixed.2.2.2.2.symm.trans hfiles
        obtain ⟨base, hbase⟩ := DataSource.isFiles_iff.mp hbase
        exact initJob_isReady hbase (hask r hfirst)

theorem ReadJob.Ended.mono {sent sent' : List FileResponse} {r : ReadJob φ} (h : r.Ended sent)
    (hsub : sent ⊆ sent') : r.Ended sent' :=
  ⟨h.accounted.mono hsub, h.past⟩

/-- The job that is done is one without files left. -/
theorem readJob_ended {s : ReadJobs σ φ} {r : ReadJob φ} {t : JobState σ φ}
    (hready : r.job.dataSource.isFiles = true → r.job.IsReady)
    (hrun : readJob libs fs (s.at_ r.job) = (t, .done)) (hmoves : Moves (s.at_ r.job) t)
    (hr : ReadJob.Accounted t.sent { r with job := t.job }) :
    ReadJob.Ended t.sent { r with job := t.job } := by
  refine ⟨hr, fun hfiles => ?_⟩
  have hfixed := hmoves.fixed
  simp only [TransferJob.fixed, Prod.mk.injEq] at hfixed
  have hbefore : r.job.dataSource.isFiles = true := hfixed.2.2.2.2.symm.trans hfiles
  obtain ⟨base, hbase⟩ := DataSource.isFiles_iff.mp hbefore
  have hentry : (readJob libs fs (s.at_ r.job)).1.job.currentEntry = none :=
    readJob_done hbase (hready hbefore) (by rw [hrun])
  rw [hrun] at hentry
  have hnum : 0 ≤ t.job.fileNum := le_trans hr.nonneg hr.started
  exact TransferJob.length_le_of_currentEntry hentry hnum

theorem readFirst_sound (jobs : List (ReadJob φ)) (s : ReadJobs σ φ)
    (h : ∀ r ∈ jobs, r.Accounted s.sent) (hfin : ∀ r ∈ s.finished, r.Ended s.sent)
    (hready : ∀ r, firstJob jobs = some r → r.job.dataSource.isFiles = true → r.job.IsReady) :
    (readFirst libs fs s jobs).1.Sound ∧ s.sent ⊆ (readFirst libs fs s jobs).1.sent := by
  induction jobs with
  | nil => exact ⟨⟨fun _ hr => by (cases hr), hfin⟩, List.Subset.refl _⟩
  | cons r jobs ih =>
      obtain ⟨hr, hjobs⟩ := List.forall_mem_cons.mp h
      rw [readFirst]
      split
      · rename_i hlast
        have hskip : firstJob (r :: jobs) = firstJob jobs :=
          List.find?_cons_of_neg (by simp [hlast])
        obtain ⟨hrest, hsub⟩ := ih hjobs (hskip ▸ hready)
        exact ⟨⟨List.forall_mem_cons.mpr ⟨hr.mono hsub, hrest.jobs⟩, hrest.finished⟩, hsub⟩
      · rename_i hlast
        have hfirst : firstJob (r :: jobs) = some r := List.find?_cons_of_pos (by simp [hlast])
        have hmoves := readJob_moves libs fs (s.at_ r.job)
        obtain ⟨⟨t, outcome⟩, hrun⟩ :
            ∃ outcome, readJob libs fs (s.at_ r.job) = outcome := ⟨_, rfl⟩
        rw [hrun] at hmoves ⊢
        have hmoves : Moves (s.at_ r.job) t := hmoves
        have hr' : ReadJob.Accounted t.sent { r with job := t.job } :=
          ReadJob.Accounted.moves hr hmoves
        have hall : ∀ r' ∈ { r with job := t.job } :: jobs, r'.Accounted t.sent :=
          List.forall_mem_cons.mpr ⟨hr', fun r' hr' => (hjobs r' hr').mono hmoves.sent⟩
        have hfin' : ∀ r' ∈ s.finished, r'.Ended t.sent :=
          fun r' hr' => (hfin r' hr').mono hmoves.sent
        cases outcome with
        | goesOn => exact ⟨⟨hall, hfin'⟩, hmoves.sent⟩
        | skipped => exact ⟨⟨hall, hfin'⟩, hmoves.sent⟩
        | done =>
            refine ⟨⟨hall, fun r' hr'' => ?_⟩, hmoves.sent⟩
            rcases List.mem_append.mp hr'' with hold | hnew
            · exact hfin' r' hold
            · rw [List.mem_singleton.mp hnew]
              exact readJob_ended (hready r hfirst) hrun hmoves hr'

/-! ## Requests of the peer -/

/-- A call that leaves the job at its file or skips the file, and sends nothing. -/
def SkipsAtMost (call : JobM σ φ Unit) : Prop :=
  ∀ t t', call.exec t = (.ok (), t') → t'.job.id = t.job.id ∧ t'.sent = t.sent ∧
    (t'.job.fileNum = t.job.fileNum ∨ t'.job.fileNum = t.job.fileNum + 1)

theorem setFileSkipped_skips : SkipsAtMost (TransferJob.setFileSkipped : JobM σ φ Unit) := by
  intro t t' h
  cases h
  exact ⟨rfl, rfl, .inr rfl⟩

theorem atJob_sound {call : JobM σ φ Unit} (hcall : SkipsAtMost call) {id : Int}
    (jobs : List (ReadJob φ)) {s u : ReadJobs σ φ} (h : ∀ r ∈ jobs, r.Accounted s.sent)
    (hrun : atJob id call s jobs = some u) :
    (∀ r ∈ u.jobs, r.Accounted u.sent) ∧ u.sent = s.sent ∧ u.finished = s.finished := by
  induction jobs generalizing u with
  | nil =>
      cases hrun
      exact ⟨fun _ hr => by (cases hr), rfl, rfl⟩
  | cons r jobs ih =>
      obtain ⟨hr, hjobs⟩ := List.forall_mem_cons.mp h
      rw [atJob] at hrun
      split at hrun
      · split at hrun
        · cases hrun
        · rename_i t hexec
          cases hrun
          obtain ⟨hid, hsent, hnum⟩ := hcall _ _ hexec
          have hsent : t.sent = s.sent := hsent
          refine ⟨List.forall_mem_cons.mpr ⟨?_, fun r' hr' => ?_⟩, hsent, rfl⟩
          · show ReadJob.Accounted t.sent _
            rw [hsent]
            exact hr.skip hid hnum
          · show r'.Accounted t.sent
            rw [hsent]
            exact hjobs r' hr'
      · obtain ⟨v, hv, rfl⟩ := Option.map_eq_some_iff.mp hrun
        obtain ⟨hall, hsent, hfin⟩ := ih hjobs hv
        refine ⟨List.forall_mem_cons.mpr ⟨?_, hall⟩, hsent, hfin⟩
        show r.Accounted v.sent
        rw [hsent]
        exact hr

/-- The same file of the same job, and nothing is sent. -/
def AtFile (t t' : JobState σ φ) : Prop :=
  t'.job.id = t.job.id ∧ t'.sent = t.sent ∧ t'.job.fileNum = t.job.fileNum

theorem keeps_fs_atFile {α : Type} (call : Effect σ IoError α) :
    Effect.Keeps (AtFile t) (JobM.fs call : JobM σ φ α) (fun _ => True) :=
  fun _ h => ⟨h, fun _ _ => trivial⟩

theorem keeps_resolveEntryPath_atFile (base : Path) (name : String) :
    Effect.Keeps (AtFile t) (TransferJob.resolveEntryPath fs base name) (fun _ => True) := by
  intro t' h
  refine ⟨?_, fun _ _ => trivial⟩
  simp only [TransferJob.resolveEntryPath, Effect.exec_bind, JobM.exec_job]
  split
  · simp only [Effect.exec_bind, JobM.exec_tryFs]
    split <;> exact h
  · exact h

theorem keeps_openAtOffset_atFile (path : Path) :
    Effect.Keeps (AtFile t) (TransferJob.openAtOffset fs path) (fun _ => True) := by
  unfold TransferJob.openAtOffset JobM.test JobM.tryFs
  refine (keeps_fs_atFile _).bind (fun _ _ => .ite (fun _ => ?_) (fun _ => ?_))
  · refine (keeps_fs_atFile _).bind (fun result _ => ?_)
    cases result <;> exact .pure trivial
  · refine (keeps_fs_atFile _).bind (fun _ _ => .ite (fun _ => ?_) (fun _ => .pure trivial))
    refine (keeps_fs_atFile _).bind (fun result _ => ?_)
    cases result <;> exact .pure trivial

theorem keeps_setStreamOffset_atFile (fileNum offset : Nat) :
    Effect.Keeps (AtFile t) (TransferJob.setStreamOffset fs fileNum offset) (fun _ => True) := by
  have hjob : Effect.Keeps (AtFile t) (JobM.job : JobM σ φ _) (fun _ => True) :=
    fun _ h => ⟨h, fun _ _ => trivial⟩
  refine hjob.bind (fun job _ => ?_)
  split
  · exact .pure trivial
  · split
    · exact .throw _
    · refine (keeps_resolveEntryPath_atFile _ _).bind (fun path _ => ?_)
      split
      · exact .pure trivial
      · refine (keeps_openAtOffset_atFile _).bind (fun file _ => ?_)
        split
        · exact .pure trivial
        · refine (keeps_fs_atFile _).bind (fun result _ => ?_)
          cases result with
          | error _ => exact .pure trivial
          | ok file => exact .modify (fun _ h => h)

theorem confirm_skips (fs : FileSys σ φ) (r : FileTransferSendConfirmRequest) :
    SkipsAtMost (TransferJob.confirm fs r) := by
  intro t t' h
  simp only [TransferJob.confirm, Effect.exec_bind, JobM.exec_job] at h
  split at h
  · cases h
    exact ⟨rfl, rfl, .inl rfl⟩
  · split at h
    · exact setFileSkipped_skips t t' h
    · cases h
      exact ⟨rfl, rfl, .inl rfl⟩
    · rename_i offset _
      have hkeeps : Effect.Keeps (AtFile t) (do
          TransferJob.setFileConfirmed true
          if offset > 0 then TransferJob.setStreamOffset fs (asUsize r.fileNum) offset.toNat
          else return () : JobM σ φ Unit) (fun _ => True) := by
        refine Effect.Keeps.bind (Q := fun _ => True) (.modify (fun _ h => h)) (fun _ _ => ?_)
        exact .ite (fun _ => keeps_setStreamOffset_atFile _ _) (fun _ => .pure trivial)
      obtain ⟨hid, hsent, hnum⟩ := (hkeeps t ⟨rfl, rfl, rfl⟩).1
      rw [h] at hid hsent hnum
      exact ⟨hid, hsent, .inl hnum⟩
    · cases h
      exact ⟨rfl, rfl, .inl rfl⟩

/-! ## Runs -/

namespace ReadJobs

/-- Jobs start at a file of the list or behind it, and when the jobs are handled the first one
can ask about its file. -/
def AsksFirst (fs : FileSys σ φ) (s : ReadJobs σ φ) : ReadAction σ φ → Prop
  | .add job => 0 ≤ job.fileNum
  | .handle => ∀ r ∈ firstJob s.jobs, canAsk fs r.job s.fs = true
  | _ => True

instance AsksFirst.decidable (fs : FileSys σ φ) (s : ReadJobs σ φ) :
    ∀ action : ReadAction σ φ, Decidable (AsksFirst fs s action)
  | .add job => inferInstanceAs (Decidable (0 ≤ job.fileNum))
  | .handle => inferInstanceAs (Decidable (∀ r ∈ firstJob s.jobs, canAsk fs r.job s.fs = true))
  | .confirm _ _ | .skip _ | .environment _ => .isTrue trivial

theorem Sound.handle {s : ReadJobs σ φ} (h : s.Sound)
    (hask : ∀ r, firstJob s.jobs = some r → canAsk fs r.job s.fs = true) :
    (handleReadJobs libs fs s).Sound := by
  obtain ⟨hjobs, hsub, hfin⟩ := initJobs_sound fs s.jobs s h.jobs
  have hfirst := initJobs_firstJob s.jobs s hask
  have hsound : (readFirst libs fs (initJobs fs s s.jobs) (initJobs fs s s.jobs).jobs).1.Sound :=
    (readFirst_sound _ _ hjobs (fun r hr => (h.finished r (hfin ▸ hr)).mono hsub) hfirst).1
  unfold handleReadJobs
  dsimp only
  split
  · rename_i u hrun
    rwa [hrun] at hsound
  · rename_i u id hrun
    rw [hrun] at hsound
    exact ⟨fun r hr => hsound.jobs r (List.mem_of_mem_eraseP hr), hsound.finished⟩

theorem Sound.atJob {s u : ReadJobs σ φ} (h : s.Sound) {call : JobM σ φ Unit}
    (hcall : SkipsAtMost call) {id : Int} (hrun : atJob id call s s.jobs = some u) : u.Sound := by
  obtain ⟨hjobs, hsent, hfin⟩ := atJob_sound hcall s.jobs h.jobs hrun
  refine ⟨hjobs, ?_⟩
  rw [hfin, hsent]
  exact h.finished

theorem Sound.step {s u : ReadJobs σ φ} (h : s.Sound) {action : ReadAction σ φ}
    (hguard : AsksFirst fs s action) (hstep : step libs fs s action = some u) : u.Sound := by
  cases action with
  | add job =>
      simp only [ReadJobs.step] at hstep
      split at hstep
      · cases hstep
        refine ⟨fun r hr => ?_, h.finished⟩
        rcases List.mem_append.mp hr with hold | hnew
        · exact h.jobs r hold
        · rw [List.mem_singleton.mp hnew]
          exact ⟨hguard, le_rfl, fun i hstart hi => absurd hi (not_lt.mpr hstart)⟩
      · cases hstep
  | handle =>
      cases hstep
      exact h.handle hguard
  | confirm id r => exact h.atJob (confirm_skips fs r) hstep
  | skip id => exact h.atJob setFileSkipped_skips hstep
  | environment u =>
      cases hstep
      exact ⟨h.jobs, h.finished⟩

/-- A job of files that is sent `Done` has no file left, and every file since its start was
read to its end, skipped, or given up with an error. -/
theorem done_dealtWith (libs : Libs) (fs : FileSys σ φ) (init : σ) {s : ReadJobs σ φ}
    (h : (system libs fs init).Reach (AsksFirst fs) s) :
    ∀ r ∈ s.finished, ∀ base, r.job.dataSource = .filePath base →
      (r.job.files.length : Int) ≤ r.job.fileNum ∧
        ∀ i, r.start ≤ i → i < r.job.files.length → r.DealtWith s.sent i := by
  have hsound : s.Sound := h.invariant ⟨fun _ hr => by (cases hr), fun _ hr => by (cases hr)⟩
    (fun _ _ _ hs hguard hstep => hs.step hguard hstep)
  intro r hr base hbase
  have hended := hsound.finished r hr
  have hpast := hended.past (by rw [hbase]; rfl)
  exact ⟨hpast, fun i hstart hi => hended.accounted.dealt i hstart (by omega)⟩

/-! ## A file that cannot be opened -/

/-- Libraries for the runs below, in which no block is compressed. -/
def copyLibs : Libs where
  zstdCompress _ := none
  zstdRead data n := .ok (data.take n)
  digestToString _ := "{}"
  digestFromStr _ := none
  toStringLossy path := path

/-- A new read job of `a` and `b` in the working directory, with overwrite detection. -/
def readTwo : TransferJob Handle :=
  { id := 1, type := .generic, dataSource := .filePath [], isLastJob := false
    isResume := false, fileNum := 0
    files := [{ name := "a", modifiedTime := 0 }, { name := "b", modifiedTime := 0 }]
    dataStream := none, enableOverwriteDetection := true, fileConfirmed := false
    fileSkipped := false, fileIsWaiting := false, digest := { size := 0, modified := 0 } }

/-- A disk with empty files of these names. -/
def diskOf (names : List String) : Disk :=
  { Disk.empty [] with
    node := fun k =>
      ((names.map (fun name => [Component.normal (utf8Bytes name)])).idxOf? k).map .file
    next := names.length }

/-- Both files are there, and the peer skips them. -/
def skipBoth : List (ReadAction Disk Handle) :=
  [.add readTwo, .handle, .skip 1, .handle, .skip 1, .handle]

theorem done_dealtWith_skipped :
    ∃ s, (system copyLibs Disk.fileSys (diskOf ["a", "b"])).run skipBoth = some s ∧
      s.finished.length = 1 ∧
      ∀ r ∈ s.finished, ∀ base, r.job.dataSource = .filePath base →
        (r.job.files.length : Int) ≤ r.job.fileNum ∧
          ∀ i, r.start ≤ i → i < r.job.files.length → r.DealtWith s.sent i := by
  refine ⟨_, rfl, by decide +kernel, ?_⟩
  refine done_dealtWith copyLibs Disk.fileSys (diskOf ["a", "b"]) ?_
  exact TSys.reach_of_run skipBoth (by decide +kernel) rfl

/-- When `a` is missing, the job is done without a look at `b`. -/
theorem done_before_last :
    ∃ s, (system copyLibs Disk.fileSys (diskOf ["b"])).Reach (fun _ _ => True) s ∧
      ∃ r ∈ s.finished, r.job.dataSource = .filePath [] ∧ r.start = 0 ∧
        r.job.fileNum < r.job.files.length ∧ ¬ r.DealtWith s.sent 1 := by
  refine ⟨_, TSys.reach_of_any_run [.add readTwo, .handle] rfl, _, List.mem_singleton_self _, rfl,
    rfl, by decide +kernel, ?_⟩
  intro h
  change _ ∈ [FileResponse.error 1 (.io .notFound) 1, .done 1 1] ∨ (1 : Int) ∈ [] ∨
    ∃ error, FileResponse.error 1 error 2 ∈ [FileResponse.error 1 (.io .notFound) 1, .done 1 1] at h
  simp [endOfFile] at h

end ReadJobs

end HbbCommon.Files
