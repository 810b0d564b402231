import HbbCommon.Files.DirTransfer
import HbbCommon.Files.Logic.Disk
import HbbCommon.Files.Logic.ReadJobs

/-!
# What a read job sends

The files of the list one after another, each in parts that are not empty and then an empty
block, and that the job is done. `Sends` says what may come next, for both ends.
-/

namespace HbbCommon.Files

open HbbCommon.Base

/-- `zstd` gives back what it was given. -/
structure Libs.Lossless (libs : Libs) : Prop where
  compress : ∀ data, ∃ small, libs.zstdCompress data = some small
  read : ∀ data small n, libs.zstdCompress data = some small →
    libs.zstdRead small n = .ok (data.take n)

/-- What a block gives to write. -/
def blockData (libs : Libs) (block : FileTransferBlock) : Except IoError Bytes :=
  if block.compressed then decompressLimited libs block.data fileBlockDecompressMaxLen
  else .ok block.data

/-- A block gives the data it was made of. -/
theorem blockData_fileBlock {libs : Libs} (hlibs : libs.Lossless) (job : TransferJob Handle)
    (name : String) {data : Bytes} (hlength : data.length ≤ bufSize) :
    blockData libs (TransferJob.fileBlock libs job name data) = .ok data := by
  obtain ⟨small, hsmall⟩ := hlibs.compress data
  have hcompress : compress libs data = small := by rw [compress, hsmall]; rfl
  unfold blockData TransferJob.fileBlock
  simp only [hcompress]
  by_cases hshorter : data ≠ [] ∧ ¬ isCompressedFile name ∧ small.length < data.length
  · have htake : data.take (fileBlockDecompressMaxLen + 1) = data :=
      List.take_of_length_le (Nat.le_succ_of_le hlength)
    rw [if_pos (decide_eq_true hshorter), if_pos hshorter, decompressLimited,
      hlibs.read data small _ hsmall, htake]
    exact if_neg (Nat.not_lt.mpr hlength)
  · rw [if_neg (by simpa using hshorter), if_neg hshorter]

/-- How far what is sent has got: a number of a file, and the part of it behind. -/
structure SendStatus where
  fileNum : Nat
  part : Bytes

namespace DirSetup

variable (setup : DirSetup) (libs : Libs)

def content (entry : FileEntry) : Bytes :=
  match setup.source.lookup (joinName setup.sourceBase entry.name) with
  | some (.file n) => setup.source.data n
  | _ => []

/-- Either job, at a file. -/
def jobAt (base : Path) (fileNum : Nat) (stream : Option (DataStream Handle)) :
    TransferJob Handle :=
  { (TransferJob.newJob setup.id .generic (.filePath base) 0 false setup.files :
      TransferJob Handle) with
    fileNum := fileNum, dataStream := stream }

/-- What may be sent next. -/
inductive Sends : SendStatus → FileResponse → SendStatus → Prop
  | part {f : Nat} {entry : FileEntry} {part data : Bytes} {block : FileTransferBlock} :
      setup.files[f]? = some entry → block.id = setup.id → block.fileNum = f →
      blockData libs block = .ok data → data ≠ [] → part ++ data <+: setup.content entry →
      Sends ⟨f, part⟩ (.block block) ⟨f, part ++ data⟩
  | whole {f : Nat} {entry : FileEntry} {block : FileTransferBlock} :
      setup.files[f]? = some entry → block.id = setup.id → block.fileNum = f →
      blockData libs block = .ok [] →
      Sends ⟨f, setup.content entry⟩ (.block block) ⟨f + 1, []⟩
  | done {fileNum : Int} :
      Sends ⟨setup.files.length, []⟩ (.done setup.id fileNum) ⟨setup.files.length + 1, []⟩

inductive SendsAll : SendStatus → List FileResponse → SendStatus → Prop
  | nil {s : SendStatus} : SendsAll s [] s
  | cons {s t u : SendStatus} {response : FileResponse} {later : List FileResponse} :
      setup.Sends libs s response t → SendsAll t later u → SendsAll s (response :: later) u

variable {setup libs}

theorem SendsAll.append {s t u : SendStatus} {sent later : List FileResponse}
    (h : setup.SendsAll libs s sent t) (hlater : setup.SendsAll libs t later u) :
    setup.SendsAll libs s (sent ++ later) u := by
  induction h with
  | nil => exact hlater
  | cons hfirst _ ih => exact .cons hfirst (ih hlater)

end DirSetup

/-! ## A block -/

theorem asUsize_natCast {n : Nat} (h : n < 2 ^ 31) : asUsize (n : Int) = n := by
  unfold asUsize
  omega

/-- A handle that reads a file. -/
def Disk.reader (number pos : Nat) : Handle :=
  { number := some number, pos := pos, readable := true, writable := false }

theorem readStream_disk (d : Disk) (n pos size : Nat) :
    ∃ data : { data : Bytes // data.length ≤ size },
      data.val = ((d.data n).drop pos).take size ∧
        (TransferJob.readStream Disk.fileSys size (.fileStream (Disk.reader n pos))).exec d =
          (.ok (data, .fileStream (Disk.reader n (pos + data.val.length))), d) := by
  obtain ⟨data, hdata, hread⟩ := Disk.exec_read d n pos size
  refine ⟨data, hdata, ?_⟩
  unfold TransferJob.readStream Disk.reader
  rw [Effect.exec_bind_ok hread]
  rfl

/-- A disk gives all that fits into the buffer. -/
theorem fill_disk (d : Disk) (n pos size : Nat) :
    TransferJob.fill Disk.fileSys size (.fileStream (Disk.reader n pos)) d =
      (.ok (((d.data n).drop pos).take size,
        .fileStream (Disk.reader n (pos + (((d.data n).drop pos).take size).length))), d) := by
  obtain ⟨data, hdata, hread⟩ := readStream_disk d n pos size
  rw [TransferJob.fill, hread, ← hdata]
  by_cases hstop : data.val.length = 0 ∨ data.val.length = size
  · simp only [if_pos hstop]
  · -- the file ends before the buffer is full, and nothing is behind it
    have hlength := congrArg List.length hdata
    rw [List.length_take, List.length_drop] at hlength
    obtain ⟨more, hmore, hread'⟩ := readStream_disk d n (pos + data.val.length)
      (size - data.val.length)
    have hempty : more.val = [] := by
      rw [hmore, List.drop_eq_nil_of_le (by omega), List.take_nil]
    simp only [if_neg hstop]
    rw [TransferJob.fill, hread']
    simp only [hempty, List.length_nil, true_or, if_true, Nat.add_zero, List.append_nil]

/-! ## A turn of the read job -/

namespace DirSetup

variable {setup : DirSetup} {libs : Libs}

/-- The file that is open, and that it was read to the end of the part. -/
def StreamAt (setup : DirSetup) (status : SendStatus) (stream : Option (DataStream Handle)) :
    Prop :=
  stream = none ∧ status.part = [] ∨
    ∃ entry n pos, setup.files[status.fileNum]? = some entry ∧
      setup.source.lookup (joinName setup.sourceBase entry.name) = some (.file n) ∧
      stream = some (.fileStream (Disk.reader n pos)) ∧
      status.part = (setup.source.data n).take pos ∧ pos ≤ (setup.source.data n).length

/-- The read job, by what it has sent. -/
def Sending (setup : DirSetup) (status : SendStatus) (s : ReadJobs Disk Handle) : Prop :=
  s.fs = setup.source ∧
    (status.fileNum ≤ setup.files.length ∧
      (∃ stream, setup.StreamAt status stream ∧
        s.jobs = [{ job := setup.jobAt setup.sourceBase status.fileNum stream
                    start := 0, skipped := [] }]) ∨
      status = ⟨setup.files.length + 1, []⟩ ∧ s.jobs = [])

theorem content_of_lookup {entry : FileEntry} {n : Nat}
    (h : setup.source.lookup (joinName setup.sourceBase entry.name) = some (.file n)) :
    setup.content entry = setup.source.data n := by
  rw [content, h]

theorem currentEntry_jobAt (hcount : setup.files.length < 2 ^ 31) {base : Path} {f : Nat}
    (hf : f ≤ setup.files.length) (stream : Option (DataStream Handle)) :
    (setup.jobAt base f stream).currentEntry = setup.files[f]? := by
  show setup.files[asUsize (f : Int)]? = _
  rw [asUsize_natCast (by omega)]

/-- The state of the read job on its own. -/
def readState (setup : DirSetup) (f : Nat) (stream : Option (DataStream Handle))
    (sent : List FileResponse) : JobState Disk Handle :=
  { job := setup.jobAt setup.sourceBase f stream, fs := setup.source, sent }

/-- Without overwrite detection nothing is asked. -/
theorem exec_ask (f : Nat) (stream : Option (DataStream Handle)) (sent : List FileResponse) :
    (ask Disk.fileSys).exec (setup.readState f stream sent) =
      (.ok (), setup.readState f stream sent) := by
  have hneeds : (setup.jobAt setup.sourceBase f stream).needsDigest = false := rfl
  simp [ask, Effect.exec_bind, readState, hneeds]

/-- Behind its opening the job reads from where it is. -/
theorem initJob_streamAt (hcount : setup.files.length < 2 ^ 31) {status : SendStatus}
    {stream : Option (DataStream Handle)} (hstream : setup.StreamAt status stream)
    {entry : FileEntry} (hentry : setup.files[status.fileNum]? = some entry) {n : Nat}
    (hlookup : setup.source.lookup (joinName setup.sourceBase entry.name) = some (.file n))
    (sent : List FileResponse) :
    ∃ pos, initJob Disk.fileSys (setup.readState status.fileNum stream sent) =
        setup.readState status.fileNum (some (.fileStream (Disk.reader n pos))) sent ∧
      status.part = (setup.source.data n).take pos ∧ pos ≤ (setup.source.data n).length := by
  have hle : status.fileNum ≤ setup.files.length :=
    Nat.le_of_lt (List.getElem?_eq_some_iff.mp hentry).1
  have hcurrent : (setup.readState status.fileNum stream sent).job.currentEntry = some entry :=
    (currentEntry_jobAt hcount hle stream).trans hentry
  rcases hstream with ⟨rfl, hpart⟩ | ⟨entry', n', pos, hentry', hlookup', rfl, hpart, hpos⟩
  · have hopen : (Disk.fileSys.openFile (joinName setup.sourceBase entry.name)).exec setup.source =
        (.ok (Disk.reader n 0), setup.source) := by
      show setup.source.orKeep (setup.source.openFile _) = _
      rw [Disk.openFile, hlookup]
      rfl
    refine ⟨0, ?_, hpart, Nat.zero_le _⟩
    have hopened := TransferJob.openDataStream_ok rfl hcurrent rfl hopen
    have hinit := (initDataStream_of_open hopened).trans
      (exec_ask status.fileNum (some (.fileStream (Disk.reader n 0))) sent)
    unfold initJob
    rw [hinit]
  · obtain rfl : entry' = entry := Option.some.inj (hentry'.symm.trans hentry)
    obtain rfl : n' = n := by
      have h := hlookup'.symm.trans hlookup
      cases h
      rfl
    refine ⟨pos, ?_, hpart, hpos⟩
    have hopened : (TransferJob.openDataStream Disk.fileSys).exec (setup.readState status.fileNum
        (some (.fileStream (Disk.reader n' pos))) sent) = _ :=
      TransferJob.openDataStream_open rfl hcurrent rfl
    have hinit := (initDataStream_of_open hopened).trans
      (exec_ask status.fileNum (some (.fileStream (Disk.reader n' pos))) sent)
    unfold initJob
    rw [hinit]

/-- A part of the file is sent, or behind all of it the empty block. -/
theorem readJob_sends (hlibs : libs.Lossless) (hcount : setup.files.length < 2 ^ 31)
    {status : SendStatus} {entry : FileEntry} (hentry : setup.files[status.fileNum]? = some entry)
    {n pos : Nat}
    (hlookup : setup.source.lookup (joinName setup.sourceBase entry.name) = some (.file n))
    (hpart : status.part = (setup.source.data n).take pos)
    (hpos : pos ≤ (setup.source.data n).length) (sent : List FileResponse) :
    ∃ block next stream,
      Files.readJob libs Disk.fileSys
          (setup.readState status.fileNum (some (.fileStream (Disk.reader n pos))) sent) =
        (setup.readState next.fileNum stream (sent ++ [.block block]), .goesOn) ∧
      setup.Sends libs status (.block block) next ∧ setup.StreamAt next stream ∧
      next.fileNum ≤ setup.files.length := by
  obtain ⟨f, part⟩ := status
  have hlt : f < setup.files.length := (List.getElem?_eq_some_iff.mp hentry).1
  have hcontent := content_of_lookup hlookup
  have hcurrent : (setup.jobAt setup.sourceBase f
      (some (.fileStream (Disk.reader n pos)))).currentEntry = some entry :=
    (currentEntry_jobAt hcount hlt.le _).trans hentry
  have hfill := fill_disk setup.source n pos bufSize
  have hread : (TransferJob.read libs Disk.fileSys).exec
      (setup.readState f (some (.fileStream (Disk.reader n pos))) sent) = _ :=
    TransferJob.read_ok (fun h => Bool.false_ne_true h.2.1) rfl hcurrent rfl hfill
  generalize hdata : ((setup.source.data n).drop pos).take bufSize = data at hread
  have hshort : data.length ≤ bufSize := hdata ▸ List.length_take_le _ _
  have hgives := blockData_fileBlock hlibs
    (setup.readState f (some (.fileStream (Disk.reader n pos))) sent).job
    ((setup.readState f (some (.fileStream (Disk.reader n pos))) sent).job.sourceName
      setup.sourceBase entry) hshort
  unfold Files.readJob
  rw [hread]
  by_cases hempty : data = []
  · -- nothing is behind the part
    have hall : (setup.source.data n).length ≤ pos := by
      have hlength := congrArg List.length (hdata.trans hempty)
      rw [List.length_take, List.length_drop, List.length_nil] at hlength
      have hbuf : 0 < bufSize := by decide
      omega
    obtain rfl : part = setup.content entry := by
      rw [hcontent]
      exact hpart.trans (List.take_of_length_le hall)
    subst hempty
    refine ⟨_, ⟨f + 1, []⟩, none, ?_, .whole hentry rfl rfl hgives, .inl ⟨rfl, rfl⟩, hlt⟩
    simp only [if_true]
    rfl
  · have hnext : part ++ data = (setup.source.data n).take (pos + data.length) := by
      rw [show part = (setup.source.data n).take pos from hpart, List.take_add, ← hdata,
        List.length_take]
      refine congrArg _ (List.take_eq_take_iff.mpr ?_)
      omega
    have hfits : pos + data.length ≤ (setup.source.data n).length := by
      have hlength := congrArg List.length hdata
      rw [List.length_take, List.length_drop] at hlength
      omega
    refine ⟨_, ⟨f, part ++ data⟩, some (.fileStream (Disk.reader n (pos + data.length))), ?_,
      .part hentry rfl rfl hgives hempty ?_, .inr ⟨entry, n, _, hentry, hlookup, rfl, hnext, hfits⟩,
      hlt.le⟩
    · simp only [if_neg hempty]
      rfl
    · rw [hnext, hcontent]
      exact List.take_prefix _ _

/-- Behind the last file the job is done. -/
theorem readJob_done (libs : Libs) (hcount : setup.files.length < 2 ^ 31) (sent : List FileResponse) :
    initJob Disk.fileSys (setup.readState setup.files.length none sent) =
        setup.readState setup.files.length none sent ∧
      Files.readJob libs Disk.fileSys (setup.readState setup.files.length none sent) =
        (setup.readState setup.files.length none
          (sent ++ [.done setup.id (setup.files.length : Int)]), .done) := by
  have hcurrent : (setup.readState setup.files.length none sent).job.currentEntry = none :=
    (currentEntry_jobAt hcount le_rfl _).trans (List.getElem?_eq_none le_rfl)
  refine ⟨?_, ?_⟩
  · unfold initJob TransferJob.initDataStream
    rw [Effect.exec_bind_ok (TransferJob.openDataStream_done rfl hcurrent)]
    rfl
  · unfold Files.readJob
    rw [TransferJob.read_done (fun h => Bool.false_ne_true h.2.1) rfl hcurrent]
    rfl

theorem handleReadJobs_single {s : ReadJobs Disk Handle} {r : ReadJob Handle}
    (hjobs : s.jobs = [r]) (hlast : r.job.isLastJob = false) {t u : JobState Disk Handle}
    (hinit : initJob Disk.fileSys (s.at_ r.job) = t) (hlast' : t.job.isLastJob = false)
    {outcome : ReadOutcome} (hread : Files.readJob libs Disk.fileSys t = (u, outcome)) :
    (handleReadJobs libs Disk.fileSys s).fs = u.fs ∧
      (handleReadJobs libs Disk.fileSys s).sent = u.sent ∧
      (outcome = .goesOn →
        (handleReadJobs libs Disk.fileSys s).jobs = [{ r with job := u.job }]) ∧
      (outcome = .done → (handleReadJobs libs Disk.fileSys s).jobs = []) := by
  have hat : ({ s.after t with jobs := [{ r with job := t.job }] } : ReadJobs Disk Handle).at_ t.job
      = t := rfl
  unfold handleReadJobs
  simp only [hjobs, initJobs, hlast, hinit, readFirst, hlast', Bool.false_eq_true, if_false, hat,
    hread]
  cases outcome <;> simp [ReadJobs.after, removeJob]

/-- A turn of the read job sends what may come next, until the job is done. -/
theorem handle_sends (hlibs : libs.Lossless) (hcount : setup.files.length < 2 ^ 31)
    (hsources : ∀ entry ∈ setup.files, ∃ n,
      setup.source.lookup (joinName setup.sourceBase entry.name) = some (.file n))
    {status : SendStatus} {s : ReadJobs Disk Handle} (h : setup.Sending status s) :
    (∃ response next, (handleReadJobs libs Disk.fileSys s).sent = s.sent ++ [response] ∧
      setup.Sends libs status response next ∧
      setup.Sending next (handleReadJobs libs Disk.fileSys s)) ∨
    (status = ⟨setup.files.length + 1, []⟩ ∧
      (handleReadJobs libs Disk.fileSys s).sent = s.sent ∧
      setup.Sending status (handleReadJobs libs Disk.fileSys s)) := by
  obtain ⟨hfs, ⟨hle, stream, hstream, hjobs⟩ | ⟨rfl, hjobs⟩⟩ := h
  · have hat : s.at_ (setup.jobAt setup.sourceBase status.fileNum stream) =
        setup.readState status.fileNum stream s.sent := by
      rw [ReadJobs.at_, hfs]
      rfl
    cases hentry : setup.files[status.fileNum]? with
    | some entry =>
        obtain ⟨n, hlookup⟩ := hsources entry (List.mem_of_getElem? hentry)
        obtain ⟨pos, hinit, hpart, hpos⟩ := initJob_streamAt hcount hstream hentry hlookup s.sent
        obtain ⟨block, next, stream', hread, hsends, hstream', hle'⟩ :=
          readJob_sends hlibs hcount hentry hlookup hpart hpos s.sent
        obtain ⟨hfs', hsent', hjobs', -⟩ :=
          handleReadJobs_single hjobs rfl ((congrArg _ hat).trans hinit) rfl hread
        exact .inl ⟨.block block, next, hsent', hsends, hfs',
          .inl ⟨hle', stream', hstream', hjobs' rfl⟩⟩
    | none =>
        have hlast : status.fileNum = setup.files.length :=
          Nat.le_antisymm hle (List.getElem?_eq_none_iff.mp hentry)
        obtain ⟨rfl, hpart⟩ | ⟨entry, n, pos, hentry', -⟩ := hstream
        · obtain ⟨f, part⟩ := status
          obtain rfl : f = setup.files.length := hlast
          obtain rfl : part = [] := hpart
          obtain ⟨hinit, hread⟩ := readJob_done libs hcount s.sent
          obtain ⟨hfs', hsent', -, hjobs'⟩ :=
            handleReadJobs_single hjobs rfl ((congrArg _ hat).trans hinit) rfl hread
          exact .inl ⟨_, _, hsent', .done, hfs', .inr ⟨rfl, hjobs' rfl⟩⟩
        · rw [hentry] at hentry'
          cases hentry'
  · refine .inr ⟨rfl, ?_, ?_, .inr ⟨rfl, ?_⟩⟩
    all_goals simp [handleReadJobs, hjobs, initJobs, readFirst, hfs]

end DirSetup

end HbbCommon.Files
