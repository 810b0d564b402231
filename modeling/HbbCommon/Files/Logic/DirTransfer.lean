import HbbCommon.Files.Logic.Receiving

/-!
# A directory arrives

The two ends in any interleaving. What was sent and has not arrived leads from where the write
job is to where the read job is, so every block that arrives is one that may come next.
-/

namespace HbbCommon.Files

open HbbCommon.Base

namespace DirSetup

variable {setup : DirSetup} {libs : Libs}

/-! ## A block arrives -/

section Write

variable (hfits : setup.Fits) {m number : Nat} {entry : FileEntry} {part data : Bytes} {d : Disk}
  {block : FileTransferBlock}

include hfits

/-- The `.download` file grows, and nothing else changes. -/
theorem Writes.grow (h : setup.Writes m entry number part d) (data : Bytes) :
    setup.Writes m entry number (part ++ data) (d.setData number (part ++ data)) where
  current := h.current
  holds :=
    { numbered := h.holds.numbered
      next := h.holds.next
      old := by
        intro n hn
        have hne : n ≠ number := by
          rintro rfl
          exact absurd h.new (Nat.not_le.mpr hn)
        exact (Function.update_of_ne hne _ _).trans (h.holds.old n hn)
      whole := by
        intro b hb
        rw [Disk.statAt_setData ?_, h.holds.whole b hb]
        intro hsame
        have hside := hfits.sides entry (List.mem_of_getElem? h.current) b (mem_of_mem_take hb)
        exact hside.1 (h.alone _ hsame ▸ List.prefix_refl _)
      frame := h.holds.frame }
  download := h.download
  data := Function.update_self _ _ _
  new := h.new
  alone := h.alone
  digest := h.digest
  parent := h.parent

theorem exec_writeData (sent : List FileResponse) (h : setup.Writes m entry number part d)
    (hdata : blockData libs block = .ok data) :
    ∃ d', (TransferJob.writeData libs Disk.fileSys block).exec
        (setup.writeState m (writing number part.length) d sent) =
          (.ok (), setup.writeState m (writing number (part ++ data).length) d' sent) ∧
      setup.Writes m entry number (part ++ data) d' := by
  refine ⟨_, ?_, h.grow hfits data⟩
  have hwrite : (TransferJob.writeStream Disk.fileSys data).exec
      (setup.writeState m (writing number part.length) d sent) =
        (.ok (), setup.writeState m (writing number (part ++ data).length)
          (d.setData number (part ++ data)) sent) := by
    have hall : (Disk.fileSys.writeAll (Disk.writer number part.length) data).exec d = _ :=
      Disk.exec_writeAll (congrArg List.length h.data) data
    rw [h.data, ← List.length_append] at hall
    have hfile : (JobM.fs (Disk.fileSys.writeAll (Disk.writer number part.length) data)).exec
        (setup.writeState m (writing number part.length) d sent) =
          (.ok (Disk.writer number (part ++ data).length),
            setup.writeState m (writing number part.length) (d.setData number (part ++ data))
              sent) := by
      rw [JobM.exec_fs,
        show (setup.writeState m (writing number part.length) d sent).fs = d from rfl, hall]
      rfl
    unfold TransferJob.writeStream
    simp only [Effect.exec_bind, JobM.exec_job]
    rw [show (setup.writeState m (writing number part.length) d sent).job.dataStream =
      some (.fileStream (Disk.writer number part.length)) from rfl]
    exact (Effect.exec_bind_ok hfile).trans rfl
  unfold blockData at hdata
  unfold TransferJob.writeData
  split at hdata
  · rename_i hcompressed
    simp only [if_pos hcompressed, hdata]
    exact hwrite
  · rename_i hcompressed
    cases hdata
    rw [if_neg hcompressed]
    exact hwrite

end Write

/-- The write job, by what arrived. -/
inductive Receiving (setup : DirSetup) : SendStatus → JobState Disk Handle → Prop
  | fresh {d : Disk} {sent : List FileResponse} : setup.Holds 0 [] d →
      Receiving setup ⟨0, []⟩ (setup.writeState 0 none d sent)
  | writing {m number : Nat} {entry : FileEntry} {part : Bytes} {d : Disk}
      {sent : List FileResponse} : setup.Writes m entry number part d →
      Receiving setup ⟨m, part⟩ (setup.writeState m (writing number part.length) d sent)
  | whole {m number : Nat} {entry : FileEntry} {d : Disk} {sent : List FileResponse} :
      setup.Writes m entry number (setup.content entry) d →
      Receiving setup ⟨m + 1, []⟩
        (setup.writeState m (DirSetup.writing number (setup.content entry).length) d sent)
  | done {t : JobState Disk Handle} : setup.Holds setup.files.length [] t.fs →
      Receiving setup ⟨setup.files.length + 1, []⟩ t

/-- A file is started when the block is of another than the one that is open. -/
theorem exec_startIfOther (libs : Libs) (hfits : setup.Fits) {f : Nat} {part : Bytes}
    {t : JobState Disk Handle} (h : setup.Receiving ⟨f, part⟩ t) {entry : FileEntry}
    (hentry : setup.files[f]? = some entry) :
    ∃ number d, (TransferJob.startIfOther libs Disk.fileSys setup.targetBase f entry).exec t =
        (.ok (), setup.writeState f (writing number part.length) d t.sent) ∧
      setup.Writes f entry number part d := by
  have hcount := hfits.count
  have hlt : f < setup.files.length := (List.getElem?_eq_some_iff.mp hentry).1
  have hnames := validName_of_validate hfits.names
  cases h with
  | @fresh d sent hholds =>
      have hmem := List.mem_of_getElem? hentry
      have hmodify := exec_modifyTime
        (t := setup.writeState 0 none d sent) hcount rfl hentry (hnames entry hmem)
      obtain ⟨number, d', hstart, hwrites⟩ := exec_startFile hfits none sent libs (.inl rfl)
        hmodify (hholds.named_first hfits hmem) hentry
      refine ⟨number, d', ?_, hwrites⟩
      unfold TransferJob.startIfOther
      simp only [Effect.exec_bind, JobM.exec_job]
      rw [if_pos (.inr rfl)]
      exact hstart
  | @writing _ number entry' _ d sent hwrites =>
      obtain rfl : entry' = entry := Option.some.inj (hwrites.current.symm.trans hentry)
      refine ⟨number, d, ?_, hwrites⟩
      unfold TransferJob.startIfOther
      simp only [Effect.exec_bind, JobM.exec_job]
      rw [if_neg]
      · rfl
      · rintro (hne | hnone)
        · exact hne rfl
        · cases hnone
  | @whole m number entry' d sent hwrites =>
      have hmodify := exec_modifyTime (t := setup.writeState m
        (DirSetup.writing number (setup.content entry').length) d sent) hcount rfl hwrites.current
        (hnames entry' (List.mem_of_getElem? hwrites.current))
      obtain ⟨number', d', hstart, hwrites'⟩ := exec_startFile hfits _ sent libs
        (.inr ⟨_, rfl⟩) hmodify (hwrites.named hfits) hentry
      refine ⟨number', d', ?_, hwrites'⟩
      unfold TransferJob.startIfOther
      simp only [Effect.exec_bind, JobM.exec_job]
      rw [if_pos]
      · exact hstart
      · refine .inl ?_
        show asUsize ((m + 1 : Nat) : Int) ≠ asUsize ((m : Nat) : Int)
        rw [asUsize_natCast (by omega), asUsize_natCast (by omega)]
        exact Nat.succ_ne_self m
  | done => exact absurd hlt (by omega)

theorem exec_write (hfits : setup.Fits) {f : Nat} {part data : Bytes} {t : JobState Disk Handle}
    (h : setup.Receiving ⟨f, part⟩ t) {entry : FileEntry} (hentry : setup.files[f]? = some entry)
    {block : FileTransferBlock} (hid : block.id = setup.id) (hnum : block.fileNum = f)
    (hdata : blockData libs block = .ok data) :
    ∃ number d, (TransferJob.write libs Disk.fileSys block).exec t =
        (.ok (), setup.writeState f (writing number (part ++ data).length) d t.sent) ∧
      setup.Writes f entry number (part ++ data) d := by
  have hlt : f < setup.files.length := (List.getElem?_eq_some_iff.mp hentry).1
  have hcount := hfits.count
  obtain ⟨number, d, hstart, hwrites⟩ := exec_startIfOther libs hfits h hentry
  obtain ⟨d', hwrite, hwrites'⟩ := exec_writeData hfits t.sent hwrites hdata
  refine ⟨number, d', ?_, hwrites'⟩
  have hjob : t.job.id = setup.id ∧ t.job.dataSource = .filePath setup.targetBase ∧
      t.job.files = setup.files := by
    cases h with
    | fresh | writing | whole => exact ⟨rfl, rfl, rfl⟩
    | done => exact absurd hlt (by omega)
  unfold TransferJob.write
  simp only [Effect.exec_bind, JobM.exec_job, hjob.1, hjob.2.1, hjob.2.2, hid, hnum,
    asUsize_natCast (show f < 2 ^ 31 by omega), hentry, ne_eq, not_true_eq_false, if_false, hstart,
    hwrite]

/-! ## The end -/

/-- Behind the last file its name is given when the job is done. -/
theorem Receiving.finish (hfits : setup.Fits) {status : SendStatus} {t : JobState Disk Handle}
    (h : setup.Receiving status t) (hstatus : status = ⟨setup.files.length, []⟩) :
    setup.Holds setup.files.length [] ((TransferJob.modifyTime Disk.fileSys).exec t).2.fs := by
  have hcount := hfits.count
  cases h with
  | @fresh d sent hholds =>
      have hlength : 0 = setup.files.length := congrArg SendStatus.fileNum hstatus
      have hnone : setup.files[0]? = none := List.getElem?_eq_none (by omega)
      rw [exec_modifyTime_none (t := setup.writeState 0 none d sent) hcount (Nat.zero_le _) rfl
        hnone, ← hlength]
      exact hholds
  | @writing m number entry part d sent hwrites =>
      have hlength : m = setup.files.length := congrArg SendStatus.fileNum hstatus
      have hlt := (List.getElem?_eq_some_iff.mp hwrites.current).1
      omega
  | @whole m number entry d sent hwrites =>
      have hlength : m + 1 = setup.files.length := congrArg SendStatus.fileNum hstatus
      have hname := validName_of_validate hfits.names entry (List.mem_of_getElem? hwrites.current)
      rw [exec_modifyTime (t := setup.writeState m
        (DirSetup.writing number (setup.content entry).length) d sent) hcount rfl hwrites.current
        hname, ← hlength]
      exact hwrites.named hfits
  | done =>
      have hlength := congrArg SendStatus.fileNum hstatus
      exact absurd hlength (Nat.succ_ne_self _)

/-! ## Runs -/

/-- Between the two ends is what leads from one to the other. -/
structure Going (setup : DirSetup) (libs : Libs) (s : DirTransfer) (received sent : SendStatus) :
    Prop where
  sending : setup.Sending sent s.sender
  receiving : setup.Receiving received s.receiver
  between : setup.SendsAll libs received (s.sender.sent.drop s.arrived) sent
  arrived : s.arrived ≤ s.sender.sent.length
  errors : s.errors = []
  finished : s.finished = true ↔ received.fileNum = setup.files.length + 1

theorem Going.handle (hlibs : libs.Lossless) (hfits : setup.Fits) {s : DirTransfer}
    {received sent : SendStatus} (h : setup.Going libs s received sent) :
    ∃ sent', setup.Going libs { s with sender := handleReadJobs libs Disk.fileSys s.sender }
      received sent' ∧ (sent = sent' ∧ sent = ⟨setup.files.length + 1, []⟩ ∨
        ∃ response, setup.Sends libs sent response sent') := by
  rcases handle_sends hlibs hfits.count hfits.sources h.sending with
    ⟨response, next, hsent, hsends, hsending⟩ | ⟨hdone, hsent, hsending⟩
  · refine ⟨next, ⟨hsending, h.receiving, ?_, ?_, h.errors, h.finished⟩, .inr ⟨response, hsends⟩⟩
    · show setup.SendsAll libs received
        ((handleReadJobs libs Disk.fileSys s.sender).sent.drop s.arrived) next
      rw [hsent, List.drop_append_of_le_length h.arrived]
      exact h.between.append (.cons hsends .nil)
    · show s.arrived ≤ (handleReadJobs libs Disk.fileSys s.sender).sent.length
      rw [hsent, List.length_append]
      exact h.arrived.trans (Nat.le_add_right _ _)
  · refine ⟨sent, ⟨hsending, h.receiving, ?_, ?_, h.errors, h.finished⟩, .inl ⟨rfl, hdone⟩⟩
    · show setup.SendsAll libs received
        ((handleReadJobs libs Disk.fileSys s.sender).sent.drop s.arrived) sent
      rw [hsent]
      exact h.between
    · show s.arrived ≤ (handleReadJobs libs Disk.fileSys s.sender).sent.length
      rw [hsent]
      exact h.arrived

/-- What arrives is what may come next. -/
theorem Going.receive (hfits : setup.Fits) {s : DirTransfer} {received sent : SendStatus}
    (h : setup.Going libs s received sent) (hmore : s.arrived < s.sender.sent.length) :
    ∃ t received', s.receive libs = some t ∧ setup.Going libs t received' sent ∧
      t.sender = s.sender ∧ t.arrived = s.arrived + 1 := by
  have hbetween := h.between
  rw [List.drop_eq_getElem_cons hmore] at hbetween
  have hget := List.getElem?_eq_getElem hmore
  generalize s.sender.sent[s.arrived] = response at hbetween hget
  cases hbetween with
  | @cons _ next _ _ _ hsends hlater =>
      cases hsends with
      | @part f entry part data block hentry hid hnum hdata hne hprefix =>
          obtain ⟨number, d, hwrite, hwrites⟩ := exec_write hfits h.receiving hentry hid hnum hdata
          have hstep : s.receive libs = some { s with
              receiver := setup.writeState f (DirSetup.writing number (part ++ data).length) d
                s.receiver.sent
              arrived := s.arrived + 1 } := by
            unfold DirTransfer.receive
            simp only [hget, hwrite]
          exact ⟨_, _, hstep, ⟨h.sending, .writing hwrites, hlater, hmore, h.errors, h.finished⟩,
            rfl, rfl⟩
      | @whole f entry block hentry hid hnum hdata =>
          obtain ⟨number, d, hwrite, hwrites⟩ := exec_write hfits h.receiving hentry hid hnum hdata
          rw [List.append_nil] at hwrite hwrites
          have hlt := (List.getElem?_eq_some_iff.mp hentry).1
          have hstep : s.receive libs = some { s with
              receiver := setup.writeState f
                (DirSetup.writing number (setup.content entry).length) d s.receiver.sent
              arrived := s.arrived + 1 } := by
            unfold DirTransfer.receive
            simp only [hget, hwrite]
          have hfinished : s.finished = true ↔ f + 1 = setup.files.length + 1 :=
            h.finished.trans (by show f = _ ↔ _; omega)
          exact ⟨_, _, hstep, ⟨h.sending, .whole hwrites, hlater, hmore, h.errors, hfinished⟩,
            rfl, rfl⟩
      | @done fileNum =>
          have hstep : s.receive libs = some { s with
              receiver := ((TransferJob.modifyTime Disk.fileSys).exec s.receiver).2
              arrived := s.arrived + 1, finished := true } := by
            unfold DirTransfer.receive
            simp only [hget]
          exact ⟨_, _, hstep, ⟨h.sending, .done (h.receiving.finish hfits rfl), hlater, hmore,
            h.errors, iff_of_true rfl rfl⟩, rfl, rfl⟩

theorem Going.step (hlibs : libs.Lossless) (hfits : setup.Fits) {s t : DirTransfer}
    {received sent : SendStatus} (h : setup.Going libs s received sent) {action : DirAction}
    (hstep : s.step libs action = some t) :
    ∃ received' sent', setup.Going libs t received' sent' := by
  cases action with
  | handle =>
      cases hstep
      obtain ⟨sent', h', -⟩ := h.handle hlibs hfits
      exact ⟨received, sent', h'⟩
  | receive =>
      have hreceive : s.receive libs = some t := hstep
      by_cases hmore : s.arrived < s.sender.sent.length
      · obtain ⟨t', received', hreceive', h', -⟩ := h.receive hfits hmore
        obtain rfl : t' = t := Option.some.inj (hreceive'.symm.trans hreceive)
        exact ⟨received', sent, h'⟩
      · unfold DirTransfer.receive at hreceive
        rw [List.getElem?_eq_none (Nat.not_lt.mp hmore)] at hreceive
        cases hreceive

section Stands

variable (hfits : setup.Fits) {m : Nat} {sides : List Key} {d : Disk}

include hfits

end Stands

theorem Receiving.holds {status : SendStatus} {t : JobState Disk Handle}
    (h : setup.Receiving status t) : ∃ m sides, setup.Holds m sides t.fs ∧
      ∀ k ∈ sides, ∃ entry ∈ setup.files, k = setup.download entry ∨ k = setup.digest entry := by
  cases h with
  | fresh hholds => exact ⟨0, [], hholds, List.forall_mem_nil _⟩
  | writing hwrites | whole hwrites =>
      refine ⟨_, _, hwrites.holds, fun k hk => ⟨_, List.mem_of_getElem? hwrites.current, ?_⟩⟩
      rwa [List.mem_cons, List.mem_singleton] at hk
  | done hholds => exact ⟨_, [], hholds, List.forall_mem_nil _⟩

/-- What is still to be sent. -/
def left (setup : DirSetup) (status : SendStatus) : Nat :=
  ((setup.files.drop status.fileNum).map fun entry => (setup.content entry).length + 1).sum -
    status.part.length + (setup.files.length + 1 - status.fileNum)

def normal (name : String) : Component := .normal (utf8Bytes name)

instance (setup : DirSetup) : DecidableRel setup.Apart :=
  fun _ _ => inferInstanceAs (Decidable (_ ∧ _))

end DirSetup

end HbbCommon.Files
