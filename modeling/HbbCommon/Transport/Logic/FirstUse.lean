import HbbCommon.Transport.Logic.TrustedPeers
import HbbCommon.Transport.StoreTasks

/-!
# Trust on first use

An `insert` asks whether the peer has a record and then renames its temporary file over it, so
two first contacts may both find none. Where each `insert` that finds no record is the only one
of its peer, the record is absent until it is renamed, and a second `insert` of the peer follows
a `remove`.
-/

namespace HbbCommon.Transport

open HbbCommon.Base

namespace FileTrustedPeerStore

variable {libs : PairingLibs} {ids : Set String}

/-! ## Steps of a task -/

/-- The record that a task has to do with. -/
def Stage.path? : Stage → Option String
  | .pathExists path | .createNew path _ | .writeAll path _ | .rename path | .cleanUp path _
  | .removeFile path => some path
  | .returned _ => none

/-- The record that a task is going to rename its file to. -/
def Stage.writing? : Stage → Option String
  | .createNew path _ | .writeAll path _ | .rename path => some path
  | _ => none

theorem Stage.path?_of_writing? {stage : Stage} {path : String} (h : stage.writing? = some path) :
    stage.path? = some path := by
  cases stage <;> first | exact h | cases h

/-- What a step does to the records. -/
inductive Outcome (libs : PairingLibs) (d : Directory) (task : Nat) :
    TaskCall → Stage → Directory → Stage → List StoreEvent → Prop
  /-- No record changes. -/
  | quiet {call stage d' stage'}
      (hfiles : ∀ id, d'.get? (recordName libs id) = d.get? (recordName libs id))
      (hpath : ∀ path, stage'.path? = some path → stage.path? = some path)
      (hwriting : ∀ path, stage'.writing? = some path →
        stage.writing? = some path ∨ (stage = .pathExists path ∧ d.get? path = none))
      (hresult : stage' ≠ .returned (.ok true)) : Outcome libs d task call stage d' stage' []
  | inserted {pid record d' path}
      (hpresent : d'.get? path ≠ none)
      (hothers : ∀ id, recordName libs id ≠ path →
        d'.get? (recordName libs id) = d.get? (recordName libs id)) :
      Outcome libs d task (.insert pid record) (.rename path) d' (.returned (.ok true))
        [.inserted record task]
  | removed {peerId d' path}
      (hfiles : ∀ id, d'.get? (recordName libs id) =
        if recordName libs id = path then none else d.get? (recordName libs id)) :
      Outcome libs d task (.remove peerId) (.removeFile path) d' (.returned (.ok true))
        [.removed peerId task]

theorem temporaryPath_ne_recordName {path id : String} (pid : Nat)
    (h : path = recordName libs id) (id' : String) : recordName libs id' ≠ temporaryPath path pid := by
  rw [h, temporaryPath_recordName]
  exact recordName_ne_temporaryName libs pid id id'

theorem outcome_of_advance {d d' : Directory} {i : Nat} {call : TaskCall} {stage stage' : Stage}
    {events : List StoreEvent}
    (hname : ∀ path, stage.path? = some path → path = recordName libs call.peerId)
    (h : advance libs d i call stage = some (d', stage', events)) :
    Outcome libs d i call stage d' stage' events := by
  cases call with
  | insert pid record =>
      cases stage with
      | pathExists path =>
          simp only [advance] at h
          split at h
          · cases h
            exact .quiet (fun _ => rfl) (by simp [Stage.path?]) (by simp [Stage.writing?]) (by simp)
          · rename_i hfree
            have hnone : d.get? path = none :=
              OrdMap.contains_eq_false_iff.mp (Bool.eq_false_iff.mpr hfree)
            split at h
            · cases h
              exact .quiet (fun _ => rfl) (by simp [Stage.path?]) (by simp [Stage.writing?])
                (by simp)
            · cases h
              refine .quiet (fun _ => rfl) (by simp [Stage.path?]) ?_ (by simp)
              simp [Stage.writing?, hnone]
      | createNew path encoded =>
          have htemp := temporaryPath_ne_recordName pid (hname path rfl)
          simp only [advance, Directory.createNew, Effect.exec_ofFun] at h
          split at h
          · rename_i heq
            split at heq
            · cases heq
              cases h
              exact .quiet (fun _ => rfl) (by simp [Stage.path?]) (by simp [Stage.writing?])
                (by simp)
            · cases heq
          · rename_i heq
            split at heq
            · cases heq
            · cases heq
              cases h
              exact .quiet (fun id => by simp [htemp id]) (by simp [Stage.path?])
                (by simp [Stage.writing?]) (by simp)
      | writeAll path encoded =>
          have htemp := temporaryPath_ne_recordName pid (hname path rfl)
          cases h
          exact .quiet (fun id => by simp [Directory.writeAll, htemp id]) (by simp [Stage.path?])
            (by simp [Stage.writing?]) (by simp)
      | rename path =>
          have htemp := temporaryPath_ne_recordName pid (hname path rfl)
          simp only [advance, Directory.rename, Effect.exec_ofFun] at h
          split at h
          · rename_i heq
            split at heq
            · cases heq
            · cases heq
              cases h
              exact .quiet (fun _ => rfl) (by simp [Stage.path?]) (by simp [Stage.writing?])
                (by simp)
          · rename_i heq
            split at heq
            · cases heq
              cases h
              exact .inserted (by simp) (fun id hne => by simp [htemp id, hne])
            · cases heq
      | cleanUp path error =>
          have htemp := temporaryPath_ne_recordName pid (hname path rfl)
          cases h
          refine .quiet (fun id => ?_) (by simp [Stage.path?]) (by simp [Stage.writing?]) (by simp)
          simp only [Directory.removeFile, Effect.exec_ofFun]
          split <;> simp [htemp id]
      | removeFile path => cases h
      | returned result => cases h
  | remove peerId =>
      cases stage with
      | removeFile path =>
          simp only [advance, Directory.removeFile, Effect.exec_ofFun] at h
          split at h
          · rename_i heq
            split at heq
            · cases heq
              cases h
              exact .removed (fun id => by simp)
            · cases heq
          · rename_i heq
            split at heq
            · cases heq
            · cases heq
              cases h
              exact .quiet (fun _ => rfl) (by simp [Stage.path?]) (by simp [Stage.writing?])
                (by simp)
          · rename_i heq
            split at heq
            · cases heq
            · cases heq
              contradiction
      | _ => cases h

/-! ## A task that runs alone -/

/-- Steps of one task, until the call returns. -/
inductive Finishes (libs : PairingLibs) (task : Nat) (call : TaskCall) :
    Directory → Stage → Directory → Except PairingError Bool → Prop
  | returned {d result} : Finishes libs task call d (.returned result) d result
  | step {d stage d' stage' events d'' result} :
      advance libs d task call stage = some (d', stage', events) →
      Finishes libs task call d' stage' d'' result → Finishes libs task call d stage d'' result

theorem Finishes.runFrom {i : Nat} {call : TaskCall} {d d' : Directory} {stage : Stage}
    {result : Except PairingError Bool} (h : Finishes libs i call d stage d' result)
    {s : SharedStore} (hfiles : s.files = d) (htask : s.tasks[i]? = some ⟨call, stage⟩) :
    ∃ n s', (sharedSystem libs).runFrom s (List.replicate n (.step i)) = some s' ∧
      s'.files = d' ∧ s'.tasks[i]? = some ⟨call, .returned result⟩ := by
  induction h generalizing s with
  | returned => exact ⟨0, s, rfl, hfiles, htask⟩
  | @step d stage d' stage' events d'' result hadvance _ ih =>
      subst hfiles
      have hi : i < s.tasks.length := (List.getElem?_eq_some_iff.mp htask).1
      obtain ⟨n, s', hrun, hstate⟩ := ih
        (s := { files := d', tasks := s.tasks.set i ⟨call, stage'⟩, log := s.log ++ events })
        rfl (List.getElem?_set_self hi)
      refine ⟨n + 1, s', ?_, hstate⟩
      rw [List.replicate_succ, TSys.runFrom]
      simp only [sharedSystem, htask, hadvance, Option.map_some, Option.bind_some]
      exact hrun

/-- An `insert` that runs alone does what `insert` does without failures. -/
theorem finishes_insert (d : Directory) (i pid : Nat) (record : TrustedPeerRecord) :
    Finishes libs i (.insert pid record) d (start libs (.insert pid record))
      ((insert libs pid .none record).exec d).2
      (((insert libs pid .none record).exec d).1.map (fun _ => true)) := by
  cases hvalid : record.validate libs with
  | error error =>
      simp only [start, insert, Effect.exec_bind, exec_check, hvalid]
      exact .returned
  | ok none =>
      have hpath := recordPath_of_valid libs (validatePeerId_of_validate hvalid)
      have hstart : start libs (.insert pid record) =
          .pathExists (recordName libs record.peerId) := by simp [start, hvalid, hpath]
      rw [hstart]
      cases hpresent : d.contains (recordName libs record.peerId) with
      | true =>
          have hexec : (insert libs pid .none record).exec d = (.error .alreadyPaired, d) := by
            simp [insert, Effect.exec_bind, hvalid, hpath, hpresent]
          have hasked : advance libs d i (.insert pid record)
              (.pathExists (recordName libs record.peerId)) =
              some (d, .returned (.error .alreadyPaired), []) := by
            simp only [advance, hpresent, if_true]
          rw [hexec]
          exact .step hasked .returned
      | false =>
          have hadmits : Admits .insert libs record d :=
            fun _ => OrdMap.contains_eq_false_iff.mp hpresent
          have hexec : (insert libs pid .none record).exec d = _ :=
            exec_run hadmits
          rw [hexec]
          cases htext : libs.toVecPretty (.fromRecord libs record) with
          | none =>
              have hasked : advance libs d i (.insert pid record)
                  (.pathExists (recordName libs record.peerId)) =
                  some (d, .returned (.error .invalidRecord), []) := by
                simp [advance, hpresent, htext]
              have hwrite : (writeRecord libs pid .none record).exec d =
                  (.error .invalidRecord, d) := by
                simp [writeRecord, Effect.exec_bind, hvalid, hpath, htext]
              rw [hwrite]
              exact .step hasked .returned
          | some encoded =>
              have hasked : advance libs d i (.insert pid record)
                  (.pathExists (recordName libs record.peerId)) =
                  some (d, .createNew (recordName libs record.peerId) encoded, []) := by
                simp [advance, hpresent, htext]
              refine .step hasked ?_
              cases htemp : d.contains (temporaryName libs pid record.peerId) with
              | true =>
                  have hcreate : advance libs d i (.insert pid record)
                      (.createNew (recordName libs record.peerId) encoded) =
                      some (d, .returned (.error (.io .alreadyExists)), []) := by
                    simp [advance, Directory.createNew, temporaryPath_recordName, htemp]
                  have hwrite : (writeRecord libs pid .none record).exec d =
                      (.error (.io .alreadyExists), d) := by
                    simp [writeRecord, Effect.exec_bind, hvalid, hpath, htext, Faults.none,
                      Directory.unlessFault, Directory.createNew, htemp,
                      temporaryPath_recordName, Except.mapError]
                  rw [hwrite]
                  exact .step hcreate .returned
              | false =>
                  have hnone := OrdMap.contains_eq_false_iff.mp htemp
                  have hcreate : advance libs d i (.insert pid record)
                      (.createNew (recordName libs record.peerId) encoded) =
                      some (d.insert (temporaryName libs pid record.peerId) [],
                        .writeAll (recordName libs record.peerId) encoded, []) := by
                    simp [advance, Directory.createNew, temporaryPath_recordName, htemp]
                  have hwriteAll : advance libs (d.insert (temporaryName libs pid record.peerId) [])
                      i (.insert pid record) (.writeAll (recordName libs record.peerId) encoded) =
                      some (d.insert (temporaryName libs pid record.peerId) encoded,
                        .rename (recordName libs record.peerId), []) := by
                    simp [advance, Directory.writeAll, temporaryPath_recordName, OrdMap.insert_insert]
                  have hrename : advance libs
                      (d.insert (temporaryName libs pid record.peerId) encoded) i
                      (.insert pid record) (.rename (recordName libs record.peerId)) =
                      some (d.insert (recordName libs record.peerId) encoded,
                        .returned (.ok true), [.inserted record i]) := by
                    simp [advance, temporaryPath_recordName, exec_rename encoded hnone]
                  rw [exec_writeRecord ⟨hvalid, htext⟩ hnone]
                  exact .step hcreate (.step hwriteAll (.step hrename .returned))

/-- A `remove` that runs alone does what `remove` does without failures. -/
theorem finishes_remove (d : Directory) (i : Nat) (peerId : String) :
    Finishes libs i (.remove peerId) d (start libs (.remove peerId))
      ((remove libs false peerId).exec d).2 ((remove libs false peerId).exec d).1 := by
  cases hid : validatePeerId peerId with
  | error error =>
      have hpath : recordPath libs peerId = .error error := by
        rw [recordPath, hid]
        rfl
      have hexec : (remove libs false peerId).exec d = (.error error, d) := by
        rw [remove, hpath]
        rfl
      have hstart : start libs (.remove peerId) = .returned (.error error) := by
        simp [start, hpath]
      rw [hexec, hstart]
      exact .returned
  | ok none =>
      have hpath := recordPath_of_valid libs hid
      have hstart : start libs (.remove peerId) = .removeFile (recordName libs peerId) := by
        simp [start, hpath]
      rw [hstart]
      cases hpresent : d.contains (recordName libs peerId) with
      | true =>
          have hremove : advance libs d i (.remove peerId) (.removeFile (recordName libs peerId)) =
              some (d.erase (recordName libs peerId), .returned (.ok true),
                [.removed peerId i]) := by simp [advance, Directory.removeFile, hpresent]
          have hexec : (remove libs false peerId).exec d =
              (.ok true, d.erase (recordName libs peerId)) := by
            simp [remove, Effect.exec_bind, hpath, Directory.unlessFault, Directory.removeFile,
              hpresent, Except.mapError]
          rw [hexec]
          exact .step hremove .returned
      | false =>
          have hremove : advance libs d i (.remove peerId) (.removeFile (recordName libs peerId)) =
              some (d, .returned (.ok false), []) := by
            simp [advance, Directory.removeFile, hpresent]
          have hexec : (remove libs false peerId).exec d = (.ok false, d) := by
            simp [remove, Effect.exec_bind, hpath, Directory.unlessFault, Directory.removeFile,
              hpresent, Except.mapError]
          rw [hexec]
          exact .step hremove .returned

/-! ## The log -/

/-- Between two insertions for one peer there is a removal of it. -/
def Separated (log : List StoreEvent) : Prop :=
  ∀ a i b j, a.peerId = b.peerId →
    [StoreEvent.inserted a i, .inserted b j].Sublist log →
      ∃ k, [StoreEvent.inserted a i, .removed a.peerId k, .inserted b j].Sublist log

/-- A pair at the end of a list, or in front of it. -/
theorem pair_sublist_concat {α : Type} {x y z : α} {l : List α}
    (h : [x, y].Sublist (l ++ [z])) : [x, y].Sublist l ∨ (x ∈ l ∧ y = z) := by
  obtain ⟨front, back, hsplit, hfront, hback⟩ := List.sublist_append_iff.mp h
  rcases List.sublist_singleton.mp hback with rfl | rfl
  · rw [List.append_nil] at hsplit
    exact .inl (hsplit ▸ hfront)
  · have hparts : [x] ++ [y] = front ++ [z] := hsplit
    obtain ⟨rfl, hy⟩ := List.append_inj' hparts rfl
    exact .inr ⟨List.singleton_sublist.mp hfront, List.singleton_inj.mp hy⟩

theorem pair_sublist_of_mem {α : Type} {x y : α} {l : List α} (hx : x ∈ l) (hy : y ∈ l)
    (hne : x ≠ y) : [x, y].Sublist l ∨ [y, x].Sublist l := by
  induction l with
  | nil => cases hx
  | cons z rest ih =>
      rcases List.mem_cons.mp hx with hxz | hxrest
      · rcases List.mem_cons.mp hy with hyz | hyrest
        · exact absurd (hxz.trans hyz.symm) hne
        · rw [hxz]
          exact .inl ((List.singleton_sublist.mpr hyrest).cons_cons z)
      · rcases List.mem_cons.mp hy with hyz | hyrest
        · rw [hyz]
          exact .inr ((List.singleton_sublist.mpr hxrest).cons_cons z)
        · exact (ih hxrest hyrest).imp (·.cons z) (·.cons z)

theorem Separated.removed {log : List StoreEvent} (h : Separated log) (peerId : String) (k : Nat) :
    Separated (log ++ [.removed peerId k]) := by
  intro a i b j hid hpair
  rcases pair_sublist_concat hpair with hpair | ⟨-, heq⟩
  · obtain ⟨k', hbetween⟩ := h a i b j hid hpair
    exact ⟨k', hbetween.trans (List.sublist_append_left _ _)⟩
  · cases heq

theorem Separated.inserted {log : List StoreEvent} (h : Separated log) {b : TrustedPeerRecord}
    {j : Nat} (hgone : ∀ a i, StoreEvent.inserted a i ∈ log → a.peerId = b.peerId →
      ∃ k, [StoreEvent.inserted a i, .removed a.peerId k].Sublist log) :
    Separated (log ++ [.inserted b j]) := by
  intro a i b' j' hid hpair
  rcases pair_sublist_concat hpair with hpair | ⟨hmem, heq⟩
  · obtain ⟨k, hbetween⟩ := h a i b' j' hid hpair
    exact ⟨k, hbetween.trans (List.sublist_append_left _ _)⟩
  · cases heq
    obtain ⟨k, hbetween⟩ := hgone a i hmem hid
    exact ⟨k, hbetween.append (List.Sublist.refl [StoreEvent.inserted b j])⟩

/-! ## One insertion of a peer at a time -/

/-- What holds when every `insert` that finds no record is the only one of its peer. -/
structure FirstUse (libs : PairingLibs) (ids : Set String) (s : SharedStore) : Prop where
  named : ∀ (i : Nat) (t : StoreTask), s.tasks[i]? = some t → t.call.peerId ∈ ids ∧
    ∀ path, t.stage.path? = some path → path = recordName libs t.call.peerId
  /-- One task at a time writes a record, and the record is absent. -/
  one : ∀ (i j : Nat) (t u : StoreTask) (path : String), s.tasks[i]? = some t →
    s.tasks[j]? = some u → t.stage.writing? = some path → u.stage.writing? = some path → i = j
  absent : ∀ (i : Nat) (t : StoreTask) (path : String), s.tasks[i]? = some t →
    t.stage.writing? = some path → s.files.get? path = none
  insertedLogged : ∀ (i pid : Nat) (record : TrustedPeerRecord),
    s.tasks[i]? = some ⟨.insert pid record, .returned (.ok true)⟩ → .inserted record i ∈ s.log
  removedLogged : ∀ (k : Nat) (id : String), .removed id k ∈ s.log →
    s.tasks[k]? = some ⟨.remove id, .returned (.ok true)⟩
  insertedIds : ∀ (i : Nat) (record : TrustedPeerRecord), .inserted record i ∈ s.log →
    record.peerId ∈ ids
  gone : ∀ (i : Nat) (a : TrustedPeerRecord), .inserted a i ∈ s.log →
    s.files.get? (recordName libs a.peerId) = none →
      ∃ k, [StoreEvent.inserted a i, .removed a.peerId k].Sublist s.log
  separated : Separated s.log

/-- The task is not about to find no record while another task is about to write it. -/
def alone (s : SharedStore) (i : Nat) : Bool :=
  match s.tasks[i]? with
  | some ⟨_, .pathExists path⟩ =>
      s.files.contains path || s.tasks.all (fun u => u.stage.writing? ≠ some path)
  | _ => true

/-- Calls for the given peers, where an `insert` that finds no record is alone. -/
def OneAtATime (ids : Set String) (s : SharedStore) : StoreAction → Prop
  | .begin call => call.peerId ∈ ids
  | .step i => alone s i

instance (ids : Set String) [DecidablePred (· ∈ ids)] (s : SharedStore) :
    ∀ action, Decidable (OneAtATime ids s action)
  | .begin call => inferInstanceAs (Decidable (call.peerId ∈ ids))
  | .step i => inferInstanceAs (Decidable (alone s i = true))

theorem writing_ne_of_alone {s : SharedStore} {i j : Nat} {t u : StoreTask} {path : String}
    (halone : alone s i) (hi : s.tasks[i]? = some t) (hstage : t.stage = .pathExists path)
    (hnone : s.files.get? path = none) (hj : s.tasks[j]? = some u) :
    u.stage.writing? ≠ some path := by
  obtain ⟨call, stage⟩ := t
  simp only at hstage
  subst hstage
  rw [alone, hi] at halone
  simp only [OrdMap.contains_eq_false_iff.mpr hnone, Bool.false_or, List.all_eq_true,
    decide_eq_true_eq] at halone
  exact halone u (List.mem_of_getElem? hj)

theorem FirstUse.init : FirstUse libs ids (sharedSystem libs).init where
  named := by simp [sharedSystem]
  one := by simp [sharedSystem]
  absent := by simp [sharedSystem]
  insertedLogged := by simp [sharedSystem]
  removedLogged := by simp [sharedSystem]
  insertedIds := by simp [sharedSystem]
  gone := by simp [sharedSystem]
  separated := by
    intro a i b j _ hpair
    cases hpair

/-- A call that begins has written nothing. -/
theorem start_cases (libs : PairingLibs) (call : TaskCall) :
    (start libs call).writing? = none ∧ start libs call ≠ .returned (.ok true) ∧
      ∀ path, (start libs call).path? = some path → path = recordName libs call.peerId := by
  have hpath : ∀ {id path}, recordPath libs id = .ok path → path = recordName libs id := by
    intro id path h
    cases hid : validatePeerId id with
    | error error =>
        rw [recordPath, hid] at h
        cases h
    | ok none =>
        rw [recordPath_of_valid libs hid] at h
        cases h
        rfl
  cases call with
  | insert pid record =>
      cases hvalid : record.validate libs with
      | error error => simp [start, hvalid, Stage.writing?, Stage.path?]
      | ok none =>
          cases hrecord : recordPath libs record.peerId with
          | error error => simp [start, hvalid, hrecord, Stage.writing?, Stage.path?]
          | ok path =>
              have := hpath hrecord
              simpa [start, hvalid, hrecord, Stage.writing?, Stage.path?, TaskCall.peerId]
  | remove peerId =>
      cases hrecord : recordPath libs peerId with
      | error error => simp [start, hrecord, Stage.writing?, Stage.path?]
      | ok path =>
          have := hpath hrecord
          simpa [start, hrecord, Stage.writing?, Stage.path?, TaskCall.peerId]

theorem FirstUse.begin {s : SharedStore} (h : FirstUse libs ids s) {call : TaskCall}
    (hid : call.peerId ∈ ids) :
    FirstUse libs ids { s with tasks := s.tasks ++ [⟨call, start libs call⟩] } := by
  obtain ⟨hwriting, hresult, hpath⟩ := start_cases libs call
  -- a task is one of before, or the new one
  have hcases : ∀ (i : Nat) (t : StoreTask),
      (s.tasks ++ [⟨call, start libs call⟩])[i]? = some t →
        s.tasks[i]? = some t ∨ t = ⟨call, start libs call⟩ := by
    intro i t hget
    rw [List.getElem?_append] at hget
    split at hget
    · exact .inl hget
    · have := List.mem_of_getElem? hget
      exact .inr (List.mem_singleton.mp this)
  constructor
  case named =>
    intro i t hget
    rcases hcases i t hget with hold | rfl
    · exact h.named i t hold
    · exact ⟨hid, hpath⟩
  case one =>
    intro i j t u path hi hj ht hu
    rcases hcases i t hi with hi | rfl
    · rcases hcases j u hj with hj | rfl
      · exact h.one i j t u path hi hj ht hu
      · rw [hwriting] at hu
        cases hu
    · rw [hwriting] at ht
      cases ht
  case absent =>
    intro i t path hi ht
    rcases hcases i t hi with hi | rfl
    · exact h.absent i t path hi ht
    · rw [hwriting] at ht
      cases ht
  case insertedLogged =>
    intro i pid record hi
    rcases hcases i _ hi with hi | heq
    · exact h.insertedLogged i pid record hi
    · exact absurd (congrArg StoreTask.stage heq).symm hresult
  case removedLogged =>
    intro k id hmem
    have hold := h.removedLogged k id hmem
    exact List.getElem?_append_left (List.getElem?_eq_some_iff.mp hold).1 ▸ hold
  case insertedIds => exact h.insertedIds
  case gone => exact h.gone
  case separated => exact h.separated

/-- A task after a step of another or of its own. -/
theorem getElem?_set_cases {tasks : List StoreTask} {i j : Nat} {t u : StoreTask}
    (h : (tasks.set i t)[j]? = some u) : (j = i ∧ u = t) ∨ (j ≠ i ∧ tasks[j]? = some u) := by
  rw [List.getElem?_set] at h
  split at h
  · rename_i hij
    split at h
    · cases h
      exact .inl ⟨hij.symm, rfl⟩
    · cases h
  · rename_i hij
    exact .inr ⟨fun heq => hij heq.symm, h⟩

/-- A step that changes no record. -/
theorem FirstUse.quiet {s : SharedStore} (h : FirstUse libs ids s) {i : Nat} {t : StoreTask}
    {d' : Directory} {stage' : Stage} (hget : s.tasks[i]? = some t) (halone : alone s i)
    (hfiles : ∀ id, d'.get? (recordName libs id) = s.files.get? (recordName libs id))
    (hpath : ∀ path, stage'.path? = some path → t.stage.path? = some path)
    (hwriting : ∀ path, stage'.writing? = some path →
      t.stage.writing? = some path ∨ (t.stage = .pathExists path ∧ s.files.get? path = none))
    (hresult : stage' ≠ .returned (.ok true)) (hrunning : t.stage ≠ .returned (.ok true)) :
    FirstUse libs ids { files := d', tasks := s.tasks.set i ⟨t.call, stage'⟩, log := s.log } := by
  constructor
  case named =>
    intro j u hj
    rcases getElem?_set_cases hj with ⟨-, rfl⟩ | ⟨-, hj⟩
    · obtain ⟨hid, hname⟩ := h.named i t hget
      exact ⟨hid, fun path hp => hname path (hpath path hp)⟩
    · exact h.named j u hj
  case one =>
    intro j k u v path hj hk hu hv
    -- what another task writes is not what this one writes or finds absent
    have hother : ∀ (k : Nat) (v : StoreTask), k ≠ i → s.tasks[k]? = some v →
        v.stage.writing? = some path → stage'.writing? ≠ some path := by
      intro k v hki hk hv hs
      rcases hwriting path hs with hold | ⟨hstage, hnone⟩
      · exact hki (h.one k i v t path hk hget hv hold)
      · exact writing_ne_of_alone halone hget hstage hnone hk hv
    rcases getElem?_set_cases hj with ⟨hji, rfl⟩ | ⟨hji, hjold⟩
    · rcases getElem?_set_cases hk with ⟨hki, rfl⟩ | ⟨hki, hkold⟩
      · rw [hji, hki]
      · exact absurd hu (hother k v hki hkold hv)
    · rcases getElem?_set_cases hk with ⟨hki, rfl⟩ | ⟨hki, hkold⟩
      · exact absurd hv (hother j u hji hjold hu)
      · exact h.one j k u v path hjold hkold hu hv
  case absent =>
    intro j u path hj hu
    rcases getElem?_set_cases hj with ⟨rfl, rfl⟩ | ⟨hji, hj⟩
    · have hname : path = recordName libs t.call.peerId :=
        (h.named j t hget).2 path (hpath path (Stage.path?_of_writing? hu))
      show d'.get? path = none
      rw [hname, hfiles, ← hname]
      rcases hwriting path hu with hold | ⟨-, hnone⟩
      · exact h.absent j t path hget hold
      · exact hnone
    · have hname : path = recordName libs u.call.peerId :=
        (h.named j u hj).2 path (Stage.path?_of_writing? hu)
      show d'.get? path = none
      rw [hname, hfiles, ← hname]
      exact h.absent j u path hj hu
  case insertedLogged =>
    intro j pid record hj
    rcases getElem?_set_cases hj with ⟨-, heq⟩ | ⟨-, hj⟩
    · exact absurd (congrArg StoreTask.stage heq).symm hresult
    · exact h.insertedLogged j pid record hj
  case removedLogged =>
    intro k id hmem
    have hk := h.removedLogged k id hmem
    show (s.tasks.set i _)[k]? = _
    rw [List.getElem?_set_ne, hk]
    rintro rfl
    rw [hget] at hk
    cases hk
    exact hrunning rfl
  case insertedIds => exact h.insertedIds
  case gone =>
    intro j a hmem hnone
    exact h.gone j a hmem ((hfiles a.peerId).symm.trans hnone)
  case separated => exact h.separated

/-- An `insert` that renames its file. -/
theorem FirstUse.inserted {s : SharedStore} (h : FirstUse libs ids s) {i pid : Nat}
    {record : TrustedPeerRecord} {path : String} {d' : Directory}
    (hget : s.tasks[i]? = some ⟨.insert pid record, .rename path⟩)
    (hpresent : d'.get? path ≠ none)
    (hothers : ∀ id, recordName libs id ≠ path →
      d'.get? (recordName libs id) = s.files.get? (recordName libs id)) :
    FirstUse libs ids
      { files := d'
        tasks := s.tasks.set i ⟨.insert pid record, .returned (.ok true)⟩
        log := s.log ++ [.inserted record i] } := by
  obtain ⟨hid, hname⟩ := h.named i _ hget
  have hname : path = recordName libs record.peerId := hname path rfl
  have habsent := h.absent i _ path hget rfl
  constructor
  case named =>
    intro j u hj
    rcases getElem?_set_cases hj with ⟨-, rfl⟩ | ⟨-, hj⟩
    · exact ⟨hid, fun path hp => by cases hp⟩
    · exact h.named j u hj
  case one =>
    intro j k u v path' hj hk hu hv
    rcases getElem?_set_cases hj with ⟨rfl, rfl⟩ | ⟨-, hj⟩
    · cases hu
    · rcases getElem?_set_cases hk with ⟨rfl, rfl⟩ | ⟨-, hk⟩
      · cases hv
      · exact h.one j k u v path' hj hk hu hv
  case absent =>
    intro j u path' hj hu
    rcases getElem?_set_cases hj with ⟨rfl, rfl⟩ | ⟨hji, hj⟩
    · cases hu
    · -- the other task writes another record
      have hne : path' ≠ path := by
        rintro rfl
        exact hji (h.one j i u _ path' hj hget hu rfl)
      have hname' : path' = recordName libs u.call.peerId :=
        (h.named j u hj).2 path' (Stage.path?_of_writing? hu)
      show d'.get? path' = none
      rw [hname'] at hne ⊢
      rw [hothers _ hne, ← hname']
      exact h.absent j u path' hj hu
  case insertedLogged =>
    intro j pid' record' hj
    rcases getElem?_set_cases hj with ⟨rfl, heq⟩ | ⟨-, hj⟩
    · cases heq
      exact List.mem_append_right _ (List.mem_singleton_self _)
    · exact List.mem_append_left _ (h.insertedLogged j pid' record' hj)
  case removedLogged =>
    intro k id hmem
    rcases List.mem_append.mp hmem with hmem | hmem
    · have hk := h.removedLogged k id hmem
      show (s.tasks.set i _)[k]? = _
      rw [List.getElem?_set_ne, hk]
      rintro rfl
      rw [hget] at hk
      cases hk
    · cases List.mem_singleton.mp hmem
  case insertedIds =>
    intro j a hmem
    rcases List.mem_append.mp hmem with hmem | hmem
    · exact h.insertedIds j a hmem
    · cases List.mem_singleton.mp hmem
      exact hid
  case gone =>
    intro j a hmem hnone
    have hne : recordName libs a.peerId ≠ path := by
      intro heq
      rw [heq] at hnone
      exact hpresent hnone
    rcases List.mem_append.mp hmem with hmem | hmem
    · obtain ⟨k, hpair⟩ := h.gone j a hmem ((hothers _ hne).symm.trans hnone)
      exact ⟨k, hpair.trans (List.sublist_append_left _ _)⟩
    · cases List.mem_singleton.mp hmem
      exact absurd hname.symm hne
  case separated =>
    refine h.separated.inserted (fun a j hmem hsame => h.gone j a hmem ?_)
    rw [hsame, ← hname]
    exact habsent

/-- The digests of the ids are different. -/
def NoCollision (libs : PairingLibs) (ids : Set String) : Prop :=
  ∀ a ∈ ids, ∀ b ∈ ids, libs.sha256 (utf8Bytes a) = libs.sha256 (utf8Bytes b) → a = b

/-- A `remove` that finds a record. -/
theorem FirstUse.removed (hcollision : NoCollision libs ids) {s : SharedStore}
    (h : FirstUse libs ids s) {i : Nat} {peerId path : String} {d' : Directory}
    (hget : s.tasks[i]? = some ⟨.remove peerId, .removeFile path⟩)
    (hfiles : ∀ id, d'.get? (recordName libs id) =
      if recordName libs id = path then none else s.files.get? (recordName libs id)) :
    FirstUse libs ids
      { files := d'
        tasks := s.tasks.set i ⟨.remove peerId, .returned (.ok true)⟩
        log := s.log ++ [.removed peerId i] } := by
  obtain ⟨hid, hname⟩ := h.named i _ hget
  have hname : path = recordName libs peerId := hname path rfl
  constructor
  case named =>
    intro j u hj
    rcases getElem?_set_cases hj with ⟨-, rfl⟩ | ⟨-, hjold⟩
    · exact ⟨hid, fun path hp => by cases hp⟩
    · exact h.named j u hjold
  case one =>
    intro j k u v path' hj hk hu hv
    rcases getElem?_set_cases hj with ⟨-, rfl⟩ | ⟨-, hjold⟩
    · cases hu
    · rcases getElem?_set_cases hk with ⟨-, rfl⟩ | ⟨-, hkold⟩
      · cases hv
      · exact h.one j k u v path' hjold hkold hu hv
  case absent =>
    intro j u path' hj hu
    rcases getElem?_set_cases hj with ⟨-, rfl⟩ | ⟨-, hjold⟩
    · cases hu
    · have hname' : path' = recordName libs u.call.peerId :=
        (h.named j u hjold).2 path' (Stage.path?_of_writing? hu)
      show d'.get? path' = none
      rw [hname', hfiles, ← hname']
      split
      · rfl
      · exact h.absent j u path' hjold hu
  case insertedLogged =>
    intro j pid' record' hj
    rcases getElem?_set_cases hj with ⟨-, heq⟩ | ⟨-, hjold⟩
    · cases heq
    · exact List.mem_append_left _ (h.insertedLogged j pid' record' hjold)
  case removedLogged =>
    intro k id hmem
    rcases List.mem_append.mp hmem with hold | hnew
    · have hk := h.removedLogged k id hold
      show (s.tasks.set i _)[k]? = _
      rw [List.getElem?_set_ne, hk]
      rintro rfl
      rw [hget] at hk
      cases hk
    · cases List.mem_singleton.mp hnew
      exact List.getElem?_set_self (List.getElem?_eq_some_iff.mp hget).1
  case insertedIds =>
    intro j a hmem
    rcases List.mem_append.mp hmem with hold | hnew
    · exact h.insertedIds j a hold
    · cases List.mem_singleton.mp hnew
  case gone =>
    intro j a hmem hnone
    rcases List.mem_append.mp hmem with hold | hnew
    · by_cases heq : recordName libs a.peerId = path
      · -- this removal is the one of the peer
        have hsame : a.peerId = peerId :=
          hcollision a.peerId (h.insertedIds j a hold) peerId hid
            (recordName_eq_iff.mp (heq.trans hname))
        rw [hsame]
        exact ⟨i, (List.singleton_sublist.mpr hold).append (.refl [StoreEvent.removed peerId i])⟩
      · have hold' := hfiles a.peerId
        rw [if_neg heq] at hold'
        obtain ⟨k, hpair⟩ := h.gone j a hold (hold'.symm.trans hnone)
        exact ⟨k, hpair.trans (List.sublist_append_left _ _)⟩
    · cases List.mem_singleton.mp hnew
  case separated => exact h.separated.removed peerId i

theorem advance_returned {d : Directory} {i : Nat} {call : TaskCall}
    {result : Except PairingError Bool} : advance libs d i call (.returned result) = none := by
  cases call <;> rfl

/-- The invariant holds in every state that is reached by insertions that are alone. -/
theorem firstUse_of_reach (hcollision : NoCollision libs ids) {s : SharedStore}
    (h : (sharedSystem libs).Reach (OneAtATime ids) s) : FirstUse libs ids s := by
  refine h.invariant .init (fun s action s' hs hguard hstep => ?_)
  cases action with
  | begin call =>
      cases hstep
      exact hs.begin hguard
  | step i =>
      simp only [sharedSystem] at hstep
      cases hget : s.tasks[i]? with
      | none =>
          rw [hget] at hstep
          cases hstep
      | some t =>
          rw [hget] at hstep
          obtain ⟨⟨d', stage', events⟩, hadvance, rfl⟩ := Option.map_eq_some_iff.mp hstep
          have houtcome := outcome_of_advance (hs.named i t hget).2 hadvance
          have hrunning : t.stage ≠ .returned (.ok true) := by
            intro hstage
            rw [hstage, advance_returned] at hadvance
            cases hadvance
          obtain ⟨call, stage⟩ := t
          cases houtcome with
          | quiet hfiles hpath hwriting hresult =>
              have hquiet := hs.quiet hget hguard hfiles hpath hwriting hresult hrunning
              simpa using hquiet
          | inserted hpresent hothers => exact hs.inserted hget hpresent hothers
          | removed hfiles => exact hs.removed hcollision hget hfiles

/-- Two insertions for one peer that returned `Ok`: a removal of the peer, which returned true,
took effect between them. -/
def RemovedBetween (s : SharedStore) : Prop :=
  ∀ (i j pid pid' : Nat) (a b : TrustedPeerRecord), i ≠ j → a.peerId = b.peerId →
    s.tasks[i]? = some ⟨.insert pid a, .returned (.ok true)⟩ →
    s.tasks[j]? = some ⟨.insert pid' b, .returned (.ok true)⟩ →
    ∃ k : Nat, s.tasks[k]? = some ⟨.remove a.peerId, .returned (.ok true)⟩ ∧
      ([StoreEvent.inserted a i, .removed a.peerId k, .inserted b j].Sublist s.log ∨
        [StoreEvent.inserted b j, .removed a.peerId k, .inserted a i].Sublist s.log)

/-- No insertion replaces the record of another one, when each that finds no record is alone. -/
theorem removed_between_inserts (hcollision : NoCollision libs ids) {s : SharedStore}
    (h : (sharedSystem libs).Reach (OneAtATime ids) s) : RemovedBetween s := by
  have hs := firstUse_of_reach hcollision h
  intro i j pid pid' a b hij hid hi hj
  have hmem := hs.insertedLogged i pid a hi
  have hmem' := hs.insertedLogged j pid' b hj
  rcases pair_sublist_of_mem hmem hmem' (by simp [hij]) with hpair | hpair
  · obtain ⟨k, hbetween⟩ := hs.separated a i b j hid hpair
    exact ⟨k, hs.removedLogged k a.peerId (hbetween.subset (by simp)), .inl hbetween⟩
  · obtain ⟨k, hbetween⟩ := hs.separated b j a i hid.symm hpair
    rw [← hid] at hbetween
    exact ⟨k, hs.removedLogged k a.peerId (hbetween.subset (by simp)), .inr hbetween⟩

/-- An insertion, a removal and another insertion of a peer. -/
def sampleRun : List StoreAction :=
  [.begin (.insert 1 (sampleRecord "alice" 1)), .step 0, .step 0, .step 0, .step 0,
    .begin (.remove "alice"), .step 1,
    .begin (.insert 2 (sampleRecord "alice" 2)), .step 2, .step 2, .step 2, .step 2]

theorem removed_between_sample : ∃ s, (sharedSystem sampleLibs).run sampleRun = some s ∧
    (s.tasks.map StoreTask.stage = List.replicate 3 (.returned (.ok true))) ∧
    RemovedBetween s := by
  have hcollision : NoCollision sampleLibs {id | id = "alice"} := by
    rintro a rfl b rfl _
    rfl
  obtain ⟨s, hrun⟩ := Option.isSome_iff_exists.mp
    (show ((sharedSystem sampleLibs).run sampleRun).isSome by decide +kernel)
  have hreach := TSys.reach_of_run (G := OneAtATime {id | id = "alice"}) sampleRun
    (by decide +kernel) hrun
  have hstages : ((sharedSystem sampleLibs).run sampleRun).map (fun s => s.tasks.map
      StoreTask.stage) = some (List.replicate 3 (.returned (.ok true))) := by decide +kernel
  rw [hrun] at hstages
  exact ⟨s, hrun, Option.some.inj hstages, removed_between_inserts hcollision hreach⟩

/-- Two processes ask before either of them renames its file. -/
def raceRun : List StoreAction :=
  [.begin (.insert 1 (sampleRecord "alice" 1)), .begin (.insert 2 (sampleRecord "alice" 2)),
    .step 0, .step 1, .step 0, .step 0, .step 0, .step 1, .step 1, .step 1]

/-- Both insertions return `Ok` and nothing was removed. -/
theorem insert_replaces_insert : NoCollision sampleLibs {id | id = "alice"} ∧
    ∃ s, (sharedSystem sampleLibs).run raceRun = some s ∧
      s.tasks = [⟨.insert 1 (sampleRecord "alice" 1), .returned (.ok true)⟩,
        ⟨.insert 2 (sampleRecord "alice" 2), .returned (.ok true)⟩] ∧
      ¬ RemovedBetween s := by
  have hcollision : NoCollision sampleLibs {id | id = "alice"} := by
    rintro a rfl b rfl _
    rfl
  obtain ⟨s, hrun⟩ := Option.isSome_iff_exists.mp
    (show ((sharedSystem sampleLibs).run raceRun).isSome by decide +kernel)
  have htasks : ((sharedSystem sampleLibs).run raceRun).map SharedStore.tasks =
      some [⟨.insert 1 (sampleRecord "alice" 1), .returned (.ok true)⟩,
        ⟨.insert 2 (sampleRecord "alice" 2), .returned (.ok true)⟩] := by decide +kernel
  rw [hrun] at htasks
  have htasks : s.tasks = _ := Option.some.inj htasks
  refine ⟨hcollision, s, hrun, htasks, fun hbetween => ?_⟩
  obtain ⟨k, hk, -⟩ := hbetween 0 1 1 2 (sampleRecord "alice" 1) (sampleRecord "alice" 2)
    (by decide) rfl (by rw [htasks]; rfl) (by rw [htasks]; rfl)
  rw [htasks] at hk
  have hmem := List.mem_of_getElem? hk
  simp at hmem

end FileTrustedPeerStore

end HbbCommon.Transport
