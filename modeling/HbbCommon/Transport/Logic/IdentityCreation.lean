import HbbCommon.Transport.Identity

/-!
# Creating the TLS identity

The key is renamed before the certificate, so a directory with a certificate has its key too. A
process that stops between the two renames leaves a key without a certificate, which every later
call refuses. Where at most one process at a time generates an identity, the files hold one that
was generated, or the key of one.
-/

namespace HbbCommon.Transport

open HbbCommon.Base

/-! ## Names -/

namespace IdentityFile

theorem name_ne_temporary (f g : IdentityFile) (pid : Nat) : f.name ≠ g.temporary pid := by
  intro h
  have hhead := congrArg (fun s => s.toList.head?) h
  cases f <;> cases g <;> simp [name, temporary] at hhead

theorem temporary_inj {f g : IdentityFile} {m n : Nat} (h : f.temporary m = g.temporary n) :
    f = g ∧ m = n := by
  have hlist := congrArg String.toList h
  cases f <;> cases g
  · simp only [temporary, String.toList_append, List.append_assoc,
      List.append_cancel_left_eq] at hlist
    exact ⟨rfl, Nat.repr_injective (String.toList_injective hlist)⟩
  · simp [temporary, name] at hlist
  · simp [temporary, name] at hlist
  · simp only [temporary, String.toList_append, List.append_assoc,
      List.append_cancel_left_eq] at hlist
    exact ⟨rfl, Nat.repr_injective (String.toList_injective hlist)⟩

end IdentityFile

namespace LocalTlsIdentity

/-! ## Stages -/

/-- Sizes that `read_bounded` accepts. -/
def Readable (identity : LocalTlsIdentity) : Prop :=
  ∀ file : IdentityFile, (identity.contents file).length ≠ 0 ∧
    (identity.contents file).length ≤ file.maximum

/-- A call that generates an identity. -/
def Stage.generating : Stage → Bool
  | .generate | .createNew _ _ | .writeAll _ _ | .rename _ _ | .cleanUp _ _ | .removeKey _ => true
  | _ => false

/-- A call that has renamed the key and not the certificate. -/
def Stage.betweenRenames : Stage → Bool
  | .createNew .certificate _ | .writeAll .certificate _ | .rename .certificate _ => true
  | _ => false

/-- What is there when a call is at a stage of writing a file. -/
structure Writing (d : Directory) (generated : List LocalTlsIdentity)
    (file : IdentityFile) (identity : LocalTlsIdentity) : Prop where
  generated : identity ∈ generated
  certificate : d.get? IdentityFile.certificate.name = none
  privateKey : d.get? IdentityFile.privateKey.name =
    match file with
    | .privateKey => none
    | .certificate => some identity.privateKeyPkcs8

/-- The directory holds the identity. -/
structure HoldsIdentity (d : Directory) (identity : LocalTlsIdentity) : Prop where
  certificate : d.get? IdentityFile.certificate.name = some identity.certificate
  privateKey : d.get? IdentityFile.privateKey.name = some identity.privateKeyPkcs8

/-- The process has not made these temporary files. -/
def NoTemporaries (d : Directory) (pid : Nat) : Prop :=
  ∀ file : IdentityFile, d.get? (file.temporary pid) = none

/-- What a call at a stage relies on. -/
def StageOk (d : Directory) (generated : List LocalTlsIdentity) (pid : Nat) : Stage → Prop
  | .certificateExists => NoTemporaries d pid
  | .keyExists certificate => NoTemporaries d pid ∧
      (certificate = true → d.get? IdentityFile.certificate.name ≠ none)
  | .metadata .certificate _ | .read .certificate _ =>
      d.get? IdentityFile.certificate.name ≠ none
  | .metadata .privateKey certificate | .read .privateKey certificate =>
      d.get? IdentityFile.certificate.name = some certificate
  | .generate => NoTemporaries d pid ∧ d.get? IdentityFile.certificate.name = none ∧
      d.get? IdentityFile.privateKey.name = none
  | .createNew file identity => Writing d generated file identity ∧ NoTemporaries d pid
  | .writeAll file identity => Writing d generated file identity ∧
      ∀ other, other ≠ file → d.get? (other.temporary pid) = none
  | .rename file identity => Writing d generated file identity ∧
      d.get? (file.temporary pid) = some (identity.contents file) ∧
      ∀ other, other ≠ file → d.get? (other.temporary pid) = none
  | .cleanUp _ _ | .removeKey _ => False
  | .returned (.ok identity) => HoldsIdentity d identity
  | .returned (.error _) | .stopped _ => True

/-- The files of the identity and the temporary files of the process are the same. -/
structure SameFiles (d d' : Directory) (pid : Nat) : Prop where
  file : ∀ f : IdentityFile, d'.get? f.name = d.get? f.name
  temporary : ∀ f : IdentityFile, d'.get? (f.temporary pid) = d.get? (f.temporary pid)

theorem StageOk.frame {d d' : Directory} {generated generated' : List LocalTlsIdentity} {pid : Nat}
    {stage : Stage} (h : StageOk d generated pid stage) (hsame : SameFiles d d' pid)
    (hsub : ∀ identity ∈ generated, identity ∈ generated') : StageOk d' generated' pid stage := by
  have hnone : NoTemporaries d pid → NoTemporaries d' pid :=
    fun h file => (hsame.temporary file).trans (h file)
  have hwriting : ∀ {file identity}, Writing d generated file identity →
      Writing d' generated' file identity := fun h =>
    ⟨hsub _ h.generated, (hsame.file _).trans h.certificate, (hsame.file _).trans h.privateKey⟩
  cases stage with
  | certificateExists => exact hnone h
  | keyExists certificate => exact ⟨hnone h.1, by rw [hsame.file]; exact h.2⟩
  | metadata file certificate =>
      cases file <;> simpa only [StageOk, hsame.file] using h
  | read file certificate =>
      cases file <;> simpa only [StageOk, hsame.file] using h
  | generate => exact ⟨hnone h.1, (hsame.file _).trans h.2.1, (hsame.file _).trans h.2.2⟩
  | createNew file identity => exact ⟨hwriting h.1, hnone h.2⟩
  | writeAll file identity =>
      exact ⟨hwriting h.1, fun other hne => (hsame.temporary other).trans (h.2 other hne)⟩
  | rename file identity =>
      exact ⟨hwriting h.1, (hsame.temporary file).trans h.2.1,
        fun other hne => (hsame.temporary other).trans (h.2.2 other hne)⟩
  | cleanUp file error => exact h
  | removeKey error => exact h
  | returned result =>
      cases result with
      | error error => trivial
      | ok identity => exact ⟨(hsame.file _).trans h.certificate, (hsame.file _).trans h.privateKey⟩
  | stopped stage => trivial

/-- While there is no certificate, a call that does not generate relies on its temporary files
only. -/
theorem StageOk.frame_of_not_generating {d d' : Directory} {generated : List LocalTlsIdentity}
    {pid : Nat} {stage : Stage} (h : StageOk d generated pid stage)
    (hstage : stage.generating = false) (hnone : d.get? IdentityFile.certificate.name = none)
    (hsame : ∀ f : IdentityFile, d'.get? (f.temporary pid) = d.get? (f.temporary pid)) :
    StageOk d' generated pid stage := by
  have htemp : NoTemporaries d pid → NoTemporaries d' pid :=
    fun h file => (hsame file).trans (h file)
  cases stage with
  | certificateExists => exact htemp h
  | keyExists certificate => exact ⟨htemp h.1, fun hcert => absurd hnone (h.2 hcert)⟩
  | metadata file certificate =>
      cases file with
      | certificate => exact absurd hnone h
      | privateKey =>
          have hsome : d.get? IdentityFile.certificate.name = some certificate := h
          rw [hnone] at hsome
          cases hsome
  | read file certificate =>
      cases file with
      | certificate => exact absurd hnone h
      | privateKey =>
          have hsome : d.get? IdentityFile.certificate.name = some certificate := h
          rw [hnone] at hsome
          cases hsome
  | returned result =>
      cases result with
      | error error => trivial
      | ok identity =>
          have hsome := h.certificate
          rw [hnone] at hsome
          cases hsome
  | stopped stage => trivial
  | _ => cases hstage

/-- What a step of a call does, where its stage is as it should be. -/
inductive Moved (d : Directory) (generated : List LocalTlsIdentity) (pid : Nat) :
    Stage → Directory → Stage → Prop
  /-- Neither file changes. -/
  | quiet {stage d' stage'} (hfile : ∀ f : IdentityFile, d'.get? f.name = d.get? f.name)
      (hgenerating : stage'.generating →
        stage.generating ∨ (stage = .keyExists false ∧
          d.get? IdentityFile.privateKey.name = none))
      (hbetween : stage.betweenRenames → stage'.betweenRenames) : Moved d generated pid stage d' stage'
  /-- The key is renamed. -/
  | key {identity d'} (hnone : d.get? IdentityFile.certificate.name = none)
      (hcertificate : d'.get? IdentityFile.certificate.name = none) :
      Moved d generated pid (.rename .privateKey identity) d' (.createNew .certificate identity)
  /-- The certificate is renamed. -/
  | certificate {identity d'} (hnone : d.get? IdentityFile.certificate.name = none)
      (hgenerated : identity ∈ generated) (hholds : HoldsIdentity d' identity) :
      Moved d generated pid (.rename .certificate identity) d' (.returned (.ok identity))

/-- A step of a call changes no temporary file of another process. -/
def OthersSame (d d' : Directory) (pid : Nat) : Prop :=
  ∀ (f : IdentityFile) (pid' : Nat), pid' ≠ pid →
    d'.get? (f.temporary pid') = d.get? (f.temporary pid')

theorem othersSame_insert (d : Directory) (pid : Nat) (f : IdentityFile) (data : Bytes) :
    OthersSame d (d.insert (f.temporary pid) data) pid := by
  intro g pid' hne
  rw [OrdMap.get?_insert, if_neg]
  exact fun h => hne (IdentityFile.temporary_inj h).2

theorem moved_of_advance {d d' : Directory} {generated : List LocalTlsIdentity} {pid : Nat}
    {stage stage' : Stage} (h : StageOk d generated pid stage)
    (hcertificate : ∀ certificate, d.get? IdentityFile.certificate.name = some certificate →
      ∃ identity ∈ generated, HoldsIdentity d identity)
    (hadvance : advance d pid stage = some (d', stage')) :
    OthersSame d d' pid ∧ StageOk d' generated pid stage' ∧
      Moved d generated pid stage d' stage' := by
  cases stage with
  | certificateExists =>
      cases hadvance
      refine ⟨fun _ _ _ => rfl, ⟨h, fun hpresent hnone => ?_⟩,
        .quiet (fun _ => rfl) (by simp [Stage.generating]) (by simp [Stage.betweenRenames])⟩
      rw [OrdMap.contains_eq_false_iff.mpr hnone] at hpresent
      cases hpresent
  | keyExists certificate =>
      simp only [advance] at hadvance
      split at hadvance
      · cases hadvance
        exact ⟨fun _ _ _ => rfl, h.2 rfl,
          .quiet (fun _ => rfl) (by simp [Stage.generating]) (by simp [Stage.betweenRenames])⟩
      · rename_i hkey
        cases hadvance
        have hkey := OrdMap.contains_eq_false_iff.mp hkey
        have hnone : d.get? IdentityFile.certificate.name = none := by
          cases hget : d.get? IdentityFile.certificate.name with
          | none => rfl
          | some c =>
              obtain ⟨identity, -, hholds⟩ := hcertificate c hget
              rw [hholds.privateKey] at hkey
              cases hkey
        exact ⟨fun _ _ _ => rfl, ⟨h.1, hnone, hkey⟩,
          .quiet (fun _ => rfl) (fun _ => .inr ⟨rfl, hkey⟩) (by simp [Stage.betweenRenames])⟩
      · cases hadvance
        exact ⟨fun _ _ _ => rfl, trivial,
          .quiet (fun _ => rfl) (by simp [Stage.generating]) (by simp [Stage.betweenRenames])⟩
  | metadata file certificate =>
      simp only [advance] at hadvance
      have hquiet : ∀ {stage'}, stage'.generating = false →
          Moved d generated pid (.metadata file certificate) d stage' := fun hs =>
        .quiet (fun _ => rfl) (by simp [hs]) (by simp [Stage.betweenRenames])
      split at hadvance
      · cases hadvance
        exact ⟨fun _ _ _ => rfl, trivial, hquiet rfl⟩
      · split at hadvance
        · cases hadvance
          exact ⟨fun _ _ _ => rfl, trivial, hquiet rfl⟩
        · cases hadvance
          cases file <;> exact ⟨fun _ _ _ => rfl, h, hquiet rfl⟩
  | read file certificate =>
      simp only [advance] at hadvance
      have hquiet : ∀ {stage'}, stage'.generating = false →
          Moved d generated pid (.read file certificate) d stage' := fun hs =>
        .quiet (fun _ => rfl) (by simp [hs]) (by simp [Stage.betweenRenames])
      split at hadvance
      · cases hadvance
        exact ⟨fun _ _ _ => rfl, trivial, hquiet rfl⟩
      · rename_i data hget
        cases hadvance
        exact ⟨fun _ _ _ => rfl, hget, hquiet rfl⟩
      · rename_i data hget
        split at hadvance
        · cases hadvance
          exact ⟨fun _ _ _ => rfl, trivial, hquiet rfl⟩
        · cases hadvance
          exact ⟨fun _ _ _ => rfl, ⟨h, hget⟩, hquiet rfl⟩
  | createNew file identity =>
      obtain ⟨hwriting, hnone⟩ := h
      have hcontains := OrdMap.contains_eq_false_iff.mpr (hnone file)
      simp only [advance, Directory.createNew, Effect.exec_ofFun, hcontains, Bool.false_eq_true,
        if_false] at hadvance
      cases hadvance
      have hfile : ∀ f : IdentityFile,
          (d.insert (file.temporary pid) []).get? f.name = d.get? f.name := by
        intro f
        rw [OrdMap.get?_insert, if_neg (IdentityFile.name_ne_temporary f file pid)]
      refine ⟨othersSame_insert d pid file [], ⟨⟨hwriting.generated,
        (hfile _).trans hwriting.certificate, (hfile _).trans hwriting.privateKey⟩,
        fun other hne => ?_⟩, .quiet hfile (fun _ => .inl rfl) ?_⟩
      · rw [OrdMap.get?_insert, if_neg (fun heq => hne (IdentityFile.temporary_inj heq).1)]
        exact hnone other
      · cases file <;> simp [Stage.betweenRenames]
  | writeAll file identity =>
      obtain ⟨hwriting, hothers⟩ := h
      cases hadvance
      have hfile : ∀ f : IdentityFile, (d.insert (file.temporary pid)
          (identity.contents file)).get? f.name = d.get? f.name := by
        intro f
        rw [OrdMap.get?_insert, if_neg (IdentityFile.name_ne_temporary f file pid)]
      refine ⟨othersSame_insert d pid file _, ⟨⟨hwriting.generated,
        (hfile _).trans hwriting.certificate, (hfile _).trans hwriting.privateKey⟩, ?_,
        fun other hne => ?_⟩, .quiet hfile (fun _ => .inl rfl) ?_⟩
      · simp [Directory.writeAll]
      · show (d.insert _ _).get? _ = none
        rw [OrdMap.get?_insert, if_neg (fun heq => hne (IdentityFile.temporary_inj heq).1)]
        exact hothers other hne
      · cases file <;> simp [Stage.betweenRenames]
  | rename file identity =>
      obtain ⟨hwriting, htemp, hothers⟩ := h
      have hexec : (Directory.rename (file.temporary pid) file.name).exec d =
          (.ok (), (d.erase (file.temporary pid)).insert file.name (identity.contents file)) := by
        simp [Directory.rename, htemp]
      have hsame : OthersSame d
          ((d.erase (file.temporary pid)).insert file.name (identity.contents file)) pid := by
        intro g pid' hne
        rw [OrdMap.get?_insert, if_neg (IdentityFile.name_ne_temporary file g pid').symm,
          OrdMap.get?_erase, if_neg (fun heq => hne (IdentityFile.temporary_inj heq).2)]
      have hname : ∀ f : IdentityFile, ((d.erase (file.temporary pid)).insert file.name
          (identity.contents file)).get? f.name =
          if f = file then some (identity.contents file) else d.get? f.name := by
        intro f
        by_cases hf : f = file
        · simp [hf]
        · have hne : f.name ≠ file.name := by
            cases f <;> cases file <;> first | exact absurd rfl hf | decide
          rw [OrdMap.get?_insert, if_neg hne, OrdMap.get?_erase,
            if_neg (IdentityFile.name_ne_temporary f file pid), if_neg hf]
      cases file with
      | privateKey =>
          simp only [advance, hexec] at hadvance
          cases hadvance
          have hcert := hname .certificate
          rw [if_neg (by decide), hwriting.certificate] at hcert
          refine ⟨hsame, ⟨⟨hwriting.generated, hcert, hname .privateKey⟩, fun f => ?_⟩,
            .key hwriting.certificate hcert⟩
          rw [OrdMap.get?_insert, if_neg (IdentityFile.name_ne_temporary _ f pid).symm,
            OrdMap.get?_erase]
          cases f with
          | certificate => rw [if_neg (by simp [IdentityFile.temporary, IdentityFile.name])]; exact hothers _ (by decide)
          | privateKey => rw [if_pos rfl]
      | certificate =>
          simp only [advance, hexec] at hadvance
          cases hadvance
          have hkey := hname .privateKey
          rw [if_neg (by decide), hwriting.privateKey] at hkey
          have hholds : HoldsIdentity _ identity := ⟨hname .certificate, hkey⟩
          exact ⟨hsame, hholds, .certificate hwriting.certificate hwriting.generated hholds⟩
  | generate => cases hadvance
  | cleanUp file error => exact h.elim
  | removeKey error => exact h.elim
  | returned result => cases hadvance
  | stopped stage => cases hadvance

/-! ## One process at a time generates -/

/-- What holds when at most one process at a time generates an identity. -/
structure Consistent (s : SharedIdentity) : Prop where
  pids : ∀ (i j : Nat) (a b : IdentityCall), s.calls[i]? = some a → s.calls[j]? = some b →
    a.pid = b.pid → i = j
  /-- A certificate has its key. -/
  certificate : ∀ certificate, s.files.get? IdentityFile.certificate.name = some certificate →
    ∃ identity ∈ s.generated, HoldsIdentity s.files identity
  readable : ∀ identity ∈ s.generated, identity.Readable
  stage : ∀ (i : Nat) (a : IdentityCall), s.calls[i]? = some a →
    StageOk s.files s.generated a.pid a.stage
  fresh : ∀ pid, pid ∉ s.calls.map IdentityCall.pid → NoTemporaries s.files pid
  one : ∀ (i j : Nat) (a b : IdentityCall), s.calls[i]? = some a → s.calls[j]? = some b →
    a.stage.generating → b.stage.generating → i = j
  /-- A key without a certificate is of a call that is between its renames, or stopped there. -/
  incomplete : ∀ key, s.files.get? IdentityFile.privateKey.name = some key →
    s.files.get? IdentityFile.certificate.name = none →
    ∃ a ∈ s.calls, a.stage.betweenRenames ∨
      ∃ stage, a.stage = .stopped stage ∧ stage.betweenRenames

/-- The call is not about to find neither file while another process generates. -/
def solo (s : SharedIdentity) (i : Nat) : Bool :=
  match s.calls[i]? with
  | some ⟨_, .keyExists false⟩ =>
      s.files.contains IdentityFile.privateKey.name ||
        s.calls.all (fun a => !a.stage.generating)
  | _ => true

/-- One process at a time generates, and what it generates can be read. -/
def OneGenerates (s : SharedIdentity) : IdentityAction → Prop
  | .step i => solo s i
  | .generate _ identity => identity.Readable
  | _ => True

instance (identity : LocalTlsIdentity) : Decidable identity.Readable :=
  decidable_of_iff
    ((identity.contents .certificate).length ≠ 0 ∧
      (identity.contents .certificate).length ≤ IdentityFile.certificate.maximum ∧
      (identity.contents .privateKey).length ≠ 0 ∧
      (identity.contents .privateKey).length ≤ IdentityFile.privateKey.maximum)
    ⟨fun h file => by cases file; exacts [⟨h.1, h.2.1⟩, ⟨h.2.2.1, h.2.2.2⟩],
      fun h => ⟨(h .certificate).1, (h .certificate).2, (h .privateKey).1, (h .privateKey).2⟩⟩

theorem Consistent.init : Consistent identitySystem.init where
  pids := by simp [identitySystem]
  certificate := by simp [identitySystem]
  readable := by simp [identitySystem]
  stage := by simp [identitySystem]
  fresh := fun _ _ _ => rfl
  one := by simp [identitySystem]
  incomplete := by simp [identitySystem]

theorem Consistent.begin {s : SharedIdentity} (h : Consistent s) {pid : Nat}
    (hpid : pid ∉ s.calls.map IdentityCall.pid) :
    Consistent { s with calls := s.calls ++ [⟨pid, .certificateExists⟩] } := by
  -- a call is one of before, or the new one
  have hcases : ∀ (i : Nat) (a : IdentityCall),
      (s.calls ++ [⟨pid, .certificateExists⟩])[i]? = some a →
        (s.calls[i]? = some a ∧ a.pid ≠ pid) ∨
          (i = s.calls.length ∧ a = ⟨pid, .certificateExists⟩) := by
    intro i a hget
    rw [List.getElem?_append] at hget
    split at hget
    · refine .inl ⟨hget, fun heq => hpid ?_⟩
      rw [← heq]
      exact List.mem_map_of_mem (List.mem_of_getElem? hget)
    · obtain ⟨hlt, hi⟩ := List.getElem?_eq_some_iff.mp hget
      rw [List.length_singleton] at hlt
      have hzero : i - s.calls.length = 0 := by omega
      refine .inr ⟨by omega, ?_⟩
      simpa [hzero] using hi.symm
  constructor
  case pids =>
    intro i j a b hi hj hab
    rcases hcases i a hi with ⟨hiold, ha⟩ | ⟨hinew, rfl⟩
    · rcases hcases j b hj with ⟨hjold, -⟩ | ⟨-, rfl⟩
      · exact h.pids i j a b hiold hjold hab
      · exact absurd hab ha
    · rcases hcases j b hj with ⟨-, hb⟩ | ⟨hjnew, -⟩
      · exact absurd hab.symm hb
      · rw [hinew, hjnew]
  case certificate => exact h.certificate
  case readable => exact h.readable
  case stage =>
    intro i a hi
    rcases hcases i a hi with ⟨hiold, -⟩ | ⟨-, rfl⟩
    · exact h.stage i a hiold
    · exact h.fresh pid hpid
  case fresh =>
    intro pid' hnot
    refine h.fresh pid' (fun hmem => hnot ?_)
    rw [List.map_append]
    exact List.mem_append_left _ hmem
  case one =>
    intro i j a b hi hj ha hb
    rcases hcases i a hi with ⟨hiold, -⟩ | ⟨-, rfl⟩
    · rcases hcases j b hj with ⟨hjold, -⟩ | ⟨-, rfl⟩
      · exact h.one i j a b hiold hjold ha hb
      · cases hb
    · cases ha
  case incomplete =>
    intro key hkey hcert
    obtain ⟨a, hmem, ha⟩ := h.incomplete key hkey hcert
    exact ⟨a, List.mem_append_left _ hmem, ha⟩

/-- A call after a step of another or of its own. -/
theorem getElem?_set_cases {calls : List IdentityCall} {i j : Nat} {a b : IdentityCall}
    (h : (calls.set i a)[j]? = some b) : (j = i ∧ b = a) ∨ (j ≠ i ∧ calls[j]? = some b) := by
  rw [List.getElem?_set] at h
  split at h
  · rename_i hij
    split at h
    · cases h
      exact .inl ⟨hij.symm, rfl⟩
    · cases h
  · rename_i hij
    exact .inr ⟨fun heq => hij heq.symm, h⟩

/-- The processes are the same after a step. -/
theorem map_pid_set {calls : List IdentityCall} {i : Nat} {a : IdentityCall} {stage : Stage}
    (h : calls[i]? = some a) :
    (calls.set i ⟨a.pid, stage⟩).map IdentityCall.pid = calls.map IdentityCall.pid := by
  obtain ⟨hlt, rfl⟩ := List.getElem?_eq_some_iff.mp h
  have hlt' : i < (calls.map IdentityCall.pid).length := by rwa [List.length_map]
  have hself := List.set_getElem_self hlt'
  rw [List.getElem_map] at hself
  rw [List.map_set, hself]

/-- The clauses that are the same for every step of a call. -/
theorem Consistent.set {s : SharedIdentity} (h : Consistent s) {i : Nat} {a : IdentityCall}
    (hget : s.calls[i]? = some a) {d' : Directory} {stage' : Stage}
    {generated' : List LocalTlsIdentity}
    (hothers : OthersSame s.files d' a.pid)
    (hcertificate : ∀ certificate, d'.get? IdentityFile.certificate.name = some certificate →
      ∃ identity ∈ generated', HoldsIdentity d' identity)
    (hreadable : ∀ identity ∈ generated', identity.Readable)
    (hown : StageOk d' generated' a.pid stage')
    (hrest : ∀ (j : Nat) (b : IdentityCall), j ≠ i → s.calls[j]? = some b →
      StageOk d' generated' b.pid b.stage)
    (hone : stage'.generating → ∀ (j : Nat) (b : IdentityCall), j ≠ i → s.calls[j]? = some b →
      b.stage.generating = false)
    (hincomplete : ∀ key, d'.get? IdentityFile.privateKey.name = some key →
      d'.get? IdentityFile.certificate.name = none →
      ∃ b ∈ s.calls.set i ⟨a.pid, stage'⟩, b.stage.betweenRenames ∨
        ∃ stage, b.stage = .stopped stage ∧ stage.betweenRenames) :
    Consistent { files := d', calls := s.calls.set i ⟨a.pid, stage'⟩, generated := generated' } := by
  constructor
  case pids =>
    intro j k b c hj hk hbc
    have hold : ∀ {j : Nat} {b : IdentityCall}, (s.calls.set i ⟨a.pid, stage'⟩)[j]? = some b →
        ∃ b', s.calls[j]? = some b' ∧ b'.pid = b.pid := by
      intro j b hj
      rcases getElem?_set_cases hj with ⟨rfl, rfl⟩ | ⟨-, hjold⟩
      · exact ⟨a, hget, rfl⟩
      · exact ⟨b, hjold, rfl⟩
    obtain ⟨b', hb', hbpid⟩ := hold hj
    obtain ⟨c', hc', hcpid⟩ := hold hk
    exact h.pids j k b' c' hb' hc' (hbpid.trans (hbc.trans hcpid.symm))
  case certificate => exact hcertificate
  case readable => exact hreadable
  case stage =>
    intro j b hj
    rcases getElem?_set_cases hj with ⟨-, rfl⟩ | ⟨hne, hjold⟩
    · exact hown
    · exact hrest j b hne hjold
  case fresh =>
    intro pid hnot file
    rw [map_pid_set hget] at hnot
    have hne : pid ≠ a.pid := by
      rintro rfl
      exact hnot (List.mem_map_of_mem (List.mem_of_getElem? hget))
    exact (hothers file pid hne).trans (h.fresh pid hnot file)
  case one =>
    intro j k b c hj hk hb hc
    rcases getElem?_set_cases hj with ⟨hji, rfl⟩ | ⟨hji, hjold⟩
    · rcases getElem?_set_cases hk with ⟨hki, -⟩ | ⟨hki, hkold⟩
      · rw [hji, hki]
      · rw [hone hb k c hki hkold] at hc
        cases hc
    · rcases getElem?_set_cases hk with ⟨-, rfl⟩ | ⟨-, hkold⟩
      · rw [hone hc j b hji hjold] at hb
        cases hb
      · exact h.one j k b c hjold hkold hb hc
  case incomplete => exact hincomplete

/-- A call that is between its renames stays so, or stops there. -/
theorem incomplete_set {calls : List IdentityCall} {i : Nat} {a : IdentityCall} {stage' : Stage}
    (hget : calls[i]? = some a)
    (hkept : a.stage.betweenRenames → stage'.betweenRenames ∨
      ∃ stage, stage' = .stopped stage ∧ stage.betweenRenames)
    (hrunning : a.stage.running)
    (h : ∃ b ∈ calls, b.stage.betweenRenames ∨
      ∃ stage, b.stage = .stopped stage ∧ stage.betweenRenames) :
    ∃ b ∈ calls.set i ⟨a.pid, stage'⟩, b.stage.betweenRenames ∨
      ∃ stage, b.stage = .stopped stage ∧ stage.betweenRenames := by
  obtain ⟨b, hmem, hb⟩ := h
  obtain ⟨j, hj⟩ := List.mem_iff_getElem?.mp hmem
  have hlt := (List.getElem?_eq_some_iff.mp hget).1
  by_cases hji : j = i
  · rw [hji, hget] at hj
    cases hj
    refine ⟨_, List.mem_set hlt _, ?_⟩
    rcases hb with hb | ⟨stage, hstopped, -⟩
    · exact hkept hb
    · rw [hstopped] at hrunning
      cases hrunning
  · refine ⟨b, List.mem_iff_getElem?.mpr ⟨j, ?_⟩, hb⟩
    rw [List.getElem?_set_ne (fun heq => hji heq.symm)]
    exact hj

theorem running_of_advance {d : Directory} {pid : Nat} {stage : Stage} {next : Directory × Stage}
    (h : advance d pid stage = some next) : stage.running := by
  cases stage <;> first | rfl | cases h

theorem generating_false_of_solo {s : SharedIdentity} {i j : Nat} {a b : IdentityCall}
    (hsolo : solo s i) (hi : s.calls[i]? = some a) (hstage : a.stage = .keyExists false)
    (hnone : s.files.get? IdentityFile.privateKey.name = none) (hj : s.calls[j]? = some b) :
    b.stage.generating = false := by
  obtain ⟨pid, stage⟩ := a
  simp only at hstage
  subst hstage
  rw [solo, hi] at hsolo
  simp only [OrdMap.contains_eq_false_iff.mpr hnone, Bool.false_or, List.all_eq_true,
    Bool.not_eq_true'] at hsolo
  exact hsolo b (List.mem_of_getElem? hj)

/-- A step of a call. -/
theorem Consistent.step {s : SharedIdentity} (h : Consistent s) {i : Nat} {a : IdentityCall}
    (hget : s.calls[i]? = some a) (hsolo : solo s i) {d' : Directory} {stage' : Stage}
    (hadvance : advance s.files a.pid a.stage = some (d', stage')) :
    Consistent { s with files := d', calls := s.calls.set i ⟨a.pid, stage'⟩ } := by
  have hrunning := running_of_advance hadvance
  obtain ⟨hothers, hown, hmoved⟩ := moved_of_advance (h.stage i a hget) h.certificate hadvance
  obtain ⟨pid, stage⟩ := a
  have hpid : ∀ (j : Nat) (b : IdentityCall), j ≠ i → s.calls[j]? = some b → b.pid ≠ pid :=
    fun j b hji hj heq => hji (h.pids j i b _ hj hget heq)
  cases hmoved with
  | quiet hfile hgenerating hbetween =>
      refine h.set hget hothers ?_ h.readable hown (fun j b hji hj => ?_) (fun hg j b hji hj => ?_)
        (fun key hkey hcert => ?_)
      · intro certificate hcert
        rw [hfile] at hcert
        obtain ⟨identity, hmem, hholds⟩ := h.certificate certificate hcert
        exact ⟨identity, hmem, (hfile _).trans hholds.certificate,
          (hfile _).trans hholds.privateKey⟩
      · exact (h.stage j b hj).frame ⟨hfile, fun f => hothers f b.pid (hpid j b hji hj)⟩
          (fun _ hmem => hmem)
      · rcases hgenerating hg with hold | ⟨hstage, hnone⟩
        · exact Bool.eq_false_iff.mpr (fun hb => hji (h.one j i b _ hj hget hb hold))
        · exact generating_false_of_solo hsolo hget hstage hnone hj
      · rw [hfile] at hkey hcert
        exact incomplete_set hget (fun hb => .inl (hbetween hb)) hrunning
          (h.incomplete key hkey hcert)
  | key hnone hcertificate =>
      have hrest : ∀ (j : Nat) (b : IdentityCall), j ≠ i → s.calls[j]? = some b →
          b.stage.generating = false := fun j b hji hj =>
        Bool.eq_false_iff.mpr (fun hb => hji (h.one j i b _ hj hget hb rfl))
      refine h.set hget hothers ?_ h.readable hown (fun j b hji hj => ?_)
        (fun _ j b hji hj => hrest j b hji hj) (fun key hkey hcert => ?_)
      · intro certificate hcert
        rw [hcertificate] at hcert
        cases hcert
      · exact (h.stage j b hj).frame_of_not_generating (hrest j b hji hj) hnone
          (fun f => hothers f b.pid (hpid j b hji hj))
      · exact ⟨_, List.mem_set (List.getElem?_eq_some_iff.mp hget).1 _, .inl rfl⟩
  | certificate hnone hgenerated hholds =>
      have hrest : ∀ (j : Nat) (b : IdentityCall), j ≠ i → s.calls[j]? = some b →
          b.stage.generating = false := fun j b hji hj =>
        Bool.eq_false_iff.mpr (fun hb => hji (h.one j i b _ hj hget hb rfl))
      refine h.set hget hothers ?_ h.readable hown (fun j b hji hj => ?_)
        (fun hg => by cases hg) (fun key hkey hcert => ?_)
      · exact fun _ _ => ⟨_, hgenerated, hholds⟩
      · exact (h.stage j b hj).frame_of_not_generating (hrest j b hji hj) hnone
          (fun f => hothers f b.pid (hpid j b hji hj))
      · rw [hholds.certificate] at hcert
        cases hcert

/-- A call generates an identity. -/
theorem Consistent.generate {s : SharedIdentity} (h : Consistent s) {i pid : Nat}
    (hget : s.calls[i]? = some ⟨pid, .generate⟩) {identity : LocalTlsIdentity}
    (hreadable : identity.Readable) :
    Consistent { s with
      calls := s.calls.set i ⟨pid, .createNew .privateKey identity⟩
      generated := identity :: s.generated } := by
  obtain ⟨htemp, hcert, hkey⟩ := h.stage i _ hget
  refine h.set (a := ⟨pid, .generate⟩) hget (fun _ _ _ => rfl) ?_ ?_
    ⟨⟨List.mem_cons_self, hcert, hkey⟩, htemp⟩ (fun j b _ hj => ?_) (fun _ j b hji hj => ?_)
    (fun key hkey' hcert' => ?_)
  · intro certificate hsome
    rw [hcert] at hsome
    cases hsome
  · intro other hmem
    rcases List.mem_cons.mp hmem with rfl | hold
    · exact hreadable
    · exact h.readable other hold
  · exact (h.stage j b hj).frame ⟨fun _ => rfl, fun _ => rfl⟩
      (fun _ hmem => List.mem_cons_of_mem _ hmem)
  · exact Bool.eq_false_iff.mpr (fun hb => hji (h.one j i b _ hj hget hb rfl))
  · rw [hkey] at hkey'
    cases hkey'

/-- A process stops. -/
theorem Consistent.stop {s : SharedIdentity} (h : Consistent s) {i : Nat} {a : IdentityCall}
    (hget : s.calls[i]? = some a) (hrunning : a.stage.running) :
    Consistent { s with calls := s.calls.set i ⟨a.pid, .stopped a.stage⟩ } := by
  refine h.set hget (fun _ _ _ => rfl) h.certificate h.readable trivial
    (fun j b _ hj => h.stage j b hj) (fun hg => by cases hg) (fun key hkey hcert => ?_)
  exact incomplete_set hget (fun hb => .inr ⟨a.stage, rfl, hb⟩) hrunning
    (h.incomplete key hkey hcert)

theorem consistent_of_reach {s : SharedIdentity} (h : identitySystem.Reach OneGenerates s) :
    Consistent s := by
  refine h.invariant .init (fun s action s' hs hguard hstep => ?_)
  cases action with
  | begin pid =>
      simp only [identitySystem] at hstep
      split at hstep
      · cases hstep
      · cases hstep
        exact hs.begin ‹_›
  | step i =>
      simp only [identitySystem] at hstep
      cases hget : s.calls[i]? with
      | none =>
          rw [hget] at hstep
          cases hstep
      | some a =>
          rw [hget] at hstep
          obtain ⟨⟨d', stage'⟩, hadvance, rfl⟩ := Option.map_eq_some_iff.mp hstep
          exact hs.step hget hguard hadvance
  | generate i identity =>
      simp only [identitySystem] at hstep
      split at hstep
      · rename_i pid hget
        cases hstep
        exact hs.generate hget hguard
      · cases hstep
  | stop i =>
      simp only [identitySystem] at hstep
      cases hget : s.calls[i]? with
      | none =>
          rw [hget] at hstep
          cases hstep
      | some a =>
          rw [hget] at hstep
          simp only at hstep
          split at hstep
          · cases hstep
            exact hs.stop hget ‹_›
          · cases hstep

/-! ## A further call -/

/-- What a call does next, where it generates the given identity if it generates one. -/
def nextAction (identity : LocalTlsIdentity) (i : Nat) (s : SharedIdentity) : IdentityAction :=
  match s.calls[i]? with
  | some ⟨_, .generate⟩ => .generate i identity
  | _ => .step i

/-- Some steps of one call and of no other. -/
def proceed (identity : LocalTlsIdentity) (i : Nat) : Nat → SharedIdentity → SharedIdentity
  | 0, s => s
  | n + 1, s =>
      match identitySystem.step s (nextAction identity i s) with
      | some t => proceed identity i n t
      | none => s

/-- A further call, of the process `pid`, that runs alone returns the result. -/
def ReturnsAlone (s : SharedIdentity) (pid : Nat) (identity : LocalTlsIdentity)
    (result : Except IdentityError LocalTlsIdentity) : Prop :=
  ∃ t n, identitySystem.step s (.begin pid) = some t ∧
    (proceed identity s.calls.length n t).calls[s.calls.length]? = some ⟨pid, .returned result⟩

theorem proceed_add (identity : LocalTlsIdentity) (i m n : Nat) (s : SharedIdentity) :
    proceed identity i (m + n) s = proceed identity i n (proceed identity i m s) := by
  induction m generalizing s with
  | zero => rw [Nat.zero_add, proceed]
  | succ m ih =>
      rw [Nat.succ_add, proceed, proceed]
      cases hstep : identitySystem.step s (nextAction identity i s) with
      | some t => exact ih t
      | none =>
          cases n with
          | zero => rfl
          | succ n => rw [proceed, hstep]

theorem proceed_returned {identity : LocalTlsIdentity} {i pid : Nat} {s : SharedIdentity}
    {result : Except IdentityError LocalTlsIdentity}
    (h : s.calls[i]? = some ⟨pid, .returned result⟩) (n : Nat) :
    proceed identity i n s = s := by
  cases n with
  | zero => rfl
  | succ n =>
      have hnext : nextAction identity i s = .step i := by rw [nextAction, h]
      have hstep : identitySystem.step s (.step i) = none := by
        simp only [identitySystem, h]
        rfl
      rw [proceed, hnext, hstep]

/-- A call has one result. -/
theorem ReturnsAlone.unique {s : SharedIdentity} {pid : Nat} {identity : LocalTlsIdentity}
    {result result' : Except IdentityError LocalTlsIdentity}
    (h : ReturnsAlone s pid identity result) (h' : ReturnsAlone s pid identity result') :
    result = result' := by
  obtain ⟨t, m, hbegin, hm⟩ := h
  obtain ⟨t', n, hbegin', hn⟩ := h'
  rw [hbegin] at hbegin'
  cases hbegin'
  have hlater := proceed_add identity s.calls.length m n t
  rw [Nat.add_comm, proceed_add, proceed_returned hm, proceed_returned hn] at hlater
  rw [hlater, hm] at hn
  cases hn
  rfl

/-- The steps of a call from a stage to its result. -/
inductive Finishes (pid : Nat) (identity : LocalTlsIdentity) :
    Directory → Stage → Except IdentityError LocalTlsIdentity → Prop
  | returned {d result} : Finishes pid identity d (.returned result) result
  | step {d stage d' stage' result} : advance d pid stage = some (d', stage') →
      Finishes pid identity d' stage' result → Finishes pid identity d stage result
  | generate {d result} : Finishes pid identity d (.createNew .privateKey identity) result →
      Finishes pid identity d .generate result

theorem Finishes.proceed {pid : Nat} {identity : LocalTlsIdentity} {d : Directory} {stage : Stage}
    {result : Except IdentityError LocalTlsIdentity} (h : Finishes pid identity d stage result)
    {s : SharedIdentity} {i : Nat} (hfiles : s.files = d) (hget : s.calls[i]? = some ⟨pid, stage⟩) :
    ∃ n, (proceed identity i n s).calls[i]? = some ⟨pid, .returned result⟩ := by
  have hlt := (List.getElem?_eq_some_iff.mp hget).1
  induction h generalizing s with
  | returned => exact ⟨0, hget⟩
  | @step d stage d' stage' result hadvance _ ih =>
      subst hfiles
      have hnext : nextAction identity i s = .step i := by
        unfold nextAction
        split
        · rename_i hgen
          rw [hget] at hgen
          cases hgen
          cases hadvance
        · rfl
      obtain ⟨n, hn⟩ := ih
        (s := { s with files := d', calls := s.calls.set i ⟨pid, stage'⟩ }) rfl
        (List.getElem?_set_self hlt) (by simpa using hlt)
      refine ⟨n + 1, ?_⟩
      rw [LocalTlsIdentity.proceed, hnext]
      simp only [identitySystem, hget, hadvance, Option.map_some]
      exact hn
  | @generate d result _ ih =>
      have hnext : nextAction identity i s = .generate i identity := by rw [nextAction, hget]
      obtain ⟨n, hn⟩ := ih (s := { s with
          calls := s.calls.set i ⟨pid, .createNew .privateKey identity⟩
          generated := identity :: s.generated }) hfiles
        (List.getElem?_set_self hlt) (by simpa using hlt)
      refine ⟨n + 1, ?_⟩
      rw [LocalTlsIdentity.proceed, hnext]
      simp only [identitySystem, hget]
      exact hn

/-- A call that finds an identity loads it. -/
theorem finishes_load {d : Directory} {pid : Nat} {identity other : LocalTlsIdentity}
    (h : HoldsIdentity d other) (hreadable : other.Readable) :
    Finishes pid identity d .certificateExists (.ok other) := by
  have hcert : d.contains IdentityFile.certificate.name = true :=
    OrdMap.contains_iff.mpr ⟨_, h.certificate⟩
  have hkey : d.contains IdentityFile.privateKey.name = true :=
    OrdMap.contains_iff.mpr ⟨_, h.privateKey⟩
  have hsizeCert : ¬ (other.certificate.length = 0 ∨
      other.certificate.length > IdentityFile.certificate.maximum) := by
    have := hreadable .certificate
    simp only [contents] at this
    omega
  have hsizeKey : ¬ (other.privateKeyPkcs8.length = 0 ∨
      other.privateKeyPkcs8.length > IdentityFile.privateKey.maximum) := by
    have := hreadable .privateKey
    simp only [contents] at this
    omega
  have hexists : advance d pid .certificateExists = some (d, .keyExists true) := by
    simp [advance, hcert]
  have hboth : advance d pid (.keyExists true) = some (d, .metadata .certificate []) := by
    simp [advance, hkey]
  have hmetadata : advance d pid (.metadata .certificate []) =
      some (d, .read .certificate []) := by
    simp only [advance, h.certificate, if_neg hsizeCert]
  have hread : advance d pid (.read .certificate []) =
      some (d, .metadata .privateKey other.certificate) := by
    simp only [advance, h.certificate]
  have hmetadata' : advance d pid (.metadata .privateKey other.certificate) =
      some (d, .read .privateKey other.certificate) := by
    simp only [advance, h.privateKey, if_neg hsizeKey]
  have hread' : advance d pid (.read .privateKey other.certificate) =
      some (d, .returned (.ok other)) := by
    have hnonempty : ¬ (other.certificate = [] ∨ other.privateKeyPkcs8 = []) := by
      rintro (hnil | hnil)
      · simp [hnil] at hsizeCert
      · simp [hnil] at hsizeKey
    simp only [advance, h.privateKey, if_neg hnonempty]
  exact .step hexists (.step hboth (.step hmetadata (.step hread (.step hmetadata'
    (.step hread' .returned)))))

/-- A call that finds a key without a certificate refuses. -/
theorem finishes_incomplete {d : Directory} {pid : Nat} {identity : LocalTlsIdentity} {key : Bytes}
    (hcert : d.get? IdentityFile.certificate.name = none)
    (hkey : d.get? IdentityFile.privateKey.name = some key) :
    Finishes pid identity d .certificateExists (.error .incomplete) := by
  have hcert := OrdMap.contains_eq_false_iff.mpr hcert
  have hkey : d.contains IdentityFile.privateKey.name = true := OrdMap.contains_iff.mpr ⟨_, hkey⟩
  have hexists : advance d pid .certificateExists = some (d, .keyExists false) := by
    simp [advance, hcert]
  have hrefuse : advance d pid (.keyExists false) = some (d, .returned (.error .incomplete)) := by
    simp [advance, hkey]
  exact .step hexists (.step hrefuse .returned)

/-- `write_atomic` of a process without temporary files. -/
theorem finishes_writeAtomic {d : Directory} {pid : Nat} {identity : LocalTlsIdentity}
    {file : IdentityFile} {result : Except IdentityError LocalTlsIdentity}
    (hnone : d.get? (file.temporary pid) = none)
    (hrest : Finishes pid identity (d.insert file.name (identity.contents file))
      (match file with
        | .privateKey => .createNew .certificate identity
        | .certificate => .returned (.ok identity)) result) :
    Finishes pid identity d (.createNew file identity) result := by
  have hcontains := OrdMap.contains_eq_false_iff.mpr hnone
  have hcreate : advance d pid (.createNew file identity) =
      some (d.insert (file.temporary pid) [], .writeAll file identity) := by
    simp [advance, Directory.createNew, hcontains]
  have hwrite : advance (d.insert (file.temporary pid) []) pid (.writeAll file identity) =
      some (d.insert (file.temporary pid) (identity.contents file), .rename file identity) := by
    simp [advance, Directory.writeAll, OrdMap.insert_insert]
  have hrename : (Directory.rename (file.temporary pid) file.name).exec
      (d.insert (file.temporary pid) (identity.contents file)) =
      (.ok (), d.insert file.name (identity.contents file)) := by
    simp [Directory.rename, OrdMap.erase_insert, OrdMap.erase_eq_of_get?_none hnone]
  refine .step hcreate (.step hwrite (.step ?_ hrest))
  cases file <;> simp [advance, hrename]

/-- A call that finds neither file returns what it generates. -/
theorem finishes_generate {d : Directory} {pid : Nat} {identity : LocalTlsIdentity}
    (hcert : d.get? IdentityFile.certificate.name = none)
    (hkey : d.get? IdentityFile.privateKey.name = none) (htemp : NoTemporaries d pid) :
    Finishes pid identity d .certificateExists (.ok identity) := by
  have hcert := OrdMap.contains_eq_false_iff.mpr hcert
  have hkey := OrdMap.contains_eq_false_iff.mpr hkey
  have hexists : advance d pid .certificateExists = some (d, .keyExists false) := by
    simp [advance, hcert]
  have hneither : advance d pid (.keyExists false) = some (d, .generate) := by
    simp [advance, hkey]
  refine .step hexists (.step hneither (.generate (finishes_writeAtomic (htemp .privateKey) ?_)))
  refine finishes_writeAtomic ?_ .returned
  rw [OrdMap.get?_insert, if_neg (IdentityFile.name_ne_temporary _ _ pid).symm]
  exact htemp .certificate

theorem Finishes.returnsAlone {s : SharedIdentity} {pid : Nat} {identity : LocalTlsIdentity}
    {result : Except IdentityError LocalTlsIdentity}
    (hpid : pid ∉ s.calls.map IdentityCall.pid)
    (h : Finishes pid identity s.files .certificateExists result) :
    ReturnsAlone s pid identity result := by
  obtain ⟨n, hn⟩ := h.proceed
    (s := { s with calls := s.calls ++ [⟨pid, .certificateExists⟩] }) (i := s.calls.length) rfl
    (by simp)
  exact ⟨_, n, by simp only [identitySystem, if_neg hpid], hn⟩

/-- When no call is under way, a further call that runs alone returns an identity that was
generated, the one that every earlier call returned; or a process stopped between its renames, and
the call refuses the key without a certificate. -/
theorem further_call {s : SharedIdentity} (h : identitySystem.Reach OneGenerates s)
    (hidle : ∀ a ∈ s.calls, a.stage.running = false) {pid : Nat}
    (hpid : pid ∉ s.calls.map IdentityCall.pid) (identity : LocalTlsIdentity) :
    (∃ created, ReturnsAlone s pid identity (.ok created) ∧
      (created ∈ s.generated ∨ created = identity) ∧
      ∀ a ∈ s.calls, ∀ earlier, a.stage = .returned (.ok earlier) → earlier = created) ∨
    (ReturnsAlone s pid identity (.error .incomplete) ∧
      (∃ a ∈ s.calls, ∃ stage, a.stage = .stopped stage ∧ stage.betweenRenames) ∧
      ∀ a ∈ s.calls, ∀ earlier, a.stage ≠ .returned (.ok earlier)) := by
  have hs := consistent_of_reach h
  have hearlier : ∀ a ∈ s.calls, ∀ earlier, a.stage = .returned (.ok earlier) →
      HoldsIdentity s.files earlier := by
    intro a hmem earlier hstage
    obtain ⟨i, hi⟩ := List.mem_iff_getElem?.mp hmem
    have hok := hs.stage i a hi
    rw [hstage] at hok
    exact hok
  cases hcert : s.files.get? IdentityFile.certificate.name with
  | some certificate =>
      obtain ⟨created, hmem, hholds⟩ := hs.certificate certificate hcert
      refine .inl ⟨created, (finishes_load hholds (hs.readable created hmem)).returnsAlone hpid,
        .inl hmem, fun a ha earlier hstage => ?_⟩
      have hold := hearlier a ha earlier hstage
      have hsameCert := hold.certificate.symm.trans hholds.certificate
      have hsameKey := hold.privateKey.symm.trans hholds.privateKey
      obtain ⟨certificate', key'⟩ := earlier
      obtain ⟨certificate'', key''⟩ := created
      cases hsameCert
      cases hsameKey
      rfl
  | none =>
      have hnever : ∀ a ∈ s.calls, ∀ earlier, a.stage ≠ .returned (.ok earlier) := by
        intro a ha earlier hstage
        have hsome := (hearlier a ha earlier hstage).certificate
        rw [hcert] at hsome
        cases hsome
      cases hkey : s.files.get? IdentityFile.privateKey.name with
      | none =>
          exact .inl ⟨identity, (finishes_generate hcert hkey (hs.fresh pid hpid)).returnsAlone hpid,
            .inr rfl, fun a ha earlier hstage => absurd hstage (hnever a ha earlier)⟩
      | some key =>
          refine .inr ⟨(finishes_incomplete hcert hkey).returnsAlone hpid, ?_, hnever⟩
          obtain ⟨a, hmem, hbetween | hstopped⟩ := hs.incomplete key hkey hcert
          · have hrunning : a.stage.running := by
              revert hbetween
              cases a.stage <;> simp [Stage.betweenRenames, Stage.running]
            rw [hidle a hmem] at hrunning
            cases hrunning
          · exact ⟨a, hmem, hstopped⟩

instance (s : SharedIdentity) : ∀ action, Decidable (OneGenerates s action)
  | .begin _ => .isTrue trivial
  | .step i => inferInstanceAs (Decidable (solo s i = true))
  | .generate _ identity => inferInstanceAs (Decidable identity.Readable)
  | .stop _ => .isTrue trivial

def sampleIdentity : LocalTlsIdentity := { certificate := [1, 2], privateKeyPkcs8 := [3] }

/-- A call that creates the identity, and one that loads it. -/
def createRun : List IdentityAction :=
  [.begin 1, .step 0, .step 0, .generate 0 sampleIdentity] ++ List.replicate 6 (.step 0) ++
    .begin 2 :: List.replicate 6 (.step 1)

theorem further_call_sample : ∃ s, identitySystem.run createRun = some s ∧
    s.calls = [⟨1, .returned (.ok sampleIdentity)⟩, ⟨2, .returned (.ok sampleIdentity)⟩] ∧
    ((∃ created, ReturnsAlone s 3 sampleIdentity (.ok created) ∧
      (created ∈ s.generated ∨ created = sampleIdentity) ∧
      ∀ a ∈ s.calls, ∀ earlier, a.stage = .returned (.ok earlier) → earlier = created) ∨
    (ReturnsAlone s 3 sampleIdentity (.error .incomplete) ∧
      (∃ a ∈ s.calls, ∃ stage, a.stage = .stopped stage ∧ stage.betweenRenames) ∧
      ∀ a ∈ s.calls, ∀ earlier, a.stage ≠ .returned (.ok earlier))) := by
  have hcalls : (identitySystem.run createRun).map SharedIdentity.calls =
      some [⟨1, .returned (.ok sampleIdentity)⟩, ⟨2, .returned (.ok sampleIdentity)⟩] := by
    decide +kernel
  obtain ⟨s, hrun, hcalls⟩ := Option.map_eq_some_iff.mp hcalls
  have hreach := TSys.reach_of_run (G := OneGenerates) createRun (by decide +kernel) hrun
  refine ⟨s, hrun, hcalls, further_call hreach ?_ ?_ sampleIdentity⟩
  · rw [hcalls]
    decide
  · rw [hcalls]
    decide

/-- A process stops when it has renamed the key. -/
def stopRun : List IdentityAction :=
  [.begin 1, .step 0, .step 0, .generate 0 sampleIdentity, .step 0, .step 0, .step 0, .stop 0]

/-- No call is under way, and a further call that runs alone does not return `Ok`. -/
theorem stopped_call_is_refused : ∃ s, identitySystem.run stopRun = some s ∧
    (∀ a ∈ s.calls, a.stage.running = false) ∧ 2 ∉ s.calls.map IdentityCall.pid ∧
    ∀ created, ¬ ReturnsAlone s 2 sampleIdentity (.ok created) := by
  have hstate : (identitySystem.run stopRun).map (fun s =>
      (s.calls, s.files.get? IdentityFile.certificate.name,
        s.files.get? IdentityFile.privateKey.name)) =
      some ([⟨1, .stopped (.createNew .certificate sampleIdentity)⟩], none, some [3]) := by
    decide +kernel
  obtain ⟨s, hrun, hstate⟩ := Option.map_eq_some_iff.mp hstate
  obtain ⟨hcalls, hfiles⟩ := Prod.mk.inj hstate
  obtain ⟨hcert, hkey⟩ := Prod.mk.inj hfiles
  have hpid : 2 ∉ s.calls.map IdentityCall.pid := by
    rw [hcalls]
    decide
  refine ⟨s, hrun, by rw [hcalls]; decide, hpid, fun created hok => ?_⟩
  have hrefused : ReturnsAlone s 2 sampleIdentity (.error .incomplete) :=
    (finishes_incomplete hcert hkey).returnsAlone hpid
  cases hok.unique hrefused

end LocalTlsIdentity

end HbbCommon.Transport
