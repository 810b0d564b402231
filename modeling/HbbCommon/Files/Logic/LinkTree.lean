import HbbCommon.Files.LinkTree
import HbbCommon.Files.Logic.Names

/-!
# What stands below a directory

A place below a directory is reached through directories alone. A path that leads to a
directory, with a name put behind it, leads to the entry of that name. The files and the
empty directories below a directory are listed by recursion over the directories.
-/

namespace HbbCommon.Files

open HbbCommon.Base

/-! ## Names behind a path -/

namespace IsName

variable {n : Name}

theorem component_eq (h : IsName n) : Path.component n = some (.normal n) := by
  unfold Path.component
  rw [if_neg (by simp [h.ne_nil, h.ne_dot]), if_neg h.ne_dotDot]

theorem segments_eq (h : IsName n) : Path.segments n = [n] :=
  Path.segments_of_notMem h.separator_notMem

theorem isAbsolute_eq_false (h : IsName n) : Path.isAbsolute n = false := by
  cases n with
  | nil => rfl
  | cons b n =>
      have hb : b ≠ Path.separator := fun hb => h.separator_notMem (hb ▸ List.mem_cons_self)
      simpa [Path.isAbsolute] using hb

theorem components_eq (h : IsName n) : Path.components n = [.normal n] := by
  rw [Path.components_of_segments h.segments_eq]
  unfold Path.componentsOf
  rw [if_neg (by simp), if_neg h.ne_dot, h.component_eq]
  rfl

theorem components_push (h : IsName n) (p : Path) :
    (p.push n).components = p.components ++ [.normal n] := by
  by_cases hp : p = []
  · subst hp
    unfold Path.push
    rw [if_neg (by simp [h.isAbsolute_eq_false]), if_neg (by simp), List.nil_append,
      h.components_eq]
    rfl
  · rw [Path.components_push h.isAbsolute_eq_false hp, h.segments_eq]
    simp [h.component_eq]

theorem push_ne_nil (h : IsName n) (p : Path) : p.push n ≠ [] := by
  unfold Path.push
  split
  · exact h.ne_nil
  · split <;> simp [h.ne_nil]

theorem fileName_push (h : IsName n) (p : Path) : (p.push n).fileName = some n := by
  unfold Path.fileName
  rw [h.components_push p, List.getLast?_concat]

end IsName

/-- Names pushed one after the other. -/
def joinNames (p : Path) (names : List Name) : Path := names.foldl Path.push p

theorem components_joinNames (p : Path) {names : List Name} (h : ∀ n ∈ names, IsName n) :
    (joinNames p names).components = p.components ++ names.map .normal := by
  induction names generalizing p with
  | nil => simp [joinNames]
  | cons n names ih =>
      obtain ⟨hn, hnames⟩ := List.forall_mem_cons.mp h
      show (joinNames (p.push n) names).components = _
      rw [ih (p.push n) hnames, hn.components_push p, List.map_cons, List.append_assoc]
      rfl

/-- Different names behind a path make different paths. -/
theorem joinNames_inj {p : Path} {names names' : List Name} (h : ∀ n ∈ names, IsName n)
    (h' : ∀ n ∈ names', IsName n) (heq : joinNames p names = joinNames p names') :
    names = names' := by
  have hcomponents := congrArg Path.components heq
  rw [components_joinNames p h, components_joinNames p h'] at hcomponents
  exact List.map_injective_iff.mpr (fun _ _ hc => Component.normal.inj hc)
    (List.append_cancel_left hcomponents)

namespace LinkTree

variable {t : LinkTree} {a : Place} {n : Name}

theorem dirAt_of_isSome (h : (t.node (a ++ [n])).isSome) : t.dirAt a := t.parent_dir a n h

theorem isSome_of_dirAt (h : t.dirAt a) : (t.node a).isSome := by
  unfold dirAt at h
  cases hnode : t.node a with
  | none => simp [hnode] at h
  | some node => rfl

theorem isSome_of_fileAt (h : t.fileAt a) : (t.node a).isSome := by
  unfold fileAt at h
  cases hnode : t.node a with
  | none => simp [hnode] at h
  | some node => rfl

theorem node_of_dirAt (h : t.dirAt a) : ∃ m, t.node a = some (.dir m) := by
  obtain ⟨inode, hnode⟩ := Option.isSome_iff_exists.mp (isSome_of_dirAt h)
  unfold dirAt at h
  rw [hnode] at h
  cases inode with
  | dir m => exact ⟨m, hnode⟩
  | file m => cases h
  | link target m => cases h

theorem node_of_fileAt (h : t.fileAt a) : ∃ m, t.node a = some (.file m) := by
  obtain ⟨inode, hnode⟩ := Option.isSome_iff_exists.mp (isSome_of_fileAt h)
  unfold fileAt at h
  rw [hnode] at h
  cases inode with
  | dir m => cases h
  | file m => exact ⟨m, hnode⟩
  | link target m => cases h

/-- What is above an entry is a directory. -/
theorem dirAt_of_append {rest : Place} (hne : rest ≠ []) (h : (t.node (a ++ rest)).isSome) :
    t.dirAt a := by
  induction rest using List.reverseRecOn with
  | nil => exact absurd rfl hne
  | append_singleton rest n ih =>
      rw [← List.append_assoc] at h
      have hdir := t.parent_dir _ n h
      by_cases hrest : rest = []
      · rwa [hrest, List.append_nil] at hdir
      · exact ih hrest (isSome_of_dirAt hdir)

/-- Every name on the way to an entry is a name. -/
theorem isName_of_mem {a : Place} (h : (t.node a).isSome) : ∀ n ∈ a, IsName n := by
  induction a using List.reverseRecOn with
  | nil => simp
  | append_singleton a n ih =>
      intro m hm
      rcases List.mem_append.mp hm with hm | hm
      · exact ih (isSome_of_dirAt (dirAt_of_isSome h)) m hm
      · rw [List.mem_singleton.mp hm]
        exact t.isName a n h

/-- Either end of an entry's place. -/
theorem isSome_of_append {b : Place} (h : (t.node (a ++ b)).isSome) : (t.node a).isSome := by
  by_cases hb : b = []
  · rwa [hb, List.append_nil] at h
  · exact isSome_of_dirAt (dirAt_of_append hb h)

/-! ## Paths that lead to a directory -/

/-- With a name behind it, a way to a directory is a way to the file or directory there. -/
theorem walk_concat {links : Nat} {start : Place} {components : List Component}
    (h : t.walk links start components = some a) (ha : t.dirAt a)
    (hentry : t.fileAt (a ++ [n]) ∨ t.dirAt (a ++ [n])) :
    t.walk links start (components ++ [.normal n]) = some (a ++ [n]) := by
  fun_induction LinkTree.walk t links start components with
  | case1 links start =>
      cases h
      rw [List.nil_append, walk]
      rcases hentry with hfile | hdir
      · obtain ⟨m, hm⟩ := node_of_fileAt hfile
        rw [hm]
        exact if_pos rfl
      · obtain ⟨m, hm⟩ := node_of_dirAt hdir
        rw [hm]
        exact walk.eq_1 ..
  | case2 links start rest ih =>
      rw [List.cons_append, walk]
      exact ih h
  | case3 links start rest ih =>
      rw [List.cons_append, walk]
      exact ih h
  | case4 links start rest ih =>
      rw [List.cons_append, walk]
      exact ih h
  | case5 => cases h
  | case6 links start n' rest m hnode ih =>
      rw [List.cons_append, walk, hnode]
      exact ih h
  | case7 links start n' m hnode =>
      -- a file is no directory
      cases h
      obtain ⟨m', hm'⟩ := node_of_dirAt ha
      rw [hnode] at hm'
      cases hm'
  | case8 => cases h
  | case9 => cases h
  | case10 start n' rest target m hnode links ih =>
      rw [List.cons_append, walk, hnode]
      dsimp only
      rw [← List.append_assoc]
      exact ih h

theorem ne_nil_of_resolve {p : Path} (h : t.resolve p = some a) : p ≠ [] := by
  rintro rfl
  cases h

theorem walk_of_resolve {p : Path} (h : t.resolve p = some a) :
    t.walk maxLinks t.cwd p.components = some a := by
  unfold resolve at h
  rwa [if_neg (ne_nil_of_resolve h)] at h

theorem resolve_push {p : Path} (h : t.resolve p = some a) (ha : t.dirAt a)
    (hentry : t.fileAt (a ++ [n]) ∨ t.dirAt (a ++ [n])) :
    t.resolve (p.push n) = some (a ++ [n]) := by
  have hname : IsName n := by
    refine t.isName a n ?_
    rcases hentry with hfile | hdir
    · exact isSome_of_fileAt hfile
    · exact isSome_of_dirAt hdir
  unfold resolve
  rw [if_neg (hname.push_ne_nil p), hname.components_push p]
  exact walk_concat (walk_of_resolve h) ha hentry

theorem resolveParent_push {p : Path} (h : t.resolve p = some a) (hname : IsName n) :
    t.resolveParent (p.push n) = some (a ++ [n]) := by
  unfold resolveParent
  rw [hname.components_push p, List.getLast?_concat]
  dsimp only
  rw [List.dropLast_concat, walk_of_resolve h]
  rfl

theorem symlinkMetadata_push {p : Path} (h : t.resolve p = some a) (hname : IsName n) :
    t.symlinkMetadata (p.push n) = t.node (a ++ [n]) := by
  unfold symlinkMetadata
  rw [resolveParent_push h hname]
  rfl

theorem isDir_of_resolve {p : Path} (h : t.resolve p = some a) :
    t.isDir p = true ↔ t.dirAt a := by
  unfold isDir dirAt
  rw [h]
  rfl

/-! ## The entries below a directory -/

section

variable (t)

/-- The places of the files below a directory, behind that of the directory. -/
def filesBelow : (fuel : Nat) → Place → List Place
  | 0, _ => []
  | fuel + 1, a =>
      (t.list a).flatMap (fun n =>
        if t.fileAt (a ++ [n]) then [[n]]
        else if t.dirAt (a ++ [n]) then (filesBelow fuel (a ++ [n])).map (n :: ·)
        else [])

/-- The places of the empty directories below a directory and of the directory itself. -/
def emptyDirsBelow : (fuel : Nat) → Place → List Place
  | 0, _ => []
  | fuel + 1, a =>
      if t.list a = [] then [[]]
      else
        (t.list a).flatMap (fun n =>
          if t.dirAt (a ++ [n]) then (emptyDirsBelow fuel (a ++ [n])).map (n :: ·) else [])

end

/-- With more fuel than the tree has levels left, nothing is deeper. -/
theorem fuel_pos {fuel : Nat} (ha : t.dirAt a) (hfuel : t.depth < a.length + fuel) :
    ∃ k, fuel = k + 1 := by
  have := t.length_le a (isSome_of_dirAt ha)
  exact ⟨fuel - 1, by omega⟩

theorem not_dirAt_of_fileAt (h : t.fileAt a) : ¬ t.dirAt a := by
  obtain ⟨m, hm⟩ := node_of_fileAt h
  unfold dirAt
  simp [hm, Inode.isDir]

theorem not_of_linkAt (h : t.linkAt a) : ¬ t.fileAt a ∧ ¬ t.dirAt a := by
  unfold linkAt at h
  unfold fileAt dirAt
  cases hnode : t.node a with
  | none => simp
  | some inode =>
      rw [hnode] at h
      cases inode with
      | file m => cases h
      | dir m => cases h
      | link target m => simp [Inode.isFile, Inode.isDir]

theorem mem_filesBelow {fuel : Nat} (ha : t.dirAt a) (hfuel : t.depth < a.length + fuel)
    {rel : Place} : rel ∈ t.filesBelow fuel a ↔ t.fileAt (a ++ rel) := by
  induction fuel generalizing a rel with
  | zero =>
      have := t.length_le a (isSome_of_dirAt ha)
      omega
  | succ fuel ih =>
      rw [filesBelow, List.mem_flatMap]
      constructor
      · rintro ⟨n, -, hrel⟩
        split at hrel
        · rename_i hfile
          rw [List.mem_singleton.mp hrel]
          exact hfile
        · split at hrel
          · rename_i hdir
            obtain ⟨rest, hrest, rfl⟩ := List.mem_map.mp hrel
            have := (ih hdir (by rw [List.length_append, List.length_singleton]; omega)).mp hrest
            rwa [List.append_assoc] at this
          · cases hrel
      · intro hfile
        cases rel with
        | nil => exact absurd ha (not_dirAt_of_fileAt (by rwa [List.append_nil] at hfile))
        | cons n rest =>
            have hassoc : a ++ n :: rest = (a ++ [n]) ++ rest := by simp
            rw [hassoc] at hfile
            refine ⟨n, (t.mem_list a n).mpr (isSome_of_append (isSome_of_fileAt hfile)), ?_⟩
            by_cases hrest : rest = []
            · subst hrest
              rw [List.append_nil] at hfile
              rw [if_pos hfile]
              exact List.mem_singleton_self _
            · have hdir := dirAt_of_append hrest (isSome_of_fileAt hfile)
              rw [if_neg (fun h => not_dirAt_of_fileAt h hdir), if_pos hdir]
              exact List.mem_map_of_mem
                ((ih hdir (by rw [List.length_append, List.length_singleton]; omega)).mpr hfile)

theorem nodup_filesBelow (fuel : Nat) (a : Place) : (t.filesBelow fuel a).Nodup := by
  induction fuel generalizing a with
  | zero => exact List.nodup_nil
  | succ fuel ih =>
      rw [filesBelow, List.nodup_flatMap]
      constructor
      · intro n _
        split
        · exact List.nodup_singleton _
        · split
          · exact (ih (a ++ [n])).map (fun _ _ h => (List.cons.inj h).2)
          · exact List.nodup_nil
      · -- what comes from an entry begins with its name
        have hhead : ∀ n rel, rel ∈ (if t.fileAt (a ++ [n]) then [[n]]
            else if t.dirAt (a ++ [n]) then (t.filesBelow fuel (a ++ [n])).map (n :: ·) else []) →
            rel.head? = some n := by
          intro n rel hrel
          split at hrel
          · rw [List.mem_singleton.mp hrel]
            rfl
          · split at hrel
            · obtain ⟨rest, -, rfl⟩ := List.mem_map.mp hrel
              rfl
            · cases hrel
        refine (t.nodup_list a).imp (fun hne rel hn hm => hne ?_)
        exact Option.some.inj ((hhead _ rel hn).symm.trans (hhead _ rel hm))

theorem mem_emptyDirsBelow {fuel : Nat} (ha : t.dirAt a) (hfuel : t.depth < a.length + fuel)
    {rel : Place} :
    rel ∈ t.emptyDirsBelow fuel a ↔ t.dirAt (a ++ rel) ∧ t.list (a ++ rel) = [] := by
  induction fuel generalizing a rel with
  | zero =>
      have := t.length_le a (isSome_of_dirAt ha)
      omega
  | succ fuel ih =>
      rw [emptyDirsBelow]
      by_cases hempty : t.list a = []
      · rw [if_pos hempty, List.mem_singleton]
        constructor
        · rintro rfl
          rw [List.append_nil]
          exact ⟨ha, hempty⟩
        · rintro ⟨hdir, -⟩
          cases rel with
          | nil => rfl
          | cons n rest =>
              have hassoc : a ++ n :: rest = (a ++ [n]) ++ rest := by simp
              rw [hassoc] at hdir
              have hn := (t.mem_list a n).mpr (isSome_of_append (isSome_of_dirAt hdir))
              rw [hempty] at hn
              cases hn
      · rw [if_neg hempty, List.mem_flatMap]
        constructor
        · rintro ⟨n, -, hrel⟩
          split at hrel
          · rename_i hdir
            obtain ⟨rest, hrest, rfl⟩ := List.mem_map.mp hrel
            have := (ih hdir (by rw [List.length_append, List.length_singleton]; omega)).mp hrest
            rwa [List.append_assoc] at this
          · cases hrel
        · rintro ⟨hdir, hnone⟩
          cases rel with
          | nil => exact absurd (by rwa [List.append_nil] at hnone) hempty
          | cons n rest =>
              have hassoc : a ++ n :: rest = (a ++ [n]) ++ rest := by simp
              rw [hassoc] at hdir hnone
              have hsome := isSome_of_append (isSome_of_dirAt hdir)
              have hn : t.dirAt (a ++ [n]) := by
                by_cases hrest : rest = []
                · rwa [hrest, List.append_nil] at hdir
                · exact dirAt_of_append hrest (isSome_of_dirAt hdir)
              refine ⟨n, (t.mem_list a n).mpr hsome, ?_⟩
              rw [if_pos hn]
              exact List.mem_map_of_mem
                ((ih hn (by rw [List.length_append, List.length_singleton]; omega)).mpr
                  ⟨hdir, hnone⟩)

end LinkTree

end HbbCommon.Files
