import HbbCommon.Files.Logic.Listing

/-!
# Clearing a folder of empty directories

`remove_all_empty_dir` works on the entries of a folder one after the other. What it makes
of a place below the folder depends only on whether a file is there or below it: such a
place stays, and any other is gone. What is outside the folder is as it was.
-/

namespace HbbCommon.Files.Listing

open HbbCommon.Base

variable {t s s' : LinkTree} {a : Place} {n : Name} {path : Path}

/-! ## Paths to a directory -/

/-- The tree `s` is `t` but for what is below a directory. -/
structure AgreesOutside (t s : LinkTree) (a : Place) : Prop where
  cwd : s.cwd = t.cwd
  node : ∀ b, b = a ∨ ¬ a <+: b → s.node b = t.node b

theorem AgreesOutside.trans {u : LinkTree} (h : AgreesOutside t s a) (h' : AgreesOutside s u a) :
    AgreesOutside t u a :=
  ⟨h'.cwd.trans h.cwd, fun b hb => (h'.node b hb).trans (h.node b hb)⟩

/-- What is outside a directory is outside those in it. -/
theorem AgreesOutside.above (h : AgreesOutside t s (a ++ [n])) : AgreesOutside t s a := by
  refine ⟨h.cwd, fun b hb => h.node b (.inr (fun hbelow => ?_))⟩
  rcases hb with rfl | hb
  · have hlength := hbelow.length_le
    rw [List.length_append, List.length_singleton] at hlength
    omega
  · exact hb ((List.prefix_append a [n]).trans hbelow)

theorem AgreesOutside.dirAt (h : AgreesOutside t s a) (ha : t.dirAt a) : s.dirAt a := by
  unfold LinkTree.dirAt
  rw [h.node a (.inl rfl)]
  exact ha

/-- A path leads to a directory, and so it does whatever is below the directory. -/
structure LeadsTo (t : LinkTree) (path : Path) (a : Place) : Prop where
  resolve : ∀ s, AgreesOutside t s a → s.resolve path = some a
  resolveParent : ∀ s, AgreesOutside t s a → s.resolveParent path = t.resolveParent path

theorem LeadsTo.self (h : LeadsTo t path a) : t.resolve path = some a :=
  h.resolve t ⟨rfl, fun _ _ => rfl⟩

theorem LeadsTo.transfer (h : LeadsTo t path a) (hagrees : AgreesOutside t s a) :
    LeadsTo s path a where
  resolve u hu := h.resolve u (hagrees.trans hu)
  resolveParent u hu :=
    (h.resolveParent u (hagrees.trans hu)).trans (h.resolveParent s hagrees).symm

theorem LeadsTo.push (h : LeadsTo t path a) (ha : t.dirAt a) (hn : t.dirAt (a ++ [n])) :
    LeadsTo t (path.push n) (a ++ [n]) := by
  have hname := t.isName a n (LinkTree.isSome_of_dirAt hn)
  refine ⟨fun s hs => ?_, fun s hs => ?_⟩
  · exact LinkTree.resolve_push (h.resolve s hs.above) (hs.above.dirAt ha) (.inr (hs.dirAt hn))
  · rw [LinkTree.resolveParent_push (h.resolve s hs.above) hname,
      LinkTree.resolveParent_push h.self hname]

/-- `/` leads to the root of every tree, and from there names lead on. -/
theorem leadsTo_root (t : LinkTree) : LeadsTo t [Path.separator] [] := by
  have hresolve : ∀ s : LinkTree, s.resolve [Path.separator] = some [] := by
    intro s
    unfold LinkTree.resolve
    rw [if_neg (by simp), show Path.components [Path.separator] = [.rootDir] by decide,
      LinkTree.walk]
    exact LinkTree.walk.eq_1 ..
  refine ⟨fun s _ => hresolve s, fun s _ => ?_⟩
  unfold LinkTree.resolveParent
  rw [show Path.components [Path.separator] = [.rootDir] by decide]
  exact (hresolve s).trans (hresolve t).symm

/-- The path ends in the name of the directory, as the system wants it of a directory to
remove. -/
structure OwnName (t : LinkTree) (path : Path) (a : Place) : Prop where
  ne_nil : a ≠ []
  last : ∃ n, path.components.getLast? = some (.normal n)
  resolveParent : t.resolveParent path = some a

theorem OwnName.push (h : LeadsTo t path a) (hn : IsName n) :
    OwnName t (path.push n) (a ++ [n]) where
  ne_nil := by simp
  last := ⟨n, by rw [hn.components_push path, List.getLast?_concat]⟩
  resolveParent := LinkTree.resolveParent_push h.self hn

theorem OwnName.transfer (hleads : LeadsTo t path a) (hagrees : AgreesOutside t s a) :
    OwnName s path a ↔ OwnName t path a := by
  have heq := hleads.resolveParent s hagrees
  exact ⟨fun h => ⟨h.ne_nil, h.last, heq ▸ h.resolveParent⟩,
    fun h => ⟨h.ne_nil, h.last, heq ▸ h.resolveParent⟩⟩

/-- A directory that a path ends in is the one it leads to. -/
theorem resolve_of_resolveParent {b : Place} (h : t.resolveParent path = some b)
    (hlast : ∃ n, path.components.getLast? = some (.normal n)) (hb : t.dirAt b) :
    t.resolve path = some b := by
  obtain ⟨n, hn⟩ := hlast
  have hne : path ≠ [] := by
    rintro rfl
    cases hn
  unfold LinkTree.resolveParent at h
  rw [hn] at h
  obtain ⟨c, hwalk, rfl⟩ := Option.map_eq_some_iff.mp h
  obtain ⟨m, hm⟩ := LinkTree.node_of_dirAt hb
  obtain ⟨init, hinit⟩ : ∃ init, path.components = init ++ [.normal n] :=
    ⟨_, (List.dropLast_append_getLast? _ hn).symm⟩
  rw [hinit, List.dropLast_concat] at hwalk
  unfold LinkTree.resolve
  rw [if_neg hne, hinit]
  exact LinkTree.walk_concat hwalk (LinkTree.dirAt_of_isSome (LinkTree.isSome_of_dirAt hb))
    (.inr hb)

theorem removeDir_own (hown : OwnName t path a) (ha : t.dirAt a) (hempty : t.list a = []) :
    t.removeDir path = some (t.without a hown.ne_nil hempty) := by
  obtain ⟨n, hn⟩ := hown.last
  unfold LinkTree.removeDir LinkTree.remove
  rw [hn, hown.resolveParent]
  exact dif_pos ⟨hown.ne_nil, hempty, ha⟩

/-- `remove_dir` removes the directory under its own name or nothing. -/
theorem removeDir_eq_none (hpath : t.resolve path = some a)
    (h : ¬ OwnName t path a ∨ t.list a ≠ []) : t.removeDir path = none := by
  unfold LinkTree.removeDir
  split
  · rename_i n hn
    unfold LinkTree.remove
    cases hparent : t.resolveParent path with
    | none => rfl
    | some b =>
        refine dif_neg ?_
        rintro ⟨hne, hempty, hdir⟩
        have hb := resolve_of_resolveParent hparent ⟨n, hn⟩ hdir
        rw [hpath, Option.some_inj] at hb
        subst hb
        rcases h with h | h
        · exact h ⟨hne, ⟨n, hn⟩, hparent⟩
        · exact h hempty
  · rfl

/-! ## What stays -/

/-- A file is at the place or below it. -/
def Stays (t : LinkTree) (a : Place) : Prop := ∃ below, t.fileAt (a ++ below)

/-- The tree `s` is `t` with nothing at or below the place but what stays; the place itself
also stays when `kept` says so. -/
structure Cleared (kept : Prop) (t s : LinkTree) (a : Place) : Prop where
  cwd : s.cwd = t.cwd
  depth : s.depth = t.depth
  outside : ∀ b, ¬ a <+: b → s.node b = t.node b
  stays : ∀ rel, Stays t (a ++ rel) ∨ rel = [] ∧ kept → s.node (a ++ rel) = t.node (a ++ rel)
  gone : ∀ rel, ¬ Stays t (a ++ rel) → ¬ (rel = [] ∧ kept) → s.node (a ++ rel) = none

theorem stays_congr {b : Place} (h : ∀ below, s.node (b ++ below) = t.node (b ++ below)) :
    Stays s b ↔ Stays t b := by
  unfold Stays LinkTree.fileAt
  simp only [h]

theorem Stays.above {b below : Place} (h : Stays t (b ++ below)) : Stays t b := by
  obtain ⟨rest, hfile⟩ := h
  exact ⟨below ++ rest, by rwa [← List.append_assoc]⟩

/-- Below what is no directory there is nothing. -/
theorem node_below_eq_none (h : ¬ t.dirAt a) {rel : Place} (hrel : rel ≠ []) :
    t.node (a ++ rel) = none := by
  by_contra hnode
  exact h (LinkTree.dirAt_of_append hrel (Option.isSome_iff_ne_none.mpr hnode))

theorem cleared_file (h : t.fileAt a) : Cleared False t t a where
  cwd := rfl
  depth := rfl
  outside _ _ := rfl
  stays _ _ := rfl
  gone rel hstays _ := by
    have hrel : rel ≠ [] := by
      rintro rfl
      exact hstays ⟨[], by simpa using h⟩
    exact node_below_eq_none (LinkTree.not_dirAt_of_fileAt h) hrel

theorem without_node (hb : a ≠ []) (hempty : t.list a = []) (b : Place) :
    (t.without a hb hempty).node b = if b = a then none else t.node b :=
  Function.update_apply _ _ _ _

theorem cleared_link (h : t.linkAt a) (hb : a ≠ []) (hempty : t.list a = []) :
    Cleared False t (t.without a hb hempty) a := by
  have hnode := LinkTree.not_of_linkAt h
  have hbelow : ∀ rel, ¬ Stays t (a ++ rel) := by
    rintro rel ⟨below, hfile⟩
    rw [List.append_assoc] at hfile
    by_cases hrel : rel ++ below = []
    · rw [hrel, List.append_nil] at hfile
      exact hnode.1 hfile
    · exact hnode.2 (LinkTree.dirAt_of_append hrel (LinkTree.isSome_of_fileAt hfile))
  refine ⟨rfl, rfl, fun b hb' => ?_, fun rel hrel => ?_, fun rel _ _ => ?_⟩
  · rw [without_node, if_neg]
    rintro rfl
    exact hb' List.prefix_rfl
  · rcases hrel with hrel | ⟨-, hfalse⟩
    · exact absurd hrel (hbelow rel)
    · exact hfalse.elim
  · rw [without_node]
    by_cases hrel : rel = []
    · rw [if_pos (by rw [hrel, List.append_nil])]
    · rw [if_neg (by simpa using hrel)]
      exact node_below_eq_none hnode.2 hrel

/-! ## One entry after the other -/

/-- The entries `done` of a directory are cleared, and nothing else is touched. -/
structure Progress (t s : LinkTree) (a : Place) (done : List Name) : Prop where
  cwd : s.cwd = t.cwd
  depth : s.depth = t.depth
  untouched : ∀ b, (∀ n ∈ done, ¬ a ++ [n] <+: b) → s.node b = t.node b
  stays : ∀ n ∈ done, ∀ rel, Stays t (a ++ [n] ++ rel) →
    s.node (a ++ [n] ++ rel) = t.node (a ++ [n] ++ rel)
  gone : ∀ n ∈ done, ∀ rel, ¬ Stays t (a ++ [n] ++ rel) → s.node (a ++ [n] ++ rel) = none

theorem Progress.refl (t : LinkTree) (a : Place) : Progress t t a [] where
  cwd := rfl
  depth := rfl
  untouched _ _ := rfl
  stays _ h := by cases h
  gone _ h := by cases h

/-- Two names in a directory begin different places. -/
theorem eq_of_isPrefix {m : Name} {rel : Place} (h : a ++ [m] <+: a ++ [n] ++ rel) : m = n := by
  rw [List.append_assoc, List.prefix_append_right_inj] at h
  exact (List.cons_prefix_cons.mp h).1

variable {done : List Name}

/-- An entry that is not done is as it was, with all that is below it. -/
theorem Progress.entry (h : Progress t s a done) (hn : n ∉ done) (rel : Place) :
    s.node (a ++ [n] ++ rel) = t.node (a ++ [n] ++ rel) :=
  h.untouched _ (fun _ hm hbelow => hn (eq_of_isPrefix hbelow ▸ hm))

theorem Progress.self (h : Progress t s a done) : s.node a = t.node a := by
  refine h.untouched a (fun n _ hbelow => ?_)
  have hlength := hbelow.length_le
  rw [List.length_append, List.length_singleton] at hlength
  omega

theorem Progress.agrees (h : Progress t s a done) : AgreesOutside t s a := by
  refine ⟨h.cwd, fun b hb => ?_⟩
  rcases hb with rfl | hb
  · exact h.self
  · exact h.untouched b (fun n _ hbelow => hb ((List.prefix_append a [n]).trans hbelow))

theorem Progress.step (h : Progress t s a done) (hn : n ∉ done)
    (hcleared : Cleared False s s' (a ++ [n])) : Progress t s' a (done ++ [n]) := by
  have hother : ∀ m ∈ done, ∀ rel, s'.node (a ++ [m] ++ rel) = s.node (a ++ [m] ++ rel) :=
    fun m hm rel => hcleared.outside _ (fun hbelow => hn (eq_of_isPrefix hbelow ▸ hm))
  have hsame : ∀ rel, Stays s (a ++ [n] ++ rel) ↔ Stays t (a ++ [n] ++ rel) := by
    intro rel
    refine stays_congr (fun below => ?_)
    rw [List.append_assoc]
    exact h.entry hn (rel ++ below)
  refine ⟨hcleared.cwd.trans h.cwd, hcleared.depth.trans h.depth, fun b hb => ?_,
    fun m hm rel hrel => ?_, fun m hm rel hrel => ?_⟩
  · rw [hcleared.outside b (hb n (by simp))]
    exact h.untouched b (fun m hm => hb m (by simp [hm]))
  · rcases List.mem_append.mp hm with hm | hm
    · rw [hother m hm]
      exact h.stays m hm rel hrel
    · rw [List.mem_singleton.mp hm] at hrel ⊢
      rw [hcleared.stays rel (.inl ((hsame rel).mpr hrel))]
      exact h.entry hn rel
  · rcases List.mem_append.mp hm with hm | hm
    · rw [hother m hm]
      exact h.gone m hm rel hrel
    · rw [List.mem_singleton.mp hm] at hrel ⊢
      exact hcleared.gone rel (fun hstays => hrel ((hsame rel).mp hstays)) (fun h => h.2)

theorem linkAt_of_not (hsome : (t.node a).isSome) (hfile : ¬ t.fileAt a) (hdir : ¬ t.dirAt a) :
    t.linkAt a := by
  unfold LinkTree.fileAt at hfile
  unfold LinkTree.dirAt at hdir
  unfold LinkTree.linkAt
  obtain ⟨inode, hnode⟩ := Option.isSome_iff_exists.mp hsome
  rw [hnode] at hfile hdir ⊢
  cases inode with
  | file m => exact absurd rfl hfile
  | dir m => exact absurd rfl hdir
  | link target m => rfl

/-- A link in a directory is removed, and nothing else. -/
theorem removeFile_link (hpath : t.resolve path = some a) (hlink : t.linkAt (a ++ [n])) :
    ∃ s, t.removeFile (path.push n) = some s ∧ Cleared False t s (a ++ [n]) := by
  have hnode : (t.node (a ++ [n])).any (fun node => !node.isDir) := by
    unfold LinkTree.linkAt at hlink
    cases hnode : t.node (a ++ [n]) with
    | none => simp [hnode] at hlink
    | some inode =>
        rw [hnode] at hlink
        cases inode <;> first | rfl | cases hlink
  have hsome : (t.node (a ++ [n])).isSome := by
    cases hentry : t.node (a ++ [n]) with
    | none => simp [hentry] at hnode
    | some inode => rfl
  have hdir : ¬ t.dirAt (a ++ [n]) := by
    intro hdir
    obtain ⟨m, hm⟩ := LinkTree.node_of_dirAt hdir
    rw [hm] at hnode
    cases hnode
  have hempty : t.list (a ++ [n]) = [] := by
    refine List.eq_nil_iff_forall_not_mem.mpr (fun m hm => ?_)
    exact hdir (LinkTree.dirAt_of_isSome ((t.mem_list _ m).mp hm))
  have hne : a ++ [n] ≠ [] := by simp
  refine ⟨t.without (a ++ [n]) hne hempty, ?_, cleared_link hlink hne hempty⟩
  unfold LinkTree.removeFile LinkTree.remove
  rw [LinkTree.resolveParent_push hpath (t.isName a n hsome)]
  exact dif_pos ⟨hne, hempty, hnode⟩

/-- `remove_all_empty_dir` of a directory that a path leads to clears it. -/
def Clears (fuel : Nat) : Prop :=
  ∀ (t : LinkTree) (path : Path) (a : Place), LeadsTo t path a → t.dirAt a → Utf8Below t a →
    t.depth < a.length + fuel →
    ∃ t', removeAllEmptyDir fuel path t = some (.ok (), t') ∧
      Cleared (¬ OwnName t path a) t t' a

theorem clearEntry_ok {fuel : Nat} (hclears : Clears fuel) (hpath : LeadsTo t path a)
    (ha : t.dirAt a) (hutf8 : Utf8Below t a) (hfuel : t.depth < a.length + (fuel + 1))
    (hprogress : Progress t s a done) {entry : FileEntry} (htype : TypeAt t a entry)
    (hnew : utf8Bytes entry.name ∉ done) :
    ∃ s', clearEntry (removeAllEmptyDir fuel) path s entry = some s' ∧
      Cleared False s s' (a ++ [utf8Bytes entry.name]) := by
  obtain ⟨hsome, hfile, hdir⟩ := htype
  have hname := t.isName a _ hsome
  have hnode : s.node (a ++ [utf8Bytes entry.name]) = t.node (a ++ [utf8Bytes entry.name]) := by
    have := hprogress.entry hnew []
    rwa [List.append_nil] at this
  have hsa : s.dirAt a := hprogress.agrees.dirAt ha
  have hspath : LeadsTo s path a := hpath.transfer hprogress.agrees
  have hlink : ¬ entry.entryType = .file → ¬ entry.entryType = .dir →
      ∃ s', s.removeFile (path.push (utf8Bytes entry.name)) = some s' ∧
        Cleared False s s' (a ++ [utf8Bytes entry.name]) := by
    intro hnotFile hnotDir
    refine removeFile_link hspath.self ?_
    unfold LinkTree.linkAt
    rw [hnode]
    exact linkAt_of_not hsome (fun h => hnotFile (hfile.mpr h)) (fun h => hnotDir (hdir.mpr h))
  unfold clearEntry
  dsimp only
  cases htype : entry.entryType with
  | file =>
      refine ⟨s, rfl, cleared_file ?_⟩
      unfold LinkTree.fileAt
      rw [hnode]
      exact hfile.mp htype
  | dir =>
      have hat : s.dirAt (a ++ [utf8Bytes entry.name]) := by
        unfold LinkTree.dirAt
        rw [hnode]
        exact hdir.mp htype
      have hbelow : Utf8Below s (a ++ [utf8Bytes entry.name]) := by
        intro rel m hm
        rw [List.append_assoc, hprogress.entry hnew, ← List.append_assoc] at hm
        exact hutf8.descend _ rel m hm
      obtain ⟨s', hrun, hcleared⟩ := hclears s _ _ (hspath.push hsa hat) hat hbelow
        (by rw [hprogress.depth, List.length_append, List.length_singleton]; omega)
      refine ⟨s', by rw [hrun]; rfl, ?_⟩
      rwa [eq_false (not_not_intro (OwnName.push hspath hname))] at hcleared
  | dirLink =>
      obtain ⟨s', hremove, hcleared⟩ := hlink (by simp [htype]) (by simp [htype])
      exact ⟨s', by rw [hremove]; rfl, hcleared⟩
  | fileLink =>
      obtain ⟨s', hremove, hcleared⟩ := hlink (by simp [htype]) (by simp [htype])
      exact ⟨s', by rw [hremove]; rfl, hcleared⟩

/-- The loop over the entries of a directory clears them all. -/
theorem clearEntries_ok {fuel : Nat} (hclears : Clears fuel) (hpath : LeadsTo t path a)
    (ha : t.dirAt a) (hutf8 : Utf8Below t a) (hfuel : t.depth < a.length + (fuel + 1))
    (entries : List FileEntry) (hprogress : Progress t s a done)
    (htypes : ∀ entry ∈ entries, TypeAt t a entry)
    (hnodup : (done ++ entries.map (fun entry => utf8Bytes entry.name)).Nodup) :
    ∃ s', entries.foldlM (clearEntry (removeAllEmptyDir fuel) path) s = some s' ∧
      Progress t s' a (done ++ entries.map (fun entry => utf8Bytes entry.name)) := by
  induction entries generalizing s done with
  | nil => exact ⟨s, rfl, by simpa using hprogress⟩
  | cons entry entries ih =>
      obtain ⟨htype, hrest⟩ := List.forall_mem_cons.mp htypes
      have hassoc : done ++ (entry :: entries).map (fun entry => utf8Bytes entry.name) =
          (done ++ [utf8Bytes entry.name]) ++ entries.map (fun entry => utf8Bytes entry.name) := by
        simp
      rw [hassoc] at hnodup ⊢
      have hnew : utf8Bytes entry.name ∉ done := by
        have := (List.nodup_append.mp hnodup).1
        intro hmem
        exact (List.nodup_append.mp this).2.2 _ hmem _ (List.mem_singleton_self _) rfl
      obtain ⟨s₁, hentry, hcleared⟩ :=
        clearEntry_ok hclears hpath ha hutf8 hfuel hprogress htype hnew
      obtain ⟨s', hfold, hall⟩ := ih (hprogress.step hnew hcleared) hrest hnodup
      refine ⟨s', ?_, hall⟩
      rw [List.foldlM_cons, hentry]
      exact hfold

/-! ## The directory itself -/

section

variable (hprogress : Progress t s a (t.list a))
include hprogress

theorem Progress.not_prefix (hn : n ∉ t.list a) (rel : Place) :
    s.node (a ++ n :: rel) = none ∧ t.node (a ++ n :: rel) = none := by
  have hassoc : a ++ n :: rel = a ++ [n] ++ rel := by simp
  have hnone : t.node (a ++ [n] ++ rel) = none := by
    by_contra hnode
    exact hn ((t.mem_list a n).mpr
      (LinkTree.isSome_of_append (Option.isSome_iff_ne_none.mpr hnode)))
  rw [hassoc, hprogress.entry hn, hnone]
  exact ⟨rfl, rfl⟩

/-- With its entries cleared a directory is empty exactly when no file is below it. -/
theorem Progress.list_eq_nil_iff (ha : t.dirAt a) : s.list a = [] ↔ ¬ Stays t a := by
  constructor
  · rintro hempty ⟨below, hfile⟩
    cases below with
    | nil => exact LinkTree.not_dirAt_of_fileAt (by rwa [List.append_nil] at hfile) ha
    | cons n rest =>
        have hassoc : a ++ n :: rest = a ++ [n] ++ rest := by simp
        rw [hassoc] at hfile
        have hsome := LinkTree.isSome_of_append (LinkTree.isSome_of_fileAt hfile)
        have hn := (t.mem_list a n).mpr hsome
        have hnode := hprogress.stays n hn [] (by rw [List.append_nil]; exact ⟨rest, hfile⟩)
        rw [List.append_nil] at hnode
        have hmem := (s.mem_list a n).mpr (by rw [hnode]; exact hsome)
        rw [hempty] at hmem
        cases hmem
  · intro hstays
    refine List.eq_nil_iff_forall_not_mem.mpr (fun n hn => ?_)
    have hsome := (s.mem_list a n).mp hn
    have hnone : s.node (a ++ [n]) = none := by
      by_cases hmem : n ∈ t.list a
      · have hgone := hprogress.gone n hmem [] (fun h => hstays (Stays.above h.above))
        rwa [List.append_nil] at hgone
      · exact (hprogress.not_prefix hmem []).1
    rw [hnone] at hsome
    cases hsome

/-- Where the directory itself stays, it is cleared with its entries. -/
theorem Progress.cleared {kept : Prop} (hkept : Stays t a ∨ kept) :
    Cleared kept t s a := by
  refine ⟨hprogress.cwd, hprogress.depth, fun b hb => ?_, fun rel hrel => ?_,
    fun rel hstays hnot => ?_⟩
  · exact hprogress.untouched b (fun n _ hbelow => hb ((List.prefix_append a [n]).trans hbelow))
  · cases rel with
    | nil => rw [List.append_nil, hprogress.self]
    | cons n rest =>
        have hassoc : a ++ n :: rest = a ++ [n] ++ rest := by simp
        by_cases hn : n ∈ t.list a
        · rw [hassoc] at hrel ⊢
          exact hprogress.stays n hn rest (hrel.resolve_right (fun h => by cases h.1))
        · rw [(hprogress.not_prefix hn rest).1, (hprogress.not_prefix hn rest).2]
  · cases rel with
    | nil =>
        rw [List.append_nil] at hstays
        exact absurd ⟨rfl, hkept.resolve_left hstays⟩ hnot
    | cons n rest =>
        have hassoc : a ++ n :: rest = a ++ [n] ++ rest := by simp
        by_cases hn : n ∈ t.list a
        · rw [hassoc] at hstays ⊢
          exact hprogress.gone n hn rest hstays
        · exact (hprogress.not_prefix hn rest).1

/-- Without a file below it, the directory is removed last, when the system can. -/
theorem Progress.cleared_without (hstays : ¬ Stays t a) (hne : a ≠ [])
    (hempty : s.list a = []) : Cleared False t (s.without a hne hempty) a := by
  refine ⟨hprogress.cwd, hprogress.depth, fun b hb => ?_, fun rel hrel => ?_,
    fun rel _ _ => ?_⟩
  · have hother : b ≠ a := by
      rintro rfl
      exact hb List.prefix_rfl
    rw [without_node, if_neg hother]
    exact hprogress.untouched b (fun n _ hbelow => hb ((List.prefix_append a [n]).trans hbelow))
  · exact absurd (hrel.resolve_right (fun h => h.2)).above hstays
  · rw [without_node]
    by_cases hrel : rel = []
    · rw [if_pos (by rw [hrel, List.append_nil])]
    · rw [if_neg (by simpa using hrel)]
      have hcleared : Cleared True t s a := hprogress.cleared (.inr trivial)
      exact hcleared.gone rel (fun h => hstays h.above) (fun h => hrel h.1)

/-- `remove_dir` at the end clears the directory itself. -/
theorem Progress.removeDir (hpath : LeadsTo t path a) (ha : t.dirAt a) :
    Cleared (¬ OwnName t path a) t ((s.removeDir path).getD s) a := by
  have hown := OwnName.transfer hpath hprogress.agrees
  have hspath := hpath.resolve s hprogress.agrees
  have hlist := hprogress.list_eq_nil_iff ha
  by_cases hkept : Stays t a ∨ ¬ OwnName t path a
  · have hnone : s.removeDir path = none := by
      refine removeDir_eq_none hspath ?_
      rcases hkept with hstays | hnot
      · exact .inr (fun hempty => hlist.mp hempty hstays)
      · exact .inl (fun h => hnot (hown.mp h))
    rw [hnone]
    exact hprogress.cleared hkept
  · obtain ⟨hstays, hself⟩ := not_or.mp hkept
    have hempty := hlist.mpr hstays
    have hsown := hown.mpr (not_not.mp hself)
    rw [removeDir_own hsown (hprogress.agrees.dirAt ha) hempty, eq_false hself]
    exact hprogress.cleared_without hstays hsown.ne_nil hempty

end

theorem clears (fuel : Nat) : Clears fuel := by
  induction fuel with
  | zero =>
      intro t path a _ ha _ hfuel
      have := t.length_le a (LinkTree.isSome_of_dirAt ha)
      omega
  | succ fuel ih =>
      intro t path a hpath ha hutf8 hfuel
      obtain ⟨entries, hread, hnames, htypes⟩ := readDir_ok hpath.self ha hutf8
      obtain ⟨s, hfold, hprogress⟩ := clearEntries_ok ih hpath ha hutf8 hfuel entries
        (Progress.refl t a) htypes (by rw [List.nil_append, hnames]; exact t.nodup_list a)
      rw [List.nil_append, hnames] at hprogress
      refine ⟨(s.removeDir path).getD s, ?_, hprogress.removeDir hpath ha⟩
      rw [removeAllEmptyDir, hread]
      dsimp only
      rw [hfold]
      rfl

/-- `remove_all_empty_dir` of a folder leaves below it exactly the files and the directories
with a file below them. The folder itself goes too when no file is below it and the path
gives its own name. Nothing outside is touched. -/
theorem removeAllEmptyDir_clears (hpath : LeadsTo t path a) (ha : t.dirAt a)
    (hutf8 : Utf8Below t a) {fuel : Nat} (hfuel : t.depth < fuel) :
    ∃ t', removeAllEmptyDir fuel path t = some (.ok (), t') ∧
      (∀ b, ¬ a <+: b → t'.node b = t.node b) ∧
      (∀ rel, t.fileAt (a ++ rel) → t'.node (a ++ rel) = t.node (a ++ rel)) ∧
      (∀ rel, t.linkAt (a ++ rel) → t'.node (a ++ rel) = none) ∧
      (∀ rel, t.node (a ++ rel) = none → t'.node (a ++ rel) = none) ∧
      ∀ rel, t.dirAt (a ++ rel) →
        ((∃ below, t.fileAt (a ++ rel ++ below)) ∨ rel = [] ∧ ¬ OwnName t path a →
          t'.node (a ++ rel) = t.node (a ++ rel)) ∧
        ((∀ below, ¬ t.fileAt (a ++ rel ++ below)) → rel ≠ [] ∨ OwnName t path a →
          t'.node (a ++ rel) = none) := by
  obtain ⟨t', hrun, hcleared⟩ := clears fuel t path a hpath ha hutf8 (by omega)
  have hnotDir : ∀ b, ¬ t.dirAt b → ¬ t.fileAt b → ¬ Stays t b := by
    rintro b hdir hfile ⟨below, h⟩
    by_cases hbelow : below = []
    · rw [hbelow, List.append_nil] at h
      exact hfile h
    · exact hdir (LinkTree.dirAt_of_append hbelow (LinkTree.isSome_of_fileAt h))
  have hgone : ∀ rel, ¬ t.dirAt (a ++ rel) → ¬ t.fileAt (a ++ rel) →
      t'.node (a ++ rel) = none := by
    intro rel hdir hfile
    refine hcleared.gone rel (hnotDir _ hdir hfile) ?_
    rintro ⟨rfl, -⟩
    rw [List.append_nil] at hdir
    exact hdir ha
  refine ⟨t', hrun, hcleared.outside, fun rel hfile => ?_, fun rel hlink => ?_,
    fun rel hnone => ?_, fun rel _ => ⟨hcleared.stays rel, fun hno hrel => ?_⟩⟩
  · exact hcleared.stays rel (.inl ⟨[], by rwa [List.append_nil]⟩)
  · obtain ⟨hfile, hdir⟩ := LinkTree.not_of_linkAt hlink
    exact hgone rel hdir hfile
  · refine hgone rel (fun h => ?_) (fun h => ?_)
    · have := LinkTree.isSome_of_dirAt h
      rw [hnone] at this
      cases this
    · have := LinkTree.isSome_of_fileAt h
      rw [hnone] at this
      cases this
  · refine hcleared.gone rel (fun ⟨below, h⟩ => hno below h) ?_
    rintro ⟨rfl, hnot⟩
    exact hrel.elim (fun h => h rfl) hnot

/-- `/d` with a file and a directory of links. -/
def fileAndLinks : LinkTree :=
  linksOnly.add [utf8Bytes "d"] (utf8Bytes "f") (.file ⟨0, 0⟩) (by decide +kernel)
    (by decide +kernel) (by decide +kernel)

theorem leadsTo_fileAndLinks : LeadsTo fileAndLinks (utf8Bytes "/d") [utf8Bytes "d"] := by
  have hpath : utf8Bytes "/d" = Path.push [Path.separator] (utf8Bytes "d") := by decide +kernel
  rw [hpath]
  exact (leadsTo_root fileAndLinks).push (by decide +kernel) (by decide +kernel)

theorem removeAllEmptyDir_clears_sample :
    fileAndLinks.fileAt [utf8Bytes "d", utf8Bytes "f"] ∧
      fileAndLinks.linkAt [utf8Bytes "d", utf8Bytes "s", utf8Bytes "l"] ∧
      ∃ t', removeAllEmptyDir 4 (utf8Bytes "/d") fileAndLinks = some (.ok (), t') ∧
        t'.node [utf8Bytes "d", utf8Bytes "f"] = some (.file ⟨0, 0⟩) ∧
        t'.node [utf8Bytes "d", utf8Bytes "s", utf8Bytes "l"] = none := by
  have hutf8 : Utf8Below fileAndLinks [utf8Bytes "d"] :=
    (linksOnly_utf8 _).add _ _ _ (by decide +kernel)
  obtain ⟨t', hrun, -, hfiles, hlinks, -⟩ :=
    removeAllEmptyDir_clears leadsTo_fileAndLinks (by decide +kernel) hutf8
      (show fileAndLinks.depth < 4 by decide +kernel)
  have hf : fileAndLinks.fileAt ([utf8Bytes "d"] ++ [utf8Bytes "f"]) := by decide +kernel
  have hl : fileAndLinks.linkAt ([utf8Bytes "d"] ++ [utf8Bytes "s", utf8Bytes "l"]) := by
    decide +kernel
  refine ⟨hf, hl, t', hrun, ?_, hlinks _ hl⟩
  exact (hfiles _ hf).trans (by decide +kernel)

end HbbCommon.Files.Listing
