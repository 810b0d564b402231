import HbbCommon.Base.BufRead
import HbbCommon.Base.Utf8Bytes
import HbbCommon.Files.Logic.LinkTree

/-!
# Extensions

A file name is cut at its last dot into stem and extension; a dot in front cuts nothing. A name
with `.toml` behind it has that name as its stem, whatever dots are in it.
-/

namespace HbbCommon.Files

open HbbCommon.Base

namespace Path

/-- `.` as a byte -/
def dotByte : UInt8 := 46

/-- The stem of a name, and its extension. -/
def splitAtDot (name : List UInt8) : List UInt8 × Option (List UInt8) :=
  if name = dotDot then (name, none)
  else
    match name.reverse.dropWhile (· ≠ dotByte) with
    | [] => (name, none)
    | _ :: before =>
        if before = [] then (name, none)
        else (before.reverse, some (name.reverse.takeWhile (· ≠ dotByte)).reverse)

/-- `Path::file_stem` -/
def fileStem (p : Path) : Option (List UInt8) := p.fileName.map (fun name => (splitAtDot name).1)

/-- `Path::extension` -/
def extension (p : Path) : Option (List UInt8) := p.fileName.bind (fun name => (splitAtDot name).2)

/-- `Path::with_extension`, up to separators behind the name. -/
def withExtension (p : Path) (ext : List UInt8) : Path :=
  match p.fileName, p.parent with
  | some name, some parent =>
      parent.push ((splitAtDot name).1 ++ if ext = [] then [] else dotByte :: ext)
  | _, _ => p

/-! ## The bytes of segments -/

theorem mem_of_mem_segments {p : Path} {segment : List UInt8} (h : segment ∈ segments p)
    {b : UInt8} (hb : b ∈ segment) : b ∈ p := by
  induction p generalizing segment with
  | nil =>
      rw [segments, List.mem_singleton] at h
      exact h ▸ hb
  | cons first p ih =>
      by_cases hfirst : first = separator
      · rw [segments, if_pos hfirst] at h
        rcases List.mem_cons.mp h with rfl | h
        · cases hb
        · exact List.mem_cons_of_mem _ (ih h hb)
      · obtain ⟨next, rest, hp⟩ := List.exists_cons_of_ne_nil (segments_ne_nil p)
        rw [segments_cons_of_ne hfirst hp] at h
        rw [hp] at ih
        rcases List.mem_cons.mp h with rfl | h
        · rcases List.mem_cons.mp hb with rfl | hb
          · exact List.mem_cons_self
          · exact List.mem_cons_of_mem _ (ih List.mem_cons_self hb)
        · exact List.mem_cons_of_mem _ (ih (List.mem_cons_of_mem _ h) hb)

/-- Where all segments are empty there are only separators. -/
theorem eq_separator_of_segments {p : Path} (h : ∀ segment ∈ segments p, segment = []) :
    ∀ b ∈ p, b = separator := by
  induction p with
  | nil => simp
  | cons first p ih =>
      by_cases hfirst : first = separator
      · rw [segments, if_pos hfirst] at h
        exact List.forall_mem_cons.mpr ⟨hfirst, ih (List.forall_mem_cons.mp h).2⟩
      · obtain ⟨next, rest, hp⟩ := List.exists_cons_of_ne_nil (segments_ne_nil p)
        rw [segments_cons_of_ne hfirst hp] at h
        cases (List.forall_mem_cons.mp h).1

/-! ## Names with an extension -/

theorem splitAtDot_append {stem ext : List UInt8} (hstem : stem ≠ []) (hext : dotByte ∉ ext)
    (hlong : ext ≠ []) : splitAtDot (stem ++ dotByte :: ext) = (stem, some ext) := by
  have hne : stem ++ dotByte :: ext ≠ dotDot := by
    intro heq
    have hlength := congrArg List.length heq
    rw [List.length_append, List.length_cons, dotDot] at hlength
    have hs := List.length_pos_iff.mpr hstem
    have he := List.length_pos_iff.mpr hlong
    simp only [List.length_cons, List.length_nil] at hlength
    omega
  have hall : ∀ b ∈ ext.reverse, decide (b ≠ dotByte) = true := by
    intro b hb
    refine decide_eq_true ?_
    rintro rfl
    exact hext (List.mem_reverse.mp hb)
  have hreverse : (stem ++ dotByte :: ext).reverse = ext.reverse ++ dotByte :: stem.reverse := by
    simp
  have hdrop : (stem ++ dotByte :: ext).reverse.dropWhile (· ≠ dotByte) =
      dotByte :: stem.reverse := by
    rw [hreverse, List.dropWhile_append_of_pos hall, List.dropWhile_cons_of_neg (by simp)]
  have htake : (stem ++ dotByte :: ext).reverse.takeWhile (· ≠ dotByte) = ext.reverse := by
    rw [hreverse, List.takeWhile_append_of_pos hall, List.takeWhile_cons_of_neg (by simp),
      List.append_nil]
  unfold splitAtDot
  rw [if_neg hne, hdrop, htake]
  simp [hstem]

/-- A name has no extension, or it is its stem, a dot and its extension. -/
theorem splitAtDot_spec (name : List UInt8) : splitAtDot name = (name, none) ∨
    ∃ stem ext, splitAtDot name = (stem, some ext) ∧ name = stem ++ dotByte :: ext := by
  unfold splitAtDot
  split
  · exact .inl rfl
  · split
    · exact .inl rfl
    · rename_i dot before hdrop
      split
      · exact .inl rfl
      · refine .inr ⟨_, _, rfl, ?_⟩
        have hdot : dot = dotByte := by
          have hhead := List.head?_dropWhile_not (fun b => b ≠ dotByte) name.reverse
          rw [hdrop] at hhead
          simpa using hhead
        have hwhole := List.takeWhile_append_dropWhile (p := (· ≠ dotByte)) (l := name.reverse)
        rw [hdrop, hdot] at hwhole
        have hname := congrArg List.reverse hwhole
        rw [List.reverse_append, List.reverse_cons, List.reverse_reverse, List.append_assoc] at hname
        exact hname.symm

end Path

/-! ## Names -/

theorem isName_of_component {segment n : List UInt8} (hfree : Path.separator ∉ segment)
    (h : Path.component segment = some (.normal n)) : IsName n := by
  unfold Path.component at h
  split at h
  · cases h
  · rename_i hplain
    split at h
    · cases h
    · rename_i hdotDot
      cases h
      exact ⟨fun hnil => hplain (.inl hnil), hfree, fun hdot => hplain (.inr hdot), hdotDot⟩

theorem eq_of_component {segment n : List UInt8}
    (h : Path.component segment = some (.normal n)) : n = segment := by
  unfold Path.component at h
  split at h
  · cases h
  · split at h
    · cases h
    · cases h
      rfl

/-- A normal component is a name. -/
theorem isName_of_mem_components {p : Path} {n : List UInt8}
    (h : Component.normal n ∈ p.components) : IsName n := by
  obtain ⟨first, rest, hp⟩ := List.exists_cons_of_ne_nil (Path.segments_ne_nil p)
  have hfree := Path.separator_notMem_segments p
  rw [hp] at hfree
  obtain ⟨hfirst, hrest⟩ := List.forall_mem_cons.mp hfree
  rw [Path.components_of_segments hp, Path.componentsOf, List.mem_append] at h
  rcases h with h | h
  · split at h
    · simp at h
    · split at h
      · simp at h
      · exact isName_of_component hfirst (Option.mem_toList.mp h)
  · obtain ⟨segment, hmem, hsegment⟩ := List.mem_filterMap.mp h
    exact isName_of_component (hrest segment hmem) hsegment

theorem components_of_fileName {p : Path} {n : List UInt8} (h : p.fileName = some n) :
    ∃ front, p.components = front ++ [.normal n] := by
  unfold Path.fileName at h
  split at h
  · rename_i segment hlast
    cases h
    exact List.getLast?_eq_some_iff.mp hlast
  · cases h

/-- What has a name has a parent. -/
theorem parent_of_fileName {p : Path} {n : List UInt8} (h : p.fileName = some n) :
    ∃ parent, p.parent = some parent ∧ p.components = parent.components ++ [.normal n] := by
  obtain ⟨front, hcomponents⟩ := components_of_fileName h
  have hsome : ∃ parent, p.parent = some parent := by
    obtain ⟨first, rest, hp⟩ := List.exists_cons_of_ne_nil (Path.segments_ne_nil p)
    unfold Path.parent
    rw [hp]
    dsimp only
    split
    · exact ⟨_, rfl⟩
    · rename_i hdrop
      by_cases hfirst : first = []
      · -- then there is no component but the root
        have hrest := Path.filterMap_reverse_dropWhile rest
        rw [hdrop] at hrest
        rw [Path.components_of_segments hp, Path.componentsOf, ← hrest, hfirst] at hcomponents
        have hlast := congrArg List.getLast? hcomponents
        rw [List.getLast?_concat] at hlast
        by_cases hnil : rest = []
        · simp [hnil, Path.component, Path.dot] at hlast
        · simp [hnil] at hlast
      · exact ⟨[], if_neg hfirst⟩
  obtain ⟨parent, hparent⟩ := hsome
  obtain ⟨c, hc⟩ := Path.components_parent hparent
  obtain ⟨-, hlast⟩ := List.append_inj' (hc.symm.trans hcomponents) rfl
  rw [List.singleton_inj.mp hlast] at hc
  exact ⟨parent, hparent, hc⟩

theorem withExtension_eq {p parent : Path} {name ext : List UInt8} (hname : p.fileName = some name)
    (hparent : p.parent = some parent) (hext : ext ≠ []) :
    p.withExtension ext = parent.push ((Path.splitAtDot name).1 ++ Path.dotByte :: ext) := by
  unfold Path.withExtension
  rw [hname, hparent]
  dsimp only
  rw [if_neg hext]

/-- A name stays one with something long behind it. -/
theorem IsName.append {n x : List UInt8} (h : IsName n) (hx : Path.separator ∉ x)
    (hlong : 2 ≤ x.length) : IsName (n ++ x) := by
  have hn := List.length_pos_iff.mpr h.ne_nil
  have hlength : (n ++ x).length = n.length + x.length := List.length_append
  refine ⟨by simp [h.ne_nil], ?_, ?_, ?_⟩
  · rw [List.mem_append, not_or]
    exact ⟨h.separator_notMem, hx⟩
  · intro heq
    rw [heq, Path.dot, List.length_singleton] at hlength
    omega
  · intro heq
    rw [heq, Path.dotDot] at hlength
    simp only [List.length_cons, List.length_nil] at hlength
    omega

end HbbCommon.Files
