import HbbCommon.Base.ByteFields

/-!
# Paths

Paths by the Unix rules: byte strings, cut at separators. `components` drops empty segments
and `.`, but for a `.` in front; `push` and `parent` work on the text, as `PathBuf::push` and
`Path::parent` do. `getString` is the path as text, and nothing when it is not UTF-8.
-/

namespace HbbCommon.Files

open HbbCommon.Base

abbrev Path := List UInt8

inductive Component
  | rootDir
  | curDir
  | parentDir
  | normal (segment : List UInt8)
  deriving DecidableEq, Repr

namespace Path

/-- `/` -/
def separator : UInt8 := 47

/-- `.` -/
def dot : List UInt8 := [46]

/-- `..` -/
def dotDot : List UInt8 := [46, 46]

/-- What stands between the separators. -/
def segments : Path → List (List UInt8)
  | [] => [[]]
  | b :: p =>
      if b = separator then [] :: segments p
      else
        match segments p with
        | [] => [[b]]
        | segment :: rest => (b :: segment) :: rest

/-- The path of these segments. -/
def unsegments : List (List UInt8) → Path
  | [] => []
  | [segment] => segment
  | segment :: rest => segment ++ separator :: unsegments rest

/-- The component of a segment behind the first. -/
def component (segment : List UInt8) : Option Component :=
  if segment = [] ∨ segment = dot then none
  else if segment = dotDot then some .parentDir
  else some (.normal segment)

/-- The components of a path whose segments are `first` and then `rest`. -/
def componentsOf (first : List UInt8) (rest : List (List UInt8)) : List Component :=
  (if first = [] ∧ rest ≠ [] then [.rootDir]
    else if first = dot then [.curDir]
    else (component first).toList) ++ rest.filterMap component

/-- `Path::components`. -/
def components (p : Path) : List Component :=
  match segments p with
  | [] => []
  | first :: rest => componentsOf first rest

def isAbsolute (p : Path) : Bool := p.head? == some separator

/-- `PathBuf::push`. -/
def push (p name : Path) : Path :=
  if name.isAbsolute then name
  else if p ≠ [] ∧ p.getLast? ≠ some separator then p ++ separator :: name
  else p ++ name

/-- `Path::parent`: without the last component, and without separators behind it. -/
def parent (p : Path) : Option Path :=
  match segments p with
  | [] => none
  | first :: rest =>
      match rest.reverse.dropWhile (fun segment => component segment = none) with
      | _ :: before =>
          let before := (before.dropWhile (fun segment => component segment = none)).reverse
          some (if first = [] ∧ before = [] then [separator] else unsegments (first :: before))
      | [] => if first = [] then none else some []

/-- `Path::file_name`. -/
def fileName (p : Path) : Option (List UInt8) :=
  match p.components.getLast? with
  | some (.normal segment) => some segment
  | _ => none

end Path

/-- `get_string`, as bytes. -/
def getString (p : Path) : Path :=
  if (fromUtf8 p).isSome then p else []

/-- `format!("{}.download", path)` -/
def downloadOf (path : Path) : Path := path ++ utf8Bytes ".download"

/-- `format!("{}.digest", path)` -/
def digestOf (path : Path) : Path := path ++ utf8Bytes ".digest"

namespace Path

/-! ## Segments -/

theorem segments_ne_nil (p : Path) : segments p ≠ [] := by
  cases p with
  | nil => exact List.cons_ne_nil _ _
  | cons b p =>
      rw [segments]
      split
      · exact List.cons_ne_nil _ _
      · split <;> exact List.cons_ne_nil _ _

theorem segments_cons_of_ne {b : UInt8} (hb : b ≠ separator) {p : Path} {segment : List UInt8}
    {rest : List (List UInt8)} (h : segments p = segment :: rest) :
    segments (b :: p) = (b :: segment) :: rest := by
  rw [segments, if_neg hb, h]

theorem separator_notMem_segments (p : Path) : ∀ segment ∈ segments p, separator ∉ segment := by
  induction p with
  | nil => simp [segments]
  | cons b p ih =>
      by_cases hb : b = separator
      · rw [segments, if_pos hb]
        exact List.forall_mem_cons.mpr ⟨List.not_mem_nil, ih⟩
      · obtain ⟨segment, rest, h⟩ := List.exists_cons_of_ne_nil (segments_ne_nil p)
        rw [segments_cons_of_ne hb h]
        rw [h] at ih
        obtain ⟨hfirst, hrest⟩ := List.forall_mem_cons.mp ih
        refine List.forall_mem_cons.mpr ⟨?_, hrest⟩
        rw [List.mem_cons, not_or]
        exact ⟨Ne.symm hb, hfirst⟩

/-- Behind a separator the segments start anew. -/
theorem segments_append_separator (p q : Path) :
    segments (p ++ separator :: q) = segments p ++ segments q := by
  induction p with
  | nil => simp [segments]
  | cons b p ih =>
      by_cases hb : b = separator
      · simp [segments, hb, ih]
      · obtain ⟨segment, rest, h⟩ := List.exists_cons_of_ne_nil (segments_ne_nil p)
        rw [h] at ih
        rw [List.cons_append, segments_cons_of_ne hb ih, segments_cons_of_ne hb h]
        rfl

theorem segments_of_notMem {segment : List UInt8} (h : separator ∉ segment) :
    segments segment = [segment] := by
  induction segment with
  | nil => rfl
  | cons b segment ih =>
      rw [List.mem_cons, not_or] at h
      exact segments_cons_of_ne (Ne.symm h.1) (ih h.2)

theorem segments_unsegments {list : List (List UInt8)} (hne : list ≠ [])
    (h : ∀ segment ∈ list, separator ∉ segment) : segments (unsegments list) = list := by
  induction list with
  | nil => exact absurd rfl hne
  | cons segment rest ih =>
      obtain ⟨hfirst, hrest⟩ := List.forall_mem_cons.mp h
      cases rest with
      | nil => exact segments_of_notMem hfirst
      | cons next rest =>
          rw [unsegments, segments_append_separator, segments_of_notMem hfirst,
            ih (List.cons_ne_nil _ _) hrest]
          · rfl
          · simp

/-! ## The parent -/

/-- The last segment with a component, and what is behind it. -/
theorem filterMap_reverse_dropWhile (rest : List (List UInt8)) :
    (rest.reverse.dropWhile (fun segment => component segment = none)).reverse.filterMap component =
      rest.filterMap component := by
  induction rest using List.reverseRecOn with
  | nil => rfl
  | append_singleton rest last ih =>
      rw [List.reverse_append, List.reverse_singleton, List.singleton_append, List.dropWhile_cons]
      cases hlast : component last with
      | none => simp [hlast, ih]
      | some c => simp [hlast]

theorem components_of_segments {p : Path} {first : List UInt8} {rest : List (List UInt8)}
    (h : segments p = first :: rest) : components p = componentsOf first rest := by
  rw [components, h]

/-- A first segment that is not empty is one component. -/
theorem componentsOf_front {first : List UInt8} (h : first ≠ []) (rest : List (List UInt8)) :
    ∃ c, componentsOf first rest = c :: rest.filterMap component := by
  unfold componentsOf component
  rw [if_neg (fun hroot => h hroot.1)]
  by_cases hdot : first = dot
  · exact ⟨.curDir, by rw [if_pos hdot]; rfl⟩
  · rw [if_neg hdot, if_neg (by simp [h, hdot])]
    split <;> exact ⟨_, rfl⟩

/-- The parent has all components but the last. -/
theorem components_parent {p q : Path} (h : parent p = some q) :
    ∃ c, components p = components q ++ [c] := by
  obtain ⟨first, rest, hp⟩ := List.exists_cons_of_ne_nil (segments_ne_nil p)
  have hfree := separator_notMem_segments p
  have hrest := filterMap_reverse_dropWhile rest
  rw [hp] at hfree
  rw [components_of_segments hp]
  simp only [parent, hp] at h
  split at h
  · rename_i last before hdrop
    -- the last component is that of the segment `last`
    have hlast : ∃ c, component last = some c := by
      have hhead := List.head?_dropWhile_not (fun segment => component segment = none) rest.reverse
      rw [hdrop] at hhead
      simpa [Option.ne_none_iff_exists'] using hhead
    obtain ⟨c, hc⟩ := hlast
    rw [hdrop, List.reverse_cons, List.filterMap_append, List.filterMap_cons_some hc,
      List.filterMap_nil] at hrest
    have hbefore := filterMap_reverse_dropWhile before.reverse
    rw [List.reverse_reverse] at hbefore
    have hne : rest ≠ [] := by
      rintro rfl
      cases hdrop
    have hsub : ∀ segment ∈ (before.dropWhile (fun segment => component segment = none)).reverse,
        separator ∉ segment := by
      intro segment hmem
      refine hfree segment (List.mem_cons_of_mem _ (List.mem_reverse.mp ?_))
      refine (List.dropWhile_suffix (fun segment => component segment = none)).subset ?_
      rw [hdrop]
      exact List.mem_cons_of_mem _ ((List.dropWhile_suffix _).subset (List.mem_reverse.mp hmem))
    generalize (before.dropWhile (fun segment => component segment = none)).reverse = before'
      at h hbefore hsub
    have hsplit : componentsOf first rest = ((if first = [] then [.rootDir]
        else if first = dot then [.curDir] else (component first).toList) ++
          before'.filterMap component) ++ [c] := by
      rw [componentsOf, ← hrest, ← List.append_assoc, hbefore]
      simp [hne]
    refine ⟨c, ?_⟩
    rw [hsplit]
    congr 1
    cases h
    by_cases hroot : first = [] ∧ before' = []
    · rw [if_pos hroot, hroot.1, hroot.2]
      decide
    · rw [if_neg hroot]
      have hq : segments (unsegments (first :: before')) = first :: before' :=
        segments_unsegments (List.cons_ne_nil _ _)
        (List.forall_mem_cons.mpr ⟨(List.forall_mem_cons.mp hfree).1, hsub⟩)
      rw [components_of_segments hq, componentsOf]
      by_cases hfirst : first = []
      · simp [hfirst, not_and.mp hroot hfirst]
      · simp [hfirst]
  · rename_i hdrop
    rw [hdrop] at hrest
    split at h
    · cases h
    · rename_i hfirst
      cases h
      obtain ⟨c, hcomponents⟩ := componentsOf_front hfirst rest
      refine ⟨c, ?_⟩
      rw [hcomponents, ← hrest]
      rfl

end Path

end HbbCommon.Files
