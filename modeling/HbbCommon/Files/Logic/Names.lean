import HbbCommon.Files.Job

/-!
# Checked names

A name that passes the check has no root and no `..`, so what it is joined to keeps all its
components, and so it is when `.download` or `.digest` is put behind.
-/

namespace HbbCommon.Files

open HbbCommon.Base

namespace Path

/-! ## Names -/

/-- No root and no `..`. -/
def IsNested (p : Path) : Prop := ∀ c ∈ p.components, c = .curDir ∨ ∃ segment, c = .normal segment

/-- A segment that is not `..` is a normal component or none. -/
theorem normal_of_component {segment : List UInt8} {c : Component}
    (h : component segment = some c) (hdotDot : segment ≠ dotDot) :
    ∃ segment, c = .normal segment := by
  rw [component, if_neg hdotDot] at h
  split at h
  · cases h
  · cases h
    exact ⟨segment, rfl⟩

/-- An empty segment in front of others is a separator in front. -/
theorem isAbsolute_of_segments {p : Path} {rest : List (List UInt8)}
    (h : segments p = [] :: rest) (hrest : rest ≠ []) : isAbsolute p = true := by
  cases p with
  | nil =>
      cases h
      exact absurd rfl hrest
  | cons b p =>
      by_cases hb : b = separator
      · simp [isAbsolute, hb]
      · obtain ⟨segment, later, hp⟩ := List.exists_cons_of_ne_nil (segments_ne_nil p)
        rw [segments_cons_of_ne hb hp] at h
        cases h

theorem isNested_of_segments {p : Path} (habsolute : isAbsolute p = false)
    (hdotDot : ∀ segment ∈ segments p, segment ≠ dotDot) : IsNested p := by
  obtain ⟨first, rest, hp⟩ := List.exists_cons_of_ne_nil (segments_ne_nil p)
  intro c hc
  rw [hp] at hdotDot
  obtain ⟨hfirst, hrest⟩ := List.forall_mem_cons.mp hdotDot
  rw [components_of_segments hp, componentsOf, List.mem_append, List.mem_filterMap] at hc
  rcases hc with hc | ⟨segment, hmem, hsegment⟩
  · split at hc
    · rename_i hroot
      rw [hroot.1] at hp
      rw [isAbsolute_of_segments hp hroot.2] at habsolute
      cases habsolute
    · split at hc
      · exact .inl (List.mem_singleton.mp hc)
      · exact .inr (normal_of_component (Option.mem_toList.mp hc) hfirst)
  · exact .inr (normal_of_component hsegment (hrest segment hmem))

/-- What stands behind the last separator grows by what is put behind the path. -/
theorem segments_append {x : List UInt8} (hx : separator ∉ x) (p : Path) :
    ∃ front last, segments p = front ++ [last] ∧ segments (p ++ x) = front ++ [last ++ x] := by
  induction p with
  | nil => exact ⟨[], [], rfl, segments_of_notMem hx⟩
  | cons b p ih =>
      obtain ⟨front, last, hp, hmore⟩ := ih
      by_cases hb : b = separator
      · refine ⟨[] :: front, last, ?_, ?_⟩
        · rw [segments, if_pos hb, hp]
          rfl
        · rw [List.cons_append, segments, if_pos hb]
          exact congrArg (List.cons []) hmore
      · cases front with
        | nil =>
            exact ⟨[], b :: last, segments_cons_of_ne hb hp, segments_cons_of_ne hb hmore⟩
        | cons first front =>
            exact ⟨(b :: first) :: front, last, segments_cons_of_ne hb hp,
              segments_cons_of_ne hb hmore⟩

/-- Nothing long put behind a path makes a `..` of a segment. -/
theorem dotDot_notMem_append {p : Path} {x : List UInt8} (hx : separator ∉ x)
    (hlength : x = [] ∨ 2 < x.length) (h : ∀ segment ∈ segments p, segment ≠ dotDot) :
    ∀ segment ∈ segments (p ++ x), segment ≠ dotDot := by
  rcases hlength with rfl | hlength
  · rwa [List.append_nil]
  · obtain ⟨front, last, hp, hmore⟩ := segments_append hx p
    rw [hp] at h
    rw [hmore]
    intro segment hmem
    rcases List.mem_append.mp hmem with hmem | hmem
    · exact h segment (List.mem_append_left _ hmem)
    · rw [List.mem_singleton.mp hmem]
      intro heq
      have hlen := congrArg List.length heq
      rw [List.length_append, dotDot] at hlen
      simp only [List.length_cons, List.length_nil] at hlen
      omega

/-- The first component, by the first segment. -/
def front (first : List UInt8) : List Component :=
  if first = [] then [.rootDir]
  else if first = dot then [.curDir]
  else (component first).toList

theorem componentsOf_of_ne_nil (first : List UInt8) {rest : List (List UInt8)} (h : rest ≠ []) :
    componentsOf first rest = front first ++ rest.filterMap component := by
  simp [componentsOf, front, h]

theorem componentsOf_append {first : List UInt8} {rest more : List (List UInt8)}
    (h : first = [] → rest ≠ []) :
    componentsOf first (rest ++ more) = componentsOf first rest ++ more.filterMap component := by
  unfold componentsOf
  by_cases hfirst : first = []
  · simp [hfirst, h hfirst]
  · simp [hfirst]

/-- Behind a base, the components of a relative path follow those of the base. -/
theorem components_push {base name : Path} (habsolute : isAbsolute name = false) (hbase : base ≠ []) :
    components (push base name) = components base ++ (segments name).filterMap component := by
  obtain ⟨first, rest, hp⟩ := List.exists_cons_of_ne_nil (segments_ne_nil base)
  rw [push, if_neg (by simp [habsolute]), components_of_segments hp]
  by_cases hlast : base.getLast? = some separator
  · -- the base ends with a separator
    obtain ⟨base', rfl⟩ := List.getLast?_eq_some_iff.mp hlast
    obtain ⟨first', rest', hp'⟩ := List.exists_cons_of_ne_nil (segments_ne_nil base')
    have hempty := segments_append_separator base' []
    rw [hp', hp] at hempty
    obtain ⟨rfl, rfl⟩ := List.cons.inj hempty
    have hall := segments_append_separator base' name
    rw [hp'] at hall
    have happend : base' ++ [separator] ++ name = base' ++ separator :: name := by simp
    rw [if_neg (by simp), happend, components_of_segments hall,
      componentsOf_of_ne_nil _ (by simp [segments_ne_nil]), componentsOf_of_ne_nil _ (by simp [segments])]
    simp [segments, component]
  · have hall := segments_append_separator base name
    rw [hp] at hall
    rw [if_pos ⟨hbase, hlast⟩, components_of_segments hall]
    refine componentsOf_append ?_
    rintro rfl rfl
    -- a base of one empty segment is empty
    cases base with
    | nil => exact hbase rfl
    | cons b base =>
        obtain ⟨segment, later, htail⟩ := List.exists_cons_of_ne_nil (segments_ne_nil base)
        by_cases hb : b = separator
        · rw [segments, if_pos hb, htail] at hp
          cases hp
        · rw [segments_cons_of_ne hb htail] at hp
          cases hp

theorem push_append {name : Path} (hname : name ≠ []) (p : Path) (x : List UInt8) :
    push p name ++ x = push p (name ++ x) := by
  have habsolute : isAbsolute (name ++ x) = isAbsolute name := by
    cases name with
    | nil => exact absurd rfl hname
    | cons b name => rfl
  unfold push
  rw [habsolute]
  split
  · rfl
  · split <;> simp

/-- The components of `q` are those of `base` and then some without root and `..`. -/
def Inside (base q : Path) : Prop :=
  ∃ more, components q = components base ++ more ∧
    ∀ c ∈ more, c = .curDir ∨ ∃ segment, c = .normal segment

theorem inside_push {base name : Path} (habsolute : isAbsolute name = false)
    (hdotDot : ∀ segment ∈ segments name, segment ≠ dotDot) : Inside base (push base name) := by
  by_cases hbase : base = []
  · refine ⟨components name, ?_, isNested_of_segments habsolute hdotDot⟩
    rw [hbase, push, if_neg (by simp [habsolute]), if_neg (by simp)]
    rfl
  · refine ⟨_, components_push habsolute hbase, fun c hc => ?_⟩
    obtain ⟨segment, hmem, hsegment⟩ := List.mem_filterMap.mp hc
    exact .inr (normal_of_component hsegment (hdotDot segment hmem))

end Path

/-- A checked name. -/
def ValidName (name : String) : Prop := validateFileNameNoTraversal name = .ok ()

theorem ValidName.spec {name : String} (h : ValidName name) :
    (∀ segment ∈ Path.segments (utf8Bytes name), segment ≠ Path.dotDot) ∧
      Path.isAbsolute (utf8Bytes name) = false := by
  unfold ValidName validateFileNameNoTraversal at h
  split at h
  · cases h
  · split at h
    · cases h
    · rename_i hdotDot
      split at h
      · cases h
      · rename_i habsolute
        refine ⟨fun segment hmem heq => hdotDot (List.any_eq_true.mpr ⟨segment, ?_, ?_⟩),
          Bool.not_eq_true _ ▸ habsolute⟩
        · rw [List.mem_filter]
          exact ⟨hmem, by rw [heq]; decide⟩
        · rw [heq]
          decide

theorem ValidName.isNested {name : String} (h : ValidName name) : Path.IsNested (utf8Bytes name) :=
  Path.isNested_of_segments h.spec.2 h.spec.1

theorem Path.IsNested.isAbsolute_eq_false {p : Path} (h : Path.IsNested p) :
    Path.isAbsolute p = false := by
  cases p with
  | nil => rfl
  | cons b p =>
      by_cases hb : b = Path.separator
      · have hsegments : Path.segments (b :: p) = [] :: Path.segments p := by
          rw [Path.segments, if_pos hb]
        have hroot : Component.rootDir ∈ Path.components (b :: p) := by
          rw [Path.components_of_segments hsegments, Path.componentsOf,
            if_pos ⟨rfl, Path.segments_ne_nil p⟩]
          exact List.mem_append_left _ List.mem_cons_self
        rcases h _ hroot with hcur | ⟨_, hnormal⟩
        · cases hcur
        · cases hnormal
      · simp [Path.isAbsolute, hb]

/-- A nested name is put behind the base. -/
theorem Path.IsNested.length_joinName {name : String} (h : Path.IsNested (utf8Bytes name))
    (base : Path) : base.length ≤ (joinName base name).length := by
  unfold joinName
  split
  · exact le_rfl
  · rw [Path.push, if_neg (by simp [h.isAbsolute_eq_false])]
    split <;> simp

/-- Nothing, `.download` or `.digest`. -/
def sideSuffixes : List Path := [[], utf8Bytes ".download", utf8Bytes ".digest"]

/-- What is named by a checked name stays inside the base. -/
theorem inside_joinName {name : String} (h : ValidName name) (hname : name ≠ "") (base : Path)
    {suffix : Path} (hsuffix : suffix ∈ sideSuffixes) :
    Path.Inside base (joinName base name ++ suffix) := by
  have hbytes : utf8Bytes name ≠ [] := by
    intro hnil
    have hlength := length_utf8Bytes name
    rw [hnil] at hlength
    exact hname (String.utf8ByteSize_eq_zero_iff.mp hlength.symm)
  have hshape : Path.separator ∉ suffix ∧ (suffix = [] ∨ 2 < suffix.length) := by
    revert suffix
    decide +kernel
  obtain ⟨hdotDot, habsolute⟩ := h.spec
  rw [joinName, if_neg hname, Path.push_append hbytes]
  refine Path.inside_push ?_ (Path.dotDot_notMem_append hshape.1 hshape.2 hdotDot)
  cases hcons : utf8Bytes name with
  | nil => exact absurd hcons hbytes
  | cons b rest =>
      rw [hcons] at habsolute
      exact habsolute

end HbbCommon.Files
