import HbbCommon.Files.Disk
import HbbCommon.Files.Logic.Names

/-!
# Places on a disk

The key of a file ends with a normal component. A suffix put behind its path stays in that
component, so the side files of a file are in its directory and have other names.
-/

namespace HbbCommon.Files

open HbbCommon.Base

/-- The key with a suffix in its last component. -/
def sideKey (k : Key) (suffix : List UInt8) : Key :=
  match k.getLast? with
  | some (.normal segment) => k.dropLast ++ [.normal (segment ++ suffix)]
  | _ => k

@[simp] theorem sideKey_append (parent : Key) (segment suffix : List UInt8) :
    sideKey (parent ++ [.normal segment]) suffix = parent ++ [.normal (segment ++ suffix)] := by
  simp [sideKey]

namespace Path

/-- What the components in front of the last segment are. -/
def frontKey : List (List UInt8) → Key
  | [] => []
  | first :: rest => (front first ++ rest.filterMap component).filter (· ≠ .curDir)

theorem component_ne_curDir {segment : List UInt8} {c : Component} (h : component segment = some c) :
    c ≠ .curDir := by
  rintro rfl
  unfold component at h
  split at h
  · cases h
  · split at h <;> cases h

theorem key_of_segments {p : Path} {before : List (List UInt8)} {last segment : List UInt8}
    (h : segments p = before ++ [last]) (hlast : component last = some (.normal segment)) :
    p.key = frontKey before ++ [.normal segment] := by
  cases before with
  | nil =>
      have hne : last ≠ [] ∧ last ≠ dot := by
        refine ⟨?_, ?_⟩ <;> rintro rfl <;> cases hlast
      rw [key, components_of_segments h, componentsOf, if_neg (fun h => hne.1 h.1), if_neg hne.2, hlast]
      rfl
  | cons first rest =>
      have h' : segments p = first :: (rest ++ [last]) := h
      rw [key, components_of_segments h', componentsOf_of_ne_nil _ (by simp), List.filterMap_append,
        ← List.append_assoc, List.filter_append, List.filterMap_cons_some hlast]
      rfl

/-- A path of a file: its last segment is a normal component. -/
theorem fileKey_eq_some_iff {p : Path} {k : Key} : p.fileKey = some k ↔
    ∃ before last, segments p = before ++ [last] ∧ component last = some (.normal last) ∧
      k = frontKey before ++ [.normal last] := by
  obtain ⟨before, last, hp⟩ : ∃ before last, segments p = before ++ [last] :=
    ⟨_, _, (List.dropLast_concat_getLast (segments_ne_nil p)).symm⟩
  have hself : ∀ segment, component last = some (.normal segment) → segment = last := by
    intro segment h
    unfold component at h
    split at h
    · cases h
    · split at h <;> cases h
      rfl
  rw [fileKey, hp, List.getLast?_append, List.getLast?_singleton]
  constructor
  · intro h
    cases hlast : component last with
    | none => simp [hlast] at h
    | some c =>
        cases c with
        | normal segment =>
            obtain rfl := hself segment hlast
            rw [key_of_segments hp hlast] at h
            simp only [Option.some_or, Option.bind_some, hlast, Option.some.injEq] at h
            exact ⟨before, segment, hp ▸ rfl, hlast, h.symm⟩
        | _ => simp [hlast] at h
  · rintro ⟨before', last', hp', hlast, rfl⟩
    obtain ⟨rfl, hlast'⟩ := List.append_inj' hp' rfl
    obtain rfl := (List.cons.inj hlast').1
    simp [hlast, key_of_segments hp hlast]

/-- A suffix stays in the last component. -/
theorem fileKey_append {p : Path} {k : Key} (h : p.fileKey = some k) (suffix : List UInt8)
    (hsuffix : separator ∉ suffix) (hlength : 2 < suffix.length) :
    (p ++ suffix).fileKey = some (sideKey k suffix) := by
  obtain ⟨before, last, hp, hlast, rfl⟩ := fileKey_eq_some_iff.mp h
  obtain ⟨before', last', hp', hmore⟩ := segments_append hsuffix p
  obtain ⟨rfl, hlast'⟩ := List.append_inj' (hp.symm.trans hp') rfl
  obtain rfl := (List.cons.inj hlast').1
  refine fileKey_eq_some_iff.mpr ⟨before, last ++ suffix, hmore, ?_, by rw [sideKey_append]⟩
  have hlong : 2 < (last ++ suffix).length := by
    rw [List.length_append]
    omega
  unfold component
  rw [if_neg, if_neg]
  · intro h
    rw [h] at hlong
    exact absurd hlong (by decide)
  · rintro (h | h)
    · rw [h] at hlong
      exact absurd hlong (by decide)
    · rw [h] at hlong
      exact absurd hlong (by decide)

theorem exists_of_fileKey {p : Path} {k : Key} (h : p.fileKey = some k) :
    ∃ parent segment, k = parent ++ [.normal segment] := by
  obtain ⟨before, last, -, -, rfl⟩ := fileKey_eq_some_iff.mp h
  exact ⟨_, _, rfl⟩

theorem key_of_fileKey {p : Path} {k : Key} (h : p.fileKey = some k) : p.key = k := by
  obtain ⟨before, last, hp, hlast, rfl⟩ := fileKey_eq_some_iff.mp h
  exact key_of_segments hp hlast

/-! ## Paths that are not text -/

theorem unsegments_segments (p : Path) : unsegments (segments p) = p := by
  induction p with
  | nil => rfl
  | cons b p ih =>
      obtain ⟨segment, rest, h⟩ := List.exists_cons_of_ne_nil (segments_ne_nil p)
      rw [h] at ih
      by_cases hb : b = separator
      · rw [segments, if_pos hb, h, unsegments, ih, hb]
        · rfl
        · simp
      · rw [segments_cons_of_ne hb h]
        cases rest with
        | nil => exact congrArg (List.cons b) ih
        | cons next rest => exact congrArg (List.cons b) ih

theorem isSome_fromUtf8_iff {p : Path} : (fromUtf8 p).isSome = true ↔ ∃ text, p = utf8Bytes text := by
  simp [Option.isSome_iff_exists, fromUtf8_eq_some_iff]

/-- A path of segments that are text is text. -/
theorem isSome_fromUtf8_unsegments {list : List (List UInt8)}
    (h : ∀ segment ∈ list, (fromUtf8 segment).isSome = true) :
    (fromUtf8 (unsegments list)).isSome = true := by
  induction list with
  | nil => decide +kernel
  | cons segment rest ih =>
      obtain ⟨hfirst, hrest⟩ := List.forall_mem_cons.mp h
      cases rest with
      | nil => exact hfirst
      | cons next rest =>
          obtain ⟨first, rfl⟩ := isSome_fromUtf8_iff.mp hfirst
          obtain ⟨later, hlater⟩ := isSome_fromUtf8_iff.mp (ih hrest)
          refine isSome_fromUtf8_iff.mpr ⟨first ++ "/" ++ later, ?_⟩
          have hslash : utf8Bytes "/" = [separator] := by decide +kernel
          rw [unsegments, hlater, utf8Bytes_append, utf8Bytes_append, hslash, List.append_assoc]
          · rfl
          · simp

/-- Nothing but empty segments and dots stands in front of a key of one component. -/
theorem segment_of_frontKey_eq_nil {before : List (List UInt8)} (h : frontKey before = []) :
    ∀ segment ∈ before, segment = [] ∨ segment = dot := by
  cases before with
  | nil => exact fun _ hmem => by cases hmem
  | cons first rest =>
      have hall := List.filter_eq_nil_iff.mp h
      have hnone : ∀ segment c, component segment = some c → c ∈ front first ++ rest.filterMap component →
          False := by
        intro segment c hc hmem
        have := hall c hmem
        simp [component_ne_curDir hc] at this
      have hcomponent : ∀ segment, component segment = none → segment = [] ∨ segment = dot := by
        intro segment hc
        unfold component at hc
        split at hc
        · assumption
        · split at hc <;> cases hc
      intro segment hmem
      rcases List.mem_cons.mp hmem with rfl | hmem
      · by_cases hempty : segment = []
        · exact .inl hempty
        · by_cases hdot : segment = dot
          · exact .inr hdot
          · refine hcomponent segment (Option.eq_none_iff_forall_ne_some.mpr (fun c hc => ?_))
            refine hnone segment c hc (List.mem_append_left _ ?_)
            simp [front, hempty, hdot, hc]
      · refine hcomponent segment (Option.eq_none_iff_forall_ne_some.mpr (fun c hc => ?_))
        exact hnone segment c hc (List.mem_append_right _ (List.mem_filterMap.mpr ⟨segment, hmem, hc⟩))

theorem isSome_fromUtf8_of_key {p : Path} {text : String}
    (h : p.fileKey = some [.normal (utf8Bytes text)]) : (fromUtf8 p).isSome = true := by
  obtain ⟨before, last, hp, -, hkey⟩ := fileKey_eq_some_iff.mp h
  obtain ⟨hfront, hlast⟩ : [] = frontKey before ∧
      [Component.normal (utf8Bytes text)] = [.normal last] := List.append_inj' hkey rfl
  have hlast : last = utf8Bytes text := by simpa using hlast.symm
  rw [← unsegments_segments p, hp]
  refine isSome_fromUtf8_unsegments (fun segment hmem => ?_)
  rcases List.mem_append.mp hmem with hmem | hmem
  · rcases segment_of_frontKey_eq_nil hfront.symm segment hmem with rfl | rfl <;> decide +kernel
  · rw [List.mem_singleton.mp hmem, hlast]
    exact isSome_fromUtf8_iff.mpr ⟨text, rfl⟩

end Path

/-! ## The places of a file and of its side files -/

def downloadKey (path : Path) : Key := Path.key (downloadOf (getString path))

def digestKey (path : Path) : Key := Path.key (digestOf (getString path))

/-- A path of a file, whose side files are other files. -/
structure IsPlace (path : Path) : Prop where
  file : path.fileKey = some path.key
  download : (downloadOf (getString path)).fileKey = some (downloadKey path)
  digest : (digestOf (getString path)).fileKey = some (digestKey path)
  download_ne : downloadKey path ≠ path.key
  digest_ne : digestKey path ≠ path.key
  sides_ne : downloadKey path ≠ digestKey path

theorem sideKey_inj {k : Key} {x y : List UInt8} (hk : ∃ parent segment, k = parent ++ [.normal segment])
    (h : sideKey k x = sideKey k y) : x = y := by
  obtain ⟨parent, segment, rfl⟩ := hk
  simpa using h

theorem isPlace_of_fileKey {path : Path} {k : Key} (h : path.fileKey = some k) : IsPlace path := by
  have hkey := Path.key_of_fileKey h
  subst hkey
  by_cases htext : (fromUtf8 path).isSome = true
  · have hstring : getString path = path := by rw [getString, if_pos htext]
    have hdownload := Path.fileKey_append h (utf8Bytes ".download") (by decide +kernel)
      (by decide +kernel)
    have hdigest := Path.fileKey_append h (utf8Bytes ".digest") (by decide +kernel)
      (by decide +kernel)
    have hdownloadKey : downloadKey path = sideKey path.key (utf8Bytes ".download") := by
      rw [downloadKey, hstring]
      exact Path.key_of_fileKey hdownload
    have hdigestKey : digestKey path = sideKey path.key (utf8Bytes ".digest") := by
      rw [digestKey, hstring]
      exact Path.key_of_fileKey hdigest
    have hshape := Path.exists_of_fileKey h
    have hself : sideKey path.key [] = path.key := by
      obtain ⟨parent, segment, hk⟩ := hshape
      rw [hk, sideKey_append, List.append_nil]
    refine ⟨h, ?_, ?_, ?_, ?_, ?_⟩
    · rw [hdownloadKey, hstring]
      exact hdownload
    · rw [hdigestKey, hstring]
      exact hdigest
    · rw [hdownloadKey]
      intro heq
      exact absurd (sideKey_inj hshape (heq.trans hself.symm)) (by decide +kernel)
    · rw [hdigestKey]
      intro heq
      exact absurd (sideKey_inj hshape (heq.trans hself.symm)) (by decide +kernel)
    · rw [hdownloadKey, hdigestKey]
      intro heq
      exact absurd (sideKey_inj hshape heq) (by decide +kernel)
  · have hstring : getString path = [] := by rw [getString, if_neg htext]
    have hdownload : downloadKey path = [.normal (utf8Bytes ".download")] := by
      rw [downloadKey, hstring]
      decide +kernel
    have hdigest : digestKey path = [.normal (utf8Bytes ".digest")] := by
      rw [digestKey, hstring]
      decide +kernel
    refine ⟨h, ?_, ?_, ?_, ?_, ?_⟩
    · rw [hdownload, hstring]
      decide +kernel
    · rw [hdigest, hstring]
      decide +kernel
    · rw [hdownload]
      intro heq
      exact htext (Path.isSome_fromUtf8_of_key (heq ▸ h))
    · rw [hdigest]
      intro heq
      exact htext (Path.isSome_fromUtf8_of_key (heq ▸ h))
    · rw [hdownload, hdigest]
      decide +kernel

end HbbCommon.Files
