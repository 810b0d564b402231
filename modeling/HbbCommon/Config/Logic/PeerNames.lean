import HbbCommon.Config.PeerFiles

/-!
# Ids in the names of files

Where the id of a peer is a file name, or its Base64 has no slash, its file is in the directory
of the peers and the name is read back as the id. Other ids lead out of the directory or below
it, or are read back as a shorter id.
-/

namespace HbbCommon.Config

open HbbCommon.Base
open HbbCommon.Files (Path Component IsName isName_of_mem_components parent_of_fileName
  withExtension_eq)
open HbbCommon.Files.Path (segments component separator dotByte splitAtDot)

/-! ## Paths -/

theorem isName_peers : IsName peers := by decide +kernel

/-- The directory of the peers. -/
abbrev peersKey (dir : Path) : List Component := (dir.push peers).components

theorem components_pushPeers (dir : Path) {x : Path} (hx : x.isAbsolute = false) :
    (dir.push (peers.push x)).components = peersKey dir ++ (segments x).filterMap component := by
  by_cases hdir : dir = []
  · have hpush : ∀ p : Path, p.isAbsolute = false → Path.push [] p = p := by
      intro p hp
      unfold Path.push
      rw [if_neg (by simp [hp]), if_neg (by simp), List.nil_append]
    have hinner : (peers.push x).isAbsolute = false := by
      unfold Path.push
      rw [if_neg (by simp [hx]), if_pos (by decide +kernel)]
      exact isName_peers.isAbsolute_eq_false
    subst hdir
    rw [peersKey, hpush _ hinner, hpush _ isName_peers.isAbsolute_eq_false]
    exact Path.components_push hx isName_peers.ne_nil
  · have hinner : peers.push x = peers ++ separator :: x := by
      unfold Path.push
      rw [if_neg (by simp [hx]), if_pos (by decide +kernel)]
    have habsolute : (peers ++ separator :: x).isAbsolute = false :=
      isName_peers.isAbsolute_eq_false
    rw [peersKey, hinner, Path.components_push habsolute hdir, isName_peers.components_push,
      Path.segments_append_separator, isName_peers.segments_eq]
    simp [isName_peers.component_eq]

/-- What stands behind a dot in a text is a text. -/
theorem exists_text_of_dot {name : String} {stem ext : List UInt8}
    (h : utf8Bytes name = stem ++ dotByte :: ext) : ∃ back, ext = utf8Bytes back := by
  obtain ⟨front, back, -, -, hback⟩ := exists_append_of_utf8Bytes h (by decide)
  rw [utf8Bytes_eq_flatMap] at hback
  cases hlist : back.toList with
  | nil =>
      rw [hlist] at hback
      cases hback
  | cons c rest =>
      rw [hlist, List.flatMap_cons] at hback
      by_cases hc : c.toNat < 128
      · rw [utf8EncodeChar_ascii hc] at hback
        refine ⟨.ofList rest, ?_⟩
        rw [utf8Bytes_ofList]
        exact (List.cons.inj hback).2.symm
      · -- the first byte of another character is not a dot
        have hall := utf8EncodeChar_other (Nat.not_lt.mp hc)
        cases hbytes : String.utf8EncodeChar c with
        | nil => exact absurd hbytes String.utf8EncodeChar_ne_nil
        | cons b more =>
            rw [hbytes] at hback hall
            have hb := (List.forall_mem_cons.mp hall).1.1
            rw [(List.cons.inj hback).1] at hb
            exact absurd hb (by decide)

theorem dot_toml : dotByte :: utf8Bytes "toml" = utf8Bytes ".toml" := by decide +kernel

/-- `.toml` is put behind the name, whether it has an extension or not. -/
theorem components_withExtension {p : Path} {front : List Component} {name : String}
    (h : p.components = front ++ [.normal (utf8Bytes name)]) :
    (withExtension p).components = front ++ [.normal (utf8Bytes name ++ utf8Bytes ".toml")] := by
  have hfile : p.fileName = some (utf8Bytes name) := by
    unfold Path.fileName
    rw [h, List.getLast?_concat]
  have hname : IsName (utf8Bytes name) := isName_of_mem_components (p := p) (by simp [h])
  obtain ⟨parent, hparent, hcomponents⟩ := parent_of_fileName hfile
  have hfront : front = parent.components :=
    (List.append_inj' (h.symm.trans hcomponents) rfl).1
  have hpush : withExtension p = parent.push (utf8Bytes name ++ utf8Bytes ".toml") := by
    unfold withExtension Path.extension
    rw [hfile, Option.bind_some]
    rcases Path.splitAtDot_spec (utf8Bytes name) with hsplit | ⟨stem, ext, hsplit, hdot⟩
    · rw [hsplit]
      dsimp only
      rw [withExtension_eq hfile hparent (by decide +kernel), hsplit, dot_toml]
    · obtain ⟨back, rfl⟩ := exists_text_of_dot hdot
      have hext : utf8Bytes (back ++ ".toml") ≠ [] := by simp [utf8Bytes_append, ← dot_toml]
      rw [hsplit]
      dsimp only
      rw [fromUtf8Lossy_utf8Bytes, withExtension_eq hfile hparent hext, hsplit, utf8Bytes_append,
        hdot, List.append_assoc, List.cons_append]
  rw [hpush, hfront]
  exact (hname.append (by decide +kernel) (by decide +kernel)).components_push parent

/-! ## Ids in names -/

namespace PeerConfig

variable {dir : Path} {id : String}

/-- The name of the file in front of `.toml`, as far as a slash. -/
def stemOf (id : String) : String :=
  if forbiddenPaths id then base64Mark ++ .ofList ((digits id).takeWhile (· ≠ '/')) else id

/-- The name of the file has no directory in it. -/
def Flat (id : String) : Prop :=
  if forbiddenPaths id then '/' ∉ digits id ∨ ∃ front, digits id = front ++ ['/'] ∧ '/' ∉ front
  else id ≠ "." ∧ id ≠ ".."

/-- The file is in the directory of the peers, under some name. -/
def DirectChild (dir : Option Path) (id : String) : Prop :=
  ∃ n, (path dir id).components = (Config.path dir peers).components ++ [.normal n]

/-- A character below 128 as a byte. -/
def byteOf (c : Char) : UInt8 := UInt8.ofNat c.toNat

theorem digits_ascii : ∀ c ∈ digits id, c.toNat < 128 := by
  have hall : Base64.alphabet.all (fun c => c.toNat < 128) = true := by decide +kernel
  intro c hc
  rcases Base64.mem_encode c hc with hmem | rfl
  · exact of_decide_eq_true (List.all_eq_true.mp hall c hmem)
  · decide

theorem dot_notMem_digits : '.' ∉ digits id := by
  intro hc
  rcases Base64.mem_encode _ hc with hmem | heq
  · exact absurd hmem (by decide +kernel)
  · cases heq

theorem utf8Bytes_mark {l : List Char} (h : ∀ c ∈ l, c.toNat < 128) :
    utf8Bytes (base64Mark ++ .ofList l) = utf8Bytes base64Mark ++ l.map byteOf := by
  rw [utf8Bytes_append, utf8Bytes_ascii h]
  rfl

theorem byteOf_eq_iff {c : Char} {d : Char} (hc : c.toNat < 128) (hd : d.toNat < 128) :
    byteOf c = byteOf d ↔ c = d := by
  refine ⟨fun h => ?_, fun h => h ▸ rfl⟩
  have hnat := congrArg UInt8.toNat h
  rw [byteOf, byteOf, UInt8.toNat_ofNat', UInt8.toNat_ofNat', Nat.mod_eq_of_lt (by omega),
    Nat.mod_eq_of_lt (by omega)] at hnat
  exact Char.toNat_inj.mp hnat

theorem mem_map_byteOf {c : Char} (hc : c.toNat < 128) {l : List Char}
    (h : ∀ d ∈ l, d.toNat < 128) : byteOf c ∈ l.map byteOf ↔ c ∈ l := by
  rw [List.mem_map]
  constructor
  · rintro ⟨d, hd, heq⟩
    exact (byteOf_eq_iff (h d hd) hc).mp heq ▸ hd
  · exact fun hmem => ⟨c, hmem, rfl⟩

/-- The mark and digits without a slash are a name. -/
theorem isName_mark {l : List Char} (h : ∀ c ∈ l, c.toNat < 128) (hslash : '/' ∉ l) :
    IsName (utf8Bytes (base64Mark ++ .ofList l)) := by
  rw [utf8Bytes_mark h]
  have hmark : IsName (utf8Bytes base64Mark) := by decide +kernel
  have hfree : separator ∉ l.map byteOf := fun hmem =>
    hslash ((mem_map_byteOf (by decide) h).mp hmem)
  have hlong : 2 < (utf8Bytes base64Mark).length := by decide +kernel
  refine ⟨by simp [hmark.ne_nil], ?_, fun heq => ?_, fun heq => ?_⟩
  · rw [List.mem_append, not_or]
    exact ⟨hmark.separator_notMem, hfree⟩
  · have hlength := congrArg List.length heq
    rw [List.length_append, Path.dot, List.length_singleton] at hlength
    omega
  · have hlength := congrArg List.length heq
    rw [List.length_append, Path.dotDot] at hlength
    simp only [List.length_cons, List.length_nil] at hlength
    omega

theorem separator_notMem_of_not_forbidden (h : forbiddenPaths id = false) :
    separator ∉ utf8Bytes id := by
  intro hmem
  have hslash : '/' ∈ id.toList := (mem_utf8Bytes_iff (by decide) id).mp hmem
  have hall := List.any_eq_false.mp h '/' hslash
  exact hall (by decide +kernel)

theorem isAbsolute_idEncoded : Path.isAbsolute (utf8Bytes (idEncoded id)) = false := by
  unfold idEncoded
  split
  · rw [utf8Bytes_mark digits_ascii]
    have hmark : IsName (utf8Bytes base64Mark) := by decide +kernel
    exact hmark.isAbsolute_eq_false
  · rename_i hplain
    have hfree := separator_notMem_of_not_forbidden (Bool.not_eq_true _ ▸ hplain)
    cases hbytes : utf8Bytes id with
    | nil => rfl
    | cons b rest =>
        have hb : b ≠ separator := by
          rintro rfl
          rw [hbytes] at hfree
          exact hfree List.mem_cons_self
        simpa [Path.isAbsolute] using hb

theorem takeWhile_of_notMem {front : List Char} (h : '/' ∉ front) (back : List Char) :
    (front ++ back).takeWhile (· ≠ '/') = front ++ back.takeWhile (· ≠ '/') := by
  refine List.takeWhile_append_of_pos (fun c hc => ?_)
  simp only [decide_eq_true_eq]
  rintro rfl
  exact h hc

/-- Without an inner slash the encoded id is one name, that of the stem. -/
theorem filterMap_segments (hid : id ≠ "") (hflat : Flat id) :
    (segments (utf8Bytes (idEncoded id))).filterMap component =
      [.normal (utf8Bytes (stemOf id))] := by
  unfold Flat at hflat
  unfold idEncoded stemOf
  split at hflat
  · rename_i hforbidden
    rw [if_pos hforbidden, if_pos hforbidden]
    rcases hflat with hslash | ⟨front, hdigits, hslash⟩
    · have htake : (digits id).takeWhile (· ≠ '/') = digits id := by
        have hall := takeWhile_of_notMem hslash []
        rwa [List.append_nil, List.takeWhile_nil, List.append_nil] at hall
      have hname := isName_mark digits_ascii hslash
      rw [htake, hname.segments_eq]
      simp [hname.component_eq]
    · have hfront : ∀ c ∈ front, c.toNat < 128 := fun c hc =>
        digits_ascii c (hdigits ▸ List.mem_append_left _ hc)
      have htake : (digits id).takeWhile (· ≠ '/') = front := by
        rw [hdigits, takeWhile_of_notMem hslash, List.takeWhile_cons_of_neg (by simp),
          List.append_nil]
      have hname := isName_mark hfront hslash
      have hbytes : utf8Bytes (base64Mark ++ .ofList (digits id)) =
          utf8Bytes (base64Mark ++ .ofList front) ++ separator :: [] := by
        rw [utf8Bytes_mark digits_ascii, utf8Bytes_mark hfront, hdigits, List.map_append,
          List.append_assoc]
        rfl
      rw [htake, hbytes, Path.segments_append_separator, hname.segments_eq, List.singleton_append,
        List.filterMap_cons_some hname.component_eq]
      rfl
  · rename_i hplain
    rw [if_neg hplain, if_neg hplain]
    have hfree := separator_notMem_of_not_forbidden (Bool.not_eq_true _ ▸ hplain)
    have hname : IsName (utf8Bytes id) := by
      refine ⟨fun hnil => hid (utf8Bytes_injective hnil), hfree, fun hdot => hflat.1 ?_,
        fun hdotDot => hflat.2 ?_⟩
      · exact utf8Bytes_injective (hdot.trans (show Path.dot = utf8Bytes "." by decide +kernel))
      · exact utf8Bytes_injective
          (hdotDot.trans (show Path.dotDot = utf8Bytes ".." by decide +kernel))
    rw [hname.segments_eq]
    simp [hname.component_eq]

theorem components_path_of_flat (hid : id ≠ "") (hflat : Flat id) :
    (path (some dir) id).components =
      peersKey dir ++ [.normal (utf8Bytes (stemOf id) ++ utf8Bytes ".toml")] := by
  refine components_withExtension ?_
  show (dir.push _).components = _
  rw [components_pushPeers dir isAbsolute_idEncoded, filterMap_segments hid hflat]

/-- The text of a Base64 segment. -/
theorem exists_text_of_segment {l : List Char} (h : ∀ c ∈ l, c.toNat < 128) {segment : List UInt8}
    (hsegment : segment ∈ segments (l.map byteOf)) : ∃ text, utf8Bytes text = segment := by
  refine exists_utf8Bytes (fun b hb => ?_)
  obtain ⟨c, hc, rfl⟩ := List.mem_map.mp (Path.mem_of_mem_segments hsegment hb)
  have hlt := h c hc
  rw [byteOf, UInt8.toNat_ofNat', Nat.mod_eq_of_lt (by omega)]
  exact hlt

theorem dot_notMem_segment {l : List Char} (h : ∀ c ∈ l, c ∈ digits id) {segment : List UInt8}
    (hsegment : segment ∈ segments (l.map byteOf)) : byteOf '.' ∉ segment := by
  intro hdot
  have hmem := (mem_map_byteOf (by decide) (fun c hc => digits_ascii c (h c hc))).mp
    (Path.mem_of_mem_segments hsegment hdot)
  exact dot_notMem_digits (h _ hmem)

/-- Base64 with a slash in it ends with that slash, or a component is behind the slash. -/
theorem slash_at_end {front back : List Char} (hdigits : digits id = front ++ '/' :: back)
    (hnone : (segments (back.map byteOf)).filterMap component = []) : back = [] := by
  have hback : ∀ c ∈ back, c ∈ digits id := fun c hc =>
    hdigits ▸ List.mem_append_right _ (List.mem_cons_of_mem _ hc)
  -- all that is behind the slash are slashes
  have hempty : ∀ segment ∈ segments (back.map byteOf), segment = [] := by
    intro segment hsegment
    have hcomponent := List.filterMap_eq_nil_iff.mp hnone segment hsegment
    unfold component at hcomponent
    split at hcomponent
    · rename_i hplain
      rcases hplain with hnil | rfl
      · exact hnil
      · exact absurd List.mem_cons_self (dot_notMem_segment hback hsegment)
    · split at hcomponent <;> cases hcomponent
  have hslashes : ∀ c ∈ back, c = '/' := by
    intro c hc
    have hbyte := Path.eq_separator_of_segments hempty (byteOf c) (List.mem_map_of_mem hc)
    exact (byteOf_eq_iff (digits_ascii c (hback c hc)) (by decide)).mp
      (hbyte.trans (show _ = byteOf '/' from rfl))
  -- and two slashes at the end would stand for a byte that no text has
  rcases List.eq_nil_or_concat back with hnil | ⟨inner, last, rfl⟩
  · exact hnil
  · obtain ⟨more, hmore⟩ : ∃ more, front ++ '/' :: inner = more ++ ['/'] := by
      rcases List.eq_nil_or_concat inner with rfl | ⟨inner', last', rfl⟩
      · exact ⟨front, rfl⟩
      · rw [hslashes last' (by simp)]
        exact ⟨front ++ '/' :: inner', by simp⟩
    have hlast := hslashes last (by simp)
    have hdouble : digits id = more ++ ['/', '/'] := by
      rw [hdigits, hlast, List.concat_eq_append]
      show front ++ ('/' :: inner ++ ['/']) = _
      rw [← List.append_assoc, hmore, List.append_assoc]
      rfl
    exact absurd (Base64.mem_of_encode_slashes hdouble) (notMem_utf8Bytes id)

/-- With a directory in its name the file is below another directory, or not below. -/
theorem flat_of_direct (hdirect : DirectChild (some dir) id) : Flat id := by
  obtain ⟨n, hn⟩ := hdirect
  have hbase : (dir.push (peers.push (utf8Bytes (idEncoded id)))).components = _ :=
    components_pushPeers dir isAbsolute_idEncoded
  have hpath : path (some dir) id =
      withExtension (dir.push (peers.push (utf8Bytes (idEncoded id)))) := rfl
  rw [hpath] at hn
  unfold Flat
  split
  · rename_i hforbidden
    by_cases hslash : '/' ∈ digits id
    · refine .inr ?_
      obtain ⟨front, back, hdigits, hfront⟩ := List.eq_append_cons_of_mem hslash
      have hfrontAscii : ∀ c ∈ front, c.toNat < 128 := fun c hc =>
        digits_ascii c (hdigits ▸ List.mem_append_left _ hc)
      have hback : ∀ c ∈ back, c ∈ digits id := fun c hc =>
        hdigits ▸ List.mem_append_right _ (List.mem_cons_of_mem _ hc)
      have hname := isName_mark hfrontAscii hfront
      have hbytes : utf8Bytes (idEncoded id) =
          utf8Bytes (base64Mark ++ .ofList front) ++ separator :: back.map byteOf := by
        unfold idEncoded
        rw [if_pos hforbidden, utf8Bytes_mark digits_ascii, utf8Bytes_mark hfrontAscii, hdigits,
          List.map_append, List.append_assoc]
        rfl
      rw [hbytes, Path.segments_append_separator, hname.segments_eq, List.singleton_append,
        List.filterMap_cons_some hname.component_eq] at hbase
      rcases List.eq_nil_or_concat ((segments (back.map byteOf)).filterMap component) with
        hnone | ⟨more, c, hmore⟩
      · rw [slash_at_end hdigits hnone] at hdigits
        exact ⟨front, hdigits, hfront⟩
      · -- the file is below the directory that is named by the front
        exfalso
        have hc : c ∈ (segments (back.map byteOf)).filterMap component := by simp [hmore]
        obtain ⟨segment, hsegment, hcomponent⟩ := List.mem_filterMap.mp hc
        have hdotDot : segment ≠ Path.dotDot := by
          rintro rfl
          exact dot_notMem_segment hback hsegment List.mem_cons_self
        obtain ⟨m, rfl⟩ := Path.normal_of_component hcomponent hdotDot
        obtain ⟨text, htext⟩ := exists_text_of_segment
          (fun c hc => digits_ascii c (hback c hc)) hsegment
        rw [hmore, Files.eq_of_component hcomponent, ← htext, List.concat_eq_append,
          ← List.cons_append, ← List.append_assoc] at hbase
        rw [hbytes, components_withExtension hbase] at hn
        have hlength := congrArg List.length hn
        simp only [List.length_append, List.length_cons, List.length_nil] at hlength
        have hkey : (Config.path (some dir) peers).components = peersKey dir := rfl
        rw [hkey] at hlength
        omega
    · exact .inl hslash
  · rename_i hplain
    have hencoded : idEncoded id = id := if_neg hplain
    rw [hencoded] at hbase hn
    refine ⟨?_, ?_⟩
    · rintro rfl
      have hsegments : (segments (utf8Bytes ".")).filterMap component = [] := by decide +kernel
      have hkey : peersKey dir = dir.components ++ [.normal (utf8Bytes "peers")] :=
        isName_peers.components_push dir
      rw [hsegments, List.append_nil, hkey] at hbase
      rw [components_withExtension hbase] at hn
      have hlength := congrArg List.length hn
      have hkey' : (Config.path (some dir) peers).components = _ := hkey
      rw [hkey'] at hlength
      simp only [List.length_append, List.length_cons, List.length_nil] at hlength
      omega
    · rintro rfl
      have hsegments : (segments (utf8Bytes "..")).filterMap component = [.parentDir] := by
        decide +kernel
      rw [hsegments] at hbase
      have hnone : (dir.push (peers.push (utf8Bytes ".."))).fileName = none := by
        unfold Path.fileName
        rw [hbase, List.getLast?_concat]
      have hsame : withExtension (dir.push (peers.push (utf8Bytes ".."))) =
          dir.push (peers.push (utf8Bytes "..")) := by
        unfold withExtension Path.extension Path.withExtension
        rw [hnone]
        rfl
      rw [hsame, hbase] at hn
      cases (List.append_inj' hn rfl).2

/-! ## Names read back -/

/-- The id is a file name that does not look encoded, or its Base64 has no slash. -/
def RegularId (id : String) : Prop :=
  if forbiddenPaths id then '/' ∉ digits id
  else id ≠ "." ∧ id ≠ ".." ∧ ¬ (base64Mark.toList <+: id.toList ∧ id.utf8ByteSize ≠ 7)

instance (id : String) : Decidable (RegularId id) := by
  unfold RegularId
  infer_instance

theorem flat_of_regular (h : RegularId id) : Flat id := by
  unfold RegularId at h
  unfold Flat
  by_cases hforbidden : forbiddenPaths id = true
  · rw [if_pos hforbidden] at h ⊢
    exact .inl h
  · rw [if_neg hforbidden] at h ⊢
    exact ⟨h.1, h.2.1⟩

theorem digits_ne_nil (hid : id ≠ "") : digits id ≠ [] := by
  intro hnil
  have hdecode := Base64.decode_of_encode (utf8Bytes id)
  rw [show Base64.encode (utf8Bytes id) = [] from hnil] at hdecode
  exact hid (utf8Bytes_injective (Option.some.inj hdecode).symm)

/-- What stands behind the mark is decoded. -/
theorem decodeName_mark {l : List Char} (h : ∀ c ∈ l, c.toNat < 128) (hne : l ≠ []) :
    decodeName (base64Mark ++ .ofList l) = fromUtf8Lossy ((Base64.decode l).getD []) := by
  have hlist : (base64Mark ++ String.ofList l).toList = base64Mark.toList ++ l := by simp
  have hsize : (base64Mark ++ String.ofList l).utf8ByteSize = 7 + l.length := by
    rw [← length_utf8Bytes, utf8Bytes_mark h, List.length_append, List.length_map]
    rfl
  have hlength := List.length_pos_iff.mpr hne
  unfold decodeName
  rw [if_pos ⟨hlist ▸ List.prefix_append _ _, by omega⟩, hlist]
  rfl

theorem decodeName_of_regular (hid : id ≠ "") (h : RegularId id) : decodeName (stemOf id) = id := by
  unfold RegularId at h
  unfold stemOf
  split at h
  · rename_i hforbidden
    have htake : (digits id).takeWhile (· ≠ '/') = digits id := by
      have hall := takeWhile_of_notMem h []
      rwa [List.append_nil, List.takeWhile_nil, List.append_nil] at hall
    rw [if_pos hforbidden, htake, decodeName_mark digits_ascii (digits_ne_nil hid),
      show Base64.decode (digits id) = _ from Base64.decode_of_encode (utf8Bytes id),
      Option.getD_some, fromUtf8Lossy_utf8Bytes]
  · rename_i hplain
    rw [if_neg hplain]
    exact if_neg h.2.2

/-- A name that looks encoded is read back as a shorter one. -/
theorem length_decodeName_lt {name : String}
    (h : base64Mark.toList <+: name.toList ∧ name.utf8ByteSize ≠ 7) :
    (decodeName name).length < name.length := by
  have hmark : 7 ≤ name.length := by
    rw [← String.length_toList]
    exact h.1.length_le
  have hdecoded : ((Base64.decode (name.toList.drop 7)).getD []).length ≤ name.length - 7 := by
    cases hdecode : Base64.decode (name.toList.drop 7) with
    | none => exact Nat.zero_le _
    | some bytes =>
        have hlength := (Base64.length_of_decode hdecode).2
        rwa [List.length_drop, String.length_toList] at hlength
  unfold decodeName
  rw [if_pos h]
  have hlossy := length_fromUtf8Lossy_le ((Base64.decode (name.toList.drop 7)).getD [])
  omega

/-- The name of any other id is read back as a shorter one. -/
theorem length_decodeName_stemOf_lt (hid : id ≠ "") (hflat : Flat id) (h : ¬ RegularId id) :
    (decodeName (stemOf id)).length < id.length := by
  unfold RegularId at h
  unfold Flat at hflat
  unfold stemOf
  split at h
  · rename_i hforbidden
    rw [if_pos hforbidden] at hflat ⊢
    obtain ⟨front, hdigits, hslash⟩ := hflat.resolve_left h
    have htake : (digits id).takeWhile (· ≠ '/') = front := by
      rw [hdigits, takeWhile_of_notMem hslash, List.takeWhile_cons_of_neg (by simp),
        List.append_nil]
    -- without the slash the digits are not in groups of four
    have hgroups : (digits id).length % 4 = 0 := Base64.length_encode_mod (utf8Bytes id)
    rw [hdigits, List.length_append, List.length_singleton] at hgroups
    have hnone : Base64.decode front = none := by
      cases hdecode : Base64.decode front with
      | none => rfl
      | some bytes =>
          have hfront := (Base64.length_of_decode hdecode).1
          omega
    have hne : front ≠ [] := by
      rintro rfl
      exact absurd hgroups (by decide)
    have hascii : ∀ c ∈ front, c.toNat < 128 := fun c hc =>
      digits_ascii c (hdigits ▸ List.mem_append_left _ hc)
    rw [htake, decodeName_mark hascii hne, hnone]
    exact Nat.pos_of_ne_zero (fun hzero => hid (String.length_eq_zero_iff.mp hzero))
  · rename_i hplain
    rw [if_neg hplain] at hflat ⊢
    exact length_decodeName_lt (not_not.mp (fun hlooks => h ⟨hflat.1, hflat.2, hlooks⟩))

end PeerConfig

end HbbCommon.Config
