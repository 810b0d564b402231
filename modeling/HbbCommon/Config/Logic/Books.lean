import HbbCommon.Config.Books
import HbbCommon.Config.Logic.Secrets

/-!
# Books that are stored and loaded

The writer has a limit for the compressed text and the reader the same one for the text itself.
Between the two a book is stored and deleted by the next load; above both, the file is empty
by the time the writer gives up.
-/

namespace HbbCommon.Config

open HbbCommon.Base

variable {libs : BookLibs} {drawn : Nat} {json : String}

/-! ## Loads one after the other -/

section

variable {σ β : Type} {load : σ → β × σ} {s s' : σ} {v d : β}

/-- What is left after some loads. -/
def afterLoads (load : σ → β × σ) (n : Nat) (s : σ) : σ := (fun s => (load s).2)^[n] s

/-- The book that the load after `n` others returns. -/
def laterLoad (load : σ → β × σ) (n : Nat) (s : σ) : β := (load (afterLoads load n s)).1

/-- The state `s'` after a store is one that keeps books: the store was refused and the earlier
book is still returned, or the book that was stored is returned; and what was stored is not
deleted. -/
def BookKept (load : σ → β × σ) (tooLarge : Prop) (v : β) (s s' : σ) : Prop :=
  (tooLarge ∧ (∀ n, laterLoad load n s' = (load s).1) ∨ ∀ n, laterLoad load n s' = v) ∧
    (¬ tooLarge → ∀ n, afterLoads load n s' = s')

theorem afterLoads_of_fixed (h : load s = (v, s)) (n : Nat) : afterLoads load n s = s :=
  Function.iterate_fixed (congrArg Prod.snd h) n

/-- Once a load has failed, all fail. -/
theorem laterLoad_of_failure {t : σ} (h : load s = (d, t)) (ht : load t = (d, t)) (n : Nat) :
    laterLoad load n s = d := by
  unfold laterLoad
  cases n with
  | zero => exact congrArg Prod.fst h
  | succ n =>
      have hnext : afterLoads load (n + 1) s = afterLoads load n t := by
        unfold afterLoads
        rw [Function.iterate_succ_apply, h]
      rw [hnext, afterLoads_of_fixed ht]
      exact congrArg Prod.fst ht

/-- Where a store that is too large, or does not fit for reading, leaves what fails to load. -/
theorem bookKept_iff {tooLarge fits : Prop} [Decidable tooLarge]
    (hsuccess : ¬ tooLarge → fits → load s' = (v, s'))
    (hfailure : tooLarge ∨ ¬ fits → ∃ t, load s' = (d, t) ∧ load t = (d, t) ∧ t ≠ s') :
    BookKept load tooLarge v s s' ↔ if tooLarge then (load s).1 = d ∨ v = d else fits := by
  by_cases hlarge : tooLarge
  · obtain ⟨t, hload, ht, -⟩ := hfailure (.inl hlarge)
    have hlater := laterLoad_of_failure hload ht
    rw [if_pos hlarge]
    constructor
    · rintro ⟨⟨-, hearlier⟩ | hstored, -⟩
      · exact .inl ((hearlier 0).symm.trans (hlater 0))
      · exact .inr ((hstored 0).symm.trans (hlater 0))
    · intro hdefault
      refine ⟨?_, fun h => absurd hlarge h⟩
      rcases hdefault with hearlier | hstored
      · exact .inl ⟨hlarge, fun n => (hlater n).trans hearlier.symm⟩
      · exact .inr (fun n => (hlater n).trans hstored.symm)
  · rw [if_neg hlarge]
    constructor
    · intro hkept
      by_contra hfits
      obtain ⟨t, hload, -, hne⟩ := hfailure (.inr hfits)
      have hfirst : afterLoads load 1 s' = s' := hkept.2 hlarge 1
      exact hne ((congrArg Prod.snd hload).symm.trans hfirst)
    · intro hfits
      have hload := hsuccess hlarge hfits
      have hfixed := afterLoads_of_fixed hload
      refine ⟨.inr (fun n => ?_), fun _ => hfixed⟩
      unfold laterLoad
      rw [hfixed n, hload]

end

/-! ## One book -/

/-- Ideal libraries: a compressed text is read as the text, as far as it is asked for, and the
cipher is ideal. -/
structure BookLibs.Ideal (libs : BookLibs) : Prop where
  compressed : ∀ data, (libs.zstd.zstdCompress data).isSome
  read : ∀ data text n, libs.zstd.zstdCompress data = some text →
    libs.zstd.zstdRead text n = .ok (data.take n)
  cipher : libs.sodium.Ideal

/-- The store is refused. -/
def TooLarge (libs : BookLibs) (json : String) : Prop :=
  (Files.compress libs.zstd (utf8Bytes json)).length > 64 * 1024 * 1024

instance (libs : BookLibs) (json : String) : Decidable (TooLarge libs json) :=
  inferInstanceAs (Decidable (_ > _))

/-- The text is read in full. -/
def Fits (json : String) : Prop := (utf8Bytes json).length ≤ configDecompressMaxLen

instance (json : String) : Decidable (Fits json) := inferInstanceAs (Decidable (_ ≤ _))

/-- Nothing opens as an empty file. -/
theorem symmetricCrypt_nil (hideal : libs.sodium.Ideal) (source : KeySource) :
    libs.sodium.symmetricCrypt source drawn [] false = none := by
  have hopen : ∀ key, libs.sodium.openSecretboxPayload [] key = none := by
    intro key
    show libs.sodium.openBox [] zeroNonce key = none
    by_contra hsome
    obtain ⟨data, hdata⟩ := Option.ne_none_iff_exists'.mp hsome
    have hlength := hideal.macBytes_le data zeroNonce key
    rw [← hideal.seal_of_open _ _ _ _ hdata] at hlength
    exact absurd hlength (by simp [macBytes])
  unfold Sodium.symmetricCrypt
  simp only [hopen, Bool.false_eq_true, if_false]
  split
  · rfl
  · split
    · split <;> rfl
    · rfl

theorem decompressLimited_compressed (hideal : libs.Ideal) {data text : Bytes}
    (htext : libs.zstd.zstdCompress data = some text) (maxLen : Nat) :
    Files.decompressLimited libs.zstd text maxLen =
      if data.length > maxLen then .error .other else .ok data := by
  unfold Files.decompressLimited
  rw [hideal.read _ _ _ htext]
  dsimp only
  by_cases hlength : data.length > maxLen
  · rw [if_pos hlength, if_pos (by rw [List.length_take]; omega)]
  · rw [if_neg hlength, List.take_of_length_le (by omega), if_neg hlength]

/-- What was stored is read when it is neither too large nor too long. -/
theorem readBook_storedBook {β : Type} (hideal : libs.Ideal) (format : BookJson β) :
    readBook libs format (some (storedBook libs drawn json)) =
      if ¬ TooLarge libs json ∧ Fits json then format.fromStr json else none := by
  obtain ⟨text, htext⟩ := Option.isSome_iff_exists.mp (hideal.compressed (utf8Bytes json))
  have hcompress : Files.compress libs.zstd (utf8Bytes json) = text := by
    unfold Files.compress
    rw [htext]
    rfl
  by_cases hlarge : TooLarge libs json
  · have hempty : storedBook libs drawn json = [] := if_pos hlarge
    rw [hempty, if_neg (fun h => h.1 hlarge)]
    unfold readBook
    rw [Option.bind_eq_bind, Option.bind_some, symmetricCrypt_nil hideal.cipher]
    rfl
  · have hcrypt : libs.sodium.symmetricCrypt libs.source 0 (storedBook libs drawn json) false =
        some text := by
      have hstored : storedBook libs drawn json =
          (libs.sodium.symmetricCrypt libs.source drawn text true).getD [] := by
        rw [← hcompress]
        exact if_neg hlarge
      rw [hstored]
      exact hideal.cipher.symmetricCrypt_payload (.inl rfl) (.inr ⟨_, rfl⟩) 0
    unfold readBook
    rw [Option.bind_eq_bind, Option.bind_some, hcrypt, Option.bind_some,
      decompressLimited_compressed hideal htext]
    by_cases hfits : Fits json
    · have hlength : ¬ (utf8Bytes json).length > configDecompressMaxLen := Nat.not_lt.mpr hfits
      rw [if_neg hlength, if_pos ⟨hlarge, hfits⟩]
      dsimp only
      rw [fromUtf8Lossy_utf8Bytes]
    · have hlength : (utf8Bytes json).length > configDecompressMaxLen := Nat.lt_of_not_le hfits
      rw [if_pos hlength, if_neg (fun h => hfits h.2)]

/-! ## Both books -/

/-- For a text that parses: a book is kept exactly when the text is neither too large nor too
long, or it is too large and either the earlier book or the new one is the default. -/
theorem ab_kept_iff {β : Type} (hideal : libs.Ideal) (format : BookJson β) (drawn : Nat)
    {json : String} {v : β} (hparses : format.fromStr json = some v) (s : BookFiles) :
    BookKept (Ab.load libs format) (TooLarge libs json) v s (Ab.store libs drawn json s) ↔
      if TooLarge libs json then (Ab.load libs format s).1 = format.default ∨ v = format.default
      else Fits json := by
  have hread : readBook libs format (some (storedBook libs drawn json)) =
      if ¬ TooLarge libs json ∧ Fits json then format.fromStr json else none :=
    readBook_storedBook hideal format
  refine bookKept_iff (fun hlarge hfits => ?_) (fun hfails => ?_)
  · unfold Ab.load Ab.store
    rw [hread, if_pos ⟨hlarge, hfits⟩, hparses]
  · refine ⟨Ab.remove s, ?_, rfl, fun heq => ?_⟩
    · unfold Ab.load Ab.store
      rw [hread, if_neg (fun h => hfails.elim h.1 (fun hnot => hnot h.2))]
      rfl
    · cases congrArg BookFiles.ab heq

theorem group_kept_iff {β : Type} (hideal : libs.Ideal) (format : BookJson β) (drawn : Nat)
    {json : String} {v : β} (hparses : format.fromStr json = some v) (s : BookFiles) :
    BookKept (Group.load libs format) (TooLarge libs json) v s (Group.store libs drawn json s) ↔
      if TooLarge libs json then
        (Group.load libs format s).1 = format.default ∨ v = format.default
      else Fits json := by
  have hread : readBook libs format (some (storedBook libs drawn json)) =
      if ¬ TooLarge libs json ∧ Fits json then format.fromStr json else none :=
    readBook_storedBook hideal format
  refine bookKept_iff (fun hlarge hfits => ?_) (fun hfails => ?_)
  · unfold Group.load Group.store
    rw [hread, if_pos ⟨hlarge, hfits⟩, hparses]
  · refine ⟨Group.remove s, ?_, rfl, fun heq => ?_⟩
    · unfold Group.load Group.store
      rw [hread, if_neg (fun h => hfails.elim h.1 (fun hnot => hnot h.2))]
      rfl
    · cases congrArg BookFiles.group heq

/-- The address book and the group alike. -/
theorem books_kept_iff {α β : Type} (hideal : libs.Ideal) (abFormat : BookJson α)
    (groupFormat : BookJson β) (drawn : Nat) (json : String) (s : BookFiles) :
    (∀ v, abFormat.fromStr json = some v →
      (BookKept (Ab.load libs abFormat) (TooLarge libs json) v s (Ab.store libs drawn json s) ↔
        if TooLarge libs json then
          (Ab.load libs abFormat s).1 = abFormat.default ∨ v = abFormat.default
        else Fits json)) ∧
    ∀ v, groupFormat.fromStr json = some v →
      (BookKept (Group.load libs groupFormat) (TooLarge libs json) v s
          (Group.store libs drawn json s) ↔
        if TooLarge libs json then
          (Group.load libs groupFormat s).1 = groupFormat.default ∨ v = groupFormat.default
        else Fits json) :=
  ⟨fun _ hparses => ab_kept_iff hideal abFormat drawn hparses s,
    fun _ hparses => group_kept_iff hideal groupFormat drawn hparses s⟩

/-! ## A text that compresses well -/

/-- A compression that is good at one long run of spaces. -/
def spacesZstd (spaces : Nat) : Files.Libs where
  zstdCompress data :=
    some (if List.replicate spaces 32 <+: data then 1 :: data.drop spaces else 0 :: data)
  zstdRead text n :=
    match text with
    | 0 :: data => .ok (data.take n)
    | 1 :: rest => .ok ((List.replicate spaces 32 ++ rest).take n)
    | _ => .error .other
  digestToString _ := "[]"
  digestFromStr _ := none
  toStringLossy path := path

def spacesLibs (spaces : Nat) : BookLibs where
  zstd := spacesZstd spaces
  sodium := Sodium.showing
  source := Sodium.desktop

theorem spacesLibs_ideal (spaces : Nat) : (spacesLibs spaces).Ideal where
  compressed _ := rfl
  read data text n htext := by
    have hcompressed : text =
        if List.replicate spaces 32 <+: data then 1 :: data.drop spaces else 0 :: data :=
      (Option.some.inj htext).symm
    rw [hcompressed]
    split
    · rename_i hprefix
      have hdata := List.prefix_iff_eq_append.mp hprefix
      rw [List.length_replicate] at hdata
      show Except.ok ((List.replicate spaces 32 ++ data.drop spaces).take n) = _
      rw [hdata]
    · rfl
  cipher := Sodium.showing_ideal

/-- A book is its access token; there is one in every text of the samples. -/
def tokenJson : BookJson String where
  fromStr text := if text = "" then none else some "t"
  default := ""

def tokenText : String := "\x7b\"access_token\":\"t\"\x7d"

/-- The same behind a run of spaces. -/
def spacedText (spaces : Nat) : String := .ofList (List.replicate spaces ' ') ++ tokenText

theorem books_kept_sample :
    (Ab.load (spacesLibs 3) tokenJson (Ab.store (spacesLibs 3) 0 (spacedText 3) ⟨none, none⟩)).1 =
      "t" := by
  have hkept := ((books_kept_iff (spacesLibs_ideal 3) tokenJson tokenJson 0 (spacedText 3)
    ⟨none, none⟩).1 "t" (by decide +kernel)).mpr (by decide +kernel)
  rcases hkept.1 with ⟨-, hearlier⟩ | hstored
  · exact absurd (hearlier 0) (by decide +kernel)
  · exact hstored 0

theorem utf8Bytes_spaces (n : Nat) :
    utf8Bytes (.ofList (List.replicate n ' ')) = List.replicate n 32 := by
  induction n with
  | zero => rfl
  | succ n ih =>
      have happend : String.ofList (List.replicate (n + 1) ' ') =
          " " ++ .ofList (List.replicate n ' ') := by
        rw [List.replicate_succ, ← String.toList_inj]
        simp
      rw [happend, utf8Bytes_append, ih]
      rfl

theorem utf8Bytes_spacedText (spaces : Nat) :
    utf8Bytes (spacedText spaces) = List.replicate spaces 32 ++ utf8Bytes tokenText := by
  unfold spacedText
  rw [utf8Bytes_append, utf8Bytes_spaces]

theorem not_tooLarge_spacedText (spaces : Nat) :
    ¬ TooLarge (spacesLibs spaces) (spacedText spaces) := by
  have hcompress : Files.compress (spacesZstd spaces) (utf8Bytes (spacedText spaces)) =
      1 :: utf8Bytes tokenText := by
    show (if List.replicate spaces 32 <+: utf8Bytes (spacedText spaces) then _ else _) = _
    rw [utf8Bytes_spacedText, if_pos (List.prefix_append _ _)]
    simp
  unfold TooLarge
  rw [show (spacesLibs spaces).zstd = spacesZstd spaces from rfl, hcompress]
  decide +kernel

theorem not_fits_spacedText {spaces : Nat} (h : configDecompressMaxLen ≤ spaces) :
    ¬ Fits (spacedText spaces) := by
  have htext : 0 < (utf8Bytes tokenText).length := by decide +kernel
  unfold Fits
  rw [utf8Bytes_spacedText, List.length_append, List.length_replicate]
  omega

theorem fromStr_spacedText (spaces : Nat) : tokenJson.fromStr (spacedText spaces) = some "t" := by
  refine if_neg (fun hempty => ?_)
  have hbytes := congrArg utf8Bytes hempty
  rw [utf8Bytes_spacedText] at hbytes
  exact absurd (List.append_eq_nil_iff.mp hbytes).2 (by decide +kernel)

/-- With so many spaces a book is stored, and deleted by the next load. -/
theorem load_store_spacedText {spaces : Nat} (h : configDecompressMaxLen ≤ spaces)
    (s : BookFiles) :
    Ab.load (spacesLibs spaces) tokenJson (Ab.store (spacesLibs spaces) 0 (spacedText spaces) s) =
        ("", Ab.remove s) ∧
      ¬ BookKept (Ab.load (spacesLibs spaces) tokenJson)
        (TooLarge (spacesLibs spaces) (spacedText spaces)) "t" s
        (Ab.store (spacesLibs spaces) 0 (spacedText spaces) s) := by
  have hideal := spacesLibs_ideal spaces
  constructor
  · unfold Ab.load Ab.store
    rw [readBook_storedBook hideal, if_neg (fun hread => not_fits_spacedText h hread.2)]
    rfl
  · rw [ab_kept_iff hideal tokenJson 0 (fromStr_spacedText spaces) s,
      if_neg (not_tooLarge_spacedText spaces)]
    exact not_fits_spacedText h

/-- A text of more than 64 MiB that compresses to some bytes is stored, and the next load
deletes it and returns neither the earlier book nor this one. -/
theorem long_book_is_deleted :
    tokenJson.fromStr (spacedText configDecompressMaxLen) = some "t" ∧
      ¬ TooLarge (spacesLibs configDecompressMaxLen) (spacedText configDecompressMaxLen) ∧
      Ab.load (spacesLibs configDecompressMaxLen) tokenJson
          (Ab.store (spacesLibs configDecompressMaxLen) 0 (spacedText configDecompressMaxLen)
            ⟨none, none⟩) =
        ("", ⟨none, none⟩) ∧
      ¬ BookKept (Ab.load (spacesLibs configDecompressMaxLen) tokenJson)
        (TooLarge (spacesLibs configDecompressMaxLen) (spacedText configDecompressMaxLen)) "t"
        ⟨none, none⟩
        (Ab.store (spacesLibs configDecompressMaxLen) 0 (spacedText configDecompressMaxLen)
          ⟨none, none⟩) :=
  have hlong := load_store_spacedText (Nat.le_refl configDecompressMaxLen) ⟨none, none⟩
  ⟨fromStr_spacedText _, not_tooLarge_spacedText _, hlong.1, hlong.2⟩

end HbbCommon.Config
