import HbbCommon.Base.Utf8

/-!
# The bytes of a text

A character below 128 is its own byte, and all bytes of another are 128 or more and none of
them is 255. So such a character is in a text when its byte is in the bytes. A text that is read
from bytes has no more characters than there are bytes.
-/

namespace HbbCommon.Base

theorem utf8Bytes_ofList (l : List Char) :
    utf8Bytes (.ofList l) = l.flatMap String.utf8EncodeChar := by
  simp [utf8Bytes, List.utf8Encode]

theorem utf8Bytes_eq_flatMap (text : String) :
    utf8Bytes text = text.toList.flatMap String.utf8EncodeChar := by
  rw [← utf8Bytes_ofList, String.ofList_toList]

theorem utf8EncodeChar_ascii {c : Char} (h : c.toNat < 128) :
    String.utf8EncodeChar c = [UInt8.ofNat c.toNat] := by
  have hle : c.val.toNat ≤ 127 := Nat.le_of_lt_succ h
  unfold String.utf8EncodeChar
  exact if_pos hle

theorem utf8EncodeChar_other {c : Char} (h : 128 ≤ c.toNat) :
    ∀ b ∈ String.utf8EncodeChar c, 128 ≤ b.toNat ∧ b.toNat ≠ 255 := by
  have hlt : ¬ c.val.toNat ≤ 127 := Nat.not_le.mpr h
  -- a byte that is made of some bits behind a mark
  have hbyte : ∀ (n size mark : Nat), 128 ≤ mark → size + mark < 256 → 0 < size →
      128 ≤ (UInt8.ofNat (n % size + mark)).toNat ∧ (UInt8.ofNat (n % size + mark)).toNat ≠ 255 := by
    intro n size mark hmark hsum hsize
    have hmod := Nat.mod_lt n hsize
    rw [UInt8.toNat_ofNat', Nat.mod_eq_of_lt (by omega)]
    omega
  intro b hb
  unfold String.utf8EncodeChar at hb
  simp only [if_neg hlt] at hb
  split at hb
  · simp only [List.mem_cons, List.not_mem_nil, or_false] at hb
    rcases hb with rfl | rfl
    · exact hbyte _ _ _ (by decide) (by decide) (by decide)
    · exact hbyte _ _ _ (by decide) (by decide) (by decide)
  · split at hb
    · simp only [List.mem_cons, List.not_mem_nil, or_false] at hb
      rcases hb with rfl | rfl | rfl
      · exact hbyte _ _ _ (by decide) (by decide) (by decide)
      · exact hbyte _ _ _ (by decide) (by decide) (by decide)
      · exact hbyte _ _ _ (by decide) (by decide) (by decide)
    · simp only [List.mem_cons, List.not_mem_nil, or_false] at hb
      rcases hb with rfl | rfl | rfl | rfl
      · exact hbyte _ _ _ (by decide) (by decide) (by decide)
      · exact hbyte _ _ _ (by decide) (by decide) (by decide)
      · exact hbyte _ _ _ (by decide) (by decide) (by decide)
      · exact hbyte _ _ _ (by decide) (by decide) (by decide)

/-- The byte 255 is in no text. -/
theorem notMem_utf8Bytes (text : String) : 255 ∉ utf8Bytes text := by
  rw [utf8Bytes_eq_flatMap, List.mem_flatMap]
  rintro ⟨c, -, hb⟩
  by_cases hc : c.toNat < 128
  · rw [utf8EncodeChar_ascii hc, List.mem_singleton] at hb
    have hnat := congrArg UInt8.toNat hb
    rw [UInt8.toNat_ofNat', Nat.mod_eq_of_lt (by omega)] at hnat
    have h255 : (255 : UInt8).toNat = 255 := rfl
    omega
  · exact (utf8EncodeChar_other (Nat.not_lt.mp hc) _ hb).2 rfl

/-- A byte below 128 is in the bytes of a text exactly when its character is in the text. -/
theorem mem_utf8Bytes_iff {c : Char} (hc : c.toNat < 128) (text : String) :
    UInt8.ofNat c.toNat ∈ utf8Bytes text ↔ c ∈ text.toList := by
  rw [utf8Bytes_eq_flatMap, List.mem_flatMap]
  have hbyte : (UInt8.ofNat c.toNat).toNat = c.toNat := by
    rw [UInt8.toNat_ofNat', Nat.mod_eq_of_lt (by omega)]
  constructor
  · rintro ⟨c', hmem, hb⟩
    by_cases hc' : c'.toNat < 128
    · rw [utf8EncodeChar_ascii hc', List.mem_singleton] at hb
      have hnat := congrArg UInt8.toNat hb
      rw [hbyte, UInt8.toNat_ofNat', Nat.mod_eq_of_lt (by omega)] at hnat
      rwa [Char.toNat_inj.mp hnat]
    · have := (utf8EncodeChar_other (Nat.not_lt.mp hc') _ hb).1
      omega
  · intro hmem
    exact ⟨c, hmem, by rw [utf8EncodeChar_ascii hc, List.mem_singleton]⟩

/-- Characters below 128 are their bytes. -/
theorem utf8Bytes_ascii {l : List Char} (h : ∀ c ∈ l, c.toNat < 128) :
    utf8Bytes (.ofList l) = l.map (fun c => UInt8.ofNat c.toNat) := by
  rw [utf8Bytes_ofList]
  induction l with
  | nil => rfl
  | cons c l ih =>
      obtain ⟨hc, hl⟩ := List.forall_mem_cons.mp h
      rw [List.flatMap_cons, ih hl, utf8EncodeChar_ascii hc]
      rfl

/-- Bytes below 128 are a text. -/
theorem exists_utf8Bytes {bytes : List UInt8} (h : ∀ b ∈ bytes, b.toNat < 128) :
    ∃ text, utf8Bytes text = bytes := by
  have hchar : ∀ b ∈ bytes, (Char.ofNat b.toNat).toNat = b.toNat := by
    intro b hb
    have hlt := h b hb
    have hvalid : b.toNat.isValidChar := .inl (by omega)
    rw [Char.ofNat, dif_pos hvalid]
    rfl
  refine ⟨.ofList (bytes.map (fun b => Char.ofNat b.toNat)), ?_⟩
  rw [utf8Bytes_ascii, List.map_map]
  · refine (List.map_congr_left (fun b hb => ?_)).trans (List.map_id bytes)
    show UInt8.ofNat (Char.ofNat b.toNat).toNat = b
    rw [hchar b hb, UInt8.ofNat_toNat]
  · intro c hc
    obtain ⟨b, hb, rfl⟩ := List.mem_map.mp hc
    rw [hchar b hb]
    exact h b hb

/-! ## Lengths -/

theorem length_le_utf8Bytes (text : String) : text.length ≤ (utf8Bytes text).length := by
  rw [utf8Bytes_eq_flatMap, ← String.length_toList]
  induction text.toList with
  | nil => exact Nat.le_refl 0
  | cons c l ih =>
      have hc : 0 < (String.utf8EncodeChar c).length :=
        List.length_pos_iff.mpr String.utf8EncodeChar_ne_nil
      rw [List.flatMap_cons, List.length_append, List.length_cons]
      omega

theorem length_le_of_fromUtf8 {bytes : List UInt8} {text : String}
    (h : fromUtf8 bytes = some text) : text.length ≤ bytes.length := by
  rw [fromUtf8_eq_some_iff.mp h]
  exact length_le_utf8Bytes text

theorem utf8Continuation_le (b : UInt8) (rest : List UInt8) :
    utf8Continuation b rest ≤ rest.length := by
  unfold utf8Continuation
  split
  · exact Nat.le_refl 0
  · rename_i c more
    split
    · have htake : ((more.take (utf8CharWidth b - 2)).takeWhile
          (fun c => 0x80 ≤ c && c ≤ 0xBF)).length ≤ more.length :=
        (List.takeWhile_prefix _).length_le.trans (List.length_take_le' _ _)
      rw [List.length_cons]
      omega
    · exact Nat.zero_le _

theorem length_lossyChars_le (bytes : List UInt8) : (lossyChars bytes).length ≤ bytes.length := by
  fun_induction lossyChars bytes with
  | case1 => exact Nat.le_refl 0
  | case2 b rest n text ih =>
      have hn : n ≤ rest.length := utf8Continuation_le b rest
      have htext : ((text.map String.toList).getD ['\uFFFD']).length ≤ n + 1 := by
        cases htext : text with
        | none => exact Nat.le_add_left 1 n
        | some found =>
            have hfound : fromUtf8 (b :: rest.take n) = some found := by
              by_cases hwidth : n + 1 = utf8CharWidth b
              · rwa [show text = fromUtf8 (b :: rest.take n) from if_pos hwidth] at htext
              · rw [show text = none from if_neg hwidth] at htext
                cases htext
            have hlength := length_le_of_fromUtf8 hfound
            rw [List.length_cons, List.length_take_of_le hn] at hlength
            rwa [Option.map_some, Option.getD_some, String.length_toList]
      rw [List.length_drop] at ih
      rw [List.length_append, List.length_cons]
      omega

theorem length_fromUtf8Lossy_le (bytes : List UInt8) :
    (fromUtf8Lossy bytes).length ≤ bytes.length := by
  unfold fromUtf8Lossy
  cases h : fromUtf8 bytes with
  | some text => exact length_le_of_fromUtf8 h
  | none =>
      show (String.ofList (lossyChars bytes)).length ≤ bytes.length
      rw [String.length_ofList]
      exact length_lossyChars_le bytes

end HbbCommon.Base
