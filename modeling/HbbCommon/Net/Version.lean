import HbbCommon.Base.Text

/-!
# Version numbers

A version `a.b.c-p` becomes one number. The parts before the hyphen are digits of base
1000, and the last of them is then multiplied by ten, which leaves room for a patch of
one decimal digit.
-/

namespace HbbCommon.Net

open HbbCommon.Base

/-- One step of the loop over the dotted parts: the number and the last part. -/
def versionStep (state : Int × Int) (x : Text) : Int × Int :=
  let last := (parseI64 x).getD 0
  (wrapI64 (wrapI64 (state.1 * 1000) + last), last)

/-- The number of the dotted parts, with the last one moved up by a factor of ten. -/
def dottedNumber (v : Text) : Int :=
  let (n, last) := (v.splitOn '.').foldl versionStep (0, 0)
  wrapI64 (wrapI64 (n - last) + wrapI64 (last * 10))

def getVersionNumber (v : Text) : Int :=
  let versions := v.splitOn '-'
  let n :=
    match versions[0]? with
    | some v => dottedNumber v
    | none => 0
  match versions[1]? with
  | some v => wrapI64 (n + (parseI64 v).getD 0)
  | none => n

/-! ## Versions -/

/-- A version with three dotted parts and an optional patch. -/
structure Version where
  major : Nat
  minor : Nat
  micro : Nat
  patch : Option Nat
  deriving DecidableEq, Repr

namespace Version

/-- The dotted parts. -/
def dotted (v : Version) : Text :=
  decimal v.major ++ '.' :: (decimal v.minor ++ '.' :: decimal v.micro)

/-- The text of a version. -/
def text (v : Version) : Text :=
  match v.patch with
  | some patch => v.dotted ++ '-' :: decimal patch
  | none => v.dotted

/-- Every part is below 1000. -/
def Small (v : Version) : Prop :=
  v.major < 1000 ∧ v.minor < 1000 ∧ v.micro < 1000 ∧ v.patch.getD 0 < 1000

/-- The order of the parts, the first one first. -/
def Before (v w : Version) : Prop :=
  v.major < w.major ∨ v.major = w.major ∧ (v.minor < w.minor ∨ v.minor = w.minor ∧
    (v.micro < w.micro ∨ v.micro = w.micro ∧ v.patch.getD 0 < w.patch.getD 0))

instance (v : Version) : Decidable v.Small := by unfold Small; infer_instance

instance (v w : Version) : Decidable (v.Before w) := by unfold Before; infer_instance

/-- The ranges that the factors leave room for. -/
def HasRoom (v : Version) : Prop := v.micro < 100 ∧ v.patch.getD 0 < 10

instance (v : Version) : Decidable v.HasRoom := by unfold HasRoom; infer_instance

/-! ## The number of a version -/

theorem splitOn_dotted (v : Version) :
    v.dotted.splitOn '.' = [decimal v.major, decimal v.minor, decimal v.micro] := by
  have hdot : ∀ n, '.' ∉ decimal n := not_mem_decimal (by decide)
  unfold dotted
  rw [List.splitOn_append_cons_self_of_not_mem (hdot _),
    List.splitOn_append_cons_self_of_not_mem (hdot _), List.splitOn_eq_singleton (hdot _)]

theorem hyphen_not_mem_dotted (v : Version) : '-' ∉ v.dotted := by
  have hhyphen : ∀ n, '-' ∉ decimal n := not_mem_decimal (by decide)
  simp [dotted, hhyphen]

theorem splitOn_text (v : Version) :
    v.text.splitOn '-' = v.dotted :: (v.patch.map decimal).toList := by
  have hhyphen : ∀ n, '-' ∉ decimal n := not_mem_decimal (by decide)
  unfold text
  cases v.patch with
  | none => exact List.splitOn_eq_singleton v.hyphen_not_mem_dotted
  | some patch =>
      rw [List.splitOn_append_cons_self_of_not_mem v.hyphen_not_mem_dotted,
        List.splitOn_eq_singleton (hhyphen _)]
      rfl

theorem parseI64_decimal {n : Nat} (h : n < 1000) : parseI64 (decimal n) = some (n : Int) :=
  parseInt_decimal (by omega) (by omega)

/-- One dotted part shifts the number by three decimal places. -/
theorem versionStep_decimal {n : Int} (last : Int) {k : Nat} (hpos : 0 ≤ n) (hn : n < 10 ^ 9)
    (hk : k < 1000) : versionStep (n, last) (decimal k) = (n * 1000 + k, (k : Int)) := by
  unfold versionStep
  simp only [parseI64_decimal hk, Option.getD_some]
  rw [wrapI64_of_mem (show -2 ^ 63 ≤ n * 1000 by omega) (by omega),
    wrapI64_of_mem (by omega) (by omega)]

theorem dottedNumber_dotted {v : Version} (h : v.Small) :
    dottedNumber v.dotted = ((v.major * 1000 + v.minor) * 1000 + v.micro * 10 : Nat) := by
  obtain ⟨hmajor, hminor, hmicro, _⟩ := h
  have hfirst : versionStep (0, 0) (decimal v.major) = (0 * 1000 + (v.major : Int), (v.major : Int)) :=
    versionStep_decimal 0 le_rfl (by decide) hmajor
  have hsecond := versionStep_decimal (n := 0 * 1000 + (v.major : Int)) v.major
    (by omega) (by omega) hminor
  have hthird := versionStep_decimal (n := (0 * 1000 + (v.major : Int)) * 1000 + v.minor) v.minor
    (by omega) (by omega) hmicro
  unfold dottedNumber
  rw [splitOn_dotted]
  simp only [List.foldl_cons, List.foldl_nil, hfirst, hsecond, hthird]
  rw [wrapI64_of_mem (n := _ - _) (by omega) (by omega), wrapI64_of_mem (n := _ * 10) (by omega)
    (by omega), wrapI64_of_mem (by omega) (by omega)]
  omega

theorem getVersionNumber_text {v : Version} (h : v.Small) :
    getVersionNumber v.text =
      ((v.major * 1000 + v.minor) * 1000 + v.micro * 10 + v.patch.getD 0 : Nat) := by
  have hdotted := dottedNumber_dotted h
  obtain ⟨hmajor, hminor, hmicro, hpatch⟩ := h
  obtain ⟨total, htotal⟩ : ∃ total, (v.major * 1000 + v.minor) * 1000 + v.micro * 10 = total :=
    ⟨_, rfl⟩
  rw [htotal] at hdotted ⊢
  unfold getVersionNumber
  rw [splitOn_text]
  cases hp : v.patch with
  | none =>
      simp only [Option.map_none, Option.toList_none, List.getElem?_cons_zero,
        List.getElem?_cons_succ, List.getElem?_nil, hdotted, Option.getD_none, Nat.add_zero]
  | some patch =>
      rw [hp, Option.getD_some] at hpatch
      simp only [Option.map_some, Option.toList_some, List.getElem?_cons_zero,
        List.getElem?_cons_succ, hdotted, parseI64_decimal hpatch, Option.getD_some]
      exact wrapI64_of_mem (by omega) (by omega)

/-- A version that leaves room is numbered below every version that comes after it. -/
theorem getVersionNumber_lt {v w : Version} (hv : v.Small) (hw : w.Small) (hroom : v.HasRoom)
    (hbefore : v.Before w) : getVersionNumber v.text < getVersionNumber w.text := by
  rw [getVersionNumber_text hv, getVersionNumber_text hw, Int.ofNat_lt]
  unfold Small at hv
  unfold HasRoom at hroom
  unfold Before at hbefore
  omega

theorem getVersionNumber_lt_sample :
    getVersionNumber (text ⟨1, 1, 10, some 1⟩) < getVersionNumber (text ⟨1, 2, 3, none⟩) :=
  getVersionNumber_lt (by decide) (by decide) (by decide) (by decide)

theorem small_unpatched {major minor micro : Nat} (hmajor : major < 1000) (hminor : minor < 1000)
    (hmicro : micro < 1000) : (⟨major, minor, micro, none⟩ : Version).Small :=
  ⟨hmajor, hminor, hmicro, Nat.succ_pos 999⟩

/-- A version without room has the number of a later one, or a greater number, unless no later
minor version is left. -/
theorem room_needed {v : Version} (hv : v.Small) (hroom : ¬ v.HasRoom)
    (hnext : v.minor < 999 ∨ v.major < 999) :
    ∃ w : Version, w.Small ∧ v.Before w ∧ getVersionNumber w.text ≤ getVersionNumber v.text := by
  obtain ⟨hmajor, hminor, hmicro, -⟩ := id hv
  unfold HasRoom at hroom
  -- the next version without a patch, in the micro, the minor or the major part
  suffices hw : ∃ w : Version, w.Small ∧ v.Before w ∧
      (w.major * 1000 + w.minor) * 1000 + w.micro * 10 + w.patch.getD 0 ≤
        (v.major * 1000 + v.minor) * 1000 + v.micro * 10 + v.patch.getD 0 by
    obtain ⟨w, hw, hbefore, hle⟩ := hw
    refine ⟨w, hw, hbefore, ?_⟩
    rwa [getVersionNumber_text hv, getVersionNumber_text hw, Int.ofNat_le]
  by_cases hpatch : v.micro < 100
  · refine ⟨⟨v.major, v.minor, v.micro + 1, none⟩, small_unpatched hmajor hminor (by omega), ?_, ?_⟩
    · simp [Before]
    · dsimp only [Option.getD_none]
      omega
  · by_cases hlast : v.minor < 999
    · refine ⟨⟨v.major, v.minor + 1, 0, none⟩,
        small_unpatched hmajor (by omega) (by decide), ?_, ?_⟩
      · simp [Before]
      · dsimp only [Option.getD_none]
        omega
    · refine ⟨⟨v.major + 1, 0, 0, none⟩, small_unpatched (by omega) (by decide) (by decide), ?_, ?_⟩
      · simp [Before]
      · dsimp only [Option.getD_none]
        omega

/-- The tenth patch of a version has the number of the next version. -/
theorem tenth_patch_collides :
    ¬ ∀ v w : Version, v.Small → w.Small → v.Before w →
      getVersionNumber v.text < getVersionNumber w.text := by
  intro h
  have hten := h ⟨1, 1, 10, some 10⟩ ⟨1, 1, 11, none⟩ (by decide) (by decide) (by decide)
  revert hten
  decide

end Version

end HbbCommon.Net
