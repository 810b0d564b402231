import Mathlib

/-!
# Machine arithmetic on naturals

Unsigned 64-bit values are naturals. Addition that the program writes with
`saturating_add` is `satAdd`; subtraction that the program writes with `-` on an
unsigned type is `checkedSub`, which has no value where the program would
panic. Flags and wire fields keep their machine types; what their order and their
bits are is said here once.
-/

namespace HbbCommon.Base

/-- The largest unsigned 64-bit value. -/
def u64Max : Nat := 2 ^ 64 - 1

/-- Saturating unsigned 64-bit addition. -/
def satAdd (a b : Nat) : Nat := min (a + b) u64Max

/-- The largest unsigned 32-bit value. -/
def u32Max : Nat := 2 ^ 32 - 1

/-- Saturating unsigned 32-bit addition. -/
def satAdd32 (a b : Nat) : Nat := min (a + b) u32Max

theorem satAdd_of_le {a b : Nat} (h : a + b ≤ u64Max) : satAdd a b = a + b :=
  Nat.min_eq_left h

/-- A saturating sum within a bound below the limit is the exact sum. -/
theorem satAdd_eq_of_le {a b c : Nat} (hc : c < u64Max) (h : satAdd a b ≤ c) :
    satAdd a b = a + b := by
  unfold satAdd at h ⊢
  omega

theorem satAdd_le_add (a b : Nat) : satAdd a b ≤ a + b := Nat.min_le_left _ _

/-- Unsigned subtraction; `none` where it would underflow. -/
def checkedSub (a b : Nat) : Option Nat := if b ≤ a then some (a - b) else none

theorem checkedSub_eq_some {a b : Nat} (h : b ≤ a) : checkedSub a b = some (a - b) :=
  if_pos h

/-! ## Minimum and maximum -/

theorem UInt16.toNat_min (a b : UInt16) : (min a b).toNat = min a.toNat b.toNat := by
  show (if a ≤ b then a else b).toNat = _
  split
  · rename_i h
    exact (Nat.min_eq_left (UInt16.le_iff_toNat_le.mp h)).symm
  · rename_i h
    exact (Nat.min_eq_right (Nat.le_of_not_le (fun h' => h (UInt16.le_iff_toNat_le.mpr h')))).symm

theorem UInt16.toNat_max (a b : UInt16) : (max a b).toNat = max a.toNat b.toNat := by
  show (if a ≤ b then b else a).toNat = _
  split
  · rename_i h
    exact (Nat.max_eq_right (UInt16.le_iff_toNat_le.mp h)).symm
  · rename_i h
    exact (Nat.max_eq_left (Nat.le_of_not_le (fun h' => h (UInt16.le_iff_toNat_le.mpr h')))).symm

theorem UInt32.toNat_min (a b : UInt32) : (min a b).toNat = min a.toNat b.toNat := by
  show (if a ≤ b then a else b).toNat = _
  split
  · rename_i h
    exact (Nat.min_eq_left (UInt32.le_iff_toNat_le.mp h)).symm
  · rename_i h
    exact (Nat.min_eq_right (Nat.le_of_not_le (fun h' => h (UInt32.le_iff_toNat_le.mpr h')))).symm

instance instLinearOrderUInt32 : LinearOrder UInt32 where
  le_refl := UInt32.le_refl
  le_trans _ _ _ := UInt32.le_trans
  lt_iff_le_not_ge a b := by
    simp only [UInt32.lt_iff_toNat_lt, UInt32.le_iff_toNat_le]
    omega
  le_antisymm _ _ := UInt32.le_antisymm
  le_total := UInt32.le_total
  toDecidableLE := inferInstance
  min_def _ _ := rfl
  max_def _ _ := rfl

/-- Lists of bytes are compared byte by byte. -/
theorem lawfulBEq_bytes : LawfulBEq (List UInt8) := inferInstance

/-! ## Bits -/

/-- A bit of a mask is set. -/
def hasBits (flags bits : UInt16) : Bool := flags &&& bits != 0

/-- One bit of a mask is a test of that bit. -/
theorem hasBits_eq_testBit {flags bit : UInt16} {i : Nat} (hbit : bit.toNat = 2 ^ i) :
    hasBits flags bit = flags.toNat.testBit i := by
  have hand : (flags &&& bit).toNat = (flags.toNat.testBit i).toNat * 2 ^ i := by
    rw [UInt16.toNat_and, hbit, Nat.and_two_pow]
  unfold hasBits
  cases hset : flags.toNat.testBit i with
  | false =>
      rw [hset, Bool.toNat_false, Nat.zero_mul] at hand
      rw [show flags &&& bit = 0 from UInt16.toNat_inj.mp hand]
      rfl
  | true =>
      rw [hset, Bool.toNat_true, Nat.one_mul] at hand
      rw [bne_iff_ne]
      intro hzero
      rw [hzero] at hand
      exact (Nat.pow_pos (a := 2) (n := i) (by decide)).ne hand

theorem hasBits_and {flags flags' bit : UInt16} {i : Nat} (hbit : bit.toNat = 2 ^ i) :
    hasBits (flags &&& flags') bit = (hasBits flags bit && hasBits flags' bit) := by
  rw [hasBits_eq_testBit hbit, hasBits_eq_testBit hbit, hasBits_eq_testBit hbit,
    UInt16.toNat_and, Nat.testBit_and]

theorem hasBits_or {flags flags' bit : UInt16} {i : Nat} (hbit : bit.toNat = 2 ^ i) :
    hasBits (flags ||| flags') bit = (hasBits flags bit || hasBits flags' bit) := by
  rw [hasBits_eq_testBit hbit, hasBits_eq_testBit hbit, hasBits_eq_testBit hbit,
    UInt16.toNat_or, Nat.testBit_or]

theorem hasBits_not {flags bit : UInt16} {i : Nat} (hbit : bit.toNat = 2 ^ i) :
    hasBits (~~~flags) bit = !hasBits flags bit := by
  have hi : i < 16 := by
    have hlt := bit.toNat_lt
    rw [hbit] at hlt
    exact (Nat.pow_lt_pow_iff_right (by decide)).mp hlt
  rw [hasBits_eq_testBit hbit, hasBits_eq_testBit hbit]
  show (~~~flags.toBitVec).getLsbD i = !flags.toBitVec.getLsbD i
  rw [BitVec.getLsbD_not, decide_eq_true hi, Bool.true_and]

end HbbCommon.Base
