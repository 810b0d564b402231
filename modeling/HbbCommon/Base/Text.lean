import Mathlib

/-!
# Text as characters

Texts that a program takes apart at single characters are lists of characters here.
`decimal n` prints a number and `parseInt` reads one the way the integer types of the
program do: an optional sign, at least one decimal digit, and a value in range.
-/

namespace HbbCommon.Base

abbrev Text := List Char

/-- `char::is_control`. -/
def isControl (c : Char) : Bool := c.toNat < 32 || (127 ≤ c.toNat && c.toNat < 160)

/-! ## Numbers -/

/-- `format!("{n}")`. -/
def decimal (n : Nat) : Text := Nat.toDigits 10 n

/-- The printed form of a signed number. -/
def decimalInt (n : Int) : Text := if n < 0 then '-' :: decimal n.natAbs else decimal n.toNat

/-- At least one digit, and nothing but digits. -/
def parseDigits (s : Text) : Option Nat :=
  if s ≠ [] ∧ s.all Char.isDigit = true then some (Nat.ofDigitChars 10 s 0) else none

/-- A sign and the digits behind it. -/
def parseSigned : Text → Option Int
  | '-' :: s => (parseDigits s).map (fun n => -(n : Int))
  | '+' :: s => (parseDigits s).map (fun n => (n : Int))
  | s => (parseDigits s).map (fun n => (n : Int))

/-- `parse` of an integer type with the values from `lo` to `hi`. -/
def parseInt (lo hi : Int) (s : Text) : Option Int :=
  (parseSigned s).filter (fun n => decide (lo ≤ n ∧ n ≤ hi))

/-- `parse::<i32>`. -/
def parseI32 : Text → Option Int := parseInt (-2 ^ 31) (2 ^ 31 - 1)

/-- `parse::<i64>`. -/
def parseI64 : Text → Option Int := parseInt (-2 ^ 63) (2 ^ 63 - 1)

/-- `parse::<u16>`: no minus sign. -/
def parseU16 (s : Text) : Option Nat :=
  if s.head? = some '-' then none else (parseInt 0 (2 ^ 16 - 1) s).map Int.toNat

theorem isDigit_of_mem_decimal {n : Nat} {c : Char} (h : c ∈ decimal n) : c.isDigit = true :=
  Nat.isDigit_of_mem_toDigits (by decide) (by decide) h

@[simp] theorem decimal_ne_nil (n : Nat) : decimal n ≠ [] := Nat.toDigits_ne_nil

theorem decimal_length_le_iff {n k : Nat} (hk : 0 < k) : (decimal n).length ≤ k ↔ n < 10 ^ k :=
  Nat.length_toDigits_le_iff (by decide) hk

/-- A character that is not a digit is in no printed number. -/
theorem not_mem_decimal {c : Char} (hc : c.isDigit = false) (n : Nat) : c ∉ decimal n := by
  intro h
  rw [isDigit_of_mem_decimal h] at hc
  cases hc

theorem parseDigits_decimal (n : Nat) : parseDigits (decimal n) = some n := by
  unfold parseDigits
  rw [if_pos ⟨decimal_ne_nil n, List.all_eq_true.mpr (fun _ => isDigit_of_mem_decimal)⟩]
  exact congrArg some Nat.ofDigitChars_ten_toDigits

theorem decimal_injective : Function.Injective decimal := by
  intro m n h
  have hparse := congrArg parseDigits h
  rw [parseDigits_decimal, parseDigits_decimal] at hparse
  exact Option.some.inj hparse

theorem parseSigned_decimal (n : Nat) : parseSigned (decimal n) = some (n : Int) := by
  have hminus := not_mem_decimal (show '-'.isDigit = false by decide) n
  have hplus := not_mem_decimal (show '+'.isDigit = false by decide) n
  have hparse := parseDigits_decimal n
  unfold parseSigned
  split
  · rename_i s heq
    rw [heq] at hminus
    simp at hminus
  · rename_i s heq
    rw [heq] at hplus
    simp at hplus
  · rw [hparse]
    rfl

/-- A printed number is read back by every type that holds it. -/
theorem parseInt_decimal {lo hi : Int} {n : Nat} (hlo : lo ≤ n) (hhi : (n : Int) ≤ hi) :
    parseInt lo hi (decimal n) = some (n : Int) := by
  unfold parseInt
  rw [parseSigned_decimal]
  exact if_pos (decide_eq_true ⟨hlo, hhi⟩)

theorem parseU16_decimal {n : Nat} (h : n < 2 ^ 16) : parseU16 (decimal n) = some n := by
  have hhead : (decimal n).head? ≠ some '-' := by
    intro hminus
    exact not_mem_decimal (show '-'.isDigit = false by decide) n (List.mem_of_mem_head? hminus)
  unfold parseU16
  rw [if_neg hhead, parseInt_decimal (by omega) (by omega)]
  rfl

theorem decimalInt_natCast (n : Nat) : decimalInt n = decimal n := by
  unfold decimalInt
  rw [if_neg (by omega)]
  rfl

/-! ## Joined texts -/

/-- What holds of the separator and of every character of the parts holds of the whole. -/
theorem mem_intercalate {P : Char → Prop} {sep : Char} (hsep : P sep) {parts : List Text}
    (h : ∀ part ∈ parts, ∀ c ∈ part, P c) : ∀ c ∈ [sep].intercalate parts, P c := by
  induction parts with
  | nil =>
      intro c hc
      cases hc
  | cons part parts ih =>
      have hrest := ih (fun part hmem => h part (List.mem_cons_of_mem _ hmem))
      cases parts with
      | nil =>
          rw [List.intercalate_singleton]
          exact h part List.mem_cons_self
      | cons part' parts =>
          rw [List.intercalate_cons_cons]
          intro c hc
          rcases List.mem_append.mp hc with hc | hc
          · rcases List.mem_append.mp hc with hc | hc
            · exact h part List.mem_cons_self c hc
            · rw [List.mem_singleton.mp hc]
              exact hsep
          · exact hrest c hc

/-! ## Signed machine arithmetic -/

/-- The value of a signed 32-bit operation, which wraps around. -/
def wrapI32 (n : Int) : Int := Int.bmod n (2 ^ 32)

/-- The value of a signed 64-bit operation, which wraps around. -/
def wrapI64 (n : Int) : Int := Int.bmod n (2 ^ 64)

theorem wrapI32_of_mem {n : Int} (hlo : -2 ^ 31 ≤ n) (hhi : n < 2 ^ 31) : wrapI32 n = n := by
  unfold wrapI32
  refine Int.bmod_eq_of_le ?_ ?_ <;> omega

theorem wrapI64_of_mem {n : Int} (hlo : -2 ^ 63 ≤ n) (hhi : n < 2 ^ 63) : wrapI64 n = n := by
  unfold wrapI64
  refine Int.bmod_eq_of_le ?_ ?_ <;> omega

end HbbCommon.Base
