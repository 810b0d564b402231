import HbbCommon.Base.ByteFields

/-!
# Text from bytes that need not be valid

`from_utf8_lossy` puts U+FFFD for every longest run of bytes that starts a character and does
not end it, and for every byte that starts none.
-/

namespace HbbCommon.Base

/-- How many bytes a character with this first byte has; none starts with others. -/
def utf8CharWidth (b : UInt8) : Nat :=
  if b < 0x80 then 1
  else if 0xC2 ≤ b ∧ b ≤ 0xDF then 2
  else if 0xE0 ≤ b ∧ b ≤ 0xEF then 3
  else if 0xF0 ≤ b ∧ b ≤ 0xF4 then 4
  else 0

/-- The bytes that may be second: no overlong character, no surrogate, none above U+10FFFF. -/
def isUtf8Second (b c : UInt8) : Bool :=
  if b = 0xE0 then 0xA0 ≤ c && c ≤ 0xBF
  else if b = 0xED then 0x80 ≤ c && c ≤ 0x9F
  else if b = 0xF0 then 0x90 ≤ c && c ≤ 0xBF
  else if b = 0xF4 then 0x80 ≤ c && c ≤ 0x8F
  else 0x80 ≤ c && c ≤ 0xBF

/-- How many of the bytes behind `b` belong to its character. -/
def utf8Continuation (b : UInt8) (rest : List UInt8) : Nat :=
  match rest with
  | [] => 0
  | c :: more =>
      if 2 ≤ utf8CharWidth b ∧ isUtf8Second b c = true then
        1 + ((more.take (utf8CharWidth b - 2)).takeWhile (fun c => 0x80 ≤ c && c ≤ 0xBF)).length
      else 0

def lossyChars : List UInt8 → List Char
  | [] => []
  | b :: rest =>
      let n := utf8Continuation b rest
      let text := if n + 1 = utf8CharWidth b then fromUtf8 (b :: rest.take n) else none
      (text.map String.toList).getD ['\uFFFD'] ++ lossyChars (rest.drop n)
termination_by bytes => bytes.length
decreasing_by
  rw [List.length_drop, List.length_cons]
  omega

/-- `from_utf8_lossy`. -/
def fromUtf8Lossy (bytes : List UInt8) : String :=
  match fromUtf8 bytes with
  | some text => text
  | none => .ofList (lossyChars bytes)

@[simp] theorem fromUtf8Lossy_utf8Bytes (text : String) : fromUtf8Lossy (utf8Bytes text) = text := by
  unfold fromUtf8Lossy
  rw [fromUtf8_eq_some_iff.mpr rfl]

end HbbCommon.Base
