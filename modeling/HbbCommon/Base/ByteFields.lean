import HbbCommon.Base.Wire

/-!
# Arrays and text in byte strings

`FixedBytes n` is an array of `n` bytes; a read at an offset has no value when it reaches
past the end. Text is written as its UTF-8 bytes, and bytes are text when they are valid
UTF-8.
-/

namespace HbbCommon.Base

/-! ## Arrays -/

/-- `[u8; n]`. -/
def FixedBytes (n : Nat) := { bytes : List UInt8 // bytes.length = n }

namespace FixedBytes

variable {n : Nat}

instance : DecidableEq (FixedBytes n) := inferInstanceAs (DecidableEq { _bytes : List UInt8 // _ })

instance : Repr (FixedBytes n) := ⟨fun a i => reprPrec a.val i⟩

/-- `[byte; n]`. -/
def replicate (n : Nat) (byte : UInt8) : FixedBytes n := ⟨List.replicate n byte, by simp⟩

def isZero (a : FixedBytes n) : Bool := a.val.all (fun byte => byte == 0)

/-- Arrays in the order of their bytes. -/
instance : LinearOrder (FixedBytes n) :=
  LinearOrder.lift' (fun a => a.val.map UInt8.toNat) (fun _ _ h =>
    Subtype.ext (List.map_injective_iff.mpr (fun _ _ => UInt8.toNat_inj.mp) h))

end FixedBytes

/-- The array of `n` bytes at `offset`. -/
def readFixed (n : Nat) (bytes : List UInt8) (offset : Nat) : Option (FixedBytes n) :=
  match h : slice bytes offset n with
  | some field => some ⟨field, length_of_slice h⟩
  | none => none

theorem readFixed_eq_some_iff {n offset : Nat} {bytes : List UInt8} {a : FixedBytes n} :
    readFixed n bytes offset = some a ↔ slice bytes offset n = some a.val := by
  unfold readFixed
  constructor
  · intro h
    split at h
    · rename_i field hfield
      cases h
      exact hfield
    · cases h
  · intro h
    split
    · rename_i field hfield
      rw [h] at hfield
      cases hfield
      rfl
    · rename_i hnone
      rw [h] at hnone
      cases hnone

theorem readFixed_isSome {n offset : Nat} {bytes : List UInt8}
    (h : offset + n ≤ bytes.length) : (readFixed n bytes offset).isSome = true := by
  obtain ⟨field, hfield⟩ := Option.isSome_iff_exists.mp (slice_isSome h)
  have hread : readFixed n bytes offset = some ⟨field, length_of_slice hfield⟩ :=
    readFixed_eq_some_iff.mpr hfield
  rw [hread]
  rfl

/-- A record of `n` bytes in front of a tail. -/
theorem fieldsAt_and_drop_iff {fields : List (List UInt8)} {n : Nat} {bytes tail : List UInt8}
    (hlength : fields.flatten.length = n) :
    FieldsAt bytes 0 fields ∧ bytes.drop n = tail ↔ bytes = fields.flatten ++ tail := by
  constructor
  · rintro ⟨hfields, rfl⟩
    obtain ⟨rest, hrest⟩ := hfields.isPrefix (Nat.zero_le _)
    rw [List.drop_zero] at hrest
    rw [← hrest, List.drop_left' hlength]
  · rintro rfl
    exact ⟨fieldsAt_append [] tail fields, List.drop_left' hlength⟩

/-- Two records whose first fields have one length differ where a field differs. -/
theorem FixedBytes.append_inj {n : Nat} {a b : FixedBytes n} {rest rest' : List UInt8}
    (h : a.val ++ rest = b.val ++ rest') : a = b ∧ rest = rest' := by
  obtain ⟨hfield, hrest⟩ := List.append_inj h (a.property.trans b.property.symm)
  exact ⟨Subtype.ext hfield, hrest⟩

/-! ## Text -/

/-- `as_bytes`. -/
def utf8Bytes (text : String) : List UInt8 := text.toByteArray.data.toList

/-- `from_utf8`. -/
def fromUtf8 (bytes : List UInt8) : Option String := String.fromUTF8? ⟨bytes.toArray⟩

@[simp] theorem length_utf8Bytes (text : String) : (utf8Bytes text).length = text.utf8ByteSize :=
  rfl

theorem utf8Bytes_append (a b : String) : utf8Bytes (a ++ b) = utf8Bytes a ++ utf8Bytes b := by
  simp [utf8Bytes]

/-- Valid bytes are the bytes of the text they are read as. -/
theorem fromUtf8_eq_some_iff {bytes : List UInt8} {text : String} :
    fromUtf8 bytes = some text ↔ bytes = utf8Bytes text := by
  unfold fromUtf8 String.fromUTF8? utf8Bytes
  constructor
  · intro h
    split at h
    · cases h
      rfl
    · cases h
  · rintro rfl
    have hvalid : (⟨text.toByteArray.data.toList.toArray⟩ : ByteArray).IsValidUTF8 :=
      text.isValidUTF8
    rw [dif_pos hvalid]
    rfl

/-- `from_utf8(bytes).map_err(|_| error)`. -/
def parseText {ε : Type} (bytes : List UInt8) (error : ε) : Except ε String :=
  match fromUtf8 bytes with
  | some text => .ok text
  | none => .error error

theorem parseText_eq_ok_iff {ε : Type} {bytes : List UInt8} {error : ε} {text : String} :
    parseText bytes error = .ok text ↔ bytes = utf8Bytes text := by
  rw [← fromUtf8_eq_some_iff]
  unfold parseText
  cases fromUtf8 bytes <;> simp

end HbbCommon.Base
