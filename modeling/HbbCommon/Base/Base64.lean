import Mathlib

/-!
# Base64

The standard alphabet with padding: three bytes are four digits of six bits. `decode` takes
only what `encode` gives.
-/

namespace HbbCommon.Base.Base64

def alphabet : List Char :=
  "ABCDEFGHIJKLMNOPQRSTUVWXYZabcdefghijklmnopqrstuvwxyz0123456789+/".toList

/-- The character of a digit below 64. -/
def digit (n : Nat) : Char := alphabet.getD n '='

def value (c : Char) : Option Nat := alphabet.idxOf? c

theorem value_digit {n : Nat} (h : n < 64) : value (digit n) = some n := by
  have hall : ∀ i : Fin 64, value (digit i) = some i.val := by decide +kernel
  exact hall ⟨n, h⟩

theorem digit_ne_pad {n : Nat} (h : n < 64) : digit n ≠ '=' := by
  have hall : ∀ i : Fin 64, digit i ≠ '=' := by decide +kernel
  exact hall ⟨n, h⟩

def encode : List UInt8 → List Char
  | [] => []
  | [a] => [digit (a.toNat / 4), digit (a.toNat % 4 * 16), '=', '=']
  | [a, b] =>
      [digit (a.toNat / 4), digit (a.toNat % 4 * 16 + b.toNat / 16), digit (b.toNat % 16 * 4), '=']
  | a :: b :: c :: rest =>
      digit (a.toNat / 4) :: digit (a.toNat % 4 * 16 + b.toNat / 16) ::
        digit (b.toNat % 16 * 4 + c.toNat / 64) :: digit (c.toNat % 64) :: encode rest

/-- The byte of a digit and the first bits of the next. -/
def firstByte (p q : Nat) : UInt8 := UInt8.ofNat (p * 4 + q / 16)

def secondByte (q r : Nat) : UInt8 := UInt8.ofNat (q % 16 * 16 + r / 4)

def thirdByte (r s : Nat) : UInt8 := UInt8.ofNat (r % 4 * 64 + s)

/-- The one or two bytes of the last four characters, of which the last is the padding. The bits
that belong to no byte are zero. -/
def decodeLast (x y z : Char) : Option (List UInt8) := do
  let p ← value x
  let q ← value y
  if z = '=' then
    if q % 16 = 0 then return [firstByte p q] else none
  else
    let r ← value z
    if r % 4 = 0 then return [firstByte p q, secondByte q r] else none

def decode : List Char → Option (List UInt8)
  | [] => some []
  | x :: y :: z :: w :: rest =>
      if w = '=' then if rest = [] then decodeLast x y z else none
      else do
        let p ← value x
        let q ← value y
        let r ← value z
        let s ← value w
        let tail ← decode rest
        return firstByte p q :: secondByte q r :: thirdByte r s :: tail
  | _ => none

theorem firstByte_digits (a : UInt8) {low : Nat} (hlow : low < 16) :
    firstByte (a.toNat / 4) (a.toNat % 4 * 16 + low) = a := by
  have hbyte : a.toNat / 4 * 4 + (a.toNat % 4 * 16 + low) / 16 = a.toNat := by omega
  rw [firstByte, hbyte, UInt8.ofNat_toNat]

theorem secondByte_digits (a b : UInt8) {low : Nat} (hlow : low < 4) :
    secondByte (a.toNat % 4 * 16 + b.toNat / 16) (b.toNat % 16 * 4 + low) = b := by
  have hb := b.toNat_lt
  have hbyte : (a.toNat % 4 * 16 + b.toNat / 16) % 16 * 16 + (b.toNat % 16 * 4 + low) / 4 =
      b.toNat := by omega
  rw [secondByte, hbyte, UInt8.ofNat_toNat]

theorem thirdByte_digits (b c : UInt8) :
    thirdByte (b.toNat % 16 * 4 + c.toNat / 64) (c.toNat % 64) = c := by
  have hc := c.toNat_lt
  have hbyte : (b.toNat % 16 * 4 + c.toNat / 64) % 4 * 64 + c.toNat % 64 = c.toNat := by omega
  rw [thirdByte, hbyte, UInt8.ofNat_toNat]

theorem decode_of_encode (bytes : List UInt8) : decode (encode bytes) = some bytes := by
  induction bytes using encode.induct with
  | case1 => rfl
  | case2 a =>
      have ha := a.toNat_lt
      have hfirst := value_digit (show a.toNat / 4 < 64 by omega)
      have hsecond := value_digit (show a.toNat % 4 * 16 < 64 by omega)
      have hbyte := firstByte_digits a (show 0 < 16 by decide)
      rw [Nat.add_zero] at hbyte
      simp [encode, decode, decodeLast, hfirst, hsecond, hbyte]
  | case3 a b =>
      have ha := a.toNat_lt
      have hb := b.toNat_lt
      have hfirst := value_digit (show a.toNat / 4 < 64 by omega)
      have hsecond := value_digit (show a.toNat % 4 * 16 + b.toNat / 16 < 64 by omega)
      have hthird := value_digit (show b.toNat % 16 * 4 < 64 by omega)
      have hpad := digit_ne_pad (show b.toNat % 16 * 4 < 64 by omega)
      have hbyte := firstByte_digits a (show b.toNat / 16 < 16 by omega)
      have hnext := secondByte_digits a b (show 0 < 4 by decide)
      rw [Nat.add_zero] at hnext
      simp [encode, decode, decodeLast, hfirst, hsecond, hthird, hpad, hbyte, hnext]
  | case4 a b c rest ih =>
      have ha := a.toNat_lt
      have hb := b.toNat_lt
      have hc := c.toNat_lt
      have hfirst := value_digit (show a.toNat / 4 < 64 by omega)
      have hsecond := value_digit (show a.toNat % 4 * 16 + b.toNat / 16 < 64 by omega)
      have hthird := value_digit (show b.toNat % 16 * 4 + c.toNat / 64 < 64 by omega)
      have hfourth := value_digit (show c.toNat % 64 < 64 by omega)
      have hpad := digit_ne_pad (show c.toNat % 64 < 64 by omega)
      have hbyte := firstByte_digits a (show b.toNat / 16 < 16 by omega)
      have hnext := secondByte_digits a b (show c.toNat / 64 < 4 by omega)
      have hlast := thirdByte_digits b c
      simp [encode, decode, ih, hfirst, hsecond, hthird, hfourth, hpad, hbyte, hnext, hlast]

/-! ## The shape of the text -/

theorem digit_mem_alphabet {n : Nat} (h : n < 64) : digit n ∈ alphabet := by
  have hall : ∀ i : Fin 64, digit i ∈ alphabet := by decide +kernel
  exact hall ⟨n, h⟩

theorem eq_of_digit_eq_slash {n : Nat} (h : n < 64) (hdigit : digit n = '/') : n = 63 := by
  have hall : ∀ i : Fin 64, digit i = '/' → i.val = 63 := by decide +kernel
  exact hall ⟨n, h⟩ hdigit

theorem mem_encode {bytes : List UInt8} : ∀ c ∈ encode bytes, c ∈ alphabet ∨ c = '=' := by
  induction bytes using encode.induct with
  | case1 => simp [encode]
  | case2 a =>
      have ha := a.toNat_lt
      have hfirst := digit_mem_alphabet (show a.toNat / 4 < 64 by omega)
      have hsecond := digit_mem_alphabet (show a.toNat % 4 * 16 < 64 by omega)
      simp [encode, hfirst, hsecond]
  | case3 a b =>
      have ha := a.toNat_lt
      have hb := b.toNat_lt
      have hfirst := digit_mem_alphabet (show a.toNat / 4 < 64 by omega)
      have hsecond := digit_mem_alphabet (show a.toNat % 4 * 16 + b.toNat / 16 < 64 by omega)
      have hthird := digit_mem_alphabet (show b.toNat % 16 * 4 < 64 by omega)
      simp [encode, hfirst, hsecond, hthird]
  | case4 a b c rest ih =>
      have ha := a.toNat_lt
      have hb := b.toNat_lt
      have hc := c.toNat_lt
      have hfirst := digit_mem_alphabet (show a.toNat / 4 < 64 by omega)
      have hsecond := digit_mem_alphabet (show a.toNat % 4 * 16 + b.toNat / 16 < 64 by omega)
      have hthird := digit_mem_alphabet (show b.toNat % 16 * 4 + c.toNat / 64 < 64 by omega)
      have hfourth := digit_mem_alphabet (show c.toNat % 64 < 64 by omega)
      intro d hd
      simp only [encode, List.mem_cons] at hd
      rcases hd with rfl | rfl | rfl | rfl | hd
      · exact .inl hfirst
      · exact .inl hsecond
      · exact .inl hthird
      · exact .inl hfourth
      · exact ih d hd

theorem length_encode_mod (bytes : List UInt8) : (encode bytes).length % 4 = 0 := by
  induction bytes using encode.induct with
  | case1 => simp [encode]
  | case2 a => simp [encode]
  | case3 a b => simp [encode]
  | case4 a b c rest ih =>
      rw [encode]
      simp only [List.length_cons]
      omega

/-- Two slashes at the end stand for a byte 255. -/
theorem mem_of_encode_slashes {bytes : List UInt8} {front : List Char}
    (h : encode bytes = front ++ ['/', '/']) : 255 ∈ bytes := by
  induction bytes using encode.induct generalizing front with
  | case1 => simp [encode] at h
  | case2 a =>
      have hlast := congrArg List.getLast? h
      rw [encode, List.getLast?_append] at hlast
      simp at hlast
  | case3 a b =>
      have hlast := congrArg List.getLast? h
      rw [encode, List.getLast?_append] at hlast
      simp at hlast
  | case4 a b c rest ih =>
      rw [encode] at h
      cases hrest : encode rest with
      | nil =>
          -- the two last digits are those of the third byte
          rw [hrest] at h
          have hfront : front.length = 2 := by
            have := congrArg List.length h
            simp at this
            omega
          obtain ⟨x, y, rfl⟩ := List.length_eq_two.mp hfront
          simp only [List.cons_append, List.nil_append, List.cons.injEq, and_true] at h
          have hb := b.toNat_lt
          have hc := c.toNat_lt
          have hthird := eq_of_digit_eq_slash (by omega) h.2.2.1
          have hfourth := eq_of_digit_eq_slash (by omega) h.2.2.2
          have h255 : c = 255 := by
            rw [← UInt8.toNat_inj]
            show c.toNat = 255
            omega
          simp [h255]
      | cons w more =>
          have hmod := length_encode_mod rest
          rw [hrest, List.length_cons] at hmod
          have hlength : 4 ≤ front.length := by
            have := congrArg List.length h
            rw [hrest] at this
            simp only [List.length_cons, List.length_append, List.length_nil] at this
            omega
          obtain ⟨x, y, z, u, front', rfl⟩ : ∃ x y z u front', front = x :: y :: z :: u :: front' := by
            match front, hlength with
            | x :: y :: z :: u :: front', _ => exact ⟨x, y, z, u, front', rfl⟩
          simp only [List.cons_append, List.cons.injEq] at h
          exact List.mem_cons_of_mem _ (List.mem_cons_of_mem _ (List.mem_cons_of_mem _
            (ih h.2.2.2.2)))

theorem length_of_decodeLast {x y z : Char} {bytes : List UInt8}
    (h : decodeLast x y z = some bytes) : bytes.length ≤ 2 := by
  unfold decodeLast at h
  obtain ⟨p, -, h⟩ := Option.bind_eq_some_iff.mp h
  obtain ⟨q, -, h⟩ := Option.bind_eq_some_iff.mp h
  split at h
  · split at h
    · cases h
      exact Nat.le_succ 1
    · cases h
  · obtain ⟨r, -, h⟩ := Option.bind_eq_some_iff.mp h
    split at h
    · cases h
      exact Nat.le_refl 2
    · cases h

/-- What is decoded comes in groups of four. -/
theorem length_of_decode {chars : List Char} {bytes : List UInt8} (h : decode chars = some bytes) :
    chars.length % 4 = 0 ∧ bytes.length ≤ chars.length := by
  fun_induction decode chars generalizing bytes with
  | case1 =>
      cases h
      exact ⟨rfl, Nat.le_refl 0⟩
  | case2 x y z =>
      have hlength := length_of_decodeLast h
      exact ⟨by simp, hlength.trans (by simp)⟩
  | case3 => cases h
  | case4 x y z w rest hpad ih =>
      obtain ⟨p, -, h⟩ := Option.bind_eq_some_iff.mp h
      obtain ⟨q, -, h⟩ := Option.bind_eq_some_iff.mp h
      obtain ⟨r, -, h⟩ := Option.bind_eq_some_iff.mp h
      obtain ⟨s, -, h⟩ := Option.bind_eq_some_iff.mp h
      obtain ⟨tail, htail, h⟩ := Option.bind_eq_some_iff.mp h
      cases h
      obtain ⟨hmod, hlength⟩ := ih htail
      simp only [List.length_cons]
      omega
  | case5 => cases h

end HbbCommon.Base.Base64
