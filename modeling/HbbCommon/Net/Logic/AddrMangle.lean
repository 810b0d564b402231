import HbbCommon.Net.AddrMangle

/-!
# What the mangled number holds

The number of `encode` is three fields that do not overlap: the address plus the clock
from bit 49 on, the clock in the bits 17 to 48, and the port plus the low half of the
clock below bit 17. `decode` masks 24 bits for the port and so picks up seven bits of
the clock; these lie above the 16 bits that the cast to a port keeps.

A string that is not from `encode` may hold fields of which neither difference exists;
`Untangled` says which strings `decode` has an address for.
-/

namespace HbbCommon.Net.AddrMangle

open HbbCommon.Base

/-! ## The fields of the number -/

theorem clockBits_lt (now : Option Nat) : clockBits now < 2 ^ 32 :=
  Nat.mod_lt _ (by decide)

theorem and_low (n k : Nat) : n &&& (2 ^ k - 1) = n % 2 ^ k := Nat.and_two_pow_sub_one_eq_mod n k

/-- The three fields side by side. -/
theorem mangled_eq {ip tm port : Nat} (htm : tm < 2 ^ 32) (hport : port < 2 ^ 16) :
    mangled ip tm port = ((ip + tm) * 2 ^ 32 + tm) * 2 ^ 17 + (port + tm % 2 ^ 16) := by
  have hlow : tm &&& 0xFFFF = tm % 2 ^ 16 := and_low tm 16
  have hclock : tm <<< 17 < 2 ^ 49 := by
    rw [Nat.shiftLeft_eq]
    omega
  have hupper : (ip + tm) <<< 49 ||| tm <<< 17 = ((ip + tm) * 2 ^ 32 + tm) <<< 17 := by
    rw [← Nat.shiftLeft_add_eq_or_of_lt hclock, Nat.shiftLeft_eq, Nat.shiftLeft_eq,
      Nat.shiftLeft_eq]
    omega
  have hfield : port + tm % 2 ^ 16 < 2 ^ 17 := by omega
  unfold mangled
  rw [hlow, hupper, ← Nat.shiftLeft_add_eq_or_of_lt hfield, Nat.shiftLeft_eq]

/-- The number fits: the sum of the address and the clock has 33 bits. -/
theorem mangled_lt {ip tm port : Nat} (hip : ip < 2 ^ 32) (htm : tm < 2 ^ 32)
    (hport : port < 2 ^ 16) : mangled ip tm port < 256 ^ 16 := by
  rw [mangled_eq htm hport]
  omega

/-! ## Stripping and padding -/

/-- The bytes that `encode` strips are zero. -/
theorem drop_nPadding (bytes : List UInt8) :
    bytes.drop (bytes.length - nPadding bytes) = List.replicate (nPadding bytes) 0 := by
  have hzeros : bytes.reverse.takeWhile (· == 0) = List.replicate (nPadding bytes) 0 := by
    refine List.eq_replicate_iff.mpr ⟨rfl, ?_⟩
    intro b hb
    simpa using List.mem_takeWhile_imp hb
  have htake : bytes.reverse.take (nPadding bytes) = bytes.reverse.takeWhile (· == 0) :=
    (List.prefix_iff_eq_take.mp (List.takeWhile_prefix _)).symm
  have hreverse := congrArg List.reverse (htake.trans hzeros)
  rwa [List.take_reverse, List.reverse_reverse, List.reverse_replicate] at hreverse

theorem nPadding_le (bytes : List UInt8) : nPadding bytes ≤ bytes.length := by
  have hle := (List.takeWhile_prefix (l := bytes.reverse) (· == 0)).length_le
  rwa [List.length_reverse] at hle

/-- Padding gives back what was stripped, whatever number of zero bytes that was. -/
theorem copyFromSlice_stripped {bytes : List UInt8} (hlength : bytes.length = 16) :
    copyFromSlice (List.replicate 16 0) (bytes.take (16 - nPadding bytes)) = some bytes := by
  have hle := nPadding_le bytes
  have htake : (bytes.take (16 - nPadding bytes)).length = 16 - nPadding bytes := by
    rw [List.length_take]
    omega
  have hzeros := drop_nPadding bytes
  rw [hlength] at hle hzeros
  have hpad : (List.replicate 16 (0 : UInt8)).drop (16 - nPadding bytes) =
      bytes.drop (16 - nPadding bytes) := by
    rw [List.drop_replicate, hzeros, Nat.sub_sub_self hle]
  unfold copyFromSlice
  rw [if_pos (by rw [htake, List.length_replicate]; omega), htake, hpad, List.take_append_drop]

/-- Padding does not change the number of the bytes. -/
theorem ofLeBytes_append_zeros (bytes : List UInt8) (n : Nat) :
    ofLeBytes (bytes ++ List.replicate n 0) = ofLeBytes bytes := by
  induction bytes with
  | nil =>
      induction n with
      | zero => rfl
      | succ n ih =>
          show 0 + 256 * ofLeBytes ([] ++ List.replicate n 0) = 0
          rw [ih]
          rfl
  | cons b bytes ih =>
      show b.toNat + 256 * ofLeBytes (bytes ++ List.replicate n 0) = _
      rw [ih]
      rfl

/-! ## The round trip -/

/-- An address and a port as `decode` gives them. -/
def plain (addr : SocketAddr) : SocketAddr := .new addr.ip addr.port

theorem toLeBytes_ofLeBytes (bytes : List UInt8) :
    toLeBytes bytes.length (ofLeBytes bytes) = bytes := by
  induction bytes with
  | nil => rfl
  | cons b bytes ih =>
      have hb : b.toNat < 256 := b.toNat_lt
      have hhead : UInt8.ofNat (b.toNat + 256 * ofLeBytes bytes) = b := by
        apply UInt8.toNat_inj.mp
        rw [UInt8.toNat_ofNat']
        omega
      have htail : (b.toNat + 256 * ofLeBytes bytes) / 256 = ofLeBytes bytes := by omega
      show UInt8.ofNat (b.toNat + 256 * ofLeBytes bytes) ::
          toLeBytes bytes.length ((b.toNat + 256 * ofLeBytes bytes) / 256) = _
      rw [hhead, htail, ih]

theorem ofLeBytes_lt (bytes : List UInt8) : ofLeBytes bytes < 256 ^ bytes.length := by
  induction bytes with
  | nil => simp [ofLeBytes]
  | cons b bytes ih =>
      have hb : b.toNat < 256 := b.toNat_lt
      show b.toNat + 256 * ofLeBytes bytes < 256 ^ (bytes.length + 1)
      rw [pow_succ]
      omega

/-- The clock is read back from the bits 17 to 48. -/
theorem clock_of_mangled {ip tm port : Nat} (htm : tm < 2 ^ 32) (hport : port < 2 ^ 16) :
    mangled ip tm port >>> 17 &&& u32Max = tm := by
  have hmask : ∀ n : Nat, n &&& u32Max = n % 2 ^ 32 := fun n => and_low n 32
  have hlow : port + tm % 2 ^ 16 < 2 ^ 17 := by omega
  have hupper : mangled ip tm port / 2 ^ 17 = (ip + tm) * 2 ^ 32 + tm := by
    rw [mangled_eq htm hport, Nat.add_comm, Nat.add_mul_div_right _ _ (by decide),
      Nat.div_eq_of_lt hlow, Nat.zero_add]
  rw [hmask, Nat.shiftRight_eq_div_pow, hupper, Nat.add_comm, Nat.add_mul_mod_self_right,
    Nat.mod_eq_of_lt htm]

/-- The difference that gives the address. -/
theorem ip_of_mangled {ip tm port : Nat} (htm : tm < 2 ^ 32) (hport : port < 2 ^ 16) :
    checkedSub (mangled ip tm port >>> 49) tm = some ip := by
  have hfield : mangled ip tm port >>> 49 = ip + tm := by
    rw [mangled_eq htm hport, Nat.shiftRight_eq_div_pow]
    omega
  rw [hfield, checkedSub_eq_some (Nat.le_add_left _ _), Nat.add_sub_cancel]

/-- The difference that gives the port: seven bits of the clock stand above it. -/
theorem port_of_mangled {ip tm port : Nat} (htm : tm < 2 ^ 32) (hport : port < 2 ^ 16) :
    checkedSub (mangled ip tm port &&& 0xFFFFFF) (tm &&& 0xFFFF) =
      some (port + tm % 2 ^ 7 * 2 ^ 17) := by
  have hmask : mangled ip tm port &&& 0xFFFFFF = mangled ip tm port % 2 ^ 24 := and_low _ 24
  have hlow : tm &&& 0xFFFF = tm % 2 ^ 16 := and_low tm 16
  have hfield : mangled ip tm port % 2 ^ 24 = port + tm % 2 ^ 7 * 2 ^ 17 + tm % 2 ^ 16 := by
    rw [mangled_eq htm hport]
    omega
  rw [hmask, hlow, hfield, checkedSub_eq_some (Nat.le_add_left _ _), Nat.add_sub_cancel]

/-- `decode` of a number of 16 bytes whose trailing zeros are stripped. -/
theorem decode_stripped {ip : Ipv4Addr} {port : UInt16} {tm : Nat} (htm : tm < 2 ^ 32)
    (bytes : List UInt8) (hbytes : bytes = toLeBytes 16 (mangled (ofLeBytes ip.val) tm port.toNat)) :
    decode (bytes.take (16 - nPadding bytes)) = some (.v4 ip port) := by
  have hport : port.toNat < 2 ^ 16 := port.toNat_lt
  have hip : ofLeBytes ip.val < 2 ^ 32 := by
    have hlt := ofLeBytes_lt ip.val
    rwa [ip.property] at hlt
  have hlength : bytes.length = 16 := by rw [hbytes, length_toLeBytes]
  have hnumber : ofLeBytes bytes = mangled (ofLeBytes ip.val) tm port.toNat := by
    rw [hbytes, ofLeBytes_toLeBytes, Nat.mod_eq_of_lt (mangled_lt hip htm hport)]
  have hshort : ¬ (bytes.take (16 - nPadding bytes)).length > 16 := by
    rw [List.length_take]
    omega
  have hoctets : toLeBytes 4 (ofLeBytes ip.val) = ip.val := by
    have h := toLeBytes_ofLeBytes ip.val
    rwa [ip.property] at h
  have hcast : UInt16.ofNat (port.toNat + tm % 2 ^ 7 * 2 ^ 17) = port := by
    apply UInt16.toNat_inj.mp
    rw [UInt16.toNat_ofNat']
    omega
  unfold decode
  rw [if_neg hshort, copyFromSlice_stripped hlength]
  simp only [Option.bind_eq_bind, Option.bind_some, hnumber, clock_of_mangled htm hport,
    ip_of_mangled htm hport, port_of_mangled htm hport, hcast, hoctets]
  rfl

/-- An IPv6 address goes over the wire as it is. -/
theorem decode_v6 (ip : Ipv6Addr) (port : UInt16) :
    decode (ip.val ++ toLeBytes 2 port.toNat) = some (.new (.v6 ip) port) := by
  have hlength : (ip.val ++ toLeBytes 2 port.toNat).length = 18 := by
    rw [List.length_append, ip.property, length_toLeBytes]
  have hip : readFixed 16 (ip.val ++ toLeBytes 2 port.toNat) 0 = some ip := by
    have h := slice_append [] ip.val (toLeBytes 2 port.toNat)
    rw [ip.property] at h
    exact readFixed_eq_some_iff.mpr h
  have hport : readFixed 2 (ip.val ++ toLeBytes 2 port.toNat) 16 =
      some ⟨toLeBytes 2 port.toNat, length_toLeBytes 2 port.toNat⟩ := by
    have h := slice_append ip.val (toLeBytes 2 port.toNat) []
    rw [List.append_nil, ip.property, length_toLeBytes] at h
    exact readFixed_eq_some_iff.mpr h
  have hcast : UInt16.ofNat (ofLeBytes (toLeBytes 2 port.toNat)) = port := by
    have hlt : port.toNat < 256 ^ 2 := port.toNat_lt
    rw [ofLeBytes_toLeBytes, Nat.mod_eq_of_lt hlt, UInt16.ofNat_toNat]
  unfold decode
  rw [if_pos (by rw [hlength]; decide), if_neg (by rw [hlength]; decide), hip, hport]
  show some (SocketAddr.new (.v6 ip) (UInt16.ofNat (ofLeBytes (toLeBytes 2 port.toNat)))) = _
  rw [hcast]

/-- `encode` and `decode` are a round trip at every clock, up to the flow information and
the scope of an IPv6 address. -/
theorem decode_encode (addr : SocketAddr) (now : Option Nat) :
    decode (encode addr now) = some (plain (tryIntoV4 addr)) := by
  unfold encode
  cases tryIntoV4 addr with
  | v4 ip port => exact decode_stripped (clockBits_lt now) _ rfl
  | v6 ip port flowinfo scopeId => exact decode_v6 ip port

/-! ## Untrusted bytes -/

/-- The strings that `decode` has an address for. A string of at most 16 bytes is a
little-endian number: the bits from 49 on are at least the 32 bits from 17 on, and one of
the seven bits from 17 on is set, or the 17 lowest bits are at least the 16 bits above
them. -/
def Untangled (bytes : List UInt8) : Prop :=
  16 < bytes.length ∨
    (ofLeBytes bytes / 2 ^ 17 % 2 ^ 32 ≤ ofLeBytes bytes / 2 ^ 49 ∧
      (ofLeBytes bytes / 2 ^ 17 % 2 ^ 7 ≠ 0 ∨
        ofLeBytes bytes / 2 ^ 17 % 2 ^ 16 ≤ ofLeBytes bytes % 2 ^ 17))

/-- The mask of the port reaches seven bits into the clock, and one of these alone exceeds
the 16 bits that are subtracted. -/
theorem port_field_iff (number : Nat) :
    number / 2 ^ 17 % 2 ^ 32 % 2 ^ 16 ≤ number % 2 ^ 24 ↔
      number / 2 ^ 17 % 2 ^ 7 ≠ 0 ∨ number / 2 ^ 17 % 2 ^ 16 ≤ number % 2 ^ 17 := by
  omega

theorem isSome_checkedSub_iff (a b : Nat) : (checkedSub a b).isSome = true ↔ b ≤ a := by
  unfold checkedSub
  split <;> simp_all

/-- `decode` of a string that fits into the padding. -/
theorem decode_short {bytes : List UInt8} (hshort : bytes.length ≤ 16) :
    decode bytes =
      (checkedSub (ofLeBytes bytes / 2 ^ 49) (ofLeBytes bytes / 2 ^ 17 % 2 ^ 32)).bind
        (fun ip => (checkedSub (ofLeBytes bytes % 2 ^ 24)
          (ofLeBytes bytes / 2 ^ 17 % 2 ^ 32 % 2 ^ 16)).bind
          (fun port => some (.v4 ⟨toLeBytes 4 ip, length_toLeBytes 4 ip⟩ (UInt16.ofNat port)))) := by
  have hcopy : copyFromSlice (List.replicate 16 0) bytes =
      some (bytes ++ List.replicate (16 - bytes.length) 0) := by
    unfold copyFromSlice
    rw [List.length_replicate, if_pos hshort, List.drop_replicate]
  have hclock : ∀ n : Nat, n &&& u32Max = n % 2 ^ 32 := fun n => and_low n 32
  have hport : ∀ n : Nat, n &&& 0xFFFFFF = n % 2 ^ 24 := fun n => and_low n 24
  have hlow : ∀ n : Nat, n &&& 0xFFFF = n % 2 ^ 16 := fun n => and_low n 16
  unfold decode
  rw [if_neg (Nat.not_lt.mpr hshort), hcopy]
  simp only [Option.bind_eq_bind, Option.bind_some, ofLeBytes_append_zeros,
    Nat.shiftRight_eq_div_pow, hclock, hport, hlow]

/-- Neither subtraction of `decode` underflows, and no copy is out of range, exactly for
the strings of `Untangled`. -/
theorem decode_isSome_iff (bytes : List UInt8) :
    (decode bytes).isSome = true ↔ Untangled bytes := by
  rcases Nat.lt_or_ge 16 bytes.length with hlong | hshort
  · have hsome : (decode bytes).isSome = true := by
      unfold decode
      rw [if_pos hlong]
      split <;> rfl
    exact ⟨fun _ => .inl hlong, fun _ => hsome⟩
  · rw [decode_short hshort]
    have hdefined : ∀ (a b c d : Nat) (f : Nat → Nat → SocketAddr),
        ((checkedSub a b).bind (fun ip => (checkedSub c d).bind
          (fun port => some (f ip port)))).isSome = true ↔ b ≤ a ∧ d ≤ c := by
      intro a b c d f
      rw [← isSome_checkedSub_iff a b, ← isSome_checkedSub_iff c d]
      cases checkedSub a b <;> cases checkedSub c d <;> simp
    rw [hdefined, port_field_iff]
    unfold Untangled
    rw [or_iff_right (Nat.not_lt.mpr hshort)]

/-- Three bytes are enough: the clock field is one and the address field is zero. -/
theorem clock_alone_underflows : ¬ ∀ bytes, (decode bytes).isSome = true := by
  intro h
  have hthree := h [0, 0, 2]
  revert hthree
  decide

end HbbCommon.Net.AddrMangle
