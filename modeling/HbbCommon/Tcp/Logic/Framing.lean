import HbbCommon.Tcp.BytesCodec

/-!
# What a byte stream owes its reader

The bytes of frames one after another, cut anywhere. `Owes` says which payloads a
decoder will still return when it is given the rest of the stream, whether it stands
in front of a header or behind one. Each call of `decode` keeps what is owed and
returns the first payload as soon as all of its bytes are there.
-/

namespace HbbCommon.Tcp

open HbbCommon.Base
open HbbCommon.Transport (Bytes)

namespace BytesCodec

/-! ## One frame -/

/-- How many bytes the header of a payload of `n` bytes has. -/
def headLenOf (n : Nat) : Nat :=
  if n ≤ 0x3F then 1 else if n ≤ 0x3FFF then 2 else if n ≤ 0x3FFFFF then 3 else 4

/-- The header, as one number. -/
def headValue (n : Nat) : Nat := 4 * n + (headLenOf n - 1)

def frame (data : Bytes) : Bytes :=
  toLeBytes (headLenOf data.length) (headValue data.length) ++ data

theorem headLenOf_bounds (n : Nat) : 1 ≤ headLenOf n ∧ headLenOf n ≤ 4 := by
  unfold headLenOf
  split_ifs <;> decide

theorem headValue_lt {n : Nat} (hn : n ≤ 0x3FFFFFFF) : headValue n < 256 ^ headLenOf n := by
  unfold headValue headLenOf
  split_ifs <;> norm_num <;> omega

theorem shiftLeft_two_or (n tag : Nat) {w : Nat} (htag : tag < 4) (hn : 4 * n < 2 ^ w) :
    (n <<< 2) % 2 ^ w ||| tag = 4 * n + tag := by
  have hshift : n <<< 2 = 4 * n := by rw [Nat.shiftLeft_eq, Nat.mul_comm]
  rw [hshift, Nat.mod_eq_of_lt hn, ← hshift, ← Nat.shiftLeft_add_eq_or_of_lt htag]

theorem toLeBytes_split (v : Nat) :
    toLeBytes 2 (v &&& 0xFFFF) ++ toLeBytes 1 (v >>> 16) = toLeBytes 3 v := by
  have hlow : v &&& 0xFFFF = v % 2 ^ 16 := Nat.and_two_pow_sub_one_eq_mod v 16
  have hhigh : v >>> 16 = v / 2 ^ 16 := Nat.shiftRight_eq_div_pow v 16
  have hbytes : ∀ m n, m % 256 = n % 256 → UInt8.ofNat m = UInt8.ofNat n := by
    intro m n h
    apply UInt8.toNat_inj.mp
    rwa [UInt8.toNat_ofNat', UInt8.toNat_ofNat']
  rw [hlow, hhigh]
  simp only [toLeBytes, List.cons_append, List.nil_append, List.cons.injEq, and_true]
  refine ⟨hbytes _ _ (by omega), hbytes _ _ (by omega), hbytes _ _ (by omega)⟩

/-- A frame that is not too long is its header and its payload. -/
theorem encodeFrame_eq {data : Bytes} (hdata : data.length ≤ 0x3FFFFFFF) (buf : Bytes) :
    encodeFrame false data buf = .ok (buf ++ frame data) := by
  have hshift : data.length <<< 2 = 4 * data.length := by rw [Nat.shiftLeft_eq, Nat.mul_comm]
  unfold encodeFrame frame headValue headLenOf
  rw [if_neg (by decide)]
  split_ifs with h₁ h₂ h₃
  · rw [hshift, List.append_assoc, Nat.sub_self, Nat.add_zero]
  · rw [shiftLeft_two_or data.length _ (by decide) (by omega), List.append_assoc]
  · simp only [shiftLeft_two_or data.length 2 (w := 32) (by decide) (by omega),
      List.append_assoc]
    rw [← List.append_assoc (toLeBytes 2 _), toLeBytes_split]
  · rw [shiftLeft_two_or data.length _ (by decide) (by omega), List.append_assoc]

theorem frame_ne_nil (data : Bytes) : frame data ≠ [] := by
  have hpos := (headLenOf_bounds data.length).1
  intro hnil
  have hlength := congrArg List.length hnil
  rw [frame, List.length_append, length_toLeBytes, List.length_nil] at hlength
  omega

/-! ## Reading a header -/

theorem and_three_toNat (v : Nat) : (UInt8.ofNat v &&& 0x3).toNat = v % 4 := by
  have hmask : v % 256 &&& 3 = v % 256 % 4 := Nat.and_two_pow_sub_one_eq_mod (v % 256) 2
  have hbyte : (UInt8.ofNat v).toNat = v % 256 := by simp
  rw [UInt8.toNat_and, hbyte, show (0x3 : UInt8).toNat = 3 from rfl, hmask]
  omega

/-- The bytes of a header, put together as `decode_head` does. -/
theorem or_bytes_eq (b₀ b₁ b₂ b₃ : UInt8) :
    b₀.toNat ||| b₁.toNat <<< 8 = ofLeBytes [b₀, b₁] ∧
    b₀.toNat ||| b₁.toNat <<< 8 ||| b₂.toNat <<< 16 = ofLeBytes [b₀, b₁, b₂] ∧
    b₀.toNat ||| b₁.toNat <<< 8 ||| b₂.toNat <<< 16 ||| b₃.toNat <<< 24 =
      ofLeBytes [b₀, b₁, b₂, b₃] := by
  have h₀ := b₀.toNat_lt
  have h₁ := b₁.toNat_lt
  have h₂ := b₂.toNat_lt
  rw [or_shiftLeft_eq_add b₁.toNat (i := 8) (by omega),
    or_shiftLeft_eq_add b₂.toNat (i := 16) (by omega),
    or_shiftLeft_eq_add b₃.toNat (i := 24) (by omega)]
  simp only [ofLeBytes]
  omega

/-- A header that is there is read as one number. -/
theorem decodeHead_eq (c : BytesCodec) {b : UInt8} (tail : Bytes) {k : Nat}
    (hk : (b &&& 0x3).toNat + 1 = k) (hlength : k ≤ (b :: tail).length) :
    c.decodeHead (b :: tail) =
      if ofLeBytes ((b :: tail).take k) / 4 > c.maxPacketLength then .error .tooBigPacket
      else .ok (some (ofLeBytes ((b :: tail).take k) / 4), (b :: tail).drop k) := by
  have hlast : (b &&& 0x3).toNat ≤ 3 := by
    rw [UInt8.toNat_and]
    exact Nat.and_le_right
  have hshift : ∀ v, v >>> 2 = v / 4 := fun v => Nat.shiftRight_eq_div_pow v 2
  simp only [decodeHead, hk, if_neg (Nat.not_lt.mpr hlength), hshift]
  obtain rfl | rfl | rfl | rfl : k = 1 ∨ k = 2 ∨ k = 3 ∨ k = 4 := by omega
  · rfl
  · match tail, hlength with
    | b₁ :: tail, _ => simp [(or_bytes_eq b b₁ 0 0).1]
  · match tail, hlength with
    | b₁ :: b₂ :: tail, _ => simp [(or_bytes_eq b b₁ b₂ 0).2.1]
  · match tail, hlength with
    | b₁ :: b₂ :: b₃ :: tail, _ => simp [(or_bytes_eq b b₁ b₂ b₃).2.2]

theorem toLeBytes_headValue (n : Nat) :
    ∃ tail, toLeBytes (headLenOf n) (headValue n) = UInt8.ofNat (headValue n) :: tail := by
  have hbounds := headLenOf_bounds n
  obtain ⟨k, hk⟩ : ∃ k, headLenOf n = k + 1 := ⟨headLenOf n - 1, by omega⟩
  rw [hk]
  exact ⟨_, rfl⟩

theorem headLen_of_first (n : Nat) :
    (UInt8.ofNat (headValue n) &&& 0x3).toNat + 1 = headLenOf n := by
  have := headLenOf_bounds n
  rw [and_three_toNat, headValue]
  omega

/-- The header of a payload that is not too long is read back. -/
theorem decodeHead_header (c : BytesCodec) {n : Nat} (hn : n ≤ 0x3FFFFFFF)
    (hmax : n ≤ c.maxPacketLength) (rest : Bytes) :
    c.decodeHead (toLeBytes (headLenOf n) (headValue n) ++ rest) = .ok (some n, rest) := by
  obtain ⟨tail, htail⟩ := toLeBytes_headValue n
  have hlength : (toLeBytes (headLenOf n) (headValue n)).length = headLenOf n :=
    length_toLeBytes _ _
  have hvalue : ofLeBytes (toLeBytes (headLenOf n) (headValue n)) / 4 = n := by
    have := headLenOf_bounds n
    rw [ofLeBytes_toLeBytes, Nat.mod_eq_of_lt (headValue_lt hn), headValue]
    omega
  have hhead := decodeHead_eq c (tail ++ rest) (headLen_of_first n) (by
    rw [← List.cons_append, ← htail, List.length_append, hlength]
    omega)
  rw [← List.cons_append, ← htail, List.take_left' hlength, List.drop_left' hlength, hvalue,
    if_neg (Nat.not_lt.mpr hmax)] at hhead
  exact hhead

/-- A header that is cut waits for the rest of it. -/
theorem decodeHead_cut (c : BytesCodec) {n : Nat} {src rest : Bytes}
    (hsrc : src ++ rest = toLeBytes (headLenOf n) (headValue n)) (hrest : rest ≠ []) :
    c.decodeHead src = .ok (none, src) := by
  cases src with
  | nil => rfl
  | cons b tail =>
      obtain ⟨tail', htail⟩ := toLeBytes_headValue n
      have hlength := congrArg List.length hsrc
      rw [length_toLeBytes, List.length_append] at hlength
      have hpos := List.length_pos_of_ne_nil hrest
      rw [htail, List.cons_append] at hsrc
      obtain ⟨rfl, -⟩ := List.cons.inj hsrc
      simp only [decodeHead, headLen_of_first]
      exact if_pos (by omega)

/-! ## What is owed -/

/-- The payloads that the bytes hold for a decoder in this state. -/
def Owes (c : BytesCodec) (bytes : Bytes) (frames : List Bytes) : Prop :=
  match c.state with
  | .head => bytes = (frames.map frame).flatten
  | .data n => ∃ first rest, frames = first :: rest ∧ first.length = n ∧
      bytes = first ++ (rest.map frame).flatten

/-- Another frame at the end of the stream. -/
theorem Owes.concat {c : BytesCodec} {bytes : Bytes} {frames : List Bytes}
    (h : c.Owes bytes frames) (data : Bytes) :
    c.Owes (bytes ++ frame data) (frames ++ [data]) := by
  unfold Owes at h ⊢
  cases hstate : c.state with
  | head =>
      rw [hstate] at h
      simp only [h, List.map_append, List.map_cons, List.map_nil, List.flatten_append,
        List.flatten_cons, List.flatten_nil, List.append_nil]
  | data n =>
      rw [hstate] at h
      obtain ⟨first, rest, rfl, hlength, rfl⟩ := h
      refine ⟨first, rest ++ [data], rfl, hlength, ?_⟩
      simp only [List.map_append, List.map_cons, List.map_nil, List.flatten_append,
        List.flatten_cons, List.flatten_nil, List.append_nil, List.append_assoc]

/-- No bytes owe no payload but an empty one. -/
theorem Owes.first_eq_nil {c : BytesCodec} {first : Bytes} {frames : List Bytes}
    (h : c.Owes [] (first :: frames)) : first = [] := by
  unfold Owes at h
  cases hstate : c.state with
  | head =>
      rw [hstate, List.map_cons, List.flatten_cons] at h
      exact absurd (List.append_eq_nil_iff.mp h.symm).1 (frame_ne_nil first)
  | data n =>
      rw [hstate] at h
      obtain ⟨_, _, heq, -, hbytes⟩ := h
      obtain ⟨rfl, -⟩ := List.cons.inj heq
      exact (List.append_eq_nil_iff.mp hbytes.symm).1

/-- The codec takes payloads of this length. -/
def Takes (c : BytesCodec) (data : Bytes) : Prop :=
  data.length ≤ c.maxPacketLength ∧ data.length ≤ 0x3FFFFFFF

/-- What the codec is set to, apart from its place in the stream. -/
def SameSettings (c c' : BytesCodec) : Prop :=
  c'.raw = c.raw ∧ c'.maxPacketLength = c.maxPacketLength

/-- What a call of `decode` on the buffer `buf` may do when `rest` is still to come. -/
inductive Decodes (c : BytesCodec) (rest : Bytes) (frames : List Bytes) :
    BytesCodec × Bytes × Except CodecError (Option Bytes) → Prop
  | wait {c' : BytesCodec} {buf' : Bytes} (settings : c.SameSettings c')
      (owes : c'.Owes (buf' ++ rest) frames) (last : rest = [] → frames = [] ∧ buf' = []) :
      Decodes c rest frames (c', buf', .ok none)
  | payload {c' : BytesCodec} {buf' first : Bytes} {later : List Bytes}
      (settings : c.SameSettings c') (first_eq : frames = first :: later)
      (owes : c'.Owes (buf' ++ rest) later) :
      Decodes c rest frames (c', buf', .ok (some first))

theorem Decodes.of_settings {c c₁ : BytesCodec} {rest : Bytes} {frames : List Bytes}
    {result : BytesCodec × Bytes × Except CodecError (Option Bytes)}
    (h : c₁.Decodes rest frames result) (hsettings : c.SameSettings c₁) :
    c.Decodes rest frames result := by
  obtain ⟨hraw, hmax⟩ := hsettings
  cases h with
  | wait settings owes last =>
      exact .wait ⟨settings.1.trans hraw, settings.2.trans hmax⟩ owes last
  | payload settings first_eq owes =>
      exact .payload ⟨settings.1.trans hraw, settings.2.trans hmax⟩ first_eq owes

/-- Two ways to cut a stream at a boundary: before it or behind it. -/
theorem append_eq_append_cases {buf rest front tail : Bytes} (h : buf ++ rest = front ++ tail) :
    (∃ missing, missing ≠ [] ∧ buf ++ missing = front ∧ rest = missing ++ tail) ∨
      ∃ more, buf = front ++ more ∧ more ++ rest = tail := by
  obtain ⟨more, hfront, hrest⟩ | ⟨more, hbuf, htail⟩ := List.append_eq_append_iff.mp h
  · cases more with
    | nil => exact .inr ⟨[], by simpa using hfront.symm, by simpa using hrest⟩
    | cons x more => exact .inl ⟨x :: more, List.cons_ne_nil _ _, hfront.symm, hrest⟩
  · exact .inr ⟨more, hbuf, htail.symm⟩

theorem decodeBody_decodes {c : BytesCodec} {first buf rest : Bytes} {later : List Bytes}
    (hstate : c.state = .data first.length)
    (hbytes : buf ++ rest = first ++ (later.map frame).flatten) :
    c.Decodes rest (first :: later) (c.decodeBody first.length buf) := by
  obtain ⟨missing, hmissing, hfirst, hrest⟩ | ⟨more, rfl, hlater⟩ := append_eq_append_cases hbytes
  · have hshort : buf.length < first.length := by
      have := List.length_pos_of_ne_nil hmissing
      rw [← hfirst, List.length_append]
      omega
    simp only [decodeBody, decodeData, if_pos hshort]
    refine .wait ⟨rfl, rfl⟩ ?_ ?_
    · simp only [Owes, hstate]
      exact ⟨first, later, rfl, rfl, hbytes⟩
    · intro hnil
      rw [hnil] at hrest
      exact absurd (List.append_eq_nil_iff.mp hrest.symm).1 hmissing
  · simp only [decodeBody, decodeData, List.length_append, if_neg (Nat.not_lt.mpr
      (Nat.le_add_right first.length more.length)), List.take_left, List.drop_left]
    exact .payload ⟨rfl, rfl⟩ rfl hlater

/-- A call of `decode` keeps what the stream owes, and waits only for bytes that are
missing. -/
theorem decode_decodes {c : BytesCodec} {buf rest : Bytes} {frames : List Bytes}
    (hraw : c.raw = false) (htakes : ∀ data ∈ frames, c.Takes data)
    (howes : c.Owes (buf ++ rest) frames) : c.Decodes rest frames (c.decode buf) := by
  rw [decode, if_neg (by rw [hraw]; exact Bool.false_ne_true)]
  unfold Owes at howes
  cases hstate : c.state with
  | data n =>
      rw [hstate] at howes
      obtain ⟨first, later, rfl, rfl, hbytes⟩ := howes
      exact decodeBody_decodes hstate hbytes
  | head =>
      rw [hstate] at howes
      cases frames with
      | nil =>
          obtain ⟨rfl, rfl⟩ := List.append_eq_nil_iff.mp howes
          refine .wait ⟨rfl, rfl⟩ ?_ (fun _ => ⟨rfl, rfl⟩)
          simp [Owes, hstate]
      | cons first later =>
          obtain ⟨hmax, hlength⟩ := htakes first List.mem_cons_self
          rw [List.map_cons, List.flatten_cons, frame, List.append_assoc] at howes
          obtain ⟨missing, hmissing, hhead, hrest⟩ | ⟨more, rfl, hbytes⟩ :=
            append_eq_append_cases howes
          · -- the header is cut
            rw [decodeHead_cut c hhead hmissing]
            refine .wait ⟨rfl, rfl⟩ ?_ ?_
            · simpa only [Owes, hstate, List.map_cons, List.flatten_cons, frame,
                List.append_assoc] using howes
            · intro hnil
              rw [hnil] at hrest
              exact absurd (List.append_eq_nil_iff.mp hrest.symm).1 hmissing
          · rw [decodeHead_header c hlength hmax]
            have hbody := decodeBody_decodes (c := { c with state := .data first.length }) rfl
              hbytes
            exact hbody.of_settings (c := c) ⟨rfl, rfl⟩

/-- At the end of the stream `decode_eof` finds no frame cut short. -/
theorem decode_or_eof {c : BytesCodec} {buf rest : Bytes} {frames : List Bytes} {eof : Bool}
    (heof : eof = true → rest = []) (h : c.Decodes rest frames (c.decode buf)) :
    c.Decodes rest frames (if eof then c.decodeEof buf else c.decode buf) := by
  cases eof with
  | false => exact h
  | true =>
      show c.Decodes rest frames (c.decodeEof buf)
      unfold decodeEof
      generalize c.decode buf = result at h
      cases h with
      | wait settings owes last =>
          obtain ⟨-, rfl⟩ := last (heof rfl)
          exact .wait settings owes last
      | payload settings first_eq owes => exact .payload settings first_eq owes

end BytesCodec

end HbbCommon.Tcp
