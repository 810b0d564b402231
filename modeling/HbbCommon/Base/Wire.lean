import Mathlib

/-!
# Byte strings on the wire

Unsigned integers are written big-endian in a fixed number of bytes. A read at an
offset has no value when it reaches past the end, as an index out of range does.

A decoder is a computation in `ExceptT ε Option`: `none` where an index would be
out of range, an error of type `ε` where the input is refused. `Defined` says that
the first of the two does not happen.
-/

namespace HbbCommon.Base

/-- The `w` low bytes of `n`, most significant first. -/
def toBeBytes : Nat → Nat → List UInt8
  | 0, _ => []
  | w + 1, n => UInt8.ofNat (n / 256 ^ w) :: toBeBytes w n

def ofBeBytes : List UInt8 → Nat
  | [] => 0
  | b :: bytes => b.toNat * 256 ^ bytes.length + ofBeBytes bytes

@[simp] theorem length_toBeBytes (w n : Nat) : (toBeBytes w n).length = w := by
  induction w with
  | zero => rfl
  | succ w ih => simp [toBeBytes, ih]

theorem ofBeBytes_toBeBytes (w n : Nat) : ofBeBytes (toBeBytes w n) = n % 256 ^ w := by
  induction w with
  | zero => simp [toBeBytes, ofBeBytes, Nat.mod_one]
  | succ w ih =>
      have hdigit : (UInt8.ofNat (n / 256 ^ w)).toNat = n / 256 ^ w % 256 := by simp
      rw [toBeBytes, ofBeBytes, length_toBeBytes, ih, hdigit, pow_succ, Nat.mod_mul,
        Nat.mul_comm, Nat.add_comm]

theorem ofBeBytes_lt (bytes : List UInt8) : ofBeBytes bytes < 256 ^ bytes.length := by
  induction bytes with
  | nil => simp [ofBeBytes]
  | cons b bytes ih =>
      have hb : b.toNat + 1 ≤ 256 := b.toNat_lt
      calc ofBeBytes (b :: bytes) < (b.toNat + 1) * 256 ^ bytes.length := by
            rw [ofBeBytes, Nat.succ_mul]
            omega
        _ ≤ 256 * 256 ^ bytes.length := Nat.mul_le_mul_right _ hb
        _ = 256 ^ (b :: bytes).length := by rw [List.length_cons, pow_succ']

/-- The `w` bytes at `offset`; `none` when they are not all there. -/
def slice (bytes : List UInt8) (offset w : Nat) : Option (List UInt8) :=
  if offset + w ≤ bytes.length then some ((bytes.drop offset).take w) else none

/-- The unsigned integer of `w` bytes at `offset`. -/
def readBe (w : Nat) (bytes : List UInt8) (offset : Nat) : Option Nat :=
  (slice bytes offset w).map ofBeBytes

theorem slice_isSome {bytes : List UInt8} {offset w : Nat} (h : offset + w ≤ bytes.length) :
    (slice bytes offset w).isSome = true := by
  simp [slice, h]

theorem readBe_isSome {bytes : List UInt8} {offset w : Nat} (h : offset + w ≤ bytes.length) :
    (readBe w bytes offset).isSome = true := by
  simp [readBe, slice, h]

theorem readBe_lt {bytes : List UInt8} {offset w n : Nat} (h : readBe w bytes offset = some n) :
    n < 256 ^ w := by
  unfold readBe slice at h
  split at h
  · cases h
    refine lt_of_lt_of_le (ofBeBytes_lt _) (Nat.pow_le_pow_right (by decide) ?_)
    simp
  · cases h

theorem slice_append (front field rest : List UInt8) :
    slice (front ++ field ++ rest) front.length field.length = some field := by
  simp [slice]

/-- The length of the first `i` fields. -/
def fieldOffset (fields : List (List UInt8)) (i : Nat) : Nat :=
  ((fields.take i).map List.length).sum

/-- A record is its fields one after another; each is read back at its offset. -/
theorem slice_fields {fields : List (List UInt8)} (rest : List UInt8) {i : Nat}
    {field : List UInt8} (h : fields[i]? = some field) :
    slice (fields.flatten ++ rest) (fieldOffset fields i) field.length = some field := by
  obtain ⟨hi, rfl⟩ := List.getElem?_eq_some_iff.mp h
  have hsplit : fields.flatten ++ rest =
      (fields.take i).flatten ++ fields[i] ++ ((fields.drop (i + 1)).flatten ++ rest) := by
    have hfields : fields = fields.take i ++ fields[i] :: fields.drop (i + 1) := by
      rw [← List.drop_eq_getElem_cons hi, List.take_append_drop]
    calc fields.flatten ++ rest
        = (fields.take i ++ fields[i] :: fields.drop (i + 1)).flatten ++ rest := by rw [← hfields]
      _ = _ := by rw [List.flatten_append, List.flatten_cons]; simp only [List.append_assoc]
  rw [hsplit, fieldOffset, ← List.length_flatten]
  exact slice_append _ _ _

theorem readBe_fields {fields : List (List UInt8)} (rest : List UInt8) {i w n : Nat}
    (h : fields[i]? = some (toBeBytes w n)) (hn : n < 256 ^ w) :
    readBe w (fields.flatten ++ rest) (fieldOffset fields i) = some n := by
  have hslice := slice_fields rest h
  rw [length_toBeBytes] at hslice
  rw [readBe, hslice, Option.map_some, ofBeBytes_toBeBytes, Nat.mod_eq_of_lt hn]

/-! ## Little-endian integers -/

/-- The `w` low bytes of `n`, least significant first. -/
def toLeBytes : Nat → Nat → List UInt8
  | 0, _ => []
  | w + 1, n => UInt8.ofNat n :: toLeBytes w (n / 256)

def ofLeBytes : List UInt8 → Nat
  | [] => 0
  | b :: bytes => b.toNat + 256 * ofLeBytes bytes

@[simp] theorem length_toLeBytes (w n : Nat) : (toLeBytes w n).length = w := by
  induction w generalizing n with
  | zero => rfl
  | succ w ih => simp [toLeBytes, ih]

theorem ofLeBytes_toLeBytes (w n : Nat) : ofLeBytes (toLeBytes w n) = n % 256 ^ w := by
  induction w generalizing n with
  | zero => simp [toLeBytes, ofLeBytes, Nat.mod_one]
  | succ w ih =>
      have hdigit : (UInt8.ofNat n).toNat = n % 256 := by simp
      rw [toLeBytes, ofLeBytes, ih, hdigit, pow_succ', Nat.mod_mul]

/-- Numbers that fit have different bytes. -/
theorem toLeBytes_inj {w m n : Nat} (hm : m < 256 ^ w) (hn : n < 256 ^ w)
    (h : toLeBytes w m = toLeBytes w n) : m = n := by
  have hvalue := congrArg ofLeBytes h
  rwa [ofLeBytes_toLeBytes, ofLeBytes_toLeBytes, Nat.mod_eq_of_lt hm, Nat.mod_eq_of_lt hn]
    at hvalue

/-- A byte put above the bytes read so far. -/
theorem or_shiftLeft_eq_add {a : Nat} (b : Nat) {i : Nat} (ha : a < 2 ^ i) :
    a ||| b <<< i = a + b * 2 ^ i := by
  rw [Nat.or_comm, ← Nat.shiftLeft_add_eq_or_of_lt ha, Nat.shiftLeft_eq, Nat.add_comm]

/-! ## What a read says about the bytes -/

theorem ofBeBytes_cons (b : UInt8) (bytes : List UInt8) :
    ofBeBytes (b :: bytes) = b.toNat * 256 ^ bytes.length + ofBeBytes bytes := rfl

theorem toBeBytes_mod (w n : Nat) : toBeBytes w (n % 256 ^ w) = toBeBytes w n := by
  suffices h : ∀ v, w ≤ v → toBeBytes w (n % 256 ^ v) = toBeBytes w n from h w le_rfl
  induction w with
  | zero => intro v _; rfl
  | succ w ih =>
      intro v hv
      have hdigit : UInt8.ofNat (n % 256 ^ v / 256 ^ w) = UInt8.ofNat (n / 256 ^ w) := by
        apply UInt8.toNat_inj.mp
        obtain ⟨k, rfl⟩ : ∃ k, v = w + 1 + k := ⟨v - (w + 1), by omega⟩
        have hpow : 256 ^ (w + 1 + k) = 256 ^ w * (256 * 256 ^ k) := by ring
        rw [UInt8.toNat_ofNat', UInt8.toNat_ofNat', hpow, Nat.mod_mul_right_div_self]
        exact Nat.mod_mul_right_mod _ _ _
      rw [toBeBytes, toBeBytes, hdigit, ih v (by omega)]

/-- The bytes of a number of their own width are that number's bytes. -/
theorem toBeBytes_ofBeBytes (bytes : List UInt8) :
    toBeBytes bytes.length (ofBeBytes bytes) = bytes := by
  induction bytes with
  | nil => rfl
  | cons b bytes ih =>
      have hlt := ofBeBytes_lt bytes
      have hpos : 0 < 256 ^ bytes.length := Nat.pow_pos (by decide)
      have hhead : (b.toNat * 256 ^ bytes.length + ofBeBytes bytes) / 256 ^ bytes.length =
          b.toNat := by
        rw [Nat.add_comm, Nat.add_mul_div_right _ _ hpos, Nat.div_eq_of_lt hlt, Nat.zero_add]
      have htail : toBeBytes bytes.length (ofBeBytes (b :: bytes)) = bytes := by
        rw [← toBeBytes_mod, ofBeBytes_cons, Nat.mul_add_mod_self_right, Nat.mod_eq_of_lt hlt, ih]
      rw [List.length_cons, toBeBytes, htail, ofBeBytes_cons, hhead, UInt8.ofNat_toNat]

theorem length_of_slice {bytes field : List UInt8} {offset w : Nat}
    (h : slice bytes offset w = some field) : field.length = w := by
  unfold slice at h
  split at h
  · cases h
    rw [List.length_take, List.length_drop]
    omega
  · cases h

theorem slice_of_readBe {bytes : List UInt8} {offset w n : Nat}
    (h : readBe w bytes offset = some n) : slice bytes offset w = some (toBeBytes w n) := by
  unfold readBe at h
  cases hslice : slice bytes offset w with
  | none =>
      rw [hslice] at h
      cases h
  | some field =>
      rw [hslice] at h
      cases h
      rw [← length_of_slice hslice, toBeBytes_ofBeBytes]

theorem slice_eq_some_iff {bytes field : List UInt8} {offset : Nat}
    (hoffset : offset ≤ bytes.length) :
    slice bytes offset field.length = some field ↔ field <+: bytes.drop offset := by
  unfold slice
  rw [List.prefix_iff_eq_take]
  constructor
  · intro h
    split at h
    · exact (Option.some.inj h).symm
    · cases h
  · intro h
    have hlength := congrArg List.length h
    rw [List.length_take, List.length_drop] at hlength
    rw [if_pos (by omega), ← h]

/-- The fields stand one after another from `offset` on. -/
def FieldsAt (bytes : List UInt8) : Nat → List (List UInt8) → Prop
  | _, [] => True
  | offset, field :: fields =>
      slice bytes offset field.length = some field ∧ FieldsAt bytes (offset + field.length) fields

theorem FieldsAt.isPrefix {bytes : List UInt8} {fields : List (List UInt8)} {offset : Nat}
    (h : FieldsAt bytes offset fields) (hoffset : offset ≤ bytes.length) :
    fields.flatten <+: bytes.drop offset := by
  induction fields generalizing offset with
  | nil => simp
  | cons field fields ih =>
      obtain ⟨hfield, hrest⟩ := h
      obtain ⟨rest, hsplit⟩ := (slice_eq_some_iff hoffset).mp hfield
      have hnext : offset + field.length ≤ bytes.length := by
        have hlength := congrArg List.length hsplit
        rw [List.length_append, List.length_drop] at hlength
        omega
      have hdrop : bytes.drop (offset + field.length) = rest := by
        rw [← List.drop_drop, ← hsplit, List.drop_left]
      have htail := ih hrest hnext
      rw [hdrop] at htail
      rw [List.flatten_cons, ← hsplit]
      exact (List.prefix_append_right_inj field).mpr htail

/-- A record that its fields fill is its fields. -/
theorem FieldsAt.eq_flatten {bytes : List UInt8} {fields : List (List UInt8)}
    (h : FieldsAt bytes 0 fields) (hlength : bytes.length = fields.flatten.length) :
    bytes = fields.flatten := by
  have hpre := h.isPrefix (Nat.zero_le _)
  rw [List.drop_zero] at hpre
  exact (hpre.eq_of_length hlength.symm).symm

theorem fieldsAt_append (front rest : List UInt8) (fields : List (List UInt8)) :
    FieldsAt (front ++ (fields.flatten ++ rest)) front.length fields := by
  induction fields generalizing front with
  | nil => trivial
  | cons field fields ih =>
      have htail := ih (front ++ field)
      rw [List.length_append, List.append_assoc, ← List.append_assoc field] at htail
      rw [List.flatten_cons]
      refine ⟨?_, htail⟩
      rw [List.append_assoc, ← List.append_assoc front]
      exact slice_append front field _

theorem fieldsAt_flatten (fields : List (List UInt8)) : FieldsAt fields.flatten 0 fields := by
  have hplain := fieldsAt_append [] [] fields
  rwa [List.append_nil, List.nil_append] at hplain

/-! ## Machine integers -/

def readU8 (bytes : List UInt8) (offset : Nat) : Option UInt8 :=
  (readBe 1 bytes offset).map UInt8.ofNat

def readU16 (bytes : List UInt8) (offset : Nat) : Option UInt16 :=
  (readBe 2 bytes offset).map UInt16.ofNat

def readU32 (bytes : List UInt8) (offset : Nat) : Option UInt32 :=
  (readBe 4 bytes offset).map UInt32.ofNat

def readU64 (bytes : List UInt8) (offset : Nat) : Option UInt64 :=
  (readBe 8 bytes offset).map UInt64.ofNat

def readI32 (bytes : List UInt8) (offset : Nat) : Option Int32 :=
  (readU32 bytes offset).map UInt32.toInt32

theorem readBe_eq_some_iff {bytes : List UInt8} {offset w n : Nat} (hn : n < 256 ^ w) :
    readBe w bytes offset = some n ↔ slice bytes offset w = some (toBeBytes w n) := by
  constructor
  · exact slice_of_readBe
  · intro h
    rw [readBe, h, Option.map_some, ofBeBytes_toBeBytes, Nat.mod_eq_of_lt hn]

/-- A read into a machine type, where `ofNat` and `toNat` are inverse below the
limit of the type. -/
theorem map_readBe_eq_some_iff {α : Type} {ofNat : Nat → α} {toNat : α → Nat} {w : Nat}
    (hto : ∀ a, toNat a < 256 ^ w) (hofTo : ∀ a, ofNat (toNat a) = a)
    (htoOf : ∀ n, n < 256 ^ w → toNat (ofNat n) = n) {bytes : List UInt8} {offset : Nat} {a : α} :
    (readBe w bytes offset).map ofNat = some a ↔
      slice bytes offset w = some (toBeBytes w (toNat a)) := by
  rw [← readBe_eq_some_iff (hto a)]
  constructor
  · intro h
    cases hread : readBe w bytes offset with
    | none =>
        rw [hread] at h
        cases h
    | some n =>
        rw [hread] at h
        cases h
        rw [htoOf n (readBe_lt hread)]
  · intro h
    rw [h, Option.map_some, hofTo]

theorem readU8_eq_some_iff {bytes : List UInt8} {offset : Nat} {a : UInt8} :
    readU8 bytes offset = some a ↔ slice bytes offset 1 = some (toBeBytes 1 a.toNat) :=
  map_readBe_eq_some_iff UInt8.toNat_lt (fun _ => UInt8.ofNat_toNat)
    (fun _ h => UInt8.toNat_ofNat_of_lt h)

theorem readU16_eq_some_iff {bytes : List UInt8} {offset : Nat} {a : UInt16} :
    readU16 bytes offset = some a ↔ slice bytes offset 2 = some (toBeBytes 2 a.toNat) :=
  map_readBe_eq_some_iff UInt16.toNat_lt (fun _ => UInt16.ofNat_toNat)
    (fun _ h => UInt16.toNat_ofNat_of_lt h)

theorem readU32_eq_some_iff {bytes : List UInt8} {offset : Nat} {a : UInt32} :
    readU32 bytes offset = some a ↔ slice bytes offset 4 = some (toBeBytes 4 a.toNat) :=
  map_readBe_eq_some_iff UInt32.toNat_lt (fun _ => UInt32.ofNat_toNat)
    (fun _ h => UInt32.toNat_ofNat_of_lt h)

theorem readU64_eq_some_iff {bytes : List UInt8} {offset : Nat} {a : UInt64} :
    readU64 bytes offset = some a ↔ slice bytes offset 8 = some (toBeBytes 8 a.toNat) :=
  map_readBe_eq_some_iff UInt64.toNat_lt (fun _ => UInt64.ofNat_toNat)
    (fun _ h => UInt64.toNat_ofNat_of_lt h)

theorem readI32_eq_some_iff {bytes : List UInt8} {offset : Nat} {a : Int32} :
    readI32 bytes offset = some a ↔ slice bytes offset 4 = some (toBeBytes 4 a.toUInt32.toNat) := by
  rw [← readU32_eq_some_iff, readI32]
  constructor
  · intro h
    obtain ⟨b, hb, rfl⟩ := Option.map_eq_some_iff.mp h
    rw [UInt32.toUInt32_toInt32, hb]
  · intro h
    rw [h, Option.map_some, Int32.toInt32_toUInt32]

/-- A read inside the bytes has a value. -/
theorem map_readBe_isSome {α : Type} (f : Nat → α) {bytes : List UInt8} {offset w : Nat}
    (h : offset + w ≤ bytes.length) : ((readBe w bytes offset).map f).isSome = true := by
  rw [Option.isSome_map]
  exact readBe_isSome h

/-! ## Decoders -/

variable {ε α β : Type}

@[simp] theorem liftM_some_bind (a : α) (f : α → ExceptT ε Option β) :
    (liftM (some a) >>= f) = f a := rfl

@[simp] theorem liftM_ok_bind (a : α) (f : α → ExceptT ε Option β) :
    (liftM (Except.ok a : Except ε α) >>= f) = f a := rfl

/-- A decoder that ran without an error goes on. -/
theorem bind_of_ok {x : ExceptT ε Option α} {a : α} (h : x.run = some (.ok a))
    (f : α → ExceptT ε Option β) : (x >>= f) = f a := by
  apply ExceptT.ext
  rw [ExceptT.run_bind, h]
  rfl

/-- No index is out of range. -/
def Defined (x : ExceptT ε Option α) : Prop := Option.isSome x.run = true

theorem defined_pure (a : α) : Defined (pure a : ExceptT ε Option α) := rfl

theorem defined_throw (e : ε) : Defined (throw e : ExceptT ε Option α) := rfl

theorem defined_lift {x : Option α} (h : x.isSome = true) :
    Defined (liftM x : ExceptT ε Option α) := by
  obtain ⟨a, rfl⟩ := Option.isSome_iff_exists.mp h
  rfl

theorem defined_except (x : Except ε α) : Defined (liftM x : ExceptT ε Option α) := by
  cases x <;> rfl

theorem Defined.bind {x : ExceptT ε Option α} {f : α → ExceptT ε Option β} (hx : Defined x)
    (hf : ∀ a, x.run = some (.ok a) → Defined (f a)) : Defined (x >>= f) := by
  unfold Defined at hx ⊢
  rw [ExceptT.run_bind]
  obtain ⟨r, hr⟩ := Option.isSome_iff_exists.mp hx
  rw [hr]
  cases r with
  | error e => rfl
  | ok a => exact hf a hr

theorem Defined.ite {c : Prop} [Decidable c] {x y : ExceptT ε Option α} (hx : Defined x)
    (hy : ¬ c → Defined y) : Defined (if c then x else y) := by
  split
  · exact hx
  · exact hy ‹_›

/-! ### When a decoder accepts -/

theorem run_pure_eq_ok {a b : α} :
    (pure a : ExceptT ε Option α).run = some (.ok b) ↔ a = b := by
  constructor
  · intro h
    cases h
    rfl
  · rintro rfl
    rfl

theorem run_liftM_eq_ok {x : Option α} {a : α} :
    (liftM x : ExceptT ε Option α).run = some (.ok a) ↔ x = some a := by
  cases x with
  | none =>
      constructor
      · intro h
        cases h
      · intro h
        cases h
  | some b => exact run_pure_eq_ok.trans (Option.some_inj).symm

theorem run_except_eq_ok {x : Except ε α} {a : α} :
    (liftM x : ExceptT ε Option α).run = some (.ok a) ↔ x = .ok a := by
  constructor
  · intro h
    cases x <;> cases h
    rfl
  · rintro rfl
    rfl

theorem run_bind_eq_ok {x : ExceptT ε Option α} {f : α → ExceptT ε Option β} {b : β} :
    (x >>= f).run = some (.ok b) ↔ ∃ a, x.run = some (.ok a) ∧ (f a).run = some (.ok b) := by
  constructor
  · intro h
    rw [ExceptT.run_bind] at h
    cases hx : x.run with
    | none =>
        rw [hx] at h
        cases h
    | some r =>
        rw [hx] at h
        cases r with
        | error e => cases h
        | ok a => exact ⟨a, rfl, h⟩
  · rintro ⟨a, hx, hf⟩
    rw [bind_of_ok hx, hf]

/-- A check that refuses. -/
theorem run_check_eq_ok {c : Prop} [Decidable c] {e : ε} {x : ExceptT ε Option α} {a : α} :
    (if c then throw e else x).run = some (.ok a) ↔ ¬ c ∧ x.run = some (.ok a) := by
  by_cases hc : c
  · rw [if_pos hc]
    constructor
    · intro h
      cases h
    · intro h
      exact absurd hc h.1
  · rw [if_neg hc]
    exact ⟨fun h => ⟨hc, h⟩, fun h => h.2⟩

/-! ## Encoders -/

/-- A check of an encoder. -/
theorem check_eq_ok {c : Prop} [Decidable c] {e : ε} {x : Except ε α} {a : α} :
    (if c then .error e else x) = .ok a ↔ ¬ c ∧ x = .ok a := by
  by_cases hc : c
  · rw [if_pos hc]
    constructor
    · intro h
      cases h
    · intro h
      exact absurd hc h.1
  · rw [if_neg hc]
    exact ⟨fun h => ⟨hc, h⟩, fun h => h.2⟩

theorem bind_eq_ok {x : Except ε α} {f : α → Except ε β} {b : β} :
    (x >>= f) = .ok b ↔ ∃ a, x = .ok a ∧ f a = .ok b := by
  constructor
  · intro h
    cases x with
    | error e => cases h
    | ok a => exact ⟨a, rfl, h⟩
  · rintro ⟨a, rfl, hf⟩
    exact hf

/-- A loop that stops at its first error: when there is none, every turn succeeded. -/
theorem mapM_eq_ok {f : α → Except ε β} {l : List α} {r : List β} (h : l.mapM f = .ok r) :
    List.Forall₂ (fun a b => f a = .ok b) l r := by
  induction l generalizing r with
  | nil =>
      cases h
      exact .nil
  | cons a l ih =>
      rw [List.mapM_cons] at h
      cases ha : f a with
      | error e =>
          rw [ha] at h
          cases h
      | ok b =>
          rw [ha] at h
          cases hl : l.mapM f with
          | error e =>
              rw [hl] at h
              cases h
          | ok bs =>
              rw [hl] at h
              cases h
              exact .cons ha (ih hl)

/-- A loop whose turns read a table backwards reads a list of its entries. -/
theorem mapM_eq_ok_iff_map {f : α → Except ε β} {g : β → α}
    (hfg : ∀ a b, f a = .ok b ↔ a = g b) {l : List α} {r : List β} :
    l.mapM f = .ok r ↔ l = r.map g := by
  constructor
  · intro h
    have hall := mapM_eq_ok h
    clear h
    induction hall with
    | nil => rfl
    | cons hab _ ih => rw [List.map_cons, ← (hfg _ _).mp hab, ih]
  · rintro rfl
    induction r with
    | nil => rfl
    | cons b bs ih =>
        rw [List.map_cons, List.mapM_cons, (hfg _ _).mpr rfl, ih]
        rfl

/-- A loop succeeds when each of its turns does. -/
theorem mapM_ok {f : α → Except ε β} {l : List α} (h : ∀ a ∈ l, ∃ b, f a = .ok b) :
    ∃ r, l.mapM f = .ok r := by
  induction l with
  | nil => exact ⟨[], rfl⟩
  | cons a l ih =>
      obtain ⟨b, hb⟩ := h a List.mem_cons_self
      obtain ⟨bs, hbs⟩ := ih (fun x hx => h x (List.mem_cons_of_mem _ hx))
      refine ⟨b :: bs, ?_⟩
      rw [List.mapM_cons, hb, hbs]
      rfl

end HbbCommon.Base
