import HbbCommon.Tcp.Logic.Framing

/-!
# Decoding a stream chunk by chunk

A reader appends each chunk to its buffer and calls `decode` until there is no frame
left. Where the chunks are cut does not matter: what the stream owes after a chunk is
what it owed before, less the payloads that the calls returned.
-/

namespace HbbCommon.Tcp

open HbbCommon.Base
open HbbCommon.Transport (Bytes)

namespace BytesCodec

/-! ## The loops around `encode` and `decode` -/

/-- The payloads encoded one after another behind `buf`. -/
def encodeAll (c : BytesCodec) : List Bytes → Bytes → Except CodecError Bytes
  | [], buf => .ok buf
  | data :: payloads, buf => (c.encode data buf).bind (c.encodeAll payloads)

/-- How many calls of `decode` can return a frame: one for a header that is read, and one
for each byte that is left. -/
def work (c : BytesCodec) (buf : Bytes) : Nat :=
  buf.length + match c.state with
    | .head => 0
    | .data _ => 1

theorem work_decodeBody {c c' : BytesCodec} {n : Nat} {buf buf' data : Bytes}
    (h : c.decodeBody n buf = (c', buf', .ok (some data))) : c'.work buf' ≤ buf.length := by
  unfold decodeBody decodeData at h
  split_ifs at h
  · cases h
  · cases h
    simp only [work, List.length_drop]
    omega

theorem length_decodeHead {c : BytesCodec} {n : Nat} {buf buf' : Bytes}
    (h : c.decodeHead buf = .ok (some n, buf')) : buf'.length < buf.length := by
  cases buf with
  | nil => cases h
  | cons b tail =>
      by_cases hcut : (b :: tail).length < (b &&& 0x3).toNat + 1
      · simp only [decodeHead, if_pos hcut] at h
        cases h
      · rw [decodeHead_eq c tail rfl (Nat.not_lt.mp hcut)] at h
        split at h
        · cases h
        · cases h
          rw [List.length_drop, List.length_cons]
          omega

/-- A call that returns a frame leaves less to do. -/
theorem work_decode {c c' : BytesCodec} {buf buf' data : Bytes}
    (h : c.decode buf = (c', buf', .ok (some data))) : c'.work buf' < c.work buf := by
  unfold decode at h
  split_ifs at h with hraw hempty
  · cases h
  · cases h
    have hpos : 0 < buf.length := List.length_pos_iff.mpr (fun hnil => hempty (by rw [hnil]; rfl))
    simp only [work, List.length_nil]
    omega
  · cases hstate : c.state with
    | data n =>
        rw [hstate] at h
        have := work_decodeBody h
        simp only [work, hstate] at this ⊢
        omega
    | head =>
        rw [hstate] at h
        simp only at h
        split at h
        · cases h
        · cases h
        · rename_i hhead
          have hbody := work_decodeBody h
          have hshorter := length_decodeHead hhead
          simp only [work, hstate] at hbody ⊢
          omega

/-- `decode` until there is no frame left: the frames, and the error that ended it. -/
def decodeAll (c : BytesCodec) (buf : Bytes) :
    BytesCodec × Bytes × List Bytes × Option CodecError :=
  match _h : c.decode buf with
  | (c', buf', .ok (some data)) =>
      let (c'', buf'', later, error) := decodeAll c' buf'
      (c'', buf'', data :: later, error)
  | (c', buf', .ok none) => (c', buf', [], none)
  | (c', buf', .error error) => (c', buf', [], some error)
termination_by c.work buf
decreasing_by exact work_decode _h

/-- The chunks one after another, with `decode` called until it waits after each. -/
def feed (c : BytesCodec) (buf : Bytes) :
    List Bytes → BytesCodec × Bytes × List Bytes × Option CodecError
  | [] => (c, buf, [], none)
  | chunk :: chunks =>
      match c.decodeAll (buf ++ chunk) with
      | (c', buf', frames, some error) => (c', buf', frames, some error)
      | (c', buf', frames, none) =>
          let (c'', buf'', later, error) := c'.feed buf' chunks
          (c'', buf'', frames ++ later, error)

/-! ## What the loops do -/

theorem encodeAll_eq {c : BytesCodec} (hraw : c.raw = false) {payloads : List Bytes}
    (hpayloads : ∀ data ∈ payloads, data.length ≤ 0x3FFFFFFF) (buf : Bytes) :
    c.encodeAll payloads buf = .ok (buf ++ (payloads.map frame).flatten) := by
  induction payloads generalizing buf with
  | nil => rw [encodeAll, List.map_nil, List.flatten_nil, List.append_nil]
  | cons data payloads ih =>
      have hfirst := encodeFrame_eq (hpayloads data List.mem_cons_self) buf
      rw [encodeAll, encode, hraw, hfirst]
      show c.encodeAll payloads (buf ++ frame data) = _
      rw [ih (fun d hd => hpayloads d (List.mem_cons_of_mem _ hd)), List.append_assoc,
        List.map_cons, List.flatten_cons]

/-- What `decodeAll` may do when `rest` is still to come: it returns the first of the
payloads and leaves the others to be returned later. -/
structure DecodesAll (c : BytesCodec) (rest : Bytes) (frames : List Bytes)
    (result : BytesCodec × Bytes × List Bytes × Option CodecError) : Prop where
  settings : c.SameSettings result.1
  owes : ∃ later, frames = result.2.2.1 ++ later ∧ result.1.Owes (result.2.1 ++ rest) later ∧
    (rest = [] → later = [] ∧ result.2.1 = [])
  error : result.2.2.2 = none

theorem decodeAll_decodesAll {c : BytesCodec} {buf rest : Bytes} {frames : List Bytes}
    (hraw : c.raw = false) (htakes : ∀ data ∈ frames, c.Takes data)
    (howes : c.Owes (buf ++ rest) frames) : c.DecodesAll rest frames (c.decodeAll buf) := by
  -- the calls return the payloads from the front, so the induction is on the payloads
  induction frames generalizing c buf with
  | nil =>
      have hdecodes := decode_decodes hraw htakes howes
      rw [decodeAll]
      split
      · rename_i heq
        rw [heq] at hdecodes
        cases hdecodes with
        | payload settings first_eq owes => cases first_eq
      · rename_i heq
        rw [heq] at hdecodes
        cases hdecodes with
        | wait settings owes last =>
            exact ⟨settings, ⟨[], rfl, owes, last⟩, rfl⟩
      · rename_i heq
        rw [heq] at hdecodes
        cases hdecodes
  | cons first later ih =>
      have hdecodes := decode_decodes hraw htakes howes
      rw [decodeAll]
      split
      · rename_i heq
        rw [heq] at hdecodes
        cases hdecodes with
        | payload settings first_eq owes =>
            obtain ⟨rfl, rfl⟩ := List.cons.inj first_eq
            obtain ⟨settings', ⟨later', hlater, howes', hlast⟩, herror⟩ :=
              ih (settings.1.trans hraw)
                (fun data hdata => by
                  rw [Takes, settings.2]
                  exact htakes data (List.mem_cons_of_mem _ hdata)) owes
            refine ⟨⟨settings'.1.trans settings.1, settings'.2.trans settings.2⟩,
              ⟨later', ?_, howes', hlast⟩, herror⟩
            rw [List.cons_append, ← hlater]
      · rename_i heq
        rw [heq] at hdecodes
        cases hdecodes with
        | wait settings owes last =>
            exact ⟨settings, ⟨first :: later, rfl, owes, last⟩, rfl⟩
      · rename_i heq
        rw [heq] at hdecodes
        cases hdecodes

/-- A stream that owes nothing stands in front of a header. -/
theorem Owes.state_eq_head {c : BytesCodec} {bytes : Bytes} (h : c.Owes bytes []) :
    c.state = .head := by
  unfold Owes at h
  cases hstate : c.state with
  | head => rfl
  | data n =>
      rw [hstate] at h
      obtain ⟨_, _, hnil, -⟩ := h
      cases hnil

/-- The chunks of a stream return what the stream owes, and nothing is left behind. -/
theorem feed_owed {c : BytesCodec} {buf : Bytes} {chunks : List Bytes} {frames : List Bytes}
    (hraw : c.raw = false) (htakes : ∀ data ∈ frames, c.Takes data)
    (howes : c.Owes (buf ++ chunks.flatten) frames)
    (hidle : chunks = [] → frames = [] ∧ buf = []) :
    c.feed buf chunks = ({ c with state := .head }, [], frames, none) := by
  induction chunks generalizing c buf frames with
  | nil =>
      obtain ⟨rfl, rfl⟩ := hidle rfl
      rw [feed, ← howes.state_eq_head]
  | cons chunk chunks ih =>
      rw [List.flatten_cons, ← List.append_assoc] at howes
      obtain ⟨settings, ⟨later, hframes, howes', hlast⟩, herror⟩ :=
        decodeAll_decodesAll hraw htakes howes
      generalize hall : c.decodeAll (buf ++ chunk) = result at *
      obtain ⟨c₁, buf₁, frames₁, error₁⟩ := result
      dsimp only at settings hframes howes' hlast herror
      subst herror
      have htakes' : ∀ data ∈ later, c₁.Takes data := by
        intro data hdata
        rw [Takes, settings.2]
        refine htakes data ?_
        rw [hframes]
        exact List.mem_append_right _ hdata
      have hfeed := ih (settings.1.trans hraw) htakes' howes' (by
        rintro rfl
        exact hlast rfl)
      simp only [feed, hall, hfeed, hframes, settings.1, settings.2]

/-- However the encodings of payloads are cut into chunks, decoding the chunks returns the
payloads in order, and the codec and its buffer are as they were at the start. -/
theorem feed_encodeAll (maxPacketLength : Nat) (payloads : List Bytes)
    (hpayloads : ∀ data ∈ payloads, data.length ≤ maxPacketLength ∧ data.length ≤ 0x3FFFFFFF) :
    ∃ bytes, (BytesCodec.new.setMaxPacketLength maxPacketLength).encodeAll payloads [] = .ok bytes ∧
      ∀ chunks : List Bytes, chunks.flatten = bytes →
        (BytesCodec.new.setMaxPacketLength maxPacketLength).feed [] chunks =
          (BytesCodec.new.setMaxPacketLength maxPacketLength, [], payloads, none) := by
  refine ⟨(payloads.map frame).flatten, ?_, ?_⟩
  · have hencode := encodeAll_eq (c := BytesCodec.new.setMaxPacketLength maxPacketLength) rfl
      (fun data hdata => (hpayloads data hdata).2) []
    rwa [List.nil_append] at hencode
  · intro chunks hchunks
    refine feed_owed rfl hpayloads hchunks ?_
    rintro rfl
    cases payloads with
    | nil => exact ⟨rfl, rfl⟩
    | cons data payloads =>
        rw [List.flatten_nil, List.map_cons, List.flatten_cons] at hchunks
        exact absurd (List.append_eq_nil_iff.mp hchunks.symm).1 (frame_ne_nil data)

/-- A payload of 64 bytes, whose header is cut in two, and an empty one in the last chunk. -/
theorem feed_encodeAll_cut :
    (BytesCodec.new.setMaxPacketLength 100).feed []
        [[1], 1 :: List.replicate 60 7, List.replicate 4 7 ++ [0]] =
      (BytesCodec.new.setMaxPacketLength 100, [], [List.replicate 64 7, []], none) := by
  obtain ⟨bytes, hencode, hfeed⟩ := feed_encodeAll 100 [List.replicate 64 7, []] (by decide)
  refine hfeed _ ?_
  have hbytes : (BytesCodec.new.setMaxPacketLength 100).encodeAll [List.replicate 64 7, []] [] =
      .ok ([1, 1] ++ List.replicate 64 7 ++ [0]) := by decide
  rw [hencode] at hbytes
  rw [Except.ok.inj hbytes]
  decide

end BytesCodec

end HbbCommon.Tcp
