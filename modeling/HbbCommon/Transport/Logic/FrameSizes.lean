import HbbCommon.Transport.FrameSizes
import Mathlib

/-!
# The percentiles are those of the recent samples

`sinceIdle` is the logical window: the samples since the last one that came after an idle
gap. The ring holds the newest 512 of it (`Mirrors`); a record keeps that, whether it
resets the ring, fills it or overwrites its oldest sample. Sorting forgets the order of
the slots, so the percentiles are the nearest-rank percentiles of these samples.
-/

namespace HbbCommon.Transport

open HbbCommon.Base

/-! ## Arrays -/

theorem setChecked_eq {α : Type} {xs : List α} {i : Nat} (h : i < xs.length) (a : α) :
    setChecked xs i a = some (xs.set i a) :=
  if_pos h

theorem takeChecked_eq {α : Type} {xs : List α} {n : Nat} (h : n ≤ xs.length) :
    takeChecked xs n = some (xs.take n) :=
  if_pos h

/-- The copy loop writes one field of every sample behind what is written already. -/
theorem copyField_eq (field : VideoFrameSizeSample → Nat) (samples : List VideoFrameSizeSample)
    (front rest : List Nat) (h : samples.length ≤ rest.length) :
    VideoFrameSizeWindow.copyField field samples front.length (front ++ rest) =
      some (front ++ samples.map field ++ rest.drop samples.length) := by
  induction samples generalizing front rest with
  | nil => simp [VideoFrameSizeWindow.copyField]
  | cons sample samples ih =>
      obtain ⟨b, rest, rfl⟩ := List.exists_cons_of_length_pos (Nat.lt_of_lt_of_le (Nat.succ_pos _) h)
      have hrest : samples.length ≤ rest.length := Nat.le_of_succ_le_succ h
      have hset : (front ++ b :: rest).set front.length (field sample) =
          (front ++ [field sample]) ++ rest := by
        rw [List.set_append_right _ _ le_rfl]
        simp
      have htail := ih (front ++ [field sample]) rest hrest
      rw [List.length_append, List.length_singleton] at htail
      rw [VideoFrameSizeWindow.copyField, setChecked_eq (by simp), hset, Option.bind_eq_bind,
        Option.bind_some, htail]
      simp

/-! ## The logical window -/

/-- The records since the last idle gap, newest first. -/
def sinceIdle : List FrameRecord → List FrameRecord
  | [] => []
  | [r] => [r]
  | r :: p :: older =>
      if r.now - p.now ≥ videoFrameSizeWindowIdleReset then [r] else r :: sinceIdle (p :: older)

/-- The samples that the percentiles are taken of: the newest 512 since the last idle gap. -/
def recentRecords (records : List FrameRecord) : List FrameRecord :=
  (sinceIdle records.reverse).take videoFrameSizeWindow

/-- The nearest-rank percentile: the value of rank `⌈n * q / 100⌉`, counted from one. -/
def nearestRank (values : List Nat) (q : Nat) : Option Nat :=
  (values.insertionSort (· ≤ ·))[values.length * q ⌈/⌉ 100 - 1]?

theorem sinceIdle_cons (r : FrameRecord) (older : List FrameRecord) :
    ∃ kept, sinceIdle (r :: older) = r :: kept := by
  cases older with
  | nil => exact ⟨[], rfl⟩
  | cons p older =>
      rw [sinceIdle]
      split
      · exact ⟨[], rfl⟩
      · exact ⟨_, rfl⟩

/-- The ring holds the newest samples of the records, which are given newest first. -/
structure Mirrors (w : VideoFrameSizeWindow) (newestFirst : List FrameRecord) : Prop where
  ring : RingOf videoFrameSizeWindow w.samples w.next w.len
    (((sinceIdle newestFirst).take videoFrameSizeWindow).map
      (fun r => VideoFrameSizeWindow.sampleOf r.datagramBytes r.requiredBytes))
  last : w.lastRecordedAt = newestFirst.head?.map FrameRecord.now

theorem mirrors_new (start : Time) : Mirrors (.new start) [] where
  ring := RingOf.empty (by decide) (List.length_replicate)
  last := rfl

theorem take_cons_take {α : Type} (a : α) (xs : List α) {c : Nat} (hc : 0 < c) :
    (a :: xs.take c).take c = (a :: xs).take c := by
  obtain ⟨c, rfl⟩ := Nat.exists_eq_succ_of_ne_zero hc.ne'
  rw [List.take_succ_cons, List.take_succ_cons, List.take_take, Nat.min_eq_left (Nat.le_succ c)]

/-- A gap empties the ring, and the window with it. -/
theorem Mirrors.resetIfIdle {w : VideoFrameSizeWindow} {older : List FrameRecord}
    (h : Mirrors w older) (r : FrameRecord) :
    ∃ kept, sinceIdle (r :: older) = r :: kept ∧
      RingOf videoFrameSizeWindow (w.resetIfIdle r.now).samples (w.resetIfIdle r.now).next
        (w.resetIfIdle r.now).len
        ((kept.take videoFrameSizeWindow).map
          (fun r => VideoFrameSizeWindow.sampleOf r.datagramBytes r.requiredBytes)) := by
  have hempty : RingOf videoFrameSizeWindow w.samples 0 0 [] :=
    RingOf.empty (by decide) h.ring.length_slots
  have hlast := h.last
  cases older with
  | nil =>
      have hidle : w.isIdle r.now = false := by
        unfold VideoFrameSizeWindow.isIdle
        rw [hlast]
        rfl
      have hring := h.ring
      refine ⟨[], rfl, ?_⟩
      unfold VideoFrameSizeWindow.resetIfIdle
      rw [hidle]
      exact hring
  | cons p older =>
      have hidle : w.isIdle r.now = decide (r.now - p.now ≥ videoFrameSizeWindowIdleReset) := by
        unfold VideoFrameSizeWindow.isIdle
        rw [hlast]
        rfl
      unfold VideoFrameSizeWindow.resetIfIdle
      rw [hidle]
      by_cases hgap : r.now - p.now ≥ videoFrameSizeWindowIdleReset
      · refine ⟨[], ?_, ?_⟩
        · rw [sinceIdle, if_pos hgap]
        · rw [if_pos (decide_eq_true hgap)]
          exact hempty
      · refine ⟨sinceIdle (p :: older), ?_, ?_⟩
        · rw [sinceIdle, if_neg hgap]
        · rw [if_neg (by simpa using hgap)]
          exact h.ring

/-- A record has a slot to write to, and the ring goes on to hold the newest samples. -/
theorem Mirrors.record {w : VideoFrameSizeWindow} {older : List FrameRecord}
    (h : Mirrors w older) (r : FrameRecord) :
    ∃ w', w.record r.now r.datagramBytes r.requiredBytes = some w' ∧ Mirrors w' (r :: older) := by
  obtain ⟨kept, hkept, hring⟩ := h.resetIfIdle r
  have hslot : (w.resetIfIdle r.now).next < (w.resetIfIdle r.now).samples.length := by
    rw [hring.length_slots]
    exact hring.next_lt
  have hlen : satAdd (w.resetIfIdle r.now).len 1 = (w.resetIfIdle r.now).len + 1 :=
    satAdd_of_le ((Nat.succ_le_succ hring.len_le).trans (by decide))
  unfold VideoFrameSizeWindow.record
  simp only [setChecked_eq hslot, Option.bind_eq_bind, Option.bind_some, hlen]
  refine ⟨_, rfl, ?_, rfl⟩
  have hpush := hring.push (VideoFrameSizeWindow.sampleOf r.datagramBytes r.requiredBytes)
  rw [hkept]
  rwa [List.map_take, take_cons_take _ _ (by decide), ← List.map_cons (f := fun r : FrameRecord =>
    VideoFrameSizeWindow.sampleOf r.datagramBytes r.requiredBytes), ← List.map_take] at hpush

theorem mirrors_after (start : Time) (records : List FrameRecord) :
    ∃ w, VideoFrameSizeWindow.after start records = some w ∧ Mirrors w records.reverse := by
  induction records using List.reverseRecOn with
  | nil => exact ⟨_, rfl, mirrors_new start⟩
  | append_singleton records r ih =>
      obtain ⟨w, hw, hmirrors⟩ := ih
      obtain ⟨w', hrecord, hnext⟩ := hmirrors.record r
      refine ⟨w', ?_, by rwa [List.reverse_append]⟩
      unfold VideoFrameSizeWindow.after at hw ⊢
      rw [List.foldlM_append, hw]
      exact (congrArg (fun o => Option.bind o some) hrecord).trans rfl

/-! ## The percentiles -/

theorem nearestRankIndex_eq {len q : Nat} (hlen : len ≤ videoFrameSizeWindow) (hq : q ≤ 100) :
    nearestRankIndex len q = len * q ⌈/⌉ 100 - 1 := by
  have hproduct : len * q ≤ 512 * 100 := Nat.mul_le_mul hlen hq
  have hle : len * q ≤ len * 100 := Nat.mul_le_mul_left _ hq
  have hmul : min (len * q) u64Max = len * q := Nat.min_eq_left (by unfold u64Max; omega)
  have hadd : satAdd (len * q) 99 = len * q + 99 := satAdd_of_le (by unfold u64Max; omega)
  unfold nearestRankIndex
  rw [hmul, hadd, Nat.ceilDiv_eq_add_pred_div]
  omega

theorem nearestRank_isSome {values : List Nat} (hvalues : values ≠ []) {q : Nat} (hq : q ≤ 100) :
    ∃ value, nearestRank values q = some value := by
  have hpos : 0 < values.length := List.length_pos_iff.mpr hvalues
  have hle : values.length * q ≤ values.length * 100 := Nat.mul_le_mul_left _ hq
  have hindex : values.length * q ⌈/⌉ 100 - 1 < (values.insertionSort (· ≤ ·)).length := by
    rw [List.length_insertionSort, Nat.ceilDiv_eq_add_pred_div]
    omega
  exact ⟨_, List.getElem?_eq_getElem hindex⟩

theorem insertionSort_eq_of_perm {xs ys : List Nat} (h : xs.Perm ys) :
    xs.insertionSort (· ≤ ·) = ys.insertionSort (· ≤ ·) :=
  ((List.perm_insertionSort _ xs).trans (h.trans (List.perm_insertionSort _ ys).symm)).eq_of_pairwise
    (fun _ _ _ _ => Nat.le_antisymm) (List.pairwise_insertionSort _ xs)
    (List.pairwise_insertionSort _ ys)

/-- The sorted array starts with the sorted field of the recent samples. -/
theorem sorted_eq {w : VideoFrameSizeWindow} {recent : List VideoFrameSizeSample}
    (h : RingOf videoFrameSizeWindow w.samples w.next w.len recent)
    (field : VideoFrameSizeSample → Nat) :
    ∃ rest, w.sorted field = some ((recent.map field).insertionSort (· ≤ ·) ++ rest) := by
  have hlen : w.len ≤ w.samples.length := by
    rw [h.length_slots]
    exact h.len_le
  have hfilled : (w.samples.take w.len).length = w.len := by
    rw [List.length_take, Nat.min_eq_left hlen]
  have hcopy := copyField_eq field (w.samples.take w.len) []
    (List.replicate videoFrameSizeWindow 0) (by
      rw [hfilled, List.length_replicate]
      exact h.len_le)
  simp only [List.length_nil, List.nil_append] at hcopy
  have hmapped : ((w.samples.take w.len).map field).length = w.len := by
    rw [List.length_map, hfilled]
  have hperm : ((w.samples.take w.len).map field).Perm (recent.map field) := h.take_perm.map field
  refine ⟨(List.replicate videoFrameSizeWindow 0).drop w.len, ?_⟩
  unfold VideoFrameSizeWindow.sorted sortUnstable
  rw [takeChecked_eq hlen, Option.bind_eq_bind, Option.bind_some, hcopy, Option.bind_eq_bind,
    Option.bind_some, hfilled, takeChecked_eq (by rw [List.length_append, hmapped]; omega),
    Option.map_some, List.take_left' hmapped, List.drop_left' hmapped,
    insertionSort_eq_of_perm hperm]

/-- The read of the sorted array at the index of a percentile is in range. -/
theorem read_percentile {w : VideoFrameSizeWindow} {recent : List VideoFrameSizeSample}
    (h : RingOf videoFrameSizeWindow w.samples w.next w.len recent) (hne : recent ≠ [])
    (field : VideoFrameSizeSample → Nat) {q : Nat} (hq : q ≤ 100) :
    ∃ value, nearestRank (recent.map field) q = some value ∧
      ∀ rest, ((recent.map field).insertionSort (· ≤ ·) ++ rest)[nearestRankIndex w.len q]? =
        some value := by
  have hcount : (recent.map field).length = w.len := by
    rw [List.length_map, h.length_recent]
  obtain ⟨value, hvalue⟩ : ∃ value, nearestRank (recent.map field) q = some value :=
    nearestRank_isSome (mt List.map_eq_nil_iff.mp hne) hq
  refine ⟨value, hvalue, fun rest => ?_⟩
  unfold nearestRank at hvalue
  obtain ⟨hlt, _⟩ := List.getElem?_eq_some_iff.mp hvalue
  rw [nearestRankIndex_eq h.len_le hq, ← hcount, List.getElem?_append_left hlt, hvalue]

/-- For every sequence of records no index is out of range, and the percentiles are the
nearest-rank 95th and 99th of the two sizes, cut at 32 bits, of the newest 512 samples since
the last idle gap. -/
theorem percentiles_of_recent (start : Time) (records : List FrameRecord) :
    ∃ w, VideoFrameSizeWindow.after start records = some w ∧
      (records = [] → w.percentiles = some (0, 0, 0, 0)) ∧
      (records ≠ [] → ∃ datagram95 datagram99 required95 required99,
        w.percentiles = some (datagram95, datagram99, required95, required99) ∧
        nearestRank ((recentRecords records).map (fun r => min r.datagramBytes u32Max)) 95 =
          some datagram95 ∧
        nearestRank ((recentRecords records).map (fun r => min r.datagramBytes u32Max)) 99 =
          some datagram99 ∧
        nearestRank ((recentRecords records).map (fun r => min r.requiredBytes u32Max)) 95 =
          some required95 ∧
        nearestRank ((recentRecords records).map (fun r => min r.requiredBytes u32Max)) 99 =
          some required99) := by
  obtain ⟨w, hw, hmirrors⟩ := mirrors_after start records
  refine ⟨w, hw, ?_, fun hne => ?_⟩
  · rintro rfl
    cases hw
    rfl
  · obtain ⟨r, older, hrecords⟩ := List.exists_cons_of_ne_nil (List.reverse_ne_nil_iff.mpr hne)
    have hring := hmirrors.ring
    have hrecent : (recentRecords records).map
        (fun r => VideoFrameSizeWindow.sampleOf r.datagramBytes r.requiredBytes) ≠ [] := by
      rw [Ne, List.map_eq_nil_iff, recentRecords, hrecords]
      obtain ⟨kept, hkept⟩ := sinceIdle_cons r older
      rw [hkept]
      exact List.cons_ne_nil _ _
    change RingOf _ _ _ _ ((recentRecords records).map _) at hring
    have hlen : w.len ≠ 0 := by
      rw [← hring.length_recent]
      exact List.length_pos_iff.mpr hrecent |>.ne'
    obtain ⟨rest, hdatagram⟩ := sorted_eq hring VideoFrameSizeSample.datagramBytes
    obtain ⟨rest', hrequired⟩ := sorted_eq hring VideoFrameSizeSample.requiredBytes
    have hread := fun field {q : Nat} (hq : q ≤ 100) => read_percentile hring hrecent field hq
    obtain ⟨d95, hd95, hread1⟩ := hread VideoFrameSizeSample.datagramBytes (show 95 ≤ 100 by decide)
    obtain ⟨d99, hd99, hread2⟩ := hread VideoFrameSizeSample.datagramBytes (show 99 ≤ 100 by decide)
    obtain ⟨r95, hr95, hread3⟩ := hread VideoFrameSizeSample.requiredBytes (show 95 ≤ 100 by decide)
    obtain ⟨r99, hr99, hread4⟩ := hread VideoFrameSizeSample.requiredBytes (show 99 ≤ 100 by decide)
    rw [List.map_map] at hd95 hd99 hr95 hr99
    refine ⟨d95, d99, r95, r99, ?_, hd95, hd99, hr95, hr99⟩
    unfold VideoFrameSizeWindow.percentiles
    rw [if_neg hlen, hdatagram, hrequired]
    simp only [Option.bind_eq_bind, Option.bind_some, hread1, hread2, hread3, hread4]

/-- A size of 4 GiB is reported one byte short. -/
theorem size_is_cut :
    ¬ ∀ (start : Time) (records : List FrameRecord), records ≠ [] →
      ((VideoFrameSizeWindow.after start records).bind VideoFrameSizeWindow.percentiles).map
          Prod.fst =
        nearestRank ((recentRecords records).map FrameRecord.datagramBytes) 95 := by
  intro h
  have hone := h 0 [⟨0, 2 ^ 32, 0⟩] (by decide)
  revert hone
  decide +kernel

end HbbCommon.Transport
