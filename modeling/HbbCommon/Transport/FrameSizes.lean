import HbbCommon.Base.Ring
import HbbCommon.Transport.Video.Types

/-!
# Sizes of video frames

`VideoFrameSizeWindow` keeps the sizes of the latest delta frames in a ring and starts
over after an idle gap. The percentiles are read through the first `len` slots of the
ring. Every access to an array is checked: a step has no value where the index would be
out of range.
-/

namespace HbbCommon.Transport

open HbbCommon.Base

def videoFrameSizeWindow : Nat := 512

def videoFrameSizeWindowIdleReset : Time := secs 2

/-! ## Arrays -/

/-- `xs[i] = a`. -/
def setChecked {α : Type} (xs : List α) (i : Nat) (a : α) : Option (List α) :=
  if i < xs.length then some (xs.set i a) else none

/-- `&xs[..n]`. -/
def takeChecked {α : Type} (xs : List α) (n : Nat) : Option (List α) :=
  if n ≤ xs.length then some (xs.take n) else none

/-- `xs[..n].sort_unstable()`. -/
def sortUnstable (xs : List Nat) (n : Nat) : Option (List Nat) :=
  (takeChecked xs n).map (fun front => front.insertionSort (· ≤ ·) ++ xs.drop n)

/-! ## The window -/

structure VideoFrameSizeSample where
  datagramBytes : Nat
  requiredBytes : Nat
  deriving DecidableEq, Repr

/-- `VideoFrameSizeSample::default`. -/
def VideoFrameSizeSample.default : VideoFrameSizeSample :=
  { datagramBytes := 0, requiredBytes := 0 }

structure VideoFrameSizeWindow where
  samples : List VideoFrameSizeSample
  len : Nat
  next : Nat
  lastPublishedAt : Time
  lastRecordedAt : Option Time
  deriving DecidableEq

/-- Nearest rank over the filled sample count, not the capacity of the ring. -/
def nearestRankIndex (len percentile : Nat) : Nat :=
  min (satAdd (min (len * percentile) u64Max) 99 / 100 - 1) (len - 1)

namespace VideoFrameSizeWindow

def new (now : Time) : VideoFrameSizeWindow :=
  { samples := List.replicate videoFrameSizeWindow .default, len := 0, next := 0,
    lastPublishedAt := now, lastRecordedAt := none }

/-- The idle gap before a sample at `now`. -/
def isIdle (w : VideoFrameSizeWindow) (now : Time) : Bool :=
  w.lastRecordedAt.any (fun last => decide (now - last ≥ videoFrameSizeWindowIdleReset))

def resetIfIdle (w : VideoFrameSizeWindow) (now : Time) : VideoFrameSizeWindow :=
  if w.isIdle now then { w with len := 0, next := 0 } else w

/-- The sample of two sizes, which saturate at 32 bits. -/
def sampleOf (datagramBytes requiredBytes : Nat) : VideoFrameSizeSample :=
  { datagramBytes := min datagramBytes u32Max, requiredBytes := min requiredBytes u32Max }

def record (w : VideoFrameSizeWindow) (now : Time) (datagramBytes requiredBytes : Nat) :
    Option VideoFrameSizeWindow := do
  let w := w.resetIfIdle now
  let samples ← setChecked w.samples w.next (sampleOf datagramBytes requiredBytes)
  some
    { w with
      lastRecordedAt := some now
      samples
      next := (w.next + 1) % videoFrameSizeWindow
      len := min (satAdd w.len 1) videoFrameSizeWindow }

/-- The loop that copies one field of the samples into an array, from index `index` on. -/
def copyField (field : VideoFrameSizeSample → Nat) :
    List VideoFrameSizeSample → Nat → List Nat → Option (List Nat)
  | [], _, out => some out
  | sample :: samples, index, out => do
      let out ← setChecked out index (field sample)
      copyField field samples (index + 1) out

/-- One field of the first `len` samples, sorted. -/
def sorted (w : VideoFrameSizeWindow) (field : VideoFrameSizeSample → Nat) :
    Option (List Nat) := do
  let filled ← takeChecked w.samples w.len
  let out ← copyField field filled 0 (List.replicate videoFrameSizeWindow 0)
  sortUnstable out w.len

def percentiles (w : VideoFrameSizeWindow) : Option (Nat × Nat × Nat × Nat) :=
  if w.len = 0 then some (0, 0, 0, 0)
  else do
    let datagram ← w.sorted VideoFrameSizeSample.datagramBytes
    let required ← w.sorted VideoFrameSizeSample.requiredBytes
    let p95 := nearestRankIndex w.len 95
    let p99 := nearestRankIndex w.len 99
    let datagram95 ← datagram[p95]?
    let datagram99 ← datagram[p99]?
    let required95 ← required[p95]?
    let required99 ← required[p99]?
    some (datagram95, datagram99, required95, required99)

end VideoFrameSizeWindow

/-! ## Runs -/

/-- One call of `record`. -/
structure FrameRecord where
  now : Time
  datagramBytes : Nat
  requiredBytes : Nat
  deriving DecidableEq, Repr

/-- The calls one after another, into a new window. -/
def VideoFrameSizeWindow.after (start : Time) (records : List FrameRecord) :
    Option VideoFrameSizeWindow :=
  records.foldlM (fun w r => w.record r.now r.datagramBytes r.requiredBytes)
    (VideoFrameSizeWindow.new start)

end HbbCommon.Transport
