import HbbCommon.Base.TSys
import HbbCommon.Transport.Video.Logic.FragmentRoundTrip
import HbbCommon.Transport.Video.Reassembler

/-!
# The reassembler under any input

What is returned depends on the pending frames, the byte count, the last completed
id and the keyframe gate; this part of the state is the `core`. The rest is
statistics and keyframe requests.

`FrameOk` is the invariant of one pending frame: its counters are those of the
fragments it holds, it is incomplete, and every fragment it holds was pushed in a
datagram under the same header. `CoreInv` adds the limits. Both are relative to the
datagrams pushed so far, and survive further pushes.
-/

namespace HbbCommon.Transport

open HbbCommon.Base

/-! ## Slots -/

section Slots

/-- The number of fragments that are there. -/
def presentCount (fragments : List (Option Bytes)) : Nat := fragments.countP Option.isSome

def slotLength : Option Bytes → Nat
  | some fragment => fragment.length
  | none => 0

/-- Their length together. -/
def presentBytes (fragments : List (Option Bytes)) : Nat := (fragments.map slotLength).sum

variable {fragments : List (Option Bytes)} {i : Nat}

theorem presentCount_replicate (n : Nat) : presentCount (List.replicate n none) = 0 := by
  simp [presentCount]

theorem presentBytes_replicate (n : Nat) : presentBytes (List.replicate n none) = 0 := by
  simp [presentBytes, slotLength]

/-- Filling an empty slot. -/
theorem present_set (h : fragments[i]? = some none) (fragment : Bytes) :
    presentCount (fragments.set i (some fragment)) = presentCount fragments + 1 ∧
    presentBytes (fragments.set i (some fragment)) = presentBytes fragments + fragment.length := by
  induction fragments generalizing i with
  | nil => cases h
  | cons slot fragments ih =>
      cases i with
      | zero =>
          cases h
          exact ⟨by simp [presentCount], by simp [presentBytes, slotLength]; omega⟩
      | succ i =>
          obtain ⟨hcount, hbytes⟩ := ih (i := i) h
          simp only [presentCount, presentBytes, List.set_cons_succ, List.countP_cons,
            List.map_cons, List.sum_cons] at hcount hbytes ⊢
          exact ⟨by omega, by omega⟩

theorem presentCount_le (fragments : List (Option Bytes)) :
    presentCount fragments ≤ fragments.length :=
  List.countP_le_length

/-- When no slot is empty the fragments can be taken out in order. -/
theorem mapM_of_full (h : presentCount fragments = fragments.length) :
    ∃ whole : List Bytes, fragments = whole.map some ∧ fragments.mapM id = some whole ∧
      whole.flatten.length = presentBytes fragments := by
  induction fragments with
  | nil => exact ⟨[], rfl, rfl, rfl⟩
  | cons slot fragments ih =>
      have hle := presentCount_le fragments
      cases slot with
      | none =>
          simp only [presentCount, List.countP_cons, List.length_cons] at h hle
          simp at h
          omega
      | some fragment =>
          have hrest : presentCount fragments = fragments.length := by
            simpa [presentCount] using h
          obtain ⟨whole, hwhole, hmapM, hlength⟩ := ih hrest
          refine ⟨fragment :: whole, by rw [hwhole]; rfl, ?_, ?_⟩
          · rw [List.mapM_cons, hmapM]
            rfl
          · simp only [presentBytes, List.map_cons, List.sum_cons, slotLength] at hlength ⊢
            rw [List.flatten_cons, List.length_append, hlength]

end Slots

/-! ## The core -/

structure ReassemblyCore where
  config : VideoReassemblyConfig
  pending : OrdMap Nat PendingFrame
  pendingBytes : Nat
  lastCompletedFrameId : Nat
  hasCompletedKeyframe : Bool

namespace VideoReassembler

def core (r : VideoReassembler) : ReassemblyCore :=
  { config := r.config, pending := r.pending, pendingBytes := r.pendingBytes
    lastCompletedFrameId := r.lastCompletedFrameId
    hasCompletedKeyframe := r.hasCompletedKeyframe }

variable {r r' : VideoReassembler}

@[simp] theorem core_recordDrops (r : VideoReassembler) (count : Nat) :
    (r.recordDrops count).core = r.core := rfl

@[simp] theorem core_shouldRequestKeyframe (r : VideoReassembler) (now : Time) :
    (r.shouldRequestKeyframe now).1.core = r.core := by
  unfold shouldRequestKeyframe
  split
  · rfl
  · split <;> rfl

@[simp] theorem core_requestKeyframe (r : VideoReassembler) (outcome : VideoReassemblyOutcome)
    (now : Time) : (r.requestKeyframe outcome now).1.core = r.core :=
  core_shouldRequestKeyframe r now

@[simp] theorem frame_requestKeyframe (r : VideoReassembler) (outcome : VideoReassemblyOutcome)
    (now : Time) : (r.requestKeyframe outcome now).2.frame = outcome.frame := rfl

@[simp] theorem core_countObsolete (r : VideoReassembler) (isKeyframe : Bool) (obsoleteFrames : Nat)
    (outcome : VideoReassemblyOutcome) (now : Time) :
    (r.countObsolete isKeyframe obsoleteFrames outcome now).1.core = r.core := by
  unfold countObsolete
  by_cases hdrops : obsoleteFrames > 0
  · simp only [if_pos hdrops]
    split <;> exact core_requestKeyframe _ _ _
  · simp only [if_neg hdrops]
    split <;> rfl

theorem core_dropPreKeyframe (r : VideoReassembler) (frameId : Nat) (frame : PendingFrame)
    (outcome : VideoReassemblyOutcome) (now : Time) :
    (r.dropPreKeyframe frameId frame outcome now).1.core = (r.removeFrame frameId frame).core := by
  unfold dropPreKeyframe
  rw [core_requestKeyframe]
  rfl

/-- `expire` drops what has expired. -/
theorem core_expire (r : VideoReassembler) (now : Time) :
    (r.expire now).1.core = (r.dropWhere (fun _ frame => r.config.expired now frame)).core := by
  simp only [expire, core_shouldRequestKeyframe, core_recordDrops]
  rfl

theorem frame_expire (r : VideoReassembler) (now : Time) : (r.expire now).2.frame = none := rfl

theorem core_dropMalformed (r : VideoReassembler) (frameId : Nat) :
    (r.dropMalformed frameId).core = (r.dropFrame frameId).core := rfl

/-- What `evict_oldest` drops is pending. -/
theorem evictOldest_eq_some {e : Nat × PendingFrame} (hfirst : r.pending.first? = some e) :
    ∃ r' frameId frame, r.evictOldest = some r' ∧ r.pending.get? frameId = some frame ∧
      r'.core = (r.dropFrame frameId).core := by
  have holdest : ∃ frameId frame, (r.pending.entries.find?
      (fun e => !e.2.header.metadata.isKeyframe)).or r.pending.first? = some (frameId, frame) ∧
      r.pending.get? frameId = some frame := by
    cases hfind : r.pending.entries.find? (fun e => !e.2.header.metadata.isKeyframe) with
    | none => exact ⟨e.1, e.2, hfirst, OrdMap.first?_mem hfirst⟩
    | some d =>
        exact ⟨d.1, d.2, rfl, OrdMap.mem_entries_iff.mp (List.mem_of_find?_eq_some hfind)⟩
  obtain ⟨frameId, frame, holdest, hget⟩ := holdest
  simp only [evictOldest, holdest, Option.map_some]
  exact ⟨_, frameId, frame, rfl, hget, rfl⟩

end VideoReassembler

/-! ## The invariant -/

/-- One pending frame; `seen` are the fragments pushed so far. -/
structure FrameOk (seen : FragmentHeader → Bytes → Prop) (frameId : Nat) (frame : PendingFrame) :
    Prop where
  id_eq : frame.header.metadata.frameId = frameId
  length : frame.fragments.length = frame.header.fragmentCount
  count : frame.receivedFragments = presentCount frame.fragments
  count_lt : frame.receivedFragments < frame.header.fragmentCount
  bytes : frame.receivedBytes = presentBytes frame.fragments
  bytes_le : frame.receivedBytes ≤ frame.header.frameSize
  received : ∀ i fragment, frame.fragments[i]? = some (some fragment) →
    seen { frame.header with fragmentIndex := i } fragment

structure CoreInv (c : ReassemblyCore) (seen : FragmentHeader → Bytes → Prop) : Prop where
  size_le : c.pending.size ≤ c.config.maxPendingFrames
  bytes : c.pendingBytes = c.pending.total PendingFrame.receivedBytes
  bytes_le : c.pendingBytes ≤ c.config.maxMemoryBytes
  above : ∀ frameId frame, c.pending.get? frameId = some frame → c.lastCompletedFrameId < frameId
  frames : ∀ frameId frame, c.pending.get? frameId = some frame → FrameOk seen frameId frame

/-- A frame that was put together from fragments of one header. -/
def Assembled (seen : FragmentHeader → Bytes → Prop) (frame : CompleteVideoFrame) : Prop :=
  ∃ (header : FragmentHeader) (whole : List Bytes), header.metadata = frame.metadata ∧
    whole.length = header.fragmentCount ∧ frame.payload = whole.flatten ∧
    frame.payload.length = header.frameSize ∧
    ∀ i fragment, whole[i]? = some fragment → seen { header with fragmentIndex := i } fragment

variable {c : ReassemblyCore} {seen seen' : FragmentHeader → Bytes → Prop}

theorem FrameOk.mono (hsub : ∀ header fragment, seen header fragment → seen' header fragment)
    {frameId : Nat} {frame : PendingFrame} (h : FrameOk seen frameId frame) :
    FrameOk seen' frameId frame :=
  { h with received := fun i fragment hi => hsub _ _ (h.received i fragment hi) }

theorem CoreInv.mono (hsub : ∀ header fragment, seen header fragment → seen' header fragment)
    (h : CoreInv c seen) : CoreInv c seen' :=
  { h with frames := fun frameId frame hget => (h.frames frameId frame hget).mono hsub }

namespace VideoReassembler

variable {r r' : VideoReassembler}

/-- `r'` is `r` with fewer pending frames. -/
structure Drops (r r' : VideoReassembler) : Prop where
  config : r'.config = r.config
  last : r'.lastCompletedFrameId = r.lastCompletedFrameId
  keyframe : r'.hasCompletedKeyframe = r.hasCompletedKeyframe
  pending : ∀ frameId frame, r'.pending.get? frameId = some frame →
    r.pending.get? frameId = some frame

theorem Drops.refl (r : VideoReassembler) : Drops r r := ⟨rfl, rfl, rfl, fun _ _ h => h⟩

theorem Drops.trans {r'' : VideoReassembler} (h : Drops r r') (h' : Drops r' r'') : Drops r r'' :=
  ⟨h'.config.trans h.config, h'.last.trans h.last, h'.keyframe.trans h.keyframe,
    fun frameId frame hget => h.pending frameId frame (h'.pending frameId frame hget)⟩

theorem Drops.congr {r'' : VideoReassembler} (h : Drops r r') (hcore : r''.core = r'.core) :
    Drops r r'' := by
  obtain ⟨hconfig, hpending, _, hlast, hkeyframe⟩ := ReassemblyCore.mk.inj hcore
  refine ⟨hconfig.trans h.config, hlast.trans h.last, hkeyframe.trans h.keyframe, ?_⟩
  intro frameId frame hget
  rw [hpending] at hget
  exact h.pending frameId frame hget

theorem drops_dropWhere (r : VideoReassembler) (p : Nat → PendingFrame → Bool) :
    Drops r (r.dropWhere p) :=
  ⟨rfl, rfl, rfl, fun _ _ hget => (OrdMap.get?_filter_eq_some.mp hget).1⟩

theorem drops_expire (r : VideoReassembler) (now : Time) : Drops r (r.expire now).1 :=
  (drops_dropWhere r _).congr (core_expire r now)

/-- Dropping frames keeps the invariant. -/
theorem coreInv_dropWhere (h : CoreInv r.core seen) (p : Nat → PendingFrame → Bool) :
    CoreInv (r.dropWhere p).core seen := by
  have hsplit := r.pending.total_filter_add p PendingFrame.receivedBytes
  have hbytes : r.pendingBytes = r.pending.total PendingFrame.receivedBytes := h.bytes
  have hkept := (drops_dropWhere r p).pending
  refine ⟨le_trans (OrdMap.size_filter_le _ _) h.size_le, ?_, ?_,
    (fun frameId frame hget => h.above frameId frame (hkept frameId frame hget)),
    (fun frameId frame hget => h.frames frameId frame (hkept frameId frame hget))⟩
  · show r.pendingBytes - _ = (r.pending.filter _).total _
    omega
  · have hle : r.pendingBytes ≤ r.config.maxMemoryBytes := h.bytes_le
    show r.pendingBytes - _ ≤ r.config.maxMemoryBytes
    omega

theorem coreInv_expire (h : CoreInv r.core seen) (now : Time) :
    CoreInv (r.expire now).1.core seen := by
  rw [core_expire]
  exact coreInv_dropWhere h _

theorem pending_dropFrame (r : VideoReassembler) (frameId : Nat) :
    (r.dropFrame frameId).pending = r.pending.erase frameId := by
  simp [dropFrame, dropWhere, OrdMap.erase]

theorem makeRoom_of_lt (h : r.pending.size < r.config.maxPendingFrames) (fuel droppedFrames : Nat) :
    makeRoom (fuel + 1) r droppedFrames = some (r, droppedFrames) := by
  rw [makeRoom, if_neg (Nat.not_le.mpr h)]

/-- The eviction loop ends with room for one more frame. -/
theorem makeRoom_spec :
    ∀ (fuel : Nat) (r : VideoReassembler) (droppedFrames : Nat), 0 < r.config.maxPendingFrames →
      r.pending.size < fuel → CoreInv r.core seen →
      ∃ r' droppedFrames', makeRoom fuel r droppedFrames = some (r', droppedFrames') ∧
        CoreInv r'.core seen ∧ Drops r r' ∧ r'.pending.size < r'.config.maxPendingFrames := by
  intro fuel
  induction fuel with
  | zero =>
      intro r droppedFrames _ hfuel
      omega
  | succ fuel ih =>
      intro r droppedFrames hpending hfuel h
      by_cases hfull : r.pending.size ≥ r.config.maxPendingFrames
      · cases hfirst : r.pending.first? with
        | none =>
            have hempty : r.pending.size = 0 := by
              simpa [OrdMap.first?, OrdMap.size] using hfirst
            omega
        | some e =>
            -- each turn drops one frame
            obtain ⟨r₁, frameId, frame, hevict, hget, hcore⟩ := evictOldest_eq_some hfirst
            have hdrops : Drops r r₁ := (drops_dropWhere r _).congr hcore
            have hsize : r₁.pending.size + 1 = r.pending.size := by
              have hpending₁ : r₁.pending = r.pending.erase frameId :=
                (congrArg ReassemblyCore.pending hcore).trans (pending_dropFrame r frameId)
              rw [hpending₁]
              exact OrdMap.size_erase hget
            have hinv : CoreInv r₁.core seen := by
              rw [hcore]
              exact coreInv_dropWhere h _
            obtain ⟨r', dropped', hroom, hinv', hdrops', hlt⟩ :=
              ih r₁ (satAdd32 droppedFrames 1) (by rw [hdrops.config]; exact hpending) (by omega)
                hinv
            refine ⟨r', dropped', ?_, hinv', hdrops.trans hdrops', hlt⟩
            rw [makeRoom, if_pos hfull, hevict]
            exact hroom
      · have hlt : r.pending.size < r.config.maxPendingFrames := Nat.lt_of_not_le hfull
        exact ⟨r, droppedFrames, makeRoom_of_lt hlt fuel droppedFrames, h, .refl r, hlt⟩

/-- A header that `validate_fragment_header` accepts. -/
structure HeaderOk (config : VideoReassemblyConfig) (header : FragmentHeader) : Prop where
  frameId : header.metadata.frameId ≠ 0
  flags : header.metadata.flags < firstUnknownFrameFlag
  count_le : header.fragmentCount ≤ maxVideoFragments
  index_lt : header.fragmentIndex < header.fragmentCount
  size_pos : 0 < header.frameSize
  size_le : header.frameSize ≤ config.maxFrameBytes

theorem validateFragmentHeader_eq_ok_iff {header : FragmentHeader} :
    r.validateFragmentHeader header = .ok () ↔ HeaderOk r.config header := by
  have hflags : header.metadata.flags / firstUnknownFrameFlag = 0 ↔
      header.metadata.flags < firstUnknownFrameFlag := by
    simp [Nat.div_eq_zero_iff, firstUnknownFrameFlag]
  unfold validateFragmentHeader validateFrameMetadata
  constructor
  · intro h
    split at h
    · cases h
    split at h
    · cases h
    simp only [bind, Except.bind] at h
    split at h
    · cases h
    split at h
    · cases h
    split at h
    · cases h
    rename_i hid hf hcount hindex hsize
    exact ⟨hid, hflags.mp (not_not.mp hf), by omega, by omega, by omega, by omega⟩
  · rintro ⟨hid, hf, hcount, hindex, hpos, hsize⟩
    rw [if_neg hid, if_neg (not_not.mpr (hflags.mpr hf))]
    simp only [bind, Except.bind]
    rw [if_neg (by omega), if_neg (by omega), if_neg (by omega)]
    rfl

/-- A frame without fragments is in order. -/
theorem frameOk_empty {header : FragmentHeader} (hcount : 0 < header.fragmentCount) (now : Time) :
    FrameOk seen header.metadata.frameId (emptyFrame header now) where
  id_eq := rfl
  length := List.length_replicate
  count := (presentCount_replicate _).symm
  count_lt := hcount
  bytes := (presentBytes_replicate _).symm
  bytes_le := Nat.zero_le _
  received := by
    intro i fragment hi
    simp [emptyFrame, List.getElem?_replicate] at hi

/-- After `openFrame` the frame is pending. -/
theorem openFrame_spec (h : CoreInv r.core seen) (hpending : 0 < r.config.maxPendingFrames)
    {header : FragmentHeader} (hcount : 0 < header.fragmentCount)
    (hid : r.lastCompletedFrameId < header.metadata.frameId) (outcome : VideoReassemblyOutcome)
    (now : Time) :
    ∃ r' outcome' frame, r.openFrame header outcome now = some (r', outcome') ∧
      CoreInv r'.core seen ∧ r'.config = r.config ∧
      r'.lastCompletedFrameId = r.lastCompletedFrameId ∧
      r'.hasCompletedKeyframe = r.hasCompletedKeyframe ∧
      r'.pending.get? header.metadata.frameId = some frame ∧ outcome'.frame = outcome.frame := by
  unfold openFrame
  cases hcontains : r.pending.contains header.metadata.frameId with
  | true =>
      obtain ⟨frame, hget⟩ := OrdMap.contains_iff.mp hcontains
      exact ⟨r, outcome, frame, rfl, h, rfl, rfl, rfl, hget, rfl⟩
  | false =>
      obtain ⟨r₁, dropped, hroom, hinv, hdrops, hlt⟩ :=
        makeRoom_spec (r.pending.size + 1) r outcome.droppedFrames hpending
          (Nat.lt_succ_self _) h
      have habsent : r₁.pending.get? header.metadata.frameId = none := by
        cases hget : r₁.pending.get? header.metadata.frameId with
        | none => rfl
        | some frame =>
            rw [OrdMap.contains_eq_false_iff, hdrops.pending _ frame hget] at hcontains
            cases hcontains
      simp only [Bool.false_eq_true, if_false, hroom, Option.map_some]
      refine ⟨_, _, emptyFrame header now, rfl, ?_, hdrops.config, hdrops.last, hdrops.keyframe,
        by simp, rfl⟩
      refine ⟨?_, ?_, hinv.bytes_le, ?_, ?_⟩
      · show (r₁.pending.insert _ _).size ≤ r₁.config.maxPendingFrames
        rw [OrdMap.size_insert_of_none _ habsent]
        exact hlt
      · show r₁.pendingBytes = (r₁.pending.insert _ _).total _
        rw [OrdMap.total_insert, OrdMap.erase_eq_of_get?_none habsent]
        have hbytes : r₁.pendingBytes = r₁.pending.total _ := hinv.bytes
        simp [emptyFrame, hbytes]
      · intro frameId frame hget
        rcases OrdMap.get?_insert_eq_some hget with ⟨rfl, _⟩ | ⟨_, hget⟩
        · show r₁.lastCompletedFrameId < header.metadata.frameId
          rw [hdrops.last]
          exact hid
        · exact hinv.above frameId frame hget
      · intro frameId frame hget
        rcases OrdMap.get?_insert_eq_some hget with ⟨rfl, rfl⟩ | ⟨_, hget⟩
        · exact frameOk_empty hcount now
        · exact hinv.frames frameId frame hget

/-! ## The effect of a push -/

/-- The frame that a call returned. -/
def returned : Except VideoDatagramError VideoReassemblyOutcome → Option CompleteVideoFrame
  | .ok outcome => outcome.frame
  | .error _ => none

/-- The state after a push, and the frame it returned. -/
def Effect (seen : FragmentHeader → Bytes → Prop) (r r' : VideoReassembler) :
    Option CompleteVideoFrame → Prop
  | none => r'.config = r.config ∧ CoreInv r'.core seen ∧
      r'.lastCompletedFrameId = r.lastCompletedFrameId ∧
      r'.hasCompletedKeyframe = r.hasCompletedKeyframe
  | some frame => r'.config = r.config ∧ CoreInv r'.core seen ∧
      r.lastCompletedFrameId < frame.metadata.frameId ∧
      r'.lastCompletedFrameId = frame.metadata.frameId ∧
      r'.hasCompletedKeyframe = (r.hasCompletedKeyframe || frame.metadata.isKeyframe) ∧
      (r.hasCompletedKeyframe = true ∨ frame.metadata.isKeyframe = true) ∧
      Assembled seen frame

theorem Effect.congr {returned : Option CompleteVideoFrame} {r'' : VideoReassembler}
    (h : Effect seen r r' returned) (hcore : r''.core = r'.core) : Effect seen r r'' returned := by
  obtain ⟨hconfig, _, _, hlast, hkeyframe⟩ := ReassemblyCore.mk.inj hcore
  cases returned with
  | none =>
      obtain ⟨h₁, h₂, h₃, h₄⟩ := h
      exact ⟨hconfig.trans h₁, hcore ▸ h₂, hlast.trans h₃, hkeyframe.trans h₄⟩
  | some frame =>
      obtain ⟨h₁, h₂, h₃, h₄, h₅, h₆⟩ := h
      exact ⟨hconfig.trans h₁, hcore ▸ h₂, h₃, hlast.trans h₄, hkeyframe.trans h₅, h₆⟩

theorem Effect.inv {returned : Option CompleteVideoFrame} (h : Effect seen r r' returned) :
    r'.config = r.config ∧ CoreInv r'.core seen := by
  cases returned with
  | none => exact ⟨h.1, h.2.1⟩
  | some frame => exact ⟨h.1, h.2.1⟩

theorem effect_same (h : CoreInv r.core seen) : Effect seen r r none := ⟨rfl, h, rfl, rfl⟩

theorem effect_dropFrame (h : CoreInv r.core seen) (frameId : Nat) :
    Effect seen r (r.dropFrame frameId) none :=
  ⟨rfl, coreInv_dropWhere h _, rfl, rfl⟩

/-- Dropping a pending frame frees its bytes. -/
theorem core_dropFrame {frameId : Nat} {frame : PendingFrame}
    (hget : r.pending.get? frameId = some frame) :
    (r.dropFrame frameId).core = (r.removeFrame frameId frame).core := by
  have hsplit := r.pending.total_filter_add (fun id _ => decide (id = frameId))
    PendingFrame.receivedBytes
  have herase := OrdMap.total_erase PendingFrame.receivedBytes hget
  have hrest : r.pending.filter (fun id _ => !decide (id = frameId)) = r.pending.erase frameId :=
    pending_dropFrame r frameId
  rw [hrest] at hsplit
  have hgone : (r.pending.filter (fun id _ => decide (id = frameId))).total
      PendingFrame.receivedBytes = frame.receivedBytes := by omega
  simp only [core, removeFrame, dropFrame, dropWhere, hrest, hgone]

theorem coreInv_removeFrame (h : CoreInv r.core seen) {frameId : Nat} {frame : PendingFrame}
    (hget : r.pending.get? frameId = some frame) : CoreInv (r.removeFrame frameId frame).core seen := by
  rw [← core_dropFrame hget]
  exact coreInv_dropWhere h _

/-- The state with one fragment more in `frame`. -/
def withFragment (r : VideoReassembler) (frame : PendingFrame) (header : FragmentHeader)
    (fragment : Bytes) (now : Time) : VideoReassembler :=
  { r with
    pending := r.pending.insert header.metadata.frameId
      (frame.store header.fragmentIndex fragment now)
    pendingBytes := r.pendingBytes + fragment.length }

section Fragment

variable {frame : PendingFrame} {header : FragmentHeader} {fragment : Bytes} {now : Time}

@[simp] theorem get?_withFragment :
    (r.withFragment frame header fragment now).pending.get? header.metadata.frameId =
      some (frame.store header.fragmentIndex fragment now) := by
  simp [withFragment]

/-- Taking a frame out undoes the storing of its last fragment. -/
theorem core_removeFrame_withFragment :
    ((r.withFragment frame header fragment now).removeFrame header.metadata.frameId
      (frame.store header.fragmentIndex fragment now)).core =
      (r.removeFrame header.metadata.frameId frame).core := by
  have hsum : r.pendingBytes + fragment.length - (frame.receivedBytes + fragment.length) =
      r.pendingBytes - frame.receivedBytes := by omega
  simp only [core, removeFrame, withFragment, PendingFrame.store, OrdMap.erase_insert, hsum]

/-- A fragment that is stored and makes its frame malformed. -/
theorem effect_malformed (h : CoreInv r.core seen)
    (hget : r.pending.get? header.metadata.frameId = some frame) :
    Effect seen r ((r.withFragment frame header fragment now).dropMalformed
      header.metadata.frameId) none := by
  refine (effect_dropFrame h header.metadata.frameId).congr ?_
  rw [core_dropMalformed, core_dropFrame get?_withFragment, core_removeFrame_withFragment,
    core_dropFrame hget]

/-- What `store` does to a frame that the fragment belongs to. -/
theorem frameOk_store (now : Time) (h : FrameOk seen header.metadata.frameId frame)
    (hsame : frame.header.belongsToSameFrame header = true)
    (hslot : frame.fragments[header.fragmentIndex]? = some none) (hseen : seen header fragment) :
    (frame.store header.fragmentIndex fragment now).receivedFragments =
      presentCount (frame.store header.fragmentIndex fragment now).fragments ∧
    (frame.store header.fragmentIndex fragment now).receivedBytes =
      presentBytes (frame.store header.fragmentIndex fragment now).fragments ∧
    (frame.store header.fragmentIndex fragment now).fragments.length =
      frame.header.fragmentCount ∧
    ∀ i f, (frame.store header.fragmentIndex fragment now).fragments[i]? = some (some f) →
      seen { frame.header with fragmentIndex := i } f := by
  obtain ⟨hcount, hbytes⟩ := present_set hslot fragment
  have hheader : { frame.header with fragmentIndex := header.fragmentIndex } = header := by
    simp only [FragmentHeader.belongsToSameFrame, Bool.and_eq_true, decide_eq_true_eq] at hsame
    obtain ⟨⟨hmetadata, hfragments⟩, hsize⟩ := hsame
    simp only [hmetadata, hfragments, hsize]
  refine ⟨?_, ?_, ?_, ?_⟩
  · show frame.receivedFragments + 1 = presentCount (frame.fragments.set _ _)
    rw [hcount, h.count]
  · show frame.receivedBytes + fragment.length = presentBytes (frame.fragments.set _ _)
    rw [hbytes, h.bytes]
  · show (frame.fragments.set _ _).length = _
    rw [List.length_set, h.length]
  · intro i f hi
    have hi : (frame.fragments.set header.fragmentIndex (some fragment))[i]? = some (some f) := hi
    by_cases heq : header.fragmentIndex = i
    · subst heq
      have hlt : header.fragmentIndex < frame.fragments.length :=
        (List.getElem?_eq_some_iff.mp hslot).1
      rw [List.getElem?_set_self hlt] at hi
      cases hi
      rw [hheader]
      exact hseen
    · rw [List.getElem?_set_ne heq] at hi
      exact h.received i f hi

/-- A fragment that leaves its frame incomplete. -/
theorem effect_stored (h : CoreInv r.core seen)
    (hget : r.pending.get? header.metadata.frameId = some frame)
    (hsame : frame.header.belongsToSameFrame header = true)
    (hslot : frame.fragments[header.fragmentIndex]? = some none) (hseen : seen header fragment)
    (hmemory : r.pendingBytes + fragment.length ≤ r.config.maxMemoryBytes)
    (hsize : frame.receivedBytes + fragment.length ≤ header.frameSize)
    (hcount : frame.receivedFragments + 1 ≠ header.fragmentCount) :
    Effect seen r (r.withFragment frame header fragment now) none := by
  have hframe := h.frames _ frame hget
  obtain ⟨hfragments, hbytes, hlength, hreceived⟩ := frameOk_store now hframe hsame hslot
    hseen
  refine ⟨rfl, ⟨?_, ?_, hmemory, ?_, ?_⟩, rfl, rfl⟩
  · show (r.pending.insert _ _).size ≤ _
    rw [OrdMap.size_insert_of_some _ hget]
    exact h.size_le
  · show r.pendingBytes + fragment.length = (r.pending.insert _ _).total _
    have herase := OrdMap.total_erase PendingFrame.receivedBytes hget
    have htotal : r.pendingBytes = r.pending.total _ := h.bytes
    rw [OrdMap.total_insert, htotal]
    simp only [PendingFrame.store]
    omega
  · intro frameId f hf
    rcases OrdMap.get?_insert_eq_some hf with ⟨rfl, _⟩ | ⟨_, hf⟩
    · exact h.above _ frame hget
    · exact h.above frameId f hf
  · intro frameId f hf
    rcases OrdMap.get?_insert_eq_some hf with ⟨rfl, rfl⟩ | ⟨_, hf⟩
    · simp only [FragmentHeader.belongsToSameFrame, Bool.and_eq_true, decide_eq_true_eq] at hsame
      have hlt := hframe.count_lt
      refine ⟨hframe.id_eq, hlength, hfragments, ?_, hbytes, ?_, hreceived⟩
      · show frame.receivedFragments + 1 < frame.header.fragmentCount
        omega
      · show frame.receivedBytes + fragment.length ≤ frame.header.frameSize
        omega
    · exact h.frames frameId f hf

/-- The state after a frame is complete, before what is obsolete is dropped. -/
def completed (r : VideoReassembler) (header : FragmentHeader) (frame : PendingFrame) :
    VideoReassembler :=
  { r.removeFrame header.metadata.frameId frame with
    lastCompletedFrameId := frame.header.metadata.frameId
    hasCompletedKeyframe := r.hasCompletedKeyframe || header.metadata.isKeyframe }

theorem returnFrame_eq (r : VideoReassembler) (header : FragmentHeader) {frame : PendingFrame}
    {whole : List Bytes} (hwhole : frame.fragments.mapM id = some whole)
    (outcome : VideoReassemblyOutcome) (now : Time) :
    ∃ r' outcome', r.returnFrame header frame outcome now = some (r', outcome') ∧
      r'.core = ((r.completed header frame).dropWhere
        (fun id _ => decide (id ≤ frame.header.metadata.frameId))).core ∧
      outcome'.frame = some { metadata := frame.header.metadata, payload := whole.flatten } := by
  unfold returnFrame
  simp only [hwhole, Option.map_some]
  exact ⟨_, _, rfl, core_countObsolete _ _ _ _ _, rfl⟩

/-- A complete frame is taken out, and with it what it makes obsolete. -/
theorem effect_returned (h : CoreInv r.core seen)
    (hget : r.pending.get? header.metadata.frameId = some frame)
    (hsame : frame.header.belongsToSameFrame header = true)
    (hslot : frame.fragments[header.fragmentIndex]? = some none) (hseen : seen header fragment)
    (hcount : frame.receivedFragments + 1 = header.fragmentCount)
    (hsize : frame.receivedBytes + fragment.length = header.frameSize)
    (hgate : r.hasCompletedKeyframe = true ∨ header.metadata.isKeyframe = true)
    (outcome : VideoReassemblyOutcome) (now : Time) :
    ∃ r' outcome', (r.withFragment frame header fragment now).returnFrame header
        (frame.store header.fragmentIndex fragment now) outcome now = some (r', outcome') ∧
      Effect seen r r' outcome'.frame := by
  have hframe := h.frames _ frame hget
  obtain ⟨hfragments, hbytes, hlength, hreceived⟩ := frameOk_store now hframe hsame hslot hseen
  simp only [FragmentHeader.belongsToSameFrame, Bool.and_eq_true, decide_eq_true_eq] at hsame
  obtain ⟨⟨hmetadata, hfragmentCount⟩, hframeSize⟩ := hsame
  -- no slot is empty any more
  have hfull : presentCount (frame.store header.fragmentIndex fragment now).fragments =
      (frame.store header.fragmentIndex fragment now).fragments.length := by
    rw [hlength, ← hfragments, hfragmentCount, ← hcount]
    rfl
  obtain ⟨whole, hwhole, hmapM, hpayload⟩ := mapM_of_full hfull
  set r₁ := r.withFragment frame header fragment now
  set frame₁ := frame.store header.fragmentIndex fragment now
  obtain ⟨r', outcome', hreturn, hcore, hreturned⟩ := returnFrame_eq r₁ header hmapM outcome now
  refine ⟨r', outcome', hreturn, ?_⟩
  have hmetadata₁ : frame₁.header.metadata = header.metadata := hmetadata
  obtain ⟨hconfig, _, _, hlast, hkeyframe⟩ := ReassemblyCore.mk.inj hcore
  -- without the frame the invariant holds, and what is left is above the frame
  have hrest : CoreInv ((r₁.removeFrame header.metadata.frameId frame₁).dropWhere
      (fun id _ => decide (id ≤ frame₁.header.metadata.frameId))).core seen := by
    refine coreInv_dropWhere ?_ _
    rw [core_removeFrame_withFragment]
    exact coreInv_removeFrame h hget
  have hinv : CoreInv r'.core seen := by
    rw [hcore]
    refine { hrest with above := ?_ }
    intro frameId f hf
    have hkept := (OrdMap.get?_filter_eq_some.mp hf).2
    show frame₁.header.metadata.frameId < frameId
    simpa using hkept
  rw [hreturned]
  refine ⟨hconfig, hinv, ?_, hlast, ?_, ?_, ?_⟩
  · show r.lastCompletedFrameId < frame₁.header.metadata.frameId
    rw [hmetadata₁]
    exact h.above _ frame hget
  · show r'.hasCompletedKeyframe = (r.hasCompletedKeyframe || frame₁.header.metadata.isKeyframe)
    rw [hmetadata₁]
    exact hkeyframe
  · show r.hasCompletedKeyframe = true ∨ frame₁.header.metadata.isKeyframe = true
    rw [hmetadata₁]
    exact hgate
  · refine ⟨frame₁.header, whole, rfl, ?_, rfl, ?_, ?_⟩
    · have hall := congrArg List.length hwhole
      rw [hlength, List.length_map] at hall
      exact hall.symm
    · show whole.flatten.length = frame.header.frameSize
      rw [hpayload, ← hbytes, hframeSize, ← hsize]
      rfl
    · intro i f hi
      refine hreceived i f ?_
      rw [hwhole, List.getElem?_map, hi]
      rfl

/-- Every way a new fragment that fits can end. -/
theorem storeFragment_spec (h : CoreInv r.core seen)
    (hget : r.pending.get? header.metadata.frameId = some frame)
    (hsame : frame.header.belongsToSameFrame header = true)
    (hslot : frame.fragments[header.fragmentIndex]? = some none) (hseen : seen header fragment)
    (hmemory : r.pendingBytes + fragment.length ≤ r.config.maxMemoryBytes)
    {outcome : VideoReassemblyOutcome} (houtcome : outcome.frame = none) :
    ∃ r' result, r.storeFragment frame header fragment outcome now = some (r', result) ∧
      Effect seen r r' (returned result) := by
  unfold storeFragment
  by_cases hlong : (frame.store header.fragmentIndex fragment now).receivedBytes > header.frameSize
  · simp only [if_pos hlong]
    exact ⟨_, _, rfl, effect_malformed h hget⟩
  by_cases hmissing : (frame.store header.fragmentIndex fragment now).receivedFragments ≠
      header.fragmentCount
  · simp only [if_neg hlong, if_pos hmissing]
    refine ⟨_, _, rfl, ?_⟩
    show Effect seen r ((r.withFragment frame header fragment now).requestKeyframe outcome now).1
      outcome.frame
    rw [houtcome]
    exact (effect_stored h hget hsame hslot hseen hmemory (Nat.le_of_not_lt hlong)
      hmissing).congr (core_requestKeyframe _ _ _)
  by_cases hwrong : (frame.store header.fragmentIndex fragment now).receivedBytes ≠ header.frameSize
  · simp only [if_neg hlong, if_neg hmissing, if_pos hwrong]
    exact ⟨_, _, rfl, effect_malformed h hget⟩
  simp only [if_neg hlong, if_neg hmissing, if_neg hwrong]
  have hstored : ({ r with
      pending := r.pending.insert header.metadata.frameId
        (frame.store header.fragmentIndex fragment now)
      pendingBytes := r.pendingBytes + fragment.length } : VideoReassembler) =
      r.withFragment frame header fragment now := rfl
  rw [hstored, completeFrame, get?_withFragment, Option.bind_some]
  split
  · -- a delta before the first keyframe
    refine ⟨_, _, rfl, ?_⟩
    show Effect seen r _ outcome.frame
    rw [houtcome]
    refine (effect_dropFrame h header.metadata.frameId).congr ?_
    rw [core_dropFrame hget, core_dropPreKeyframe, core_removeFrame_withFragment]
  · rename_i hgate
    have hgate : r.hasCompletedKeyframe = true ∨ header.metadata.isKeyframe = true := by
      cases hkey : r.hasCompletedKeyframe with
      | true => exact .inl rfl
      | false => exact .inr (by simpa [withFragment, hkey] using hgate)
    obtain ⟨r', outcome', hreturn, heffect⟩ := effect_returned h hget hsame hslot hseen
      (not_not.mp hmissing) (not_not.mp hwrong) hgate outcome now
    rw [hreturn]
    exact ⟨r', .ok outcome', rfl, heffect⟩

theorem addFragment_spec (h : CoreInv r.core seen) (hok : HeaderOk r.config header)
    (hget : r.pending.get? header.metadata.frameId = some frame) (hseen : seen header fragment)
    {outcome : VideoReassemblyOutcome} (houtcome : outcome.frame = none) (now : Time) :
    ∃ r' result, r.addFragment header fragment outcome now = some (r', result) ∧
      Effect seen r r' (returned result) := by
  unfold addFragment
  simp only [hget, Option.bind_some]
  by_cases hsame : frame.header.belongsToSameFrame header = true
  · -- the index is inside the vector: both headers have the same count
    have hlength : frame.fragments.length = header.fragmentCount := by
      have hframe := h.frames _ frame hget
      simp only [FragmentHeader.belongsToSameFrame, Bool.and_eq_true, decide_eq_true_eq] at hsame
      rw [hframe.length, hsame.1.2]
    have hlt : header.fragmentIndex < frame.fragments.length := by
      rw [hlength]
      exact hok.index_lt
    simp only [hsame, Bool.not_true, Bool.false_eq_true, if_false]
    rw [List.getElem?_eq_getElem hlt, Option.bind_some]
    cases hslot : frame.fragments[header.fragmentIndex] with
    | some existing =>
        simp only
        split
        · refine ⟨_, _, rfl, ?_⟩
          show Effect seen r _ outcome.frame
          rw [houtcome]
          exact (effect_same h).congr rfl
        · exact ⟨_, _, rfl, (effect_dropFrame h _).congr rfl⟩
    | none =>
        simp only
        split
        · exact ⟨_, _, rfl, effect_dropFrame h _⟩
        · rename_i hmemory
          have hslot' : frame.fragments[header.fragmentIndex]? = some none := by
            rw [List.getElem?_eq_getElem hlt, hslot]
          exact storeFragment_spec h hget hsame hslot' hseen (Nat.le_of_not_lt hmemory) houtcome
  · have hsame : frame.header.belongsToSameFrame header = false := by simpa using hsame
    simp only [hsame, Bool.not_false, if_true]
    exact ⟨_, _, rfl, (effect_dropFrame h _).congr rfl⟩

theorem Effect.trans {r'' : VideoReassembler} {result : Option CompleteVideoFrame}
    (hconfig : r'.config = r.config) (hlast : r'.lastCompletedFrameId = r.lastCompletedFrameId)
    (hkeyframe : r'.hasCompletedKeyframe = r.hasCompletedKeyframe)
    (h : Effect seen r' r'' result) : Effect seen r r'' result := by
  cases result with
  | none =>
      obtain ⟨h₁, h₂, h₃, h₄⟩ := h
      exact ⟨h₁.trans hconfig, h₂, h₃.trans hlast, h₄.trans hkeyframe⟩
  | some frame =>
      obtain ⟨h₁, h₂, h₃, h₄, h₅, h₆, h₇⟩ := h
      exact ⟨h₁.trans hconfig, h₂, hlast ▸ h₃, h₄, hkeyframe ▸ h₅, hkeyframe ▸ h₆, h₇⟩

theorem pushFragment_spec (h : CoreInv r.core seen) (hpending : 0 < r.config.maxPendingFrames)
    (hseen : seen header fragment) {outcome : VideoReassemblyOutcome}
    (houtcome : outcome.frame = none) (now : Time) :
    ∃ r' result, r.pushFragment header fragment outcome now = some (r', result) ∧
      Effect seen r r' (returned result) := by
  unfold pushFragment
  cases hvalid : r.validateFragmentHeader header with
  | error error => exact ⟨r, _, rfl, effect_same h⟩
  | ok u =>
      have hok := validateFragmentHeader_eq_ok_iff.mp hvalid
      simp only
      split
      · refine ⟨_, _, rfl, ?_⟩
        show Effect seen r _ outcome.frame
        rw [houtcome]
        exact (effect_same h).congr rfl
      · rename_i hnew
        obtain ⟨r₁, outcome₁, frame, hopen, hinv, hconfig, hlast, hkeyframe, hget, hframe⟩ :=
          openFrame_spec h hpending (Nat.zero_lt_of_lt hok.index_lt) (Nat.lt_of_not_le hnew)
            outcome now
        obtain ⟨r', result, hadd, heffect⟩ :=
          addFragment_spec hinv (hconfig ▸ hok) hget hseen (hframe.trans houtcome) now
        rw [hopen, Option.bind_some]
        exact ⟨r', result, hadd, heffect.trans hconfig hlast hkeyframe⟩

end Fragment

/-- `push` with any bytes at any time. -/
theorem push_spec (h : CoreInv r.core seen) (hpending : 0 < r.config.maxPendingFrames)
    (datagram : Bytes) (now : Time) :
    ∃ r' result, r.push datagram now = some (r', result) ∧
      Effect (fun header fragment => seen header fragment ∨ Carries datagram header fragment) r r'
        (returned result) := by
  have hexpire := drops_expire r now
  have hinv : CoreInv (r.expire now).1.core
      (fun header fragment => seen header fragment ∨ Carries datagram header fragment) :=
    (coreInv_expire h now).mono (fun _ _ hseen => .inl hseen)
  have hquiet := (effect_same hinv).trans hexpire.config hexpire.last hexpire.keyframe
  obtain ⟨decoded, hdecoded⟩ := Option.isSome_iff_exists.mp (decodeMessage_defined datagram)
  simp only [push, hdecoded, Option.bind_some]
  cases decoded with
  | error error => exact ⟨_, _, rfl, hquiet⟩
  | ok message =>
      simp only
      split
      · exact ⟨_, _, rfl, hquiet⟩
      · rename_i htype
        obtain ⟨fragment, hfragment⟩ :=
          Option.isSome_iff_exists.mp (decodeFragmentPayload_defined message.payload)
        rw [hfragment, Option.bind_some]
        cases fragment with
        | error error => exact ⟨_, _, rfl, hquiet⟩
        | ok f =>
            obtain ⟨header, fragment⟩ := f
            obtain ⟨r', result, hpush, heffect⟩ :=
              pushFragment_spec hinv (by rw [hexpire.config]; exact hpending)
                (.inr ⟨message, hdecoded, not_not.mp htype, hfragment⟩) (frame_expire r now) now
            exact ⟨r', result, hpush, heffect.trans hexpire.config hexpire.last hexpire.keyframe⟩

end VideoReassembler

end HbbCommon.Transport
