import HbbCommon.Transport.Video.Logic.ReassemblerInv

/-!
# Fragments of one transmission

`Holds t got frame`: the pending frame has collected the fragments `got` of the
transmission `t` and nothing else. A further fragment of `t` is then a duplicate,
or it fills an empty slot; what `addFragment` does in each case is computed here,
for any state around the frame.
-/

namespace HbbCommon.Transport

open HbbCommon.Base

namespace VideoTransmission

variable {t : VideoTransmission} {datagrams : List Bytes} {got : List Nat}

/-- The slots of a frame that has the fragments `got`. -/
def slots (t : VideoTransmission) (got : List Nat) : List (Option Bytes) :=
  (List.range t.fragmentCount).map (fun i => if i ∈ got then some (t.fragment i) else none)

/-- Nothing is missing. -/
def Complete (t : VideoTransmission) (got : List Nat) : Prop := ∀ i < t.fragmentCount, i ∈ got

instance (t : VideoTransmission) (got : List Nat) : Decidable (t.Complete got) :=
  inferInstanceAs (Decidable (∀ i < t.fragmentCount, i ∈ got))

theorem length_slots (t : VideoTransmission) (got : List Nat) :
    (t.slots got).length = t.fragmentCount := by
  simp [slots]

theorem getElem?_slots {i : Nat} (hi : i < t.fragmentCount) :
    (t.slots got)[i]? = some (if i ∈ got then some (t.fragment i) else none) := by
  simp [slots, hi]

theorem slots_nil (t : VideoTransmission) : t.slots [] = List.replicate t.fragmentCount none := by
  apply List.ext_getElem
  · simp [slots]
  · intro i _ _
    simp [slots]

theorem set_slots (t : VideoTransmission) (got : List Nat) (i : Nat) :
    (t.slots got).set i (some (t.fragment i)) = t.slots (i :: got) := by
  apply List.ext_getElem
  · simp [slots]
  · intro j _ _
    rw [List.getElem_set]
    by_cases hj : i = j
    · subst hj
      simp [slots]
    · simp [slots, hj, Ne.symm hj]

theorem slots_duplicate {i : Nat} (hi : i ∈ got) : t.slots (i :: got) = t.slots got := by
  unfold slots
  apply List.map_congr_left
  intro j _
  by_cases hj : j = i
  · subst hj
    simp [hi]
  · simp [hj]

/-- The slots are full exactly when nothing is missing. -/
theorem presentCount_slots : presentCount (t.slots got) = t.fragmentCount ↔ t.Complete got := by
  have hlength := t.length_slots got
  constructor
  · intro hcount i hi
    by_contra hmissing
    have hall : ∀ slot ∈ t.slots got, slot.isSome = true := by
      apply List.countP_eq_length.mp
      show presentCount (t.slots got) = _
      rw [hcount, hlength]
    have hslot : (t.slots got)[i]? = some none := by
      rw [getElem?_slots hi, if_neg hmissing]
    simpa using hall _ (List.mem_of_getElem? hslot)
  · intro hcomplete
    rw [← hlength]
    apply List.countP_eq_length.mpr
    intro slot hslot
    obtain ⟨i, hi, rfl⟩ := List.mem_map.mp hslot
    simp [hcomplete i (List.mem_range.mp hi)]

/-- The slots never hold more than the frame. -/
theorem presentBytes_slots_le (h : t.Fragmented datagrams) (got : List Nat) :
    presentBytes (t.slots got) ≤ t.frame.length := by
  have hframe := congrArg List.length h.flatten
  rw [List.length_flatten, List.map_map] at hframe
  rw [← hframe, presentBytes, slots, List.map_map]
  apply List.sum_le_sum
  intro i _
  by_cases hi : i ∈ got
  · simp [hi, slotLength]
  · simp [hi, slotLength]

/-- Full slots hold the frame. -/
theorem slots_complete (h : t.Fragmented datagrams) (hcomplete : t.Complete got) :
    presentBytes (t.slots got) = t.frame.length ∧
    ∃ whole : List Bytes, (t.slots got).mapM id = some whole ∧ whole.flatten = t.frame := by
  have hslots : t.slots got = ((List.range t.fragmentCount).map t.fragment).map some := by
    rw [List.map_map]
    apply List.map_congr_left
    intro i hi
    simp [hcomplete i (List.mem_range.mp hi)]
  have hfull : presentCount (t.slots got) = (t.slots got).length := by
    rw [presentCount_slots.mpr hcomplete, t.length_slots]
  obtain ⟨whole, hwhole, hmapM, hlength⟩ := mapM_of_full hfull
  have heq : whole = (List.range t.fragmentCount).map t.fragment := by
    rw [hslots] at hwhole
    exact (List.map_injective_iff.mpr (Option.some_injective _) hwhole).symm
  have hflatten : whole.flatten = t.frame := by
    rw [heq, h.flatten]
  exact ⟨by rw [← hlength, hflatten], whole, hmapM, hflatten⟩

/-- A pending frame with the fragments `got` of `t`. -/
structure Holds (t : VideoTransmission) (got : List Nat) (frame : PendingFrame) : Prop where
  metadata : frame.header.metadata = t.metadata
  count : frame.header.fragmentCount = t.fragmentCount
  size : frame.header.frameSize = t.frame.length
  fragments : frame.fragments = t.slots got
  received : frame.receivedFragments = presentCount frame.fragments
  bytes : frame.receivedBytes = presentBytes frame.fragments

variable {frame : PendingFrame}

theorem holds_empty (t : VideoTransmission) (i : Nat) (now : Time) :
    t.Holds [] (VideoReassembler.emptyFrame (t.fragmentHeader i) now) where
  metadata := rfl
  count := rfl
  size := rfl
  fragments := t.slots_nil.symm
  received := (presentCount_replicate _).symm
  bytes := (presentBytes_replicate _).symm

theorem Holds.sameFrame (h : t.Holds got frame) (i : Nat) :
    frame.header.belongsToSameFrame (t.fragmentHeader i) = true := by
  simp [FragmentHeader.belongsToSameFrame, fragmentHeader, h.metadata, h.count, h.size]

theorem Holds.duplicate (h : t.Holds got frame) {i : Nat} (hi : i ∈ got) :
    t.Holds (i :: got) frame :=
  { h with fragments := h.fragments.trans (slots_duplicate hi).symm }

/-- A fragment that was missing fills its slot. -/
theorem Holds.store (h : t.Holds got frame) {i : Nat} (hi : i < t.fragmentCount) (hnew : i ∉ got)
    (now : Time) : t.Holds (i :: got) (frame.store i (t.fragment i) now) := by
  have hslot : frame.fragments[i]? = some none := by
    rw [h.fragments, getElem?_slots hi, if_neg hnew]
  obtain ⟨hcount, hbytes⟩ := present_set hslot (t.fragment i)
  refine ⟨h.metadata, h.count, h.size, ?_, ?_, ?_⟩
  · show frame.fragments.set i _ = _
    rw [h.fragments, set_slots]
  · show frame.receivedFragments + 1 = presentCount (frame.fragments.set i _)
    rw [hcount, h.received]
  · show frame.receivedBytes + _ = presentBytes (frame.fragments.set i _)
    rw [hbytes, h.bytes]

theorem Holds.bytes_le (h : t.Holds got frame) (hfragmented : t.Fragmented datagrams) :
    frame.receivedBytes ≤ t.frame.length := by
  rw [h.bytes, h.fragments]
  exact presentBytes_slots_le hfragmented got

theorem Holds.received_eq_iff (h : t.Holds got frame) :
    frame.receivedFragments = t.fragmentCount ↔ t.Complete got := by
  rw [h.received, h.fragments]
  exact presentCount_slots

end VideoTransmission

/-! ## What `push` does with a fragment -/

namespace VideoReassembler

variable {t : VideoTransmission} {datagrams : List Bytes} {got : List Nat} {frame : PendingFrame}
  {r : VideoReassembler} {i : Nat}

/-- A datagram that carries a fragment is decoded to it. -/
theorem push_of_carries {datagram : Bytes} {header : FragmentHeader} {fragment : Bytes}
    (h : Carries datagram header fragment) (r : VideoReassembler) (now : Time) :
    r.push datagram now =
      (r.expire now).1.pushFragment header fragment (r.expire now).2 now := by
  obtain ⟨message, hmessage, htype, hfragment⟩ := h
  simp only [push, hmessage, Option.bind_some, htype, ne_eq, not_true_eq_false, if_false, hfragment]

/-- The header of a fragment passes every check but the limit on frames, which is
the receiver's own. -/
theorem headerOk_fragment (h : t.Fragmented datagrams) (hi : i < t.fragmentCount)
    (hsize : t.frame.length ≤ r.config.maxFrameBytes) :
    HeaderOk r.config (t.fragmentHeader i) where
  frameId := h.frameId
  flags := h.flags
  count_le := h.count_le
  index_lt := hi
  size_pos := List.length_pos_iff.mpr h.nonempty
  size_le := hsize

/-- A fragment of a frame that was completed before is ignored. -/
theorem pushFragment_obsolete (h : t.Fragmented datagrams) (hi : i < t.fragmentCount)
    (hsize : t.frame.length ≤ r.config.maxFrameBytes)
    (hid : t.metadata.frameId ≤ r.lastCompletedFrameId) (outcome : VideoReassemblyOutcome)
    (now : Time) :
    ∃ r', r.pushFragment (t.fragmentHeader i) (t.fragment i) outcome now = some (r', .ok outcome) ∧
      r'.core = r.core := by
  have hvalid := validateFragmentHeader_eq_ok_iff.mpr (headerOk_fragment h hi hsize)
  have hid' : (t.fragmentHeader i).metadata.frameId ≤ r.lastCompletedFrameId := hid
  simp only [pushFragment, hvalid, if_pos hid']
  exact ⟨_, rfl, rfl⟩

theorem pushFragment_open (h : t.Fragmented datagrams) (hi : i < t.fragmentCount)
    (hsize : t.frame.length ≤ r.config.maxFrameBytes)
    (hid : r.lastCompletedFrameId < t.metadata.frameId) (outcome : VideoReassemblyOutcome)
    (now : Time) :
    r.pushFragment (t.fragmentHeader i) (t.fragment i) outcome now =
      (r.openFrame (t.fragmentHeader i) outcome now).bind fun (r, outcome) =>
        r.addFragment (t.fragmentHeader i) (t.fragment i) outcome now := by
  have hvalid := validateFragmentHeader_eq_ok_iff.mpr (headerOk_fragment h hi hsize)
  have hid' : ¬ (t.fragmentHeader i).metadata.frameId ≤ r.lastCompletedFrameId := Nat.not_le.mpr hid
  simp only [pushFragment, hvalid, if_neg hid']

section Pending

variable (hholds : t.Holds got frame) (hi : i < t.fragmentCount)

include hholds hi

/-- A fragment that leaves the frame incomplete. -/
theorem storeFragment_incomplete (hfragmented : t.Fragmented datagrams) (hgot : i ∉ got)
    (hmissing : ¬ t.Complete (i :: got)) (outcome : VideoReassemblyOutcome) (now : Time) :
    ∃ r' outcome', r.storeFragment frame (t.fragmentHeader i) (t.fragment i) outcome now =
        some (r', .ok outcome') ∧ outcome'.frame = outcome.frame ∧
      r'.core = (r.withFragment frame (t.fragmentHeader i) (t.fragment i) now).core := by
  have hstored := hholds.store hi hgot now
  have hbytes : ¬ (frame.store i (t.fragment i) now).receivedBytes > t.frame.length :=
    Nat.not_lt.mpr (hstored.bytes_le hfragmented)
  have hcount : (frame.store i (t.fragment i) now).receivedFragments ≠ t.fragmentCount :=
    fun heq => hmissing (hstored.received_eq_iff.mp heq)
  have hheader : (t.fragmentHeader i).frameSize = t.frame.length ∧
      (t.fragmentHeader i).fragmentCount = t.fragmentCount ∧
      (t.fragmentHeader i).fragmentIndex = i := ⟨rfl, rfl, rfl⟩
  simp only [storeFragment, hheader, if_neg hbytes, if_pos hcount]
  exact ⟨_, _, rfl, frame_requestKeyframe _ _ _, core_requestKeyframe _ _ _⟩

/-- The last fragment: the counters agree with the header, and the frame is complete. -/
theorem storeFragment_last (hfragmented : t.Fragmented datagrams) (hgot : i ∉ got)
    (hcomplete : t.Complete (i :: got)) (outcome : VideoReassemblyOutcome) (now : Time) :
    r.storeFragment frame (t.fragmentHeader i) (t.fragment i) outcome now =
      ((r.withFragment frame (t.fragmentHeader i) (t.fragment i) now).completeFrame
        (t.fragmentHeader i) outcome now).map (fun (r, outcome) => (r, .ok outcome)) := by
  have hstored := hholds.store hi hgot now
  have hbytes : (frame.store i (t.fragment i) now).receivedBytes = t.frame.length := by
    rw [hstored.bytes, hstored.fragments]
    exact (VideoTransmission.slots_complete hfragmented hcomplete).1
  have hcount : (frame.store i (t.fragment i) now).receivedFragments = t.fragmentCount :=
    hstored.received_eq_iff.mpr hcomplete
  have hheader : (t.fragmentHeader i).frameSize = t.frame.length ∧
      (t.fragmentHeader i).fragmentCount = t.fragmentCount ∧
      (t.fragmentHeader i).fragmentIndex = i := ⟨rfl, rfl, rfl⟩
  simp only [storeFragment, hheader, hbytes, hcount, gt_iff_lt, lt_irrefl, ne_eq, not_true_eq_false,
    if_false]
  rfl

/-- The last fragment of a delta that comes before the first keyframe. -/
theorem storeFragment_preKeyframe (hfragmented : t.Fragmented datagrams) (hgot : i ∉ got)
    (hcomplete : t.Complete (i :: got)) (hcompleted : r.hasCompletedKeyframe = false)
    (hdelta : t.metadata.isKeyframe = false) (outcome : VideoReassemblyOutcome) (now : Time) :
    ∃ r' outcome', r.storeFragment frame (t.fragmentHeader i) (t.fragment i) outcome now =
        some (r', .ok outcome') ∧ outcome'.frame = outcome.frame ∧
      r'.core = (r.removeFrame t.metadata.frameId frame).core := by
  have hcompleted' : (r.withFragment frame (t.fragmentHeader i) (t.fragment i)
      now).hasCompletedKeyframe = false := hcompleted
  have hdelta' : (t.fragmentHeader i).metadata.isKeyframe = false := hdelta
  rw [storeFragment_last hholds hi hfragmented hgot hcomplete, completeFrame, get?_withFragment,
    Option.bind_some, hcompleted', hdelta']
  exact ⟨_, _, rfl, rfl,
    (core_dropPreKeyframe _ _ _ outcome _).trans core_removeFrame_withFragment⟩

/-- The last fragment of any other frame: the frame is returned, and the frames
below it are given up. -/
theorem storeFragment_returned (hfragmented : t.Fragmented datagrams) (hgot : i ∉ got)
    (hcomplete : t.Complete (i :: got))
    (hgate : r.hasCompletedKeyframe = true ∨ t.metadata.isKeyframe = true)
    (outcome : VideoReassemblyOutcome) (now : Time) :
    ∃ r' outcome', r.storeFragment frame (t.fragmentHeader i) (t.fragment i) outcome now =
        some (r', .ok outcome') ∧
      outcome'.frame = some { metadata := t.metadata, payload := t.frame } ∧
      r'.config = r.config ∧ r'.lastCompletedFrameId = t.metadata.frameId ∧
      r'.hasCompletedKeyframe = true ∧
      ∀ frameId f, r'.pending.get? frameId = some f →
        r.pending.get? frameId = some f ∧ t.metadata.frameId < frameId := by
  have hstored := hholds.store hi hgot now
  obtain ⟨_, whole, hwhole, hpayload⟩ := VideoTransmission.slots_complete hfragmented hcomplete
  rw [← hstored.fragments] at hwhole
  have hopen : (!(r.withFragment frame (t.fragmentHeader i) (t.fragment i)
      now).hasCompletedKeyframe && !(t.fragmentHeader i).metadata.isKeyframe) = false := by
    rcases hgate with hcompleted | hkeyframe
    · simp [withFragment, hcompleted]
    · simp [VideoTransmission.fragmentHeader, hkeyframe]
  obtain ⟨r', outcome', hreturn, hcore, hframe⟩ :=
    returnFrame_eq (r.withFragment frame (t.fragmentHeader i) (t.fragment i) now)
      (t.fragmentHeader i) hwhole outcome now
  obtain ⟨hconfig, hpending, _, hlast, hkeyframe⟩ := ReassemblyCore.mk.inj hcore
  rw [storeFragment_last hholds hi hfragmented hgot hcomplete, completeFrame, get?_withFragment,
    Option.bind_some, hopen]
  refine ⟨r', outcome', ?_, ?_, hconfig, ?_, ?_, ?_⟩
  · show Option.map _ (returnFrame _ _ (frame.store i _ _) _ _) = _
    rw [hreturn]
    rfl
  · rw [hframe, hpayload, hstored.metadata]
  · exact hlast.trans (congrArg VideoFrameMetadata.frameId hstored.metadata)
  · rw [hkeyframe]
    show (r.hasCompletedKeyframe || t.metadata.isKeyframe) = true
    rw [Bool.or_eq_true]
    exact hgate
  · intro frameId f hf
    rw [hpending] at hf
    obtain ⟨hf, habove⟩ := OrdMap.get?_filter_eq_some.mp hf
    have habove : t.metadata.frameId < frameId := by
      rw [hstored.metadata] at habove
      simpa using habove
    obtain ⟨_, hf⟩ := OrdMap.get?_erase_eq_some.mp hf
    rcases OrdMap.get?_insert_eq_some hf with ⟨heq, _⟩ | ⟨_, hf⟩
    · exact absurd heq (Nat.ne_of_gt habove)
    · exact ⟨hf, habove⟩

variable (hget : r.pending.get? t.metadata.frameId = some frame)

include hget

theorem addFragment_duplicate (hgot : i ∈ got) (outcome : VideoReassemblyOutcome) (now : Time) :
    ∃ r', r.addFragment (t.fragmentHeader i) (t.fragment i) outcome now = some (r', .ok outcome) ∧
      r'.core = r.core := by
  have hget' : r.pending.get? (t.fragmentHeader i).metadata.frameId = some frame := hget
  have hslot : frame.fragments[(t.fragmentHeader i).fragmentIndex]? = some (some (t.fragment i)) := by
    rw [hholds.fragments]
    exact (VideoTransmission.getElem?_slots hi).trans (by rw [if_pos hgot])
  simp only [addFragment, hget', Option.bind_some, hholds.sameFrame, Bool.not_true,
    Bool.false_eq_true, if_false, hslot, if_true]
  exact ⟨_, rfl, rfl⟩

/-- A missing fragment is stored when there is memory for it. -/
theorem addFragment_missing (hgot : i ∉ got) (outcome : VideoReassemblyOutcome) (now : Time) :
    r.addFragment (t.fragmentHeader i) (t.fragment i) outcome now =
      if r.pendingBytes + (t.fragment i).length > r.config.maxMemoryBytes then
        some (r.dropFrame t.metadata.frameId, .error .memoryLimit)
      else r.storeFragment frame (t.fragmentHeader i) (t.fragment i) outcome now := by
  have hget' : r.pending.get? (t.fragmentHeader i).metadata.frameId = some frame := hget
  have hslot : frame.fragments[(t.fragmentHeader i).fragmentIndex]? = some none := by
    rw [hholds.fragments]
    exact (VideoTransmission.getElem?_slots hi).trans (by rw [if_neg hgot])
  simp only [addFragment, hget', Option.bind_some, hholds.sameFrame, Bool.not_true,
    Bool.false_eq_true, if_false, hslot]
  rfl

end Pending

/-! ## Before the fragment is looked at -/

theorem openFrame_pending (hget : r.pending.get? t.metadata.frameId = some frame)
    (outcome : VideoReassemblyOutcome) (now : Time) :
    r.openFrame (t.fragmentHeader i) outcome now = some (r, outcome) := by
  have hcontains : r.pending.contains (t.fragmentHeader i).metadata.frameId = true :=
    OrdMap.contains_iff.mpr ⟨frame, hget⟩
  rw [openFrame, if_pos hcontains]

/-- A new frame that needs no eviction. -/
theorem openFrame_absent (hget : r.pending.get? t.metadata.frameId = none)
    (hroom : r.pending.size < r.config.maxPendingFrames) (outcome : VideoReassemblyOutcome)
    (now : Time) :
    r.openFrame (t.fragmentHeader i) outcome now =
      some ({ r with pending :=
        r.pending.insert t.metadata.frameId (emptyFrame (t.fragmentHeader i) now) }, outcome) := by
  have hcontains : r.pending.contains (t.fragmentHeader i).metadata.frameId = false :=
    OrdMap.contains_eq_false_iff.mpr hget
  simp only [openFrame, hcontains, Bool.false_eq_true, if_false, makeRoom_of_lt hroom,
    Option.map_some]
  rfl

theorem pending_expire (r : VideoReassembler) (now : Time) :
    (r.expire now).1.pending = r.pending.filter (fun _ frame => !r.config.expired now frame) :=
  congrArg ReassemblyCore.pending (core_expire r now)

/-- A frame that has not expired stays. -/
theorem get?_expire_of_live {frameId : Nat} {now : Time} (hget : r.pending.get? frameId = some frame)
    (hlive : r.config.expired now frame = false) :
    (r.expire now).1.pending.get? frameId = some frame := by
  rw [pending_expire]
  exact OrdMap.get?_filter_eq_some.mpr ⟨hget, by rw [hlive]; rfl⟩

/-- When nothing has expired, `expire` leaves the frames alone. -/
theorem core_expire_of_live {now : Time}
    (hlive : ∀ frameId frame, r.pending.get? frameId = some frame →
      r.config.expired now frame = false) : (r.expire now).1.core = r.core := by
  have hkeep : r.pending.filter (fun _ frame => !r.config.expired now frame) = r.pending := by
    apply OrdMap.filter_eq_self
    intro frameId frame hget
    rw [hlive frameId frame hget]
    rfl
  have hgone : r.pending.filter (fun _ frame => r.config.expired now frame) = ∅ := by
    apply OrdMap.filter_eq_empty
    exact hlive
  have hbytes : r.pendingBytes - (∅ : OrdMap Nat PendingFrame).total PendingFrame.receivedBytes =
      r.pendingBytes := Nat.sub_zero _
  rw [core_expire]
  simp only [core, dropWhere, hkeep, hgone, hbytes]

theorem get?_expire_of_none {frameId : Nat} (now : Time) (hget : r.pending.get? frameId = none) :
    (r.expire now).1.pending.get? frameId = none := by
  cases hget' : (r.expire now).1.pending.get? frameId with
  | none => rfl
  | some frame =>
      rw [(drops_expire r now).pending frameId frame hget'] at hget
      cases hget

theorem pendingBytes_expire_le (r : VideoReassembler) (now : Time) :
    (r.expire now).1.pendingBytes ≤ r.pendingBytes := by
  have hbytes : (r.expire now).1.pendingBytes = r.pendingBytes - _ :=
    congrArg ReassemblyCore.pendingBytes (core_expire r now)
  rw [hbytes]
  exact Nat.sub_le _ _

theorem size_expire_le (r : VideoReassembler) (now : Time) :
    (r.expire now).1.pending.size ≤ r.pending.size := by
  rw [pending_expire]
  exact OrdMap.size_filter_le _ _

end VideoReassembler

end HbbCommon.Transport
