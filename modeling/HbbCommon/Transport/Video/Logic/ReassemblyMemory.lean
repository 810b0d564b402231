import HbbCommon.Transport.Video.Logic.ReassemblerRun
import HbbCommon.Transport.Video.Logic.ReassemblyHonest

/-!
# Honest traffic and the memory limit

The datagrams of frames that a sender really fragmented, under loss, reordering and
repetition. Such traffic is never malformed: every pending frame holds fragments of
one transmission. What is left of the errors of `push` is `MemoryLimit`: a table
that is full of frames gives one up for a new one, a memory that is full does not.

`MemoryFor` is the state before a push in which the memory suffices.
-/

namespace HbbCommon.Transport

open HbbCommon.Base

namespace VideoReassembler

variable {r r' : VideoReassembler}

/-- The pending frames that have not expired. -/
def live (r : VideoReassembler) (now : Time) : OrdMap Nat PendingFrame :=
  r.pending.filter (fun _ frame => !r.config.expired now frame)

/-- The frame that a full table gives up for a new one: the oldest delta, or the
oldest keyframe. -/
def oldest (frames : OrdMap Nat PendingFrame) : Option (Nat × PendingFrame) :=
  (frames.entries.find? (fun e => !e.2.header.metadata.isKeyframe)).or frames.first?

/-- The bytes that a new frame finds freed in a full table. -/
def freedBytes (config : VideoReassemblyConfig) (frames : OrdMap Nat PendingFrame)
    (frameId : Nat) : Nat :=
  if frames.contains frameId then 0
  else if frames.size < config.maxPendingFrames then 0
  else ((oldest frames).map (fun e => e.2.receivedBytes)).getD 0

/-- The fragment is already there. -/
def hasFragment (r : VideoReassembler) (header : FragmentHeader) (now : Time) : Bool :=
  ((r.live now).get? header.metadata.frameId).any
    (fun frame => (frame.fragments[header.fragmentIndex]?.join).isSome)

/-- The frame is done, or the fragment is there, or there is memory for it beside the
frames that have not expired. -/
def MemoryFor (r : VideoReassembler) (header : FragmentHeader) (fragment : Bytes) (now : Time) :
    Prop :=
  header.metadata.frameId ≤ r.lastCompletedFrameId ∨ r.hasFragment header now = true ∨
    (r.live now).total PendingFrame.receivedBytes + fragment.length ≤
      r.config.maxMemoryBytes + freedBytes r.config (r.live now) header.metadata.frameId

instance (r : VideoReassembler) (header : FragmentHeader) (fragment : Bytes) (now : Time) :
    Decidable (r.MemoryFor header fragment now) :=
  inferInstanceAs (Decidable (_ ∨ _ ∨ _))

theorem oldest_get {frames : OrdMap Nat PendingFrame} {e : Nat × PendingFrame}
    (h : oldest frames = some e) : frames.get? e.1 = some e.2 := by
  unfold oldest at h
  cases hfind : frames.entries.find? (fun e => !e.2.header.metadata.isKeyframe) with
  | none =>
      rw [hfind] at h
      exact OrdMap.first?_mem h
  | some d =>
      rw [hfind] at h
      cases h
      exact OrdMap.mem_entries_iff.mp (List.mem_of_find?_eq_some hfind)

theorem oldest_isSome {frames : OrdMap Nat PendingFrame} (h : 0 < frames.size) :
    ∃ e, oldest frames = some e := by
  unfold oldest
  cases frames.entries.find? (fun e => !e.2.header.metadata.isKeyframe) with
  | some d => exact ⟨d, rfl⟩
  | none =>
      cases hfirst : frames.first? with
      | some e => exact ⟨e, rfl⟩
      | none =>
          have hempty : frames.size = 0 := by
            simpa [OrdMap.first?, OrdMap.size] using hfirst
          omega

/-- In a full table the eviction loop takes one turn. -/
theorem makeRoom_full {e : Nat × PendingFrame} (hfull : r.pending.size = r.config.maxPendingFrames)
    (hpos : 0 < r.config.maxPendingFrames) (holdest : oldest r.pending = some e)
    (droppedFrames : Nat) :
    ∃ r' droppedFrames', makeRoom (r.pending.size + 1) r droppedFrames = some (r', droppedFrames') ∧
      r'.core = (r.dropFrame e.1).core := by
  have hevict : ∃ r', r.evictOldest = some r' ∧ r'.core = (r.dropFrame e.1).core := by
    have holdest' : (r.pending.entries.find? (fun e => !e.2.header.metadata.isKeyframe)).or
        r.pending.first? = some e := holdest
    simp only [evictOldest, holdest', Option.map_some]
    exact ⟨_, rfl, rfl⟩
  obtain ⟨r', hevict, hcore⟩ := hevict
  obtain ⟨hconfig, hpending, _, _, _⟩ := ReassemblyCore.mk.inj hcore
  have hconfig : r'.config = r.config := hconfig
  have hsize : r'.pending.size + 1 = r.pending.size := by
    have herase : r'.pending = r.pending.erase e.1 := hpending.trans (pending_dropFrame r e.1)
    rw [herase]
    exact OrdMap.size_erase (oldest_get holdest)
  have hroom : r'.pending.size < r'.config.maxPendingFrames := by
    rw [hconfig]
    omega
  obtain ⟨n, hn⟩ : ∃ n, r.pending.size = n + 1 := ⟨r.pending.size - 1, by omega⟩
  refine ⟨r', satAdd32 droppedFrames 1, ?_, hcore⟩
  rw [makeRoom, if_pos (Nat.le_of_eq hfull.symm), hevict, hn]
  exact makeRoom_of_lt hroom n _

/-- The state in which a fragment finds its frame, and the bytes in use there. -/
theorem openFrame_memory {seen : FragmentHeader → Bytes → Prop} (h : CoreInv r.core seen)
    (hpos : 0 < r.config.maxPendingFrames) (header : FragmentHeader)
    (outcome : VideoReassemblyOutcome) (now : Time) :
    ∃ r' outcome', r.openFrame header outcome now = some (r', outcome') ∧
      r'.config = r.config ∧
      r'.pending.get? header.metadata.frameId =
        some ((r.pending.get? header.metadata.frameId).getD (emptyFrame header now)) ∧
      (∀ frameId f, r'.pending.get? frameId = some f →
        frameId = header.metadata.frameId ∨ r.pending.get? frameId = some f) ∧
      r'.pendingBytes + freedBytes r.config r.pending header.metadata.frameId =
        r.pending.total PendingFrame.receivedBytes := by
  have hbytes : r.pendingBytes = r.pending.total PendingFrame.receivedBytes := h.bytes
  unfold openFrame freedBytes
  cases hcontains : r.pending.contains header.metadata.frameId with
  | true =>
      obtain ⟨frame, hget⟩ := OrdMap.contains_iff.mp hcontains
      exact ⟨r, outcome, rfl, rfl, by rw [hget]; rfl, fun _ _ hf => .inr hf, hbytes⟩
  | false =>
      have habsent := OrdMap.contains_eq_false_iff.mp hcontains
      simp only [Bool.false_eq_true, if_false, habsent, Option.getD_none]
      by_cases hroom : r.pending.size < r.config.maxPendingFrames
      · rw [makeRoom_of_lt hroom, Option.map_some, if_pos hroom]
        refine ⟨_, _, rfl, rfl, by simp, ?_, hbytes⟩
        intro frameId f hf
        rcases OrdMap.get?_insert_eq_some hf with ⟨rfl, _⟩ | ⟨_, hf⟩
        · exact .inl rfl
        · exact .inr hf
      · -- one frame goes
        have hle : r.pending.size ≤ r.config.maxPendingFrames := h.size_le
        have hfull : r.pending.size = r.config.maxPendingFrames :=
          Nat.le_antisymm hle (Nat.le_of_not_lt hroom)
        obtain ⟨e, holdest⟩ := oldest_isSome (show 0 < r.pending.size by omega)
        obtain ⟨r₁, dropped, hmake, hcore⟩ := makeRoom_full hfull hpos holdest outcome.droppedFrames
        have hgone := oldest_get holdest
        rw [core_dropFrame hgone] at hcore
        obtain ⟨hconfig, hpending, hfree, _, _⟩ := ReassemblyCore.mk.inj hcore
        rw [hmake, Option.map_some, if_neg hroom, holdest]
        refine ⟨_, _, rfl, hconfig, by simp, ?_, ?_⟩
        · intro frameId f hf
          rcases OrdMap.get?_insert_eq_some hf with ⟨rfl, _⟩ | ⟨_, hf⟩
          · exact .inl rfl
          · rw [hpending] at hf
            exact .inr (OrdMap.get?_erase_eq_some.mp hf).2
        · have hfree : r₁.pendingBytes = r.pendingBytes - e.2.receivedBytes := hfree
          have hle := OrdMap.le_total PendingFrame.receivedBytes hgone
          show r₁.pendingBytes + e.2.receivedBytes = _
          omega

end VideoReassembler

/-! ## Honest traffic -/

/-- The frames of a sender. -/
structure VideoTraffic (traffic : Set VideoTransmission) : Prop where
  fits : ∀ t ∈ traffic, t.Fits
  fragmented : ∀ t ∈ traffic, ∃ datagrams, t.fragmentVideoFrame = .ok datagrams
  size_le : ∀ t ∈ traffic, t.frame.length ≤ maxVideoFrameBytes
  distinct : ∀ t ∈ traffic, ∀ u ∈ traffic, t.metadata.frameId = u.metadata.frameId → t = u

/-- Every pending frame holds fragments of one transmission. -/
def HonestFrames (traffic : Set VideoTransmission) (pending : OrdMap Nat PendingFrame) : Prop :=
  ∀ frameId frame, pending.get? frameId = some frame →
    ∃ t ∈ traffic, t.metadata.frameId = frameId ∧ ∃ got, t.Holds got frame

structure HonestInv (traffic : Set VideoTransmission) (r : VideoReassembler) : Prop where
  config_eq : r.config = .default
  core : CoreInv r.core (fun _ _ => True)
  frames : HonestFrames traffic r.pending

namespace HonestInv

variable {traffic : Set VideoTransmission} {r r' : VideoReassembler} {t : VideoTransmission}
  {datagrams : List Bytes} {i : Nat} {datagram : Bytes} {now : Time}

theorem expire (h : HonestInv traffic r) (now : Time) : HonestInv traffic (r.expire now).1 := by
  have hdrops := VideoReassembler.drops_expire r now
  exact ⟨hdrops.config.trans h.config_eq, VideoReassembler.coreInv_expire h.core now,
    fun frameId frame hf => h.frames frameId frame (hdrops.pending frameId frame hf)⟩

/-- The frame that a fragment of `t` finds pending. -/
theorem holds (h : HonestInv traffic r) (htraffic : VideoTraffic traffic) (ht : t ∈ traffic)
    (i : Nat) (now : Time) :
    ∃ got, t.Holds got ((r.pending.get? t.metadata.frameId).getD
        (VideoReassembler.emptyFrame (t.fragmentHeader i) now)) ∧
      (i < t.fragmentCount → ((r.pending.get? t.metadata.frameId).any
        (fun frame => (frame.fragments[i]?.join).isSome) = true ↔ i ∈ got)) := by
  cases hget : r.pending.get? t.metadata.frameId with
  | none => exact ⟨[], t.holds_empty i now, by simp⟩
  | some frame =>
      obtain ⟨u, hu, hid, got, hholds⟩ := h.frames _ frame hget
      obtain rfl := htraffic.distinct u hu t ht hid
      refine ⟨got, hholds, ?_⟩
      intro hi
      rw [Option.any_some, hholds.fragments, VideoTransmission.getElem?_slots hi]
      by_cases hgot : i ∈ got
      · simp [hgot]
      · simp [hgot]

/-- A fragment that finds its frame pending is refused only for lack of memory. -/
theorem addFragment_ok_iff (hframes : HonestFrames traffic r.pending) (ht : t ∈ traffic)
    (hfragmented : t.Fragmented datagrams) (hi : i < t.fragmentCount) {frame : PendingFrame}
    (hget : r.pending.get? t.metadata.frameId = some frame) {got : List Nat}
    (hholds : t.Holds got frame) (outcome : VideoReassemblyOutcome) (now : Time) :
    ∃ r' result, r.addFragment (t.fragmentHeader i) (t.fragment i) outcome now =
        some (r', result) ∧ HonestFrames traffic r'.pending ∧
      ((∃ outcome, result = .ok outcome) ↔ i ∈ got ∨
        r.pendingBytes + (t.fragment i).length ≤ r.config.maxMemoryBytes) := by
  by_cases hgot : i ∈ got
  · obtain ⟨r', hadd, hcore⟩ :=
      VideoReassembler.addFragment_duplicate hholds hi hget hgot outcome now
    have hpending : r'.pending = r.pending := congrArg ReassemblyCore.pending hcore
    exact ⟨r', _, hadd, hpending ▸ hframes, fun _ => .inl hgot, fun _ => ⟨_, rfl⟩⟩
  rw [VideoReassembler.addFragment_missing hholds hi hget hgot]
  by_cases hmemory : r.pendingBytes + (t.fragment i).length > r.config.maxMemoryBytes
  · rw [if_pos hmemory]
    refine ⟨_, _, rfl, ?_, ?_, ?_⟩
    · intro frameId f hf
      exact hframes frameId f ((VideoReassembler.drops_dropWhere r _).pending frameId f hf)
    · rintro ⟨outcome, hok⟩
      cases hok
    · rintro (hmem | hle)
      · exact absurd hmem hgot
      · exact absurd hle (Nat.not_le.mpr hmemory)
  · rw [if_neg hmemory]
    -- the memory suffices, so the fragment is accepted whatever becomes of its frame
    suffices hstore : ∃ r' outcome', r.storeFragment frame (t.fragmentHeader i) (t.fragment i)
        outcome now = some (r', .ok outcome') ∧ HonestFrames traffic r'.pending by
      obtain ⟨r', outcome', hstore, hafter⟩ := hstore
      exact ⟨r', _, hstore, hafter, fun _ => .inr (Nat.le_of_not_lt hmemory), fun _ => ⟨_, rfl⟩⟩
    by_cases hcomplete : t.Complete (i :: got)
    · by_cases hgate : r.hasCompletedKeyframe = true ∨ t.metadata.isKeyframe = true
      · obtain ⟨r', outcome', hstore, _, _, _, _, hpending⟩ :=
          VideoReassembler.storeFragment_returned hholds hi hfragmented hgot hcomplete hgate
            outcome now
        exact ⟨r', outcome', hstore,
          fun frameId f hf => hframes frameId f (hpending frameId f hf).1⟩
      · simp only [not_or, Bool.not_eq_true] at hgate
        obtain ⟨r', outcome', hstore, _, hcore⟩ :=
          VideoReassembler.storeFragment_preKeyframe hholds hi hfragmented hgot hcomplete hgate.1
            hgate.2 outcome now
        have hpending : r'.pending = r.pending.erase t.metadata.frameId :=
          congrArg ReassemblyCore.pending hcore
        refine ⟨r', outcome', hstore, ?_⟩
        intro frameId f hf
        rw [hpending] at hf
        exact hframes frameId f (OrdMap.get?_erase_eq_some.mp hf).2
    · obtain ⟨r', outcome', hstore, _, hcore⟩ :=
        VideoReassembler.storeFragment_incomplete (r := r) hholds hi hfragmented hgot hcomplete
          outcome now
      have hpending : r'.pending = r.pending.insert t.metadata.frameId
          (frame.store i (t.fragment i) now) := congrArg ReassemblyCore.pending hcore
      refine ⟨r', outcome', hstore, ?_⟩
      intro frameId f hf
      rw [hpending] at hf
      rcases OrdMap.get?_insert_eq_some hf with ⟨rfl, rfl⟩ | ⟨_, hf⟩
      · exact ⟨t, ht, rfl, i :: got, hholds.store hi hgot now⟩
      · exact hframes frameId f hf

/-- A push of honest traffic succeeds exactly when there is memory for its fragment. -/
theorem push_ok_iff (h : HonestInv traffic r) (htraffic : VideoTraffic traffic) (ht : t ∈ traffic)
    (hsend : t.fragmentVideoFrame = .ok datagrams) (hi : datagrams[i]? = some datagram)
    (now : Time) :
    ∃ r' result, r.push datagram now = some (r', result) ∧ HonestInv traffic r' ∧
      ((∃ outcome, result = .ok outcome) ↔
        r.MemoryFor (t.fragmentHeader i) (t.fragment i) now) := by
  have hfragmented := VideoTransmission.fragmented hsend
  have hlt := (hfragmented.datagram i datagram hi).1
  have hcarries := hfragmented.carries (htraffic.fits t ht) hi
  have hexpire := h.expire now
  have hdrops := VideoReassembler.drops_expire r now
  have hsize : t.frame.length ≤ (r.expire now).1.config.maxFrameBytes := by
    rw [hexpire.config_eq]
    exact le_trans (htraffic.size_le t ht) (by decide)
  -- the limits hold after any push
  obtain ⟨r', result, hpush, heffect⟩ :=
    VideoReassembler.push_spec h.core (by rw [h.config_eq]; decide) datagram now
  obtain ⟨hconfig', hcore'⟩ := heffect.inv
  suffices hrest : ∃ r' result, r.push datagram now = some (r', result) ∧
      HonestFrames traffic r'.pending ∧ ((∃ outcome, result = .ok outcome) ↔
        r.MemoryFor (t.fragmentHeader i) (t.fragment i) now) by
    obtain ⟨r'', result', hpush', hframes, hiff⟩ := hrest
    rw [hpush] at hpush'
    cases hpush'
    exact ⟨r', result, hpush, ⟨hconfig'.trans h.config_eq,
      hcore'.mono (fun _ _ _ => trivial), hframes⟩, hiff⟩
  rw [VideoReassembler.push_of_carries hcarries]
  by_cases hid : t.metadata.frameId ≤ r.lastCompletedFrameId
  · obtain ⟨r'', hobsolete, hcore⟩ := VideoReassembler.pushFragment_obsolete hfragmented hlt hsize
      (by rw [hdrops.last]; exact hid) (r.expire now).2 now
    have hpending : r''.pending = (r.expire now).1.pending := congrArg ReassemblyCore.pending hcore
    exact ⟨r'', _, hobsolete, hpending ▸ hexpire.frames, fun _ => .inl hid, fun _ => ⟨_, rfl⟩⟩
  · rw [VideoReassembler.pushFragment_open hfragmented hlt hsize
      (by rw [hdrops.last]; exact Nat.lt_of_not_le hid)]
    obtain ⟨r₁, outcome₁, hopen, hconfig, hget, hothers, hbytes⟩ :=
      VideoReassembler.openFrame_memory hexpire.core (by rw [hexpire.config_eq]; decide)
        (t.fragmentHeader i) (r.expire now).2 now
    obtain ⟨got, hholds, hhas⟩ := hexpire.holds htraffic ht i now
    have hframes : HonestFrames traffic r₁.pending := by
      intro frameId f hf
      rcases hothers frameId f hf with rfl | hf'
      · rw [hget] at hf
        cases hf
        exact ⟨t, ht, rfl, got, hholds⟩
      · exact hexpire.frames frameId f hf'
    obtain ⟨r'', result', hadd, hafter, hiff⟩ :=
      addFragment_ok_iff hframes ht hfragmented hlt hget hholds outcome₁ now
    rw [hopen, Option.bind_some]
    refine ⟨r'', result', hadd, hafter, hiff.trans ?_⟩
    -- both sides in terms of the frames that have not expired
    have hlive : (r.expire now).1.pending = r.live now := VideoReassembler.pending_expire r now
    rw [hlive, hdrops.config] at hbytes
    rw [hlive] at hhas
    rw [← hhas hlt, hconfig, hdrops.config]
    unfold VideoReassembler.MemoryFor
    constructor
    · rintro (hgot | hle)
      · exact .inr (.inl hgot)
      · refine .inr (.inr ?_)
        omega
    · rintro (hold | hgot | hle)
      · exact absurd hold hid
      · exact .inl hgot
      · refine .inr ?_
        omega

theorem reset (h : r = r.reset) (hconfig : r.config = .default) : HonestInv traffic r := by
  refine ⟨hconfig, ?_, ?_⟩
  · rw [h]
    exact (ReassemblyRun.runInv_reset hconfig).core.mono (fun _ _ _ => trivial)
  · intro frameId frame hget
    rw [h] at hget
    cases hget

end HonestInv

/-! ## Runs of honest traffic -/

/-- A reassembler with what its pushes returned, newest first. -/
structure TrafficRun where
  reassembler : VideoReassembler
  results : List (Except VideoDatagramError VideoReassemblyOutcome)

namespace TrafficRun

def step (s : TrafficRun) : ReassemblyCall → Option TrafficRun
  | .push datagram now =>
      (s.reassembler.push datagram now).map fun (r, result) =>
        { reassembler := r, results := result :: s.results }
  | .expire now => some { s with reassembler := (s.reassembler.expire now).1 }
  | .reset => some { s with reassembler := s.reassembler.reset }

def system (r : VideoReassembler) : TSys TrafficRun ReassemblyCall where
  init := { reassembler := r, results := [] }
  step := step

/-- A datagram of the traffic arrives, or time passes. -/
def Honest (traffic : Set VideoTransmission) : ReassemblyCall → Prop
  | .push datagram _ => ∃ t ∈ traffic, ∃ datagrams, t.fragmentVideoFrame = .ok datagrams ∧
      datagram ∈ datagrams
  | .expire _ => True
  | .reset => False

/-- There is memory for the fragment that is pushed. -/
def MemorySuffices (s : TrafficRun) : ReassemblyCall → Prop
  | .push datagram now => ∀ header fragment, Carries datagram header fragment →
      s.reassembler.MemoryFor header fragment now
  | .expire _ | .reset => True

/-- No push has failed. -/
def AllOk (s : TrafficRun) : Prop := ∀ result ∈ s.results, ∃ outcome, result = .ok outcome

variable {traffic : Set VideoTransmission}

/-- One call of honest traffic. -/
theorem step_ok_iff {s : TrafficRun} {call : ReassemblyCall} (htraffic : VideoTraffic traffic)
    (h : HonestInv traffic s.reassembler) (hcall : Honest traffic call) :
    ∃ t, s.step call = some t ∧ HonestInv traffic t.reassembler ∧
      (t.AllOk ↔ s.AllOk ∧ s.MemorySuffices call) := by
  cases call with
  | reset => exact absurd hcall id
  | expire now => exact ⟨_, rfl, h.expire now, fun hok => ⟨hok, trivial⟩, fun hok => hok.1⟩
  | push datagram now =>
      obtain ⟨t, ht, datagrams, hsend, hmem⟩ := hcall
      obtain ⟨i, hi⟩ := List.mem_iff_getElem?.mp hmem
      have hcarries := (VideoTransmission.fragmented hsend).carries (htraffic.fits t ht) hi
      obtain ⟨r', result, hpush, hinv, hiff⟩ := h.push_ok_iff htraffic ht hsend hi now
      refine ⟨{ reassembler := r', results := result :: s.results }, ?_, hinv, ?_⟩
      · rw [step, hpush, Option.map_some]
      · have hmemory : s.MemorySuffices (.push datagram now) ↔ ∃ outcome, result = .ok outcome := by
          rw [hiff]
          constructor
          · exact fun hall => hall _ _ hcarries
          · intro hfor header fragment hother
            obtain ⟨rfl, rfl⟩ := hcarries.unique hother
            exact hfor
        rw [hmemory]
        constructor
        · exact fun hok => ⟨fun x hx => hok x (List.mem_cons_of_mem _ hx),
            hok result List.mem_cons_self⟩
        · rintro ⟨hok, hresult⟩ x hx
          rcases List.mem_cons.mp hx with rfl | hx
          · exact hresult
          · exact hok x hx

/-- Any run of honest traffic. -/
theorem runFrom_ok_iff (r₀ : VideoReassembler) (htraffic : VideoTraffic traffic)
    {calls : List ReassemblyCall} (hcalls : ∀ call ∈ calls, Honest traffic call) :
    ∀ {s : TrafficRun}, HonestInv traffic s.reassembler →
      ∃ t, (system r₀).runFrom s calls = some t ∧
        (t.AllOk ↔ s.AllOk ∧ (system r₀).Follows MemorySuffices s calls) := by
  induction calls with
  | nil => exact fun {s} _ => ⟨s, rfl, fun hok => ⟨hok, trivial⟩, fun hok => hok.1⟩
  | cons call calls ih =>
      intro s h
      obtain ⟨u, hstep, hinv, hfirst⟩ :=
        step_ok_iff htraffic h (hcalls call List.mem_cons_self)
      obtain ⟨t, hrun, hrest⟩ :=
        ih (fun c hc => hcalls c (List.mem_cons_of_mem _ hc)) hinv
      have hstep : (system r₀).step s call = some u := hstep
      refine ⟨t, by rw [TSys.runFrom, hstep, Option.bind_some, hrun], ?_⟩
      rw [hrest, hfirst]
      constructor
      · rintro ⟨⟨hok, hmemory⟩, hfollows⟩
        refine ⟨hok, hmemory, ?_⟩
        intro v hv
        rw [hstep] at hv
        cases hv
        exact hfollows
      · rintro ⟨hok, hmemory, hfollows⟩
        exact ⟨⟨hok, hmemory⟩, hfollows u hstep⟩

/-- Honest traffic, lost, reordered, repeated and delayed in any way, with expiry at
any time: every push succeeds exactly when each of them finds memory for its fragment
beside the frames that have not expired. -/
theorem honest_traffic_ok_iff (traffic : Set VideoTransmission) (htraffic : VideoTraffic traffic)
    (r₀ : VideoReassembler) (hnew : VideoReassembler.new .default = .ok r₀)
    (calls : List ReassemblyCall) (hcalls : ∀ call ∈ calls, Honest traffic call) :
    ∃ s, (system r₀).run calls = some s ∧
      ((∀ result ∈ s.results, ∃ outcome, result = .ok outcome) ↔
        (system r₀).Follows MemorySuffices (system r₀).init calls) := by
  obtain ⟨_, _, hconfig, hreset⟩ := ReassemblyRun.new_ok hnew
  have hinit : HonestInv traffic (system r₀).init.reassembler := HonestInv.reset hreset hconfig
  obtain ⟨s, hrun, hiff⟩ := runFrom_ok_iff r₀ htraffic hcalls hinit
  refine ⟨s, hrun, hiff.trans ⟨fun h => h.2, fun h => ⟨?_, h⟩⟩⟩
  intro result hresult
  cases hresult

/-! ## Five large frames

Each of the first four frames of 16 MiB lacks its last fragment. Together they leave
less than one fragment of the memory, so the first fragment of the fifth is refused.
The bytes of the frames do not matter, only their number. -/

section Large

/-- A keyframe of 16 MiB in 12019 datagrams of at most 1472 bytes. -/
def largeKeyframe (payload : Bytes) (k : Nat) : VideoTransmission :=
  { sessionId := ⟨List.replicate 16 7, length_replicate_sessionId⟩
    firstSequenceNumber := 1 + k * 12019
    monotonicTimestampUs := 0
    metadata :=
      { frameId := k + 1, codec := .vp9, flags := flagKeyframe, presentationTimestampUs := 0 }
    frame := payload
    maxDatagramSize := 1472 }

def largeTraffic (payload : Bytes) : Set VideoTransmission :=
  { t | ∃ k < 5, t = largeKeyframe payload k }

variable {payload : Bytes} (hpayload : payload.length = maxVideoFrameBytes)

include hpayload

theorem fragmentCount_large (k : Nat) : (largeKeyframe payload k).fragmentCount = 12019 := by
  show (payload.length + 1396 - 1) / 1396 = 12019
  rw [hpayload]
  decide

/-- Every fragment but the last has 1396 bytes. -/
theorem length_fragment_large (k : Nat) {j : Nat} (hj : j < 12018) :
    ((largeKeyframe payload k).fragment j).length = 1396 := by
  show (chunk payload 1396 j).length = 1396
  rw [length_chunk, hpayload]
  have : maxVideoFrameBytes = 16777216 := by decide
  omega

theorem videoTraffic_large : VideoTraffic (largeTraffic payload) where
  fits := by
    rintro t ⟨k, hk, rfl⟩
    have hid : k + 1 ≤ u64Max := le_trans (by omega) (show 5 ≤ u64Max by decide)
    exact ⟨Nat.zero_le _, hid, Nat.zero_le _⟩
  fragmented := by
    rintro t ⟨k, hk, rfl⟩
    have hcount := fragmentCount_large hpayload k
    have hmax : 5 * 12019 ≤ u64Max := by decide
    refine VideoTransmission.exists_datagrams (Nat.succ_ne_zero k)
      (show flagKeyframe < firstUnknownFrameFlag by decide) ?_ ?_ (show 0 < 1396 by decide) ?_
      (show 1396 + videoFragmentHeaderLen ≤ 64 * 1024 by decide)
      (show (List.replicate 16 (7 : UInt8)).all (fun byte => byte == 0) = false by decide) ?_ ?_
    · intro hnil
      have hnil : payload = [] := hnil
      rw [hnil] at hpayload
      exact absurd hpayload (by decide)
    · show payload.length ≤ maxDatagramFrameBytes
      rw [hpayload]
      decide
    · rw [hcount]
      decide
    · show 1 + k * 12019 ≠ 0
      omega
    · rw [hcount]
      show 1 + k * 12019 + (12019 - 1) ≤ u64Max
      omega
  size_le := by
    rintro t ⟨k, hk, rfl⟩
    exact Nat.le_of_eq hpayload
  distinct := by
    rintro t ⟨k, _, rfl⟩ u ⟨m, _, rfl⟩ hid
    have hid : k + 1 = m + 1 := hid
    rw [Nat.succ_injective hid]

/-- The first `m` large frames lack only their last fragment; of frame `m` the first
`j` fragments are there. All came at time 0. -/
structure Filling (payload : Bytes) (m j : Nat) (r : VideoReassembler) : Prop where
  config_eq : r.config = .default
  last : r.lastCompletedFrameId = 0
  bytes : r.pendingBytes = m * (12018 * 1396) + j * 1396
  size : r.pending.size = if j = 0 then m else m + 1
  times : ∀ frameId f, r.pending.get? frameId = some f → f.createdAt = 0 ∧ f.lastProgressAt = 0
  ids : ∀ frameId f, r.pending.get? frameId = some f →
    frameId ≤ (if j = 0 then m else m + 1)
  current : j ≠ 0 → ∃ f, r.pending.get? (m + 1) = some f ∧
    (largeKeyframe payload m).Holds (List.range j).reverse f

omit hpayload

variable {m j : Nat} {r : VideoReassembler}

theorem Filling.core_expire (h : Filling payload m j r) : (r.expire 0).1.core = r.core := by
  apply VideoReassembler.core_expire_of_live
  intro frameId f hf
  obtain ⟨hcreated, hprogress⟩ := h.times frameId f hf
  rw [h.config_eq]
  unfold VideoReassemblyConfig.expired
  rw [hcreated, hprogress]
  cases f.header.metadata.isKeyframe with
  | true => decide
  | false => decide

/-- The next fragment of frame `m` finds its frame pending. -/
theorem Filling.opened (h : Filling payload m j r) (hm : m ≤ 4) :
    ∃ r' frame, (r.expire 0).1.openFrame ((largeKeyframe payload m).fragmentHeader j)
        (r.expire 0).2 0 = some (r', (r.expire 0).2) ∧
      r'.config = .default ∧ r'.lastCompletedFrameId = 0 ∧ r'.pendingBytes = r.pendingBytes ∧
      r'.pending.size = m + 1 ∧ r'.pending.get? (m + 1) = some frame ∧
      (largeKeyframe payload m).Holds (List.range j).reverse frame ∧ frame.createdAt = 0 ∧
      ∀ frameId f, r'.pending.get? frameId = some f →
        frameId = m + 1 ∨ r.pending.get? frameId = some f := by
  obtain ⟨hconfig, hpending, hbytes, hlast, _⟩ := ReassemblyCore.mk.inj h.core_expire
  by_cases hj : j = 0
  · subst hj
    have hsize : r.pending.size = m := by simpa using h.size
    have habsent : r.pending.get? (m + 1) = none := by
      cases hget : r.pending.get? (m + 1) with
      | none => rfl
      | some f =>
          have := h.ids (m + 1) f hget
          simp at this
    have habsent' : (r.expire 0).1.pending.get?
        (largeKeyframe payload m).metadata.frameId = none := by
      rw [hpending]
      exact habsent
    have hroom : (r.expire 0).1.pending.size < (r.expire 0).1.config.maxPendingFrames := by
      rw [hpending, hconfig, h.config_eq, hsize]
      exact lt_of_le_of_lt hm (by decide)
    refine ⟨_, _, VideoReassembler.openFrame_absent habsent' hroom _ 0,
      hconfig.trans h.config_eq, hlast.trans h.last, hbytes, ?_, by simp [largeKeyframe],
      (largeKeyframe payload m).holds_empty 0 0, rfl, ?_⟩
    · rw [OrdMap.size_insert_of_none _ habsent', hpending, hsize]
    · intro frameId f hf
      rcases OrdMap.get?_insert_eq_some hf with ⟨rfl, _⟩ | ⟨_, hf⟩
      · exact .inl rfl
      · rw [hpending] at hf
        exact .inr hf
  · obtain ⟨f, hget, hholds⟩ := h.current hj
    have hget' : (r.expire 0).1.pending.get?
        (largeKeyframe payload m).metadata.frameId = some f := by
      rw [hpending]
      exact hget
    refine ⟨_, f, VideoReassembler.openFrame_pending hget' _ 0, hconfig.trans h.config_eq,
      hlast.trans h.last, hbytes, ?_, hget', hholds, (h.times _ f hget).1, ?_⟩
    · rw [hpending, h.size, if_neg hj]
    · intro frameId f hf
      rw [hpending] at hf
      exact .inr hf

/-- A frame that lacks only its last fragment makes way for the next. -/
theorem Filling.next (h : Filling payload m 12018 r) : Filling payload (m + 1) 0 r where
  config_eq := h.config_eq
  last := h.last
  bytes := by
    rw [h.bytes]
    omega
  size := h.size
  times := h.times
  ids := h.ids
  current := fun hne => absurd rfl hne

include hpayload

variable {datagrams : List Bytes} {datagram : Bytes}

theorem Filling.push_eq (h : Filling payload m j r) (hm : m ≤ 4)
    (hsend : (largeKeyframe payload m).fragmentVideoFrame = .ok datagrams)
    (hj : datagrams[j]? = some datagram) {r' : VideoReassembler} {outcome : VideoReassemblyOutcome}
    (hopen : (r.expire 0).1.openFrame ((largeKeyframe payload m).fragmentHeader j)
      (r.expire 0).2 0 = some (r', outcome)) :
    r.push datagram 0 = r'.addFragment ((largeKeyframe payload m).fragmentHeader j)
      ((largeKeyframe payload m).fragment j) outcome 0 := by
  obtain ⟨hconfig, _, _, hlast, _⟩ := ReassemblyCore.mk.inj h.core_expire
  have hfragmented := VideoTransmission.fragmented hsend
  have hfits := (videoTraffic_large hpayload).fits _ ⟨m, by omega, rfl⟩
  have hsize : (largeKeyframe payload m).frame.length ≤ (r.expire 0).1.config.maxFrameBytes := by
    rw [hconfig, h.config_eq]
    show payload.length ≤ maxDatagramFrameBytes
    rw [hpayload]
    decide
  have hid : (r.expire 0).1.lastCompletedFrameId < (largeKeyframe payload m).metadata.frameId := by
    rw [hlast, h.last]
    exact Nat.succ_pos m
  rw [VideoReassembler.push_of_carries (hfragmented.carries hfits hj),
    VideoReassembler.pushFragment_open hfragmented (hfragmented.datagram j datagram hj).1 hsize hid,
    hopen, Option.bind_some]

/-- One fragment more. -/
theorem Filling.push (h : Filling payload m j r) (hm : m ≤ 3) (hj : j < 12018)
    (hsend : (largeKeyframe payload m).fragmentVideoFrame = .ok datagrams)
    (hdatagram : datagrams[j]? = some datagram) :
    ∃ r' outcome, r.push datagram 0 = some (r', .ok outcome) ∧
      Filling payload m (j + 1) r' := by
  obtain ⟨r₁, frame, hopen, hconfig, hlast, hbytes, hsize, hget, hholds, hcreated, hothers⟩ :=
    h.opened (by omega)
  have hfragmented := VideoTransmission.fragmented hsend
  have hlt : j < (largeKeyframe payload m).fragmentCount := by
    rw [fragmentCount_large hpayload]
    omega
  have hnew : j ∉ (List.range j).reverse := by simp
  have hgot : j :: (List.range j).reverse = (List.range (j + 1)).reverse := by
    simp [List.range_succ]
  -- the last fragment is still missing
  have hmissing : ¬ (largeKeyframe payload m).Complete (j :: (List.range j).reverse) := by
    intro hcomplete
    have hmem := hcomplete 12018 (by rw [fragmentCount_large hpayload]; decide)
    rw [hgot, List.mem_reverse, List.mem_range] at hmem
    omega
  have hlength := length_fragment_large hpayload m hj
  have hmemory : ¬ r₁.pendingBytes + ((largeKeyframe payload m).fragment j).length >
      r₁.config.maxMemoryBytes := by
    have hmax : VideoReassemblyConfig.default.maxMemoryBytes = 67108864 := by decide
    rw [hbytes, h.bytes, hlength, hconfig, hmax]
    omega
  obtain ⟨r', outcome', hstore, _, hcore⟩ :=
    VideoReassembler.storeFragment_incomplete (r := r₁) hholds hlt hfragmented hnew hmissing
      (r.expire 0).2 0
  obtain ⟨hconfig', hpending', hbytes', hlast', _⟩ := ReassemblyCore.mk.inj hcore
  have hpending' : r'.pending = r₁.pending.insert (m + 1)
      (frame.store j ((largeKeyframe payload m).fragment j) 0) := hpending'
  have hbytes' : r'.pendingBytes =
      r₁.pendingBytes + ((largeKeyframe payload m).fragment j).length := hbytes'
  refine ⟨r', outcome', ?_, hconfig'.trans hconfig, hlast'.trans hlast, ?_, ?_, ?_, ?_, ?_⟩
  · rw [h.push_eq hpayload (by omega) hsend hdatagram hopen,
      VideoReassembler.addFragment_missing hholds hlt hget hnew, if_neg hmemory, hstore]
  · rw [hbytes', hbytes, h.bytes, hlength]
    omega
  · rw [hpending', OrdMap.size_insert_of_some _ hget, hsize, if_neg (Nat.succ_ne_zero j)]
  · intro frameId f hf
    rw [hpending'] at hf
    rcases OrdMap.get?_insert_eq_some hf with ⟨_, rfl⟩ | ⟨hne, hf⟩
    · exact ⟨hcreated, rfl⟩
    · exact h.times frameId f ((hothers frameId f hf).resolve_left hne)
  · intro frameId f hf
    rw [if_neg (Nat.succ_ne_zero j)]
    rw [hpending'] at hf
    rcases OrdMap.get?_insert_eq_some hf with ⟨rfl, _⟩ | ⟨hne, hf⟩
    · exact le_refl _
    · have hle := h.ids frameId f ((hothers frameId f hf).resolve_left hne)
      split at hle <;> omega
  · intro _
    refine ⟨frame.store j ((largeKeyframe payload m).fragment j) 0, by rw [hpending']; simp, ?_⟩
    rw [← hgot]
    exact hholds.store hlt hnew 0

/-- The first fragment of the fifth frame does not fit. -/
theorem Filling.overflow (h : Filling payload 4 0 r)
    (hsend : (largeKeyframe payload 4).fragmentVideoFrame = .ok datagrams)
    (hdatagram : datagrams[0]? = some datagram) :
    ∃ r', r.push datagram 0 = some (r', .error .memoryLimit) := by
  obtain ⟨r₁, frame, hopen, hconfig, _, hbytes, _, hget, hholds, _, _⟩ := h.opened (le_refl 4)
  have hlt : 0 < (largeKeyframe payload 4).fragmentCount := by
    rw [fragmentCount_large hpayload]
    decide
  have hmemory : r₁.pendingBytes + ((largeKeyframe payload 4).fragment 0).length >
      r₁.config.maxMemoryBytes := by
    have hmax : VideoReassemblyConfig.default.maxMemoryBytes = 67108864 := by decide
    rw [hbytes, h.bytes, length_fragment_large hpayload 4 (by decide), hconfig, hmax]
    decide
  rw [h.push_eq hpayload (le_refl 4) hsend hdatagram hopen,
    VideoReassembler.addFragment_missing hholds hlt hget (by simp), if_pos hmemory]
  exact ⟨_, rfl⟩

/-- A datagram of a large frame. -/
theorem exists_datagram_large {k : Nat} (hk : k < 5) {j : Nat} (hj : j < 12019) :
    ∃ datagrams datagram, (largeKeyframe payload k).fragmentVideoFrame = .ok datagrams ∧
      datagrams[j]? = some datagram ∧
      ∀ now, Honest (largeTraffic payload) (.push datagram now) := by
  obtain ⟨datagrams, hsend⟩ := (videoTraffic_large hpayload).fragmented _ ⟨k, hk, rfl⟩
  have hlt : j < datagrams.length := by
    rw [(VideoTransmission.fragmented hsend).length, fragmentCount_large hpayload]
    exact hj
  exact ⟨datagrams, datagrams[j], hsend, List.getElem?_eq_getElem hlt,
    fun _ => ⟨_, ⟨k, hk, rfl⟩, datagrams, hsend, List.getElem_mem hlt⟩⟩

/-- The first fragments of frame `m`, one after another. -/
theorem reach_fragments (hm : m ≤ 3) {r₀ : VideoReassembler} {s : TrafficRun}
    (hreach : (system r₀).Reach (fun _ call => Honest (largeTraffic payload) call) s)
    (h : Filling payload m 0 s.reassembler) :
    ∀ j ≤ 12018, ∃ t, (system r₀).Reach (fun _ call => Honest (largeTraffic payload) call) t ∧
      Filling payload m j t.reassembler := by
  intro j
  induction j with
  | zero => exact fun _ => ⟨s, hreach, h⟩
  | succ j ih =>
      intro hj
      obtain ⟨t, hreach, hfilling⟩ := ih (by omega)
      obtain ⟨datagrams, datagram, hsend, hdatagram, hhonest⟩ :=
        exists_datagram_large hpayload (show m < 5 by omega) (show j < 12019 by omega)
      obtain ⟨r', outcome, hpush, hnext⟩ :=
        hfilling.push hpayload hm (by omega) hsend hdatagram
      refine ⟨{ reassembler := r', results := .ok outcome :: t.results },
        hreach.step (hhonest 0) ?_, hnext⟩
      show t.step (.push datagram 0) = _
      rw [step, hpush, Option.map_some]

theorem reach_frames :
    ∀ m ≤ 4, ∃ s, (system ReassemblyRun.fresh).Reach
        (fun _ call => Honest (largeTraffic payload) call) s ∧
      Filling payload m 0 s.reassembler := by
  intro m
  induction m with
  | zero =>
      intro _
      refine ⟨_, .init, rfl, rfl, rfl, rfl, ?_, ?_, fun hne => absurd rfl hne⟩
      · intro frameId f hf
        cases hf
      · intro frameId f hf
        cases hf
  | succ m ih =>
      intro hm
      obtain ⟨s, hreach, hfilling⟩ := ih (by omega)
      obtain ⟨t, hreach, hfull⟩ :=
        reach_fragments hpayload (by omega) hreach hfilling 12018 (le_refl _)
      exact ⟨t, hreach, hfull.next⟩

/-- The fifth frame is refused. -/
theorem reach_memoryLimit :
    ∃ s, (system ReassemblyRun.fresh).Reach (fun _ call => Honest (largeTraffic payload) call) s ∧
      .error .memoryLimit ∈ s.results := by
  obtain ⟨s, hreach, hfilling⟩ := reach_frames hpayload 4 (le_refl 4)
  obtain ⟨datagrams, datagram, hsend, hdatagram, hhonest⟩ :=
    exists_datagram_large hpayload (show 4 < 5 by decide) (show 0 < 12019 by decide)
  obtain ⟨r', hpush⟩ := hfilling.overflow hpayload hsend hdatagram
  refine ⟨{ reassembler := r', results := .error .memoryLimit :: s.results },
    hreach.step (hhonest 0) ?_, List.mem_cons_self⟩
  show s.step (.push datagram 0) = _
  rw [step, hpush, Option.map_some]

end Large

theorem honest_traffic_memory_limit :
    ∃ traffic calls s, VideoTraffic traffic ∧
      VideoReassembler.new .default = .ok ReassemblyRun.fresh ∧
      (∀ call ∈ calls, Honest traffic call) ∧
      (system ReassemblyRun.fresh).run calls = some s ∧ .error .memoryLimit ∈ s.results := by
  have hpayload : (List.replicate maxVideoFrameBytes (0 : UInt8)).length = maxVideoFrameBytes :=
    List.length_replicate
  obtain ⟨s, hreach, herror⟩ := reach_memoryLimit hpayload
  obtain ⟨calls, hcalls, hrun⟩ := hreach.exists_run
  exact ⟨_, calls, s, videoTraffic_large hpayload, rfl, hcalls, hrun, herror⟩

theorem videoTraffic_single {t : VideoTransmission} {datagrams : List Bytes} (hfits : t.Fits)
    (hsend : t.fragmentVideoFrame = .ok datagrams) (hsize : t.frame.length ≤ maxVideoFrameBytes) :
    VideoTraffic {t} where
  fits := by
    rintro u rfl
    exact hfits
  fragmented := by
    rintro u rfl
    exact ⟨datagrams, hsend⟩
  size_le := by
    rintro u rfl
    exact hsize
  distinct := by
    rintro u rfl v rfl _
    rfl

/-- The second datagram of the small keyframe, twice: both find memory. -/
theorem honest_traffic_ok_iff_small :
    ∃ first second s, ReassemblyRun.smallKeyframe.fragmentVideoFrame = .ok [first, second] ∧
      (system ReassemblyRun.fresh).run [.push second 0, .expire (millis 5), .push second (secs 1)] =
        some s ∧
      (system ReassemblyRun.fresh).Follows MemorySuffices (system ReassemblyRun.fresh).init
        [.push second 0, .expire (millis 5), .push second (secs 1)] := by
  obtain ⟨first, second, hsend, hok⟩ : ∃ first second,
      ReassemblyRun.smallKeyframe.fragmentVideoFrame = .ok [first, second] ∧
      ((system ReassemblyRun.fresh).run
        [.push second 0, .expire (millis 5), .push second (secs 1)]).map
          (fun s => s.results.map (fun result => result.isOk)) = some [true, true] :=
    ⟨_, _, rfl, by decide +kernel⟩
  have htraffic := videoTraffic_single ⟨by decide, by decide, by decide⟩ hsend (by decide)
  have hcalls : ∀ call ∈ [ReassemblyCall.push second 0, .expire (millis 5),
      .push second (secs 1)], Honest {ReassemblyRun.smallKeyframe} call := by
    have hpush : ∀ now, Honest {ReassemblyRun.smallKeyframe} (.push second now) :=
      fun now => ⟨_, rfl, _, hsend, by simp⟩
    intro call hcall
    simp only [List.mem_cons, List.not_mem_nil, or_false] at hcall
    rcases hcall with rfl | rfl | rfl
    · exact hpush 0
    · exact trivial
    · exact hpush (secs 1)
  obtain ⟨s, hrun, hiff⟩ := honest_traffic_ok_iff _ htraffic ReassemblyRun.fresh rfl _ hcalls
  refine ⟨first, second, s, hsend, hrun, hiff.mp ?_⟩
  rw [hrun] at hok
  have hok : s.results.map (fun result => result.isOk) = [true, true] := Option.some.inj hok
  intro result hresult
  have hmem : result.isOk ∈ s.results.map (fun result => result.isOk) := List.mem_map_of_mem hresult
  rw [hok] at hmem
  cases result with
  | ok outcome => exact ⟨outcome, rfl⟩
  | error error => simp [Except.isOk, Except.toBool] at hmem

end TrafficRun

end HbbCommon.Transport
