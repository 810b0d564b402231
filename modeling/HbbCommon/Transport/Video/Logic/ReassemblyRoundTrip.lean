import HbbCommon.Transport.Video.Logic.ReassemblerRun
import HbbCommon.Transport.Video.Logic.ReassemblyHonest

/-!
# Fragmentation and reassembly

The datagrams of one frame are pushed in any order, with any repetitions, at times
within the deadlines, into any reassembler that has room for the frame. Before the
last missing datagram the frame is `Collecting`; the push of that datagram returns
the frame; after it every further datagram of the frame is obsolete.
-/

namespace HbbCommon.Transport

open HbbCommon.Base

/-! ## Pushes one after another -/

section Arrivals

/-- The time of the first of the pushes, which are newest first. -/
def firstArrival : List (Bytes × Time) → Time
  | [] => 0
  | [(_, now)] => now
  | _ :: older => firstArrival older

/-- The time of the newest push of a datagram that had not been pushed before. -/
def lastProgress : List (Bytes × Time) → Time
  | [] => 0
  | (datagram, now) :: older =>
      haveI := lawfulBEq_bytes
      if datagram ∈ older.map Prod.fst then lastProgress older else now

/-- A push at `now`, after the pushes `earlier`, comes before both deadlines. -/
def InTime (config : VideoReassemblyConfig) (isKeyframe : Bool) (earlier : List (Bytes × Time))
    (now : Time) : Prop :=
  now - lastProgress earlier <
      (if isKeyframe then config.keyframeFragmentDeadline else config.fragmentDeadline) ∧
    now - firstArrival earlier <
      (if isKeyframe then config.keyframeLifetime else config.frameLifetime)

instance (config : VideoReassemblyConfig) (isKeyframe : Bool) (earlier : List (Bytes × Time))
    (now : Time) : Decidable (InTime config isKeyframe earlier now) :=
  inferInstanceAs (Decidable (_ ∧ _))

theorem firstArrival_cons (p : Bytes × Time) {earlier : List (Bytes × Time)} (h : earlier ≠ []) :
    firstArrival (p :: earlier) = firstArrival earlier := by
  cases earlier with
  | nil => exact absurd rfl h
  | cons q older => rfl

/-- A list has a first prefix with a property that the whole list has. -/
theorem exists_first_prefix {α : Type*} {P : List α → Prop} (hnil : ¬ P []) :
    ∀ {l : List α}, P l → ∃ pre a post, l = pre ++ a :: post ∧ ¬ P pre ∧ P (pre ++ [a]) := by
  intro l
  induction l using List.reverseRecOn with
  | nil => exact fun h => absurd h hnil
  | append_singleton l a ih =>
      intro h
      by_cases hl : P l
      · obtain ⟨pre, b, post, rfl, hpre, hb⟩ := ih hl
        exact ⟨pre, b, post ++ [a], by simp, hpre, hb⟩
      · exact ⟨l, a, [], rfl, hl, h⟩

end Arrivals

namespace VideoReassembler

variable {r r' r'' : VideoReassembler}

/-- Pushes one after another, and what each of them returned. -/
def pushAll (r : VideoReassembler) : List (Bytes × Time) →
    Option (VideoReassembler × List (Except VideoDatagramError VideoReassemblyOutcome))
  | [] => some (r, [])
  | (datagram, now) :: rest =>
      (r.push datagram now).bind fun (r, result) =>
        (r.pushAll rest).map fun (r, results) => (r, result :: results)

/-- The pushes succeed and return `frames`. -/
def Yields (r : VideoReassembler) (pushes : List (Bytes × Time))
    (frames : List (Option CompleteVideoFrame)) (r' : VideoReassembler) : Prop :=
  ∃ results, r.pushAll pushes = some (r', results) ∧ results.map returned = frames ∧
    ∀ result ∈ results, ∃ outcome, result = .ok outcome

theorem Yields.nil (r : VideoReassembler) : r.Yields [] [] r :=
  ⟨[], rfl, rfl, fun _ h => by cases h⟩

theorem Yields.cons {datagram : Bytes} {now : Time} {outcome : VideoReassemblyOutcome}
    {pushes : List (Bytes × Time)} {frames : List (Option CompleteVideoFrame)}
    (hpush : r.push datagram now = some (r', .ok outcome)) (h : r'.Yields pushes frames r'') :
    r.Yields ((datagram, now) :: pushes) (outcome.frame :: frames) r'' := by
  obtain ⟨results, hall, hframes, hok⟩ := h
  refine ⟨.ok outcome :: results, by simp [pushAll, hpush, hall], ?_, ?_⟩
  · rw [List.map_cons, hframes]
    rfl
  · intro result hresult
    rcases List.mem_cons.mp hresult with rfl | hresult
    · exact ⟨outcome, rfl⟩
    · exact hok result hresult

theorem Yields.append {first second : List (Bytes × Time)}
    {frames frames' : List (Option CompleteVideoFrame)} (h : r.Yields first frames r')
    (h' : r'.Yields second frames' r'') :
    r.Yields (first ++ second) (frames ++ frames') r'' := by
  induction first generalizing r frames with
  | nil =>
      obtain ⟨results, hall, rfl, _⟩ := h
      cases hall
      exact h'
  | cons p rest ih =>
      obtain ⟨datagram, now⟩ := p
      obtain ⟨results, hall, rfl, hok⟩ := h
      simp only [pushAll, Option.bind_eq_some_iff, Option.map_eq_some_iff] at hall
      obtain ⟨⟨r₁, result⟩, hpush, ⟨r₂, results₂⟩, hrest, heq⟩ := hall
      cases heq
      obtain ⟨outcome, rfl⟩ := hok result List.mem_cons_self
      have htail : r₁.Yields rest (results₂.map returned) r₂ :=
        ⟨results₂, hrest, rfl, fun result h => hok result (List.mem_cons_of_mem _ h)⟩
      exact Yields.cons hpush (ih htail)

end VideoReassembler

/-! ## The frame while it is collected -/

section Collecting

variable {t : VideoTransmission} {datagrams : List Bytes} {r : VideoReassembler}
  {frame : PendingFrame} {i : Nat} {datagram : Bytes} {now : Time}

/-- Two datagrams of a frame differ. -/
theorem VideoTransmission.Fragmented.index_inj (h : t.Fragmented datagrams) (hfits : t.Fits)
    {j : Nat} (hi : datagrams[i]? = some datagram) (hj : datagrams[j]? = some datagram) : i = j := by
  obtain ⟨hheader, _⟩ := (h.carries hfits hi).unique (h.carries hfits hj)
  exact congrArg FragmentHeader.fragmentIndex hheader

/-- `got` are the indices of the datagrams `seen`. -/
def Indices (datagrams seen : List Bytes) (got : List Nat) : Prop :=
  ∀ i datagram, datagrams[i]? = some datagram → (i ∈ got ↔ datagram ∈ seen)

variable {seen : List Bytes} {got : List Nat}

theorem Indices.cons (h : Indices datagrams seen got) (hfragmented : t.Fragmented datagrams)
    (hfits : t.Fits) (hi : datagrams[i]? = some datagram) :
    Indices datagrams (datagram :: seen) (i :: got) := by
  intro j d hj
  rw [List.mem_cons, List.mem_cons, h j d hj]
  constructor
  · rintro (rfl | hmem)
    · rw [hi] at hj
      cases hj
      exact .inl rfl
    · exact .inr hmem
  · rintro (rfl | hmem)
    · exact .inl (hfragmented.index_inj hfits hj hi)
    · exact .inr hmem

/-- The frame is complete when every datagram was seen. -/
theorem Indices.complete_iff (h : Indices datagrams seen got)
    (hfragmented : t.Fragmented datagrams) : t.Complete got ↔ datagrams ⊆ seen := by
  constructor
  · intro hcomplete d hd
    obtain ⟨i, hi⟩ := List.mem_iff_getElem?.mp hd
    exact (h i d hi).mp (hcomplete i (hfragmented.datagram i d hi).1)
  · intro hsub i hi
    have hlt : i < datagrams.length := by
      rw [hfragmented.length]
      exact hi
    exact (h i _ (List.getElem?_eq_getElem hlt)).mpr (hsub (List.getElem_mem hlt))

/-- The state after the frame was returned. -/
structure Returned (t : VideoTransmission) (config : VideoReassemblyConfig) (others : Set Nat)
    (r : VideoReassembler) : Prop where
  config_eq : r.config = config
  last : r.lastCompletedFrameId = t.metadata.frameId
  keyframe : r.hasCompletedKeyframe = true
  pending : ∀ frameId f, r.pending.get? frameId = some f → frameId ∈ others

theorem Returned.drops {others : Set Nat} {config : VideoReassemblyConfig} {r' : VideoReassembler}
    (h : Returned t config others r) (hdrops : VideoReassembler.Drops r r') :
    Returned t config others r' :=
  ⟨hdrops.config.trans h.config_eq, hdrops.last.trans h.last, hdrops.keyframe.trans h.keyframe,
    fun frameId f hf => h.pending frameId f (hdrops.pending frameId f hf)⟩

/-- What the pushes need of the state beside the pending frame; `others` are the
other frames that may be pending. -/
structure Awaits (t : VideoTransmission) (config : VideoReassemblyConfig) (others : Set Nat)
    (r : VideoReassembler) : Prop where
  config_eq : r.config = config
  last : r.lastCompletedFrameId < t.metadata.frameId
  gate : r.hasCompletedKeyframe = true ∨ t.metadata.isKeyframe = true
  pending : ∀ frameId f, r.pending.get? frameId = some f →
    frameId = t.metadata.frameId ∨ frameId ∈ others

/-- The frame is pending with the datagrams `seen`, and there is memory for the rest. -/
structure Collecting (t : VideoTransmission) (datagrams : List Bytes)
    (config : VideoReassemblyConfig) (others : Set Nat) (seen : List Bytes)
    (created progress : Time) (r : VideoReassembler) (frame : PendingFrame) : Prop
    extends Awaits t config others r where
  get : r.pending.get? t.metadata.frameId = some frame
  holds : ∃ got, t.Holds got frame ∧ Indices datagrams seen got
  memory : r.pendingBytes + t.frame.length ≤ config.maxMemoryBytes + frame.receivedBytes
  createdAt : frame.createdAt = created
  lastProgressAt : frame.lastProgressAt = progress

/-- The frame is not pending yet, and there is room for it. -/
structure HasRoom (t : VideoTransmission) (config : VideoReassemblyConfig) (others : Set Nat)
    (r : VideoReassembler) : Prop extends Awaits t config others r where
  absent : r.pending.get? t.metadata.frameId = none
  slot : r.pending.size < config.maxPendingFrames
  memory : r.pendingBytes + t.frame.length ≤ config.maxMemoryBytes

variable {config : VideoReassemblyConfig} {others : Set Nat} {created progress : Time}

theorem Awaits.congr {r' : VideoReassembler} (h : Awaits t config others r) (hcore : r'.core = r.core) :
    Awaits t config others r' := by
  obtain ⟨hconfig, hpending, _, hlast, hkeyframe⟩ := ReassemblyCore.mk.inj hcore
  exact ⟨hconfig.trans h.config_eq, hlast ▸ h.last, hkeyframe ▸ h.gate, hpending ▸ h.pending⟩

theorem Awaits.expire (h : Awaits t config others r) (now : Time) : Awaits t config others (r.expire now).1 := by
  have hdrops := VideoReassembler.drops_expire r now
  exact ⟨hdrops.config.trans h.config_eq, hdrops.last ▸ h.last, hdrops.keyframe ▸ h.gate,
    fun frameId f hf => h.pending frameId f (hdrops.pending frameId f hf)⟩

/-- The frame itself may be added to the pending frames or replaced in them. -/
theorem Awaits.insert (h : Awaits t config others r) (frame : PendingFrame) (pendingBytes : Nat) :
    Awaits t config others { r with
      pending := r.pending.insert t.metadata.frameId frame, pendingBytes := pendingBytes } := by
  refine ⟨h.config_eq, h.last, h.gate, ?_⟩
  intro frameId f hf
  rcases OrdMap.get?_insert_eq_some hf with ⟨rfl, _⟩ | ⟨_, hf⟩
  · exact .inl rfl
  · exact h.pending frameId f hf

/-- The first datagram of the frame opens it. -/
theorem HasRoom.opened (h : HasRoom t config others r) (datagrams : List Bytes) (i : Nat) (now : Time) :
    ∃ r' frame, (r.expire now).1.openFrame (t.fragmentHeader i) (r.expire now).2 now =
        some (r', (r.expire now).2) ∧ Collecting t datagrams config others [] now now r' frame := by
  have hawaits := h.toAwaits.expire now
  have habsent := VideoReassembler.get?_expire_of_none now h.absent
  have hslot : (r.expire now).1.pending.size < (r.expire now).1.config.maxPendingFrames := by
    rw [hawaits.config_eq]
    exact lt_of_le_of_lt (VideoReassembler.size_expire_le r now) h.slot
  have hbytes := VideoReassembler.pendingBytes_expire_le r now
  refine ⟨_, VideoReassembler.emptyFrame (t.fragmentHeader i) now,
    VideoReassembler.openFrame_absent habsent hslot _ now, ?_⟩
  refine ⟨hawaits.insert _ _, by simp, ?_, ?_, rfl, rfl⟩
  · refine ⟨[], t.holds_empty i now, ?_⟩
    intro j d _
    simp
  · show (r.expire now).1.pendingBytes + t.frame.length ≤ config.maxMemoryBytes + 0
    have := h.memory
    omega

/-- A later datagram finds it, when it comes in time. -/
theorem Collecting.opened (h : Collecting t datagrams config others seen created progress r frame)
    (hidle : now - progress < (if t.metadata.isKeyframe then config.keyframeFragmentDeadline
      else config.fragmentDeadline))
    (hlifetime : now - created < (if t.metadata.isKeyframe then config.keyframeLifetime
      else config.frameLifetime)) (i : Nat) :
    (r.expire now).1.openFrame (t.fragmentHeader i) (r.expire now).2 now =
        some ((r.expire now).1, (r.expire now).2) ∧
      Collecting t datagrams config others seen created progress (r.expire now).1 frame := by
  have hlive : r.config.expired now frame = false := by
    obtain ⟨got, hholds, _⟩ := h.holds
    rw [h.config_eq]
    unfold VideoReassemblyConfig.expired
    rw [hholds.metadata, h.lastProgressAt, h.createdAt]
    cases hkeyframe : t.metadata.isKeyframe with
    | true =>
        rw [hkeyframe] at hidle hlifetime
        simp at hidle hlifetime
        simp [hidle, hlifetime]
    | false =>
        rw [hkeyframe] at hidle hlifetime
        simp at hidle hlifetime
        simp [hidle, hlifetime]
  have hget := VideoReassembler.get?_expire_of_live h.get hlive
  refine ⟨VideoReassembler.openFrame_pending hget _ now, ?_⟩
  have hbytes := VideoReassembler.pendingBytes_expire_le r now
  have hmemory := h.memory
  exact ⟨h.toAwaits.expire now, hget, h.holds, by omega, h.createdAt, h.lastProgressAt⟩

/-! ## One push -/

section Push

variable (hfragmented : t.Fragmented datagrams) (hfits : t.Fits)
  (hi : datagrams[i]? = some datagram)

include hfragmented hfits hi

/-- Behind the checks, a datagram is the fragment it carries. -/
theorem Awaits.push_eq (h : Awaits t config others r) (hsize : t.frame.length ≤ config.maxFrameBytes)
    {r' : VideoReassembler} {outcome : VideoReassemblyOutcome}
    (hopen : (r.expire now).1.openFrame (t.fragmentHeader i) (r.expire now).2 now =
      some (r', outcome)) :
    r.push datagram now = r'.addFragment (t.fragmentHeader i) (t.fragment i) outcome now := by
  have hawaits := h.expire now
  rw [VideoReassembler.push_of_carries (hfragmented.carries hfits hi),
    VideoReassembler.pushFragment_open hfragmented (hfragmented.datagram i datagram hi).1
      (by rw [hawaits.config_eq]; exact hsize) hawaits.last, hopen, Option.bind_some]

theorem Collecting.duplicate (h : Collecting t datagrams config others seen created progress r frame)
    (hseen : datagram ∈ seen) (outcome : VideoReassemblyOutcome) (now : Time) :
    ∃ r', r.addFragment (t.fragmentHeader i) (t.fragment i) outcome now = some (r', .ok outcome) ∧
      Collecting t datagrams config others (datagram :: seen) created progress r' frame := by
  obtain ⟨got, hholds, hindices⟩ := h.holds
  have hgot : i ∈ got := (hindices i datagram hi).mpr hseen
  obtain ⟨r', hadd, hcore⟩ := VideoReassembler.addFragment_duplicate hholds
    (hfragmented.datagram i datagram hi).1 h.get hgot outcome now
  obtain ⟨_, hpending, hbytes, _, _⟩ := ReassemblyCore.mk.inj hcore
  refine ⟨r', hadd, h.toAwaits.congr hcore, by rw [hpending]; exact h.get,
    ⟨i :: got, hholds.duplicate hgot, hindices.cons hfragmented hfits hi⟩, ?_, h.createdAt,
    h.lastProgressAt⟩
  rw [hbytes]
  exact h.memory

omit hfits in
/-- A missing fragment gets as far as `storeFragment`. -/
theorem Collecting.addFragment_eq (h : Collecting t datagrams config others seen created progress r frame)
    (hnew : datagram ∉ seen) (outcome : VideoReassemblyOutcome) (now : Time) :
    r.addFragment (t.fragmentHeader i) (t.fragment i) outcome now =
      r.storeFragment frame (t.fragmentHeader i) (t.fragment i) outcome now := by
  obtain ⟨got, hholds, hindices⟩ := h.holds
  have hlt := (hfragmented.datagram i datagram hi).1
  have hgot : i ∉ got := fun hgot => hnew ((hindices i datagram hi).mp hgot)
  -- the memory that the frame does not use yet is enough for the fragment
  have hbytes : frame.receivedBytes + (t.fragment i).length ≤ t.frame.length :=
    (hholds.store hlt hgot now).bytes_le hfragmented
  have hmemory := h.memory
  rw [VideoReassembler.addFragment_missing hholds hlt h.get hgot, if_neg]
  rw [h.config_eq]
  omega

theorem Collecting.missing (h : Collecting t datagrams config others seen created progress r frame)
    (hnew : datagram ∉ seen) (hmissing : ¬ datagrams ⊆ datagram :: seen)
    (outcome : VideoReassemblyOutcome) (now : Time) :
    ∃ r' outcome', r.addFragment (t.fragmentHeader i) (t.fragment i) outcome now =
        some (r', .ok outcome') ∧ outcome'.frame = outcome.frame ∧
      Collecting t datagrams config others (datagram :: seen) created now r'
        (frame.store i (t.fragment i) now) := by
  obtain ⟨got, hholds, hindices⟩ := h.holds
  have hlt := (hfragmented.datagram i datagram hi).1
  have hgot : i ∉ got := fun hgot => hnew ((hindices i datagram hi).mp hgot)
  have hindices' := hindices.cons hfragmented hfits hi
  obtain ⟨r', outcome', hstore, hframe, hcore⟩ :=
    VideoReassembler.storeFragment_incomplete (r := r) hholds hlt hfragmented hgot
      (fun hcomplete => hmissing ((hindices'.complete_iff hfragmented).mp hcomplete)) outcome now
  obtain ⟨_, hpending, hbytes, _, _⟩ := ReassemblyCore.mk.inj hcore
  rw [h.addFragment_eq hfragmented hi hnew]
  refine ⟨r', outcome', hstore, hframe, (h.toAwaits.insert _ _).congr hcore, ?_,
    ⟨i :: got, hholds.store hlt hgot now, hindices'⟩, ?_, h.createdAt, rfl⟩
  · rw [hpending]
    exact VideoReassembler.get?_withFragment
  · have hmemory := h.memory
    have hbytes : r'.pendingBytes = r.pendingBytes + (t.fragment i).length := hbytes
    have hstored : (frame.store i (t.fragment i) now).receivedBytes =
        frame.receivedBytes + (t.fragment i).length := rfl
    omega

/-- The last missing datagram. -/
theorem Collecting.returned (h : Collecting t datagrams config others seen created progress r frame)
    (hnew : datagram ∉ seen) (hall : datagrams ⊆ datagram :: seen)
    (outcome : VideoReassemblyOutcome) (now : Time) :
    ∃ r' outcome', r.addFragment (t.fragmentHeader i) (t.fragment i) outcome now =
        some (r', .ok outcome') ∧
      outcome'.frame = some { metadata := t.metadata, payload := t.frame } ∧
      Returned t config others r' := by
  obtain ⟨got, hholds, hindices⟩ := h.holds
  have hlt := (hfragmented.datagram i datagram hi).1
  have hgot : i ∉ got := fun hgot => hnew ((hindices i datagram hi).mp hgot)
  have hcomplete := ((hindices.cons hfragmented hfits hi).complete_iff hfragmented).mpr hall
  obtain ⟨r', outcome', hstore, hframe, hconfig, hlast, hkeyframe, hpending⟩ :=
    VideoReassembler.storeFragment_returned (r := r) hholds hlt hfragmented hgot hcomplete h.gate
      outcome now
  rw [h.addFragment_eq hfragmented hi hnew]
  refine ⟨r', outcome', hstore, hframe, hconfig.trans h.config_eq, hlast, hkeyframe, ?_⟩
  intro frameId f hf
  obtain ⟨hf, habove⟩ := hpending frameId f hf
  exact (h.pending frameId f hf).resolve_left (Nat.ne_of_gt habove)

/-- A datagram of a frame that is not above the last completed one. -/
theorem push_obsolete (hconfig : r.config = config) (hsize : t.frame.length ≤ config.maxFrameBytes)
    (hlast : t.metadata.frameId ≤ r.lastCompletedFrameId) (now : Time) :
    ∃ r' outcome, r.push datagram now = some (r', .ok outcome) ∧ outcome.frame = none ∧
      VideoReassembler.Drops r r' := by
  have hdrops := VideoReassembler.drops_expire r now
  obtain ⟨r', hpush, hcore⟩ := VideoReassembler.pushFragment_obsolete hfragmented
    (hfragmented.datagram i datagram hi).1 (by rw [hdrops.config, hconfig]; exact hsize)
    (by rw [hdrops.last]; exact hlast) (r.expire now).2 now
  rw [VideoReassembler.push_of_carries (hfragmented.carries hfits hi), hpush]
  exact ⟨r', _, rfl, rfl, hdrops.congr hcore⟩

end Push

/-! ## All pushes -/

/-- After the pushes `earlier`, newest first, the frame is not complete. -/
def Before (t : VideoTransmission) (datagrams : List Bytes) (config : VideoReassemblyConfig)
    (others : Set Nat) (earlier : List (Bytes × Time)) (r : VideoReassembler) : Prop :=
  (earlier = [] ∧ HasRoom t config others r) ∨
  (earlier ≠ [] ∧ ∃ frame, Collecting t datagrams config others (earlier.map Prod.fst)
    (firstArrival earlier) (lastProgress earlier) r frame)

variable {earlier pushes : List (Bytes × Time)}

theorem Before.awaits (h : Before t datagrams config others earlier r) :
    Awaits t config others r := by
  rcases h with ⟨_, hroom⟩ | ⟨_, frame, hcollecting⟩
  · exact hroom.toAwaits
  · exact hcollecting.toAwaits

/-- The next datagram finds the frame pending, opened by itself or by the first one. -/
theorem Before.opened (h : Before t datagrams config others earlier r)
    (htime : earlier ≠ [] → InTime config t.metadata.isKeyframe earlier now) (i : Nat)
    (datagram : Bytes) :
    ∃ r' frame progress, (r.expire now).1.openFrame (t.fragmentHeader i) (r.expire now).2 now =
        some (r', (r.expire now).2) ∧
      Collecting t datagrams config others (earlier.map Prod.fst)
        (firstArrival ((datagram, now) :: earlier)) progress r' frame ∧
      (earlier ≠ [] → progress = lastProgress earlier) := by
  rcases h with ⟨rfl, hroom⟩ | ⟨hne, frame, hcollecting⟩
  · obtain ⟨r', frame, hopen, hcollecting⟩ := hroom.opened datagrams i now
    exact ⟨r', frame, now, hopen, hcollecting, fun hne => absurd rfl hne⟩
  · obtain ⟨hidle, hlifetime⟩ := htime hne
    obtain ⟨hopen, hcollecting⟩ := hcollecting.opened hidle hlifetime i
    rw [firstArrival_cons _ hne]
    exact ⟨_, frame, _, hopen, hcollecting, fun _ => rfl⟩

/-- Every push but the first comes before both deadlines, until the frame is complete. -/
def Deadlines (t : VideoTransmission) (datagrams : List Bytes) (config : VideoReassemblyConfig)
    (pushes : List (Bytes × Time)) : Prop :=
  ∀ pre datagram now post, pushes = pre ++ (datagram, now) :: post → pre ≠ [] →
    ¬ datagrams ⊆ pre.map Prod.fst → InTime config t.metadata.isKeyframe pre.reverse now

theorem Deadlines.of_append {rest : List (Bytes × Time)}
    (h : Deadlines t datagrams config (pushes ++ rest)) : Deadlines t datagrams config pushes := by
  intro pre d now post hpushes
  subst hpushes
  exact h pre d now (post ++ rest) (by simp)

/-- The same by position, for evaluation. -/
theorem deadlines_iff :
    Deadlines t datagrams config pushes ↔ ∀ k (hk : k < pushes.length), k ≠ 0 →
      ¬ (∀ d ∈ datagrams, d ∈ (pushes.take k).map Prod.fst) →
      InTime config t.metadata.isKeyframe (pushes.take k).reverse pushes[k].2 := by
  constructor
  · intro h k hk hne hmissing
    have hsplit : pushes = pushes.take k ++ (pushes[k].1, pushes[k].2) :: pushes.drop (k + 1) := by
      simp
    refine h _ _ _ _ hsplit ?_ (fun hall => hmissing (fun d hd => hall hd))
    intro hnil
    have hlength := congrArg List.length hnil
    rw [List.length_take, List.length_nil] at hlength
    omega
  · intro h pre d now post hpushes hne hmissing
    subst hpushes
    have hk : pre.length < (pre ++ (d, now) :: post).length := by simp
    have htime := h pre.length hk (by simpa using hne)
    rw [List.take_left] at htime
    simpa using htime (fun hall => hmissing (fun d hd => hall d hd))

instance : Decidable (Deadlines t datagrams config pushes) :=
  haveI := lawfulBEq_bytes
  decidable_of_iff _ deadlines_iff.symm

section Run

variable (hfragmented : t.Fragmented datagrams) (hfits : t.Fits)
  (hsize : t.frame.length ≤ config.maxFrameBytes)

include hfragmented hfits hsize

theorem Before.push_missing (h : Before t datagrams config others earlier r)
    (hi : datagrams[i]? = some datagram)
    (htime : earlier ≠ [] → InTime config t.metadata.isKeyframe earlier now)
    (hmissing : ¬ datagrams ⊆ datagram :: earlier.map Prod.fst) :
    ∃ r' outcome, r.push datagram now = some (r', .ok outcome) ∧ outcome.frame = none ∧
      Before t datagrams config others ((datagram, now) :: earlier) r' := by
  obtain ⟨r₁, frame, progress, hopen, hcollecting, hprogress⟩ := h.opened htime i datagram
  rw [h.awaits.push_eq hfragmented hfits hi hsize hopen]
  by_cases hseen : datagram ∈ earlier.map Prod.fst
  · obtain ⟨r', hadd, hafter⟩ := hcollecting.duplicate hfragmented hfits hi hseen _ now
    have hne : earlier ≠ [] := by
      intro hnil
      rw [hnil] at hseen
      cases hseen
    refine ⟨r', _, hadd, rfl, .inr ⟨by simp, frame, ?_⟩⟩
    rw [lastProgress, if_pos hseen, ← hprogress hne]
    exact hafter
  · obtain ⟨r', outcome, hadd, hframe, hafter⟩ :=
      hcollecting.missing hfragmented hfits hi hseen hmissing _ now
    refine ⟨r', outcome, hadd, hframe, .inr ⟨by simp, frame.store i (t.fragment i) now, ?_⟩⟩
    rw [lastProgress, if_neg hseen]
    exact hafter

theorem Before.push_last (h : Before t datagrams config others earlier r)
    (hi : datagrams[i]? = some datagram)
    (htime : earlier ≠ [] → InTime config t.metadata.isKeyframe earlier now)
    (hmissing : ¬ datagrams ⊆ earlier.map Prod.fst)
    (hall : datagrams ⊆ datagram :: earlier.map Prod.fst) :
    ∃ r' outcome, r.push datagram now = some (r', .ok outcome) ∧
      outcome.frame = some { metadata := t.metadata, payload := t.frame } ∧
      Returned t config others r' := by
  obtain ⟨r₁, frame, progress, hopen, hcollecting, _⟩ := h.opened htime i datagram
  have hnew : datagram ∉ earlier.map Prod.fst := by
    intro hseen
    apply hmissing
    intro d hd
    rcases List.mem_cons.mp (hall hd) with rfl | hd
    · exact hseen
    · exact hd
  obtain ⟨r', outcome, hadd, hframe, hafter⟩ :=
    hcollecting.returned hfragmented hfits hi hnew hall (r.expire now).2 now
  rw [h.awaits.push_eq hfragmented hfits hi hsize hopen]
  exact ⟨r', outcome, hadd, hframe, hafter⟩

/-- The pushes before the last missing datagram. -/
theorem HasRoom.collect (h : HasRoom t config others r) :
    ∀ {pushes : List (Bytes × Time)}, pushes.map Prod.fst ⊆ datagrams →
      ¬ datagrams ⊆ pushes.map Prod.fst → Deadlines t datagrams config pushes →
      ∃ r', r.Yields pushes (List.replicate pushes.length none) r' ∧
        Before t datagrams config others pushes.reverse r' := by
  intro pushes
  induction pushes using List.reverseRecOn with
  | nil => exact fun _ _ _ => ⟨r, .nil r, .inl ⟨rfl, h⟩⟩
  | append_singleton pushes p ih =>
      obtain ⟨datagram, now⟩ := p
      intro hsub hmissing htimes
      rw [List.map_append] at hsub hmissing
      have hmissing₁ : ¬ datagrams ⊆ pushes.map Prod.fst :=
        fun hall => hmissing (List.Subset.trans hall (List.subset_append_left _ _))
      obtain ⟨r₁, hyields, hbefore⟩ :=
        ih (List.Subset.trans (List.subset_append_left _ _) hsub) hmissing₁ htimes.of_append
      obtain ⟨i, hi⟩ := List.mem_iff_getElem?.mp (hsub (List.mem_append_right _
        (List.mem_singleton_self datagram)))
      have hlater : ¬ datagrams ⊆ datagram :: pushes.reverse.map Prod.fst := by
        intro hall
        apply hmissing
        intro d hd
        have := hall hd
        simp only [List.map_reverse, List.mem_cons, List.mem_reverse] at this
        simp only [List.map_cons, List.map_nil, List.mem_append, List.mem_singleton]
        tauto
      obtain ⟨r', outcome, hpush, hframe, hafter⟩ :=
        hbefore.push_missing hfragmented hfits hsize hi
          (fun hne => htimes pushes datagram now [] rfl (by simpa using hne) hmissing₁) hlater
      refine ⟨r', ?_, ?_⟩
      · have hall := hyields.append (.cons hpush (.nil r'))
        rw [hframe] at hall
        rw [List.length_append, List.length_singleton, List.replicate_succ']
        exact hall
      · rw [List.reverse_append]
        exact hafter

/-- Any datagrams of a frame that is not above the last completed one. -/
theorem push_all_obsolete (hconfig : r.config = config)
    (hlast : t.metadata.frameId ≤ r.lastCompletedFrameId)
    (hsub : pushes.map Prod.fst ⊆ datagrams) :
    ∃ r', r.Yields pushes (List.replicate pushes.length none) r' ∧
      VideoReassembler.Drops r r' := by
  induction pushes generalizing r with
  | nil => exact ⟨r, .nil r, .refl r⟩
  | cons p pushes ih =>
      obtain ⟨datagram, now⟩ := p
      obtain ⟨i, hi⟩ := List.mem_iff_getElem?.mp (hsub List.mem_cons_self)
      obtain ⟨r₁, outcome, hpush, hframe, hdrops⟩ :=
        push_obsolete hfragmented hfits hi hconfig hsize hlast now
      obtain ⟨r', hyields, hdrops'⟩ :=
        ih (hdrops.config.trans hconfig) (by rw [hdrops.last]; exact hlast)
          (fun d hd => hsub (List.mem_cons_of_mem _ hd))
      have hall := VideoReassembler.Yields.cons hpush hyields
      rw [hframe] at hall
      exact ⟨r', hall, hdrops.trans hdrops'⟩

/-- All pushes: one of them returns the frame, the one after which nothing is missing. -/
theorem HasRoom.round_trip (h : HasRoom t config others r)
    (hsub : pushes.map Prod.fst ⊆ datagrams) (hall : datagrams ⊆ pushes.map Prod.fst)
    (htimes : Deadlines t datagrams config pushes) :
    ∃ pre datagram now post r', pushes = pre ++ (datagram, now) :: post ∧
      ¬ datagrams ⊆ pre.map Prod.fst ∧ datagrams ⊆ (pre ++ [(datagram, now)]).map Prod.fst ∧
      r.Yields pushes (List.replicate pre.length none ++
        some { metadata := t.metadata, payload := t.frame } ::
          List.replicate post.length none) r' ∧
      Returned t config others r' := by
  have hnone : ¬ datagrams ⊆ ([] : List (Bytes × Time)).map Prod.fst := by
    intro hnil
    have hpos := hfragmented.count_pos
    rw [← hfragmented.length, List.subset_nil.mp hnil] at hpos
    exact absurd hpos (lt_irrefl 0)
  obtain ⟨pre, ⟨datagram, now⟩, post, rfl, hmissing, hlast⟩ :=
    exists_first_prefix (P := fun l => datagrams ⊆ l.map Prod.fst) hnone hall
  rw [List.map_append] at hsub
  have hpre : pre.map Prod.fst ⊆ datagrams := List.Subset.trans (List.subset_append_left _ _) hsub
  have hpost : ((datagram, now) :: post).map Prod.fst ⊆ datagrams :=
    List.Subset.trans (List.subset_append_right _ _) hsub
  obtain ⟨i, hi⟩ := List.mem_iff_getElem?.mp (hpost List.mem_cons_self)
  -- before, at and after the last missing datagram
  obtain ⟨r₁, hcollect, hbefore⟩ :=
    h.collect hfragmented hfits hsize hpre hmissing htimes.of_append
  have hmissing' : ¬ datagrams ⊆ pre.reverse.map Prod.fst := by
    rw [List.map_reverse]
    exact fun hsub => hmissing (fun d hd => List.mem_reverse.mp (hsub hd))
  have hlast' : datagrams ⊆ datagram :: pre.reverse.map Prod.fst := by
    intro d hd
    have hmem := hlast hd
    simp only [List.map_append, List.map_cons, List.map_nil, List.mem_append,
      List.mem_singleton] at hmem
    simp only [List.map_reverse, List.mem_cons, List.mem_reverse]
    exact hmem.symm
  obtain ⟨r₂, outcome, hpush, hframe, hreturned⟩ :=
    hbefore.push_last hfragmented hfits hsize hi
      (fun hne => htimes pre datagram now post rfl (by simpa using hne) hmissing) hmissing' hlast'
  obtain ⟨r', hafter, hdrops⟩ := push_all_obsolete hfragmented hfits hsize hreturned.config_eq
    (Nat.le_of_eq hreturned.last.symm) (fun d hd => hpost (List.mem_cons_of_mem _ hd))
  refine ⟨pre, datagram, now, post, r', rfl, hmissing, hlast, ?_, hreturned.drops hdrops⟩
  rw [← hframe]
  exact hcollect.append (.cons hpush hafter)

end Run

end Collecting

/-- The datagrams of a frame fit the path. Pushed in any order with any repetitions,
each at least once, before the deadlines, into any reassembler that is below the
frame, has room for it and has its gate open, they are all accepted, and the frame is
returned once: by the push after which no datagram is missing. -/
theorem reassembly_round_trip (t : VideoTransmission) (hfits : t.Fits) (datagrams : List Bytes)
    (hsend : t.fragmentVideoFrame = .ok datagrams) :
    (∀ d ∈ datagrams, d.length ≤ t.maxDatagramSize) ∧
    ∀ (config : VideoReassemblyConfig) (r₀ : VideoReassembler) (s : ReassemblyRun)
      (pushes : List (Bytes × Time)),
      VideoReassembler.new config = .ok r₀ →
      (ReassemblyRun.system r₀).Reach (fun _ _ => True) s →
      s.reassembler.lastCompletedFrameId < t.metadata.frameId →
      s.reassembler.pending.get? t.metadata.frameId = none →
      t.frame.length ≤ config.maxFrameBytes →
      s.reassembler.pending.size < config.maxPendingFrames →
      s.reassembler.pendingBytes + t.frame.length ≤ config.maxMemoryBytes →
      s.reassembler.hasCompletedKeyframe = true ∨ config.requireInitialKeyframe = false ∨
        t.metadata.isKeyframe = true →
      pushes.map Prod.fst ⊆ datagrams → datagrams ⊆ pushes.map Prod.fst →
      Deadlines t datagrams config pushes →
      ∃ r' results, s.reassembler.pushAll pushes = some (r', results) ∧
        (∀ result ∈ results, ∃ outcome, result = .ok outcome) ∧
        ∃ pre datagram now post, pushes = pre ++ (datagram, now) :: post ∧
          ¬ datagrams ⊆ pre.map Prod.fst ∧ datagrams ⊆ (pre ++ [(datagram, now)]).map Prod.fst ∧
          results.map VideoReassembler.returned =
            List.replicate pre.length none ++
              some { metadata := t.metadata, payload := t.frame } ::
                List.replicate post.length none := by
  have hfragmented := VideoTransmission.fragmented hsend
  refine ⟨hfragmented.length_datagram, ?_⟩
  intro config r₀ s pushes hnew hreach hlast habsent hsize hslot hmemory hgate hsub hall htimes
  have hinv := ReassemblyRun.runInv_of_reach hnew hreach
  have hgate : s.reassembler.hasCompletedKeyframe = true ∨ t.metadata.isKeyframe = true := by
    rcases hgate with hcompleted | hfree | hkeyframe
    · exact .inl hcompleted
    · exact .inl (hinv.unlocked hfree)
    · exact .inr hkeyframe
  have hroom : HasRoom t config Set.univ s.reassembler :=
    ⟨⟨hinv.config_eq, hlast, hgate, fun _ _ _ => .inr trivial⟩, habsent, hslot, hmemory⟩
  obtain ⟨pre, datagram, now, post, r', hpushes, hmissing, hlast, ⟨results, hpush, hframes, hok⟩,
    _⟩ := hroom.round_trip hfragmented hfits hsize hsub hall htimes
  exact ⟨r', results, hpush, hok, pre, datagram, now, post, hpushes, hmissing, hlast, hframes⟩

/-- The two datagrams of the small keyframe, the second one first and pushed twice,
and once more after the frame is complete. -/
theorem reassembly_round_trip_twice :
    ∃ first second, ReassemblyRun.smallKeyframe.fragmentVideoFrame = .ok [first, second] ∧
      first.length ≤ 78 ∧
      ∃ r' results, ReassemblyRun.fresh.pushAll
          [(second, 0), (second, millis 100), (first, millis 499), (second, secs 9)] =
          some (r', results) ∧
        ∃ pre datagram now post,
          [(second, 0), (second, millis 100), (first, millis 499), (second, secs 9)] =
            pre ++ (datagram, now) :: post ∧
          results.map VideoReassembler.returned = List.replicate pre.length none ++
            some { metadata := ReassemblyRun.smallKeyframe.metadata, payload := [1, 2, 3] } ::
              List.replicate post.length none := by
  obtain ⟨first, second, hsend⟩ :
      ∃ first second, ReassemblyRun.smallKeyframe.fragmentVideoFrame = .ok [first, second] :=
    ⟨_, _, rfl⟩
  have hfits : ReassemblyRun.smallKeyframe.Fits := ⟨by decide, by decide, by decide⟩
  obtain ⟨hlength, hround⟩ := reassembly_round_trip _ hfits _ hsend
  have htimes : Deadlines ReassemblyRun.smallKeyframe [first, second] .default
      [(second, 0), (second, millis 100), (first, millis 499), (second, secs 9)] := by
    intro pre datagram now post hpushes hne hmissing
    rcases pre with _ | ⟨a, _ | ⟨b, _ | ⟨c, _ | ⟨d, pre⟩⟩⟩⟩
    · exact absurd rfl hne
    · cases hpushes
      exact ⟨by simp [lastProgress]; decide, by simp [firstArrival]; decide⟩
    · cases hpushes
      exact ⟨by simp [lastProgress]; decide, by simp [firstArrival]; decide⟩
    · cases hpushes
      simp at hmissing
    · simp at hpushes
  obtain ⟨r', results, hpush, _, pre, datagram, now, post, hpushes, _, _, hframes⟩ :=
    hround .default ReassemblyRun.fresh { reassembler := ReassemblyRun.fresh, log := [] } _ rfl
      .init (by decide) rfl (by decide) (by decide) (by decide) (.inr (.inr rfl)) (by simp)
      (by simp) htimes
  exact ⟨first, second, hsend, hlength first (by simp), r', results, hpush, pre, datagram, now,
    post, hpushes, hframes⟩

end HbbCommon.Transport
