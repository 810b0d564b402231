import HbbCommon.Transport.Video.Logic.ReassemblerInv

/-!
# The reassembler over whole runs

Any sequence of `push`, `expire` and `reset` calls, with any bytes at any times.
The log keeps the datagrams that were pushed and the frames that were returned;
`session` is what happened since the last reset. `History` says what every
returned frame owes to the events before it.
-/

namespace HbbCommon.Transport

open HbbCommon.Base

inductive ReassemblyEvent
  | pushed (datagram : Bytes) (returned : Option CompleteVideoFrame)
  | reset
  deriving DecidableEq, Repr

inductive ReassemblyCall
  | push (datagram : Bytes) (now : Time)
  | expire (now : Time)
  | reset
  deriving DecidableEq, Repr

/-- A reassembler with the events so far, newest first. -/
structure ReassemblyRun where
  reassembler : VideoReassembler
  log : List ReassemblyEvent
  deriving DecidableEq

namespace ReassemblyRun

open VideoReassembler (returned)

def step (s : ReassemblyRun) : ReassemblyCall → Option ReassemblyRun
  | .push datagram now =>
      (s.reassembler.push datagram now).map fun (r, result) =>
        { reassembler := r, log := .pushed datagram (returned result) :: s.log }
  | .expire now => some { s with reassembler := (s.reassembler.expire now).1 }
  | .reset => some { reassembler := s.reassembler.reset, log := .reset :: s.log }

/-- A reassembler under calls in any order at any times. -/
def system (r : VideoReassembler) : TSys ReassemblyRun ReassemblyCall where
  init := { reassembler := r, log := [] }
  step := step

/-- The events since the last reset. -/
def session (log : List ReassemblyEvent) : List ReassemblyEvent :=
  log.takeWhile (fun e => decide (e ≠ .reset))

/-- The frames that were returned, newest first. -/
def returnedFrames (log : List ReassemblyEvent) : List CompleteVideoFrame :=
  log.filterMap (fun e => match e with
    | .pushed _ returned => returned
    | .reset => none)

/-- A datagram with this fragment was pushed. -/
def Received (log : List ReassemblyEvent) (header : FragmentHeader) (fragment : Bytes) : Prop :=
  ∃ datagram returned, .pushed datagram returned ∈ log ∧ Carries datagram header fragment

/-- Every returned frame was assembled from what was received before, is above all
earlier ones, and is not a delta before the first keyframe. -/
def History (requireInitialKeyframe : Bool) : List ReassemblyEvent → Prop
  | [] => True
  | .pushed datagram (some frame) :: older =>
      Assembled (Received (.pushed datagram (some frame) :: older)) frame ∧
      (∀ f ∈ returnedFrames older, f.metadata.frameId < frame.metadata.frameId) ∧
      (requireInitialKeyframe = true → frame.metadata.isKeyframe = true ∨
        ∃ f ∈ returnedFrames older, f.metadata.isKeyframe = true) ∧
      History requireInitialKeyframe older
  | _ :: older => History requireInitialKeyframe older

variable {log : List ReassemblyEvent} {require : Bool}

theorem received_cons {event : ReassemblyEvent} {header : FragmentHeader} {fragment : Bytes}
    (h : Received log header fragment) : Received (event :: log) header fragment := by
  obtain ⟨datagram, returned, hmem, hcarries⟩ := h
  exact ⟨datagram, returned, List.mem_cons_of_mem _ hmem, hcarries⟩

theorem History.split (h : History require log) {post pre : List ReassemblyEvent}
    {datagram : Bytes} {frame : CompleteVideoFrame}
    (hlog : log = post ++ .pushed datagram (some frame) :: pre) :
    Assembled (Received (.pushed datagram (some frame) :: pre)) frame ∧
    (require = true → frame.metadata.isKeyframe = true ∨
      ∃ f ∈ returnedFrames pre, f.metadata.isKeyframe = true) := by
  induction post generalizing log with
  | nil =>
      subst hlog
      exact ⟨h.1, h.2.2.1⟩
  | cons e post ih =>
      subst hlog
      refine ih ?_ rfl
      cases e with
      | reset => exact h
      | pushed d returned =>
          cases returned with
          | none => exact h
          | some f => exact h.2.2.2

theorem History.sorted (h : History require log) :
    (returnedFrames log).Pairwise (fun a b => a.metadata.frameId > b.metadata.frameId) := by
  induction log with
  | nil => exact .nil
  | cons e log ih =>
      cases e with
      | reset => exact ih h
      | pushed d returned =>
          cases returned with
          | none => exact ih h
          | some frame => exact List.pairwise_cons.mpr ⟨h.2.1, ih h.2.2.2⟩

/-- What holds after every call. -/
structure RunInv (config : VideoReassemblyConfig) (r : VideoReassembler)
    (log : List ReassemblyEvent) : Prop where
  config_eq : r.config = config
  core : CoreInv r.core (Received log)
  newest : ∀ f ∈ returnedFrames log, f.metadata.frameId ≤ r.lastCompletedFrameId
  keyframe : r.hasCompletedKeyframe = true → config.requireInitialKeyframe = false ∨
    ∃ f ∈ returnedFrames log, f.metadata.isKeyframe = true
  unlocked : config.requireInitialKeyframe = false → r.hasCompletedKeyframe = true
  history : History config.requireInitialKeyframe log

variable {config : VideoReassemblyConfig} {r r' : VideoReassembler}

theorem RunInv.push (h : RunInv config r log) (hpending : 0 < config.maxPendingFrames)
    (datagram : Bytes) (now : Time) :
    ∃ r' result, r.push datagram now = some (r', result) ∧
      RunInv config r' (.pushed datagram (returned result) :: log) := by
  obtain ⟨r', result, hpush, heffect⟩ :=
    VideoReassembler.push_spec h.core (by rw [h.config_eq]; exact hpending) datagram now
  have hseen : ∀ header fragment,
      Received log header fragment ∨ Carries datagram header fragment →
      Received (.pushed datagram (returned result) :: log) header fragment := by
    rintro header fragment (hreceived | hcarries)
    · exact received_cons hreceived
    · exact ⟨datagram, _, List.mem_cons_self, hcarries⟩
  refine ⟨r', result, hpush, ?_⟩
  cases hreturned : returned result with
  | none =>
      rw [hreturned] at heffect hseen
      obtain ⟨hconfig, hcore, hlast, hkeyframe⟩ := heffect
      refine ⟨hconfig.trans h.config_eq, hcore.mono hseen, ?_, ?_, ?_, h.history⟩
      · rw [hlast]
        exact h.newest
      · rw [hkeyframe]
        exact h.keyframe
      · rw [hkeyframe]
        exact h.unlocked
  | some frame =>
      rw [hreturned] at heffect hseen
      obtain ⟨hconfig, hcore, habove, hlast, hkeyframe, hgate, hassembled⟩ := heffect
      obtain ⟨header, whole, h₁, h₂, h₃, h₄, hfragments⟩ := hassembled
      have hgate' : config.requireInitialKeyframe = true → frame.metadata.isKeyframe = true ∨
          ∃ f ∈ returnedFrames log, f.metadata.isKeyframe = true := by
        intro hrequire
        rcases hgate with hcompleted | hkey
        · rcases h.keyframe hcompleted with hnot | hearlier
          · rw [hrequire] at hnot
            cases hnot
          · exact .inr hearlier
        · exact .inl hkey
      refine ⟨hconfig.trans h.config_eq, hcore.mono hseen, ?_, ?_, ?_, ?_⟩
      · intro f hf
        rw [hlast]
        rcases List.mem_cons.mp hf with rfl | hf
        · exact le_refl _
        · exact le_trans (h.newest f hf) (Nat.le_of_lt habove)
      · intro hcompleted
        rw [hkeyframe, Bool.or_eq_true] at hcompleted
        rcases hcompleted with hcompleted | hkey
        · rcases h.keyframe hcompleted with hnot | ⟨f, hf, hkey⟩
          · exact .inl hnot
          · exact .inr ⟨f, List.mem_cons_of_mem _ hf, hkey⟩
        · exact .inr ⟨frame, List.mem_cons_self, hkey⟩
      · intro hrequire
        rw [hkeyframe, h.unlocked hrequire, Bool.true_or]
      · refine ⟨⟨header, whole, h₁, h₂, h₃, h₄, fun i f hi => hseen _ _ (hfragments i f hi)⟩,
          fun f hf => lt_of_le_of_lt (h.newest f hf) habove, hgate', h.history⟩

theorem RunInv.expire (h : RunInv config r log) (now : Time) :
    RunInv config (r.expire now).1 log := by
  have hdrops := VideoReassembler.drops_expire r now
  refine ⟨hdrops.config.trans h.config_eq, VideoReassembler.coreInv_expire h.core now, ?_, ?_,
    ?_, h.history⟩
  · rw [hdrops.last]
    exact h.newest
  · rw [hdrops.keyframe]
    exact h.keyframe
  · rw [hdrops.keyframe]
    exact h.unlocked

/-- A reassembler without frames, at the start of a session. -/
theorem runInv_reset (hconfig : r.config = config) : RunInv config r.reset [] where
  config_eq := hconfig
  core := by
    refine ⟨Nat.zero_le _, rfl, Nat.zero_le _, ?_, ?_⟩
    · intro frameId frame hget
      cases hget
    · intro frameId frame hget
      cases hget
  newest := fun f hf => by cases hf
  keyframe := by
    intro hcompleted
    have hcompleted : (!r.config.requireInitialKeyframe) = true := hcompleted
    rw [hconfig] at hcompleted
    exact .inl (by simpa using hcompleted)
  unlocked := by
    intro hrequire
    show (!r.config.requireInitialKeyframe) = true
    rw [hconfig, hrequire]
    rfl
  history := trivial

theorem session_pushed (datagram : Bytes) (returned : Option CompleteVideoFrame)
    (log : List ReassemblyEvent) :
    session (.pushed datagram returned :: log) = .pushed datagram returned :: session log :=
  List.takeWhile_cons_of_pos (by simp)

theorem session_reset (log : List ReassemblyEvent) : session (.reset :: log) = [] :=
  List.takeWhile_cons_of_neg (by simp)

/-- Every call is defined and keeps the invariant. -/
theorem RunInv.step {s : ReassemblyRun} (h : RunInv config s.reassembler (session s.log))
    (hpending : 0 < config.maxPendingFrames) (call : ReassemblyCall) :
    ∃ t, s.step call = some t ∧ RunInv config t.reassembler (session t.log) := by
  cases call with
  | push datagram now =>
      obtain ⟨r', result, hpush, hinv⟩ := h.push hpending datagram now
      refine ⟨_, by rw [ReassemblyRun.step, hpush, Option.map_some], ?_⟩
      rw [session_pushed]
      exact hinv
  | expire now => exact ⟨_, rfl, h.expire now⟩
  | reset =>
      refine ⟨_, rfl, ?_⟩
      rw [session_reset]
      exact runInv_reset h.config_eq

/-- An accepted configuration, and the state it starts with. -/
theorem new_ok {r₀ : VideoReassembler} (h : VideoReassembler.new config = .ok r₀) :
    0 < config.maxPendingFrames ∧ config.maxFrameBytes ≤ config.maxMemoryBytes ∧
      r₀.config = config ∧ r₀ = r₀.reset := by
  unfold VideoReassembler.new at h
  split at h
  · cases h
  · split at h
    · cases h
    · rename_i hlimits
      cases h
      exact ⟨by omega, by omega, rfl, rfl⟩

theorem runInv_of_reach {r₀ : VideoReassembler} (hnew : VideoReassembler.new config = .ok r₀)
    {s : ReassemblyRun} (h : (system r₀).Reach (fun _ _ => True) s) :
    RunInv config s.reassembler (session s.log) := by
  obtain ⟨hpending, _, hconfig, hreset⟩ := new_ok hnew
  refine h.invariant (I := fun s => RunInv config s.reassembler (session s.log)) ?_ ?_
  · show RunInv config r₀ []
    rw [hreset]
    exact runInv_reset hconfig
  · intro s call t hs _ hstep
    obtain ⟨t', ht', hinv⟩ := hs.step hpending call
    have heq : some t = some t' := hstep.symm.trans ht'
    cases heq
    exact hinv

/-- A reassembler of an accepted configuration after any calls with any bytes at
any times. The limits hold and the byte count is exact; every pending frame is
above the last completed one, incomplete, and counts what it holds; the next call
is defined, so its eviction loop ends and no `expect` or index fails. Since the last
reset the returned ids increase, with `require_initial_keyframe` no delta is
returned before a keyframe, and every returned payload consists of fragments that
were received under one header, in the order of their indices. -/
theorem reassembly_safety (config : VideoReassemblyConfig) (r₀ : VideoReassembler)
    (hnew : VideoReassembler.new config = .ok r₀) (s : ReassemblyRun)
    (h : (system r₀).Reach (fun _ _ => True) s) :
    s.reassembler.pending.size ≤ config.maxPendingFrames ∧
    s.reassembler.pendingBytes = s.reassembler.pending.total PendingFrame.receivedBytes ∧
    s.reassembler.pendingBytes ≤ config.maxMemoryBytes ∧
    (∀ frameId frame, s.reassembler.pending.get? frameId = some frame →
      s.reassembler.lastCompletedFrameId < frameId ∧
      frame.receivedFragments = presentCount frame.fragments ∧
      frame.receivedFragments < frame.header.fragmentCount ∧
      frame.receivedBytes = presentBytes frame.fragments ∧
      frame.receivedBytes ≤ frame.header.frameSize) ∧
    (∀ call, ∃ t, s.step call = some t) ∧
    (returnedFrames (session s.log)).Pairwise
      (fun a b => a.metadata.frameId > b.metadata.frameId) ∧
    (∀ post datagram frame pre,
      session s.log = post ++ .pushed datagram (some frame) :: pre →
      Assembled (Received (.pushed datagram (some frame) :: pre)) frame ∧
      (config.requireInitialKeyframe = true → frame.metadata.isKeyframe = true ∨
        ∃ f ∈ returnedFrames pre, f.metadata.isKeyframe = true)) := by
  obtain ⟨hpending, _, _, _⟩ := new_ok hnew
  have hinv := runInv_of_reach hnew h
  have hconfig := hinv.config_eq
  refine ⟨?_, hinv.core.bytes, ?_, ?_, ?_, hinv.history.sorted, ?_⟩
  · rw [← hconfig]
    exact hinv.core.size_le
  · rw [← hconfig]
    exact hinv.core.bytes_le
  · intro frameId frame hget
    have hframe := hinv.core.frames frameId frame hget
    exact ⟨hinv.core.above frameId frame hget, hframe.count, hframe.count_lt, hframe.bytes,
      hframe.bytes_le⟩
  · intro call
    obtain ⟨t, hstep, _⟩ := hinv.step hpending call
    exact ⟨t, hstep⟩
  · exact fun post datagram frame pre hlog => hinv.history.split hlog

/-- A keyframe of three bytes, two of which fit into a datagram. -/
def smallKeyframe : VideoTransmission :=
  { sessionId := ⟨List.replicate 16 7, length_replicate_sessionId⟩
    firstSequenceNumber := 1
    monotonicTimestampUs := 0
    metadata := { frameId := 5, codec := .vp9, flags := flagKeyframe, presentationTimestampUs := 0 }
    frame := [1, 2, 3]
    maxDatagramSize := 78 }

/-- Its datagrams arrive in the wrong order, with garbage between them. -/
def shuffledCalls : List ReassemblyCall :=
  match smallKeyframe.fragmentVideoFrame with
  | .ok [first, second] =>
      [.push second 0, .push [1, 2] 1, .push second 2, .expire 3, .push first 4, .push first 5]
  | _ => []

/-- The reassembler before the first call. -/
def fresh : VideoReassembler :=
  { config := .default, pending := ∅, pendingBytes := 0, lastCompletedFrameId := 0
    hasCompletedKeyframe := false, consecutiveDroppedFrames := 0, lastKeyframeRequest := none
    stats := {} }

theorem reassembly_safety_shuffled :
    ∃ s, VideoReassembler.new .default = .ok fresh ∧
      (system fresh).run shuffledCalls = some s ∧
      returnedFrames (session s.log) =
        [{ metadata := smallKeyframe.metadata, payload := [1, 2, 3] }] ∧
      s.reassembler.pendingBytes ≤ VideoReassemblyConfig.default.maxMemoryBytes := by
  have hframes : ((system fresh).run shuffledCalls).map (fun s => returnedFrames (session s.log)) =
      some [{ metadata := smallKeyframe.metadata, payload := [1, 2, 3] }] := by
    decide +kernel
  obtain ⟨s, hrun, hreturned⟩ := Option.map_eq_some_iff.mp hframes
  refine ⟨s, rfl, hrun, hreturned, ?_⟩
  exact (reassembly_safety .default fresh rfl s
    (TSys.reach_of_any_run shuffledCalls hrun)).2.2.1

end ReassemblyRun

end HbbCommon.Transport
