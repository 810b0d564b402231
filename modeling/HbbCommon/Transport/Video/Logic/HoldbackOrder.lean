import HbbCommon.Transport.Video.Logic.HoldbackIsolation

/-!
# Resequencing inside the reorder window

The frames of one epoch arrive in any order, with repeats, all within one
reorder window. Up to the keyframe the stream collects the deltas that arrived;
after it, what was handed on is always the keyframe and an unbroken run of
deltas, and the pending deltas are exactly those that arrived beyond the run
(`Stage`). When everything has arrived the run is the whole epoch.
-/

namespace HbbCommon.Transport

open HbbCommon.Base

/-- The frames of one epoch of a stream: keyframe `first` and `count` deltas. -/
structure EpochFrames where
  key : VideoStreamKey
  first : Nat
  count : Nat
  info : Nat → VideoSourceInfo
  payload : Nat → Bytes
  info_key : ∀ i, (info i).key = key
  info_id : ∀ i, (info i).frameId = i

namespace EpochFrames

/-- Frame `i` as it is handed on. -/
def frame (E : EpochFrames) (i : Nat) : VideoSourceInfo × Bytes := (E.info i, E.payload i)

/-- The ids of the deltas. -/
def deltas (E : EpochFrames) : List Nat := List.range' (E.first + 1) E.count

/-- The payload bytes of the deltas. -/
def deltaBytes (E : EpochFrames) : Nat := (E.deltas.map (fun i => (E.payload i).length)).sum

theorem mem_deltas {E : EpochFrames} {i : Nat} :
    i ∈ E.deltas ↔ E.first < i ∧ i ≤ E.first + E.count := by
  unfold deltas
  rw [List.mem_range'_1]
  omega

end EpochFrames

/-- One arrival: the keyframe or a delta, with its time and reorder window. -/
inductive Arrival
  | keyframe (now reorderWindow : Time)
  | delta (id : Nat) (now reorderWindow : Time)

namespace Arrival

def now : Arrival → Time
  | .keyframe now _ => now
  | .delta _ now _ => now

def reorderWindow : Arrival → Time
  | .keyframe _ reorderWindow => reorderWindow
  | .delta _ _ reorderWindow => reorderWindow

def isKeyframe : Arrival → Bool
  | .keyframe _ _ => true
  | .delta _ _ _ => false

/-- `b` arrives after `a`, within its reorder window and the hold-back
timeout. -/
def Close (a b : Arrival) : Prop :=
  a.now ≤ b.now ∧ b.now - a.now < b.reorderWindow ∧ b.now - a.now < videoEpochHoldbackTimeout

instance (a b : Arrival) : Decidable (a.Close b) :=
  inferInstanceAs (Decidable (_ ∧ _ ∧ _))

/-- The call that an arrival makes. -/
def call (E : EpochFrames) : Arrival → HoldbackCall
  | .keyframe now reorderWindow =>
      .acceptKeyframe (E.info E.first) (E.payload E.first) now reorderWindow
  | .delta id now reorderWindow =>
      .admitDelta (E.info id) E.first (E.payload id) now reorderWindow

end Arrival

/-- The state and the outcome of one call. -/
def HoldbackCall.apply (h : VideoEpochHoldback) :
    HoldbackCall → VideoEpochHoldback × VideoHoldbackOutcome
  | .admitDelta info referenceEpoch payload now reorderWindow =>
      h.admitDelta info referenceEpoch payload now reorderWindow
  | .acceptKeyframe info payload now reorderWindow =>
      h.acceptKeyframe info payload now reorderWindow
  | .expire now reorderWindow => h.expire now reorderWindow

/-- The state and the outcomes of a list of calls. -/
def HoldbackCall.applyAll (h : VideoEpochHoldback) :
    List HoldbackCall → VideoEpochHoldback × List VideoHoldbackOutcome
  | [] => (h, [])
  | call :: calls =>
      let (h', out) := call.apply h
      let (h'', outs) := applyAll h' calls
      (h'', out :: outs)

/-! ## What the stream holds -/

/-- Delta `i` is among the arrivals. -/
def ArrivedIn (done : List Arrival) (i : Nat) : Prop :=
  ∃ now reorderWindow, Arrival.delta i now reorderWindow ∈ done

/-- `t` is the time of an arrival. -/
def TimeIn (done : List Arrival) (t : Time) : Prop := ∃ a ∈ done, a.now = t

/-- The pending frames are the deltas that arrived with an id from `floor` on,
received at one of `times`. -/
structure Holding (E : EpochFrames) (arrived : Nat → Prop) (times : Time → Prop) (floor : Nat)
    (st : VideoEpochStreamState) : Prop where
  mem : ∀ fk f, st.pending.get? fk = some f →
    ∃ i ∈ E.deltas, fk = frameKey E.first i ∧ floor ≤ i ∧ f.info = E.info i ∧
      f.payload = E.payload i ∧ times f.receivedAt
  all : ∀ i, arrived i → floor ≤ i → st.pending.contains (frameKey E.first i) = true

section Holding

variable {E : EpochFrames} {arrived : Nat → Prop} {times : Time → Prop} {floor : Nat}
  {st st' : VideoEpochStreamState} {now reorderWindow : Time}

theorem frameKey_inj {epoch i j : Nat} (h : frameKey epoch i = frameKey epoch j) : i = j :=
  congrArg FrameKey.id h

/-- The pending ids, in key order, are deltas of the epoch, each once. -/
theorem Holding.ids_subperm (h : Holding E arrived times floor st) :
    (st.pending.entries.map (fun e => e.1.id)).Subperm E.deltas := by
  refine List.subperm_of_subset ?_ ?_
  · refine List.Nodup.map_on ?_ st.pending.entries_nodup
    intro x hx y hy hid
    obtain ⟨i, _, hi, _⟩ := h.mem x.1 x.2 (OrdMap.mem_entries_iff.mp hx)
    obtain ⟨j, _, hj, _⟩ := h.mem y.1 y.2 (OrdMap.mem_entries_iff.mp hy)
    have hij : i = j := by
      rw [hi, hj] at hid
      exact hid
    have hkey : x.1 = y.1 := by rw [hi, hj, hij]
    have hval : x.2 = y.2 := OrdMap.mem_unique hx (hkey ▸ hy)
    exact Prod.ext hkey hval
  · intro id hid
    obtain ⟨e, he, rfl⟩ := List.mem_map.mp hid
    obtain ⟨i, hi, hkey, _⟩ := h.mem e.1 e.2 (OrdMap.mem_entries_iff.mp he)
    rw [hkey]
    exact hi

theorem Holding.size_le (h : Holding E arrived times floor st) : st.pending.size ≤ E.count := by
  have hle := h.ids_subperm.length_le
  rwa [List.length_map, EpochFrames.deltas, List.length_range'] at hle

theorem Holding.bytes_le (h : Holding E arrived times floor st) :
    st.pending.total HeldVideoFrame.length ≤ E.deltaBytes := by
  have hmap : st.pending.entries.map (fun e => e.2.length) =
      (st.pending.entries.map (fun e => e.1.id)).map (fun i => (E.payload i).length) := by
    rw [List.map_map]
    refine List.map_congr_left ?_
    intro e he
    obtain ⟨i, _, hkey, _, _, hpayload, _⟩ := h.mem e.1 e.2 (OrdMap.mem_entries_iff.mp he)
    have hid : e.1.id = i := by rw [hkey]; rfl
    show e.2.payload.length = (E.payload e.1.id).length
    rw [hid, hpayload]
  unfold OrdMap.total EpochFrames.deltaBytes
  rw [hmap]
  obtain ⟨l, hperm, hsub⟩ := h.ids_subperm
  rw [← (hperm.map _).sum_eq]
  exact (hsub.map _).sum_le_sum (by simp)

/-- Before the keyframe nothing pending is of the current epoch. -/
theorem Holding.idle_of_lt (h : Holding E arrived times floor st) (hlt : st.currentEpoch < E.first) :
    st.pending.get? st.nextKey = none ∧ st.nextAvailable = none := by
  have hother : ∀ id, st.pending.get? (frameKey st.currentEpoch id) = none := by
    intro id
    cases hget : st.pending.get? (frameKey st.currentEpoch id) with
    | none => rfl
    | some f =>
        obtain ⟨i, _, hkey, _⟩ := h.mem _ f hget
        have : st.currentEpoch = E.first := congrArg FrameKey.epoch hkey
        omega
  refine ⟨hother _, ?_⟩
  cases havail : st.nextAvailable with
  | none => rfl
  | some available =>
      obtain ⟨⟨f, hf⟩, _⟩ := VideoEpochStreamState.nextAvailable_spec havail
      rw [hother available] at hf
      cases hf

/-- Only the pending map matters. -/
theorem Holding.congr (h : Holding E arrived times floor st) (heq : st'.pending = st.pending) :
    Holding E arrived times floor st' :=
  ⟨fun fk f hf => h.mem fk f (heq ▸ hf), fun i hi hle => heq ▸ h.all i hi hle⟩

theorem Holding.mono {times' : Time → Prop} (h : Holding E arrived times floor st)
    (htimes : ∀ t, times t → times' t) : Holding E arrived times' floor st := by
  refine ⟨?_, h.all⟩
  intro fk f hf
  obtain ⟨i, hi, hkey, hle, hinfo, hpayload, ht⟩ := h.mem fk f hf
  exact ⟨i, hi, hkey, hle, hinfo, hpayload, htimes _ ht⟩

/-- The first pending delta leaves. -/
theorem Holding.erase (h : Holding E arrived times floor st)
    (heq : st'.pending = st.pending.erase (frameKey E.first floor)) :
    Holding E arrived times (floor + 1) st' := by
  refine ⟨?_, ?_⟩
  · intro fk f hf
    rw [heq] at hf
    obtain ⟨hne, hf⟩ := OrdMap.get?_erase_eq_some.mp hf
    obtain ⟨i, hi, hkey, hle, hrest⟩ := h.mem fk f hf
    have : i ≠ floor := fun heq => hne (by rw [hkey, heq])
    exact ⟨i, hi, hkey, by omega, hrest⟩
  · intro i hi hle
    obtain ⟨f, hf⟩ := OrdMap.contains_iff.mp (h.all i hi (by omega))
    refine OrdMap.contains_iff.mpr ⟨f, ?_⟩
    rw [heq, OrdMap.get?_erase, if_neg, hf]
    intro hkey
    have := frameKey_inj hkey
    omega

/-! ## Draining an open epoch -/

/-- The epoch is open and its first `m` deltas were handed on. -/
structure Opened (E : EpochFrames) (arrived : Nat → Prop) (times : Time → Prop) (m : Nat)
    (st : VideoEpochStreamState) : Prop where
  epoch : st.currentEpoch = E.first
  next : st.nextFrameId = E.first + m + 1
  le : m ≤ E.count
  holding : Holding E arrived times (E.first + m + 1) st
  gap : ∀ t, st.gapStartedAt = some t → times t

/-- Releasing the next delta. -/
theorem Opened.release {m : Nat} {frame : HeldVideoFrame} (h : Opened E arrived times m st)
    (hmax : E.first + E.count < u64Max) (hget : st.pending.get? st.nextKey = some frame) :
    (frame.info, frame.payload) = E.frame (E.first + m + 1) ∧
    Opened E arrived times (m + 1) { st with
      pending := st.pending.erase st.nextKey
      gapStartedAt := none
      pendingBytes := st.pendingBytes - frame.length
      nextFrameId := satAdd st.nextFrameId 1 } := by
  have hnextKey : st.nextKey = frameKey E.first (E.first + m + 1) := by
    rw [VideoEpochStreamState.nextKey, h.epoch, h.next]
  rw [hnextKey] at hget ⊢
  obtain ⟨i, hi, hkey, _, hinfo, hpayload, _⟩ := h.holding.mem _ _ hget
  have hid : E.first + m + 1 = i := frameKey_inj hkey
  have hle := EpochFrames.mem_deltas.mp hi
  refine ⟨?_, h.epoch, ?_, by omega, h.holding.erase rfl, fun t ht => by cases ht⟩
  · rw [hid, hinfo, hpayload]
    rfl
  · show satAdd st.nextFrameId 1 = _
    rw [h.next, satAdd_of_le (by omega)]
    omega

/-- **Draining an open epoch.** It releases the next deltas without a break and
stops before the first one that has not arrived. -/
theorem Opened.drains {d d' : Drained} (hdrain : st.Drains now reorderWindow d st' d')
    (hfirst : E.first ≠ 0) (hmax : E.first + E.count < u64Max) (hnow : times now) :
    ∀ m, Opened E arrived times m st →
    (∀ fk f, st.pending.get? fk = some f → ∀ t, times t → now - t < reorderWindow) →
    ∃ m', m ≤ m' ∧ Opened E arrived times m' st' ∧ st'.pending.get? st'.nextKey = none ∧
      d'.skippedFrames = d.skippedFrames ∧
      d'.ready = d.ready ++ (List.range' (E.first + m + 1) (m' - m)).map E.frame := by
  induction hdrain with
  | @stop st st' d hturn =>
      intro m h _
      refine ⟨m, Nat.le_refl _, ?_⟩
      rw [Nat.sub_self]
      rcases VideoEpochStreamState.drainTurn_stop hturn with
        ⟨hzero, _⟩ | ⟨_, hnone, ⟨_, rfl⟩ | ⟨_, rfl⟩⟩
      · have := h.epoch
        have := h.next
        omega
      · exact ⟨⟨h.epoch, h.next, h.le, h.holding.congr rfl, fun t ht => by cases ht⟩, hnone,
          rfl, by simp⟩
      · refine ⟨⟨h.epoch, h.next, h.le, h.holding.congr rfl, ?_⟩, hnone, rfl, by simp⟩
        intro t ht
        cases hgap : st.gapStartedAt with
        | none =>
            rw [hgap] at ht
            cases ht
            exact hnow
        | some t' =>
            rw [hgap] at ht
            exact h.gap t (hgap.trans ht)
  | @skip st st' st'' d d' n hturn _ ih =>
      -- the window has not elapsed, so no turn skips
      intro m h hwindow
      obtain ⟨available, _, havail, hlate, _⟩ := VideoEpochStreamState.drainTurn_skip hturn
      obtain ⟨⟨f, hf⟩, _⟩ := VideoEpochStreamState.nextAvailable_spec havail
      exfalso
      refine hlate (hwindow _ f hf _ ?_)
      cases hgap : st.gapStartedAt with
      | none => exact hnow
      | some t => exact h.gap t hgap
  | @release st st' st'' d d' frame hturn _ ih =>
      intro m h hwindow
      obtain ⟨_, hget, rfl⟩ := VideoEpochStreamState.drainTurn_release hturn
      obtain ⟨hframe, hopen⟩ := h.release hmax hget
      obtain ⟨m', hle, hopen', hnone, hskip, hready⟩ := ih (m + 1) hopen (by
        intro fk f hf
        exact hwindow fk f (OrdMap.get?_erase_eq_some.mp hf).2)
      refine ⟨m', by omega, hopen', hnone, hskip, ?_⟩
      have hsplit : m' - m = (m' - (m + 1)) + 1 := by omega
      rw [hready, hsplit, List.range'_succ, List.map_cons, ← hframe]
      show (d.ready ++ [(frame.info, frame.payload)]) ++ _ = _
      rw [List.append_assoc]
      rfl

end Holding

/-! ## A call that finds everything idle -/

section Idle

variable {h : VideoEpochHoldback} {key : VideoStreamKey} {st : VideoEpochStreamState}
  {now reorderWindow : Time}

open VideoEpochHoldback

/-- A stream with nothing to release, skip or drop only restarts its gap
clock. -/
theorem expireStream_idle (now reorderWindow : Time)
    (hnone : st.pending.get? st.nextKey = none)
    (hgap : st.nextAvailable = none ∨ now - st.gapStartedAt.getD now < reorderWindow)
    (hfresh : ∀ fk f, st.pending.get? fk = some f →
      now - f.receivedAt < videoEpochHoldbackTimeout) :
    ∃ gap, st.expireStream now reorderWindow = ({ st with gapStartedAt := gap }, .none, 0) ∧
      (gap = none ∨ gap = st.gapStartedAt ∨ gap = some now) := by
  obtain ⟨gap, hdrain, hcases⟩ := st.drainReady_idle hnone hgap
  refine ⟨gap, ?_, hcases⟩
  have hlate : ∀ fk f, st.pending.get? fk = some f →
      VideoEpochStreamState.timedOut now fk f = false := by
    intro fk f hf
    exact decide_eq_false (Nat.not_le.mpr (hfresh fk f hf))
  have hdropped : st.pending.filter (VideoEpochStreamState.timedOut now) = ∅ :=
    OrdMap.filter_eq_empty hlate
  have hkept : st.pending.filter (fun k f => !VideoEpochStreamState.timedOut now k f) =
      st.pending := by
    refine OrdMap.filter_eq_self ?_
    intro fk f hf
    rw [hlate fk f hf]
    rfl
  unfold VideoEpochStreamState.expireStream
  rw [hdrain]
  simp only [VideoEpochStreamState.dropPending, hdropped, hkept]
  rfl

/-- A stream without pending frames is idle. -/
theorem expireStream_empty (now reorderWindow : Time) (hempty : st.pending = ∅) :
    ∃ gap, st.expireStream now reorderWindow = ({ st with gapStartedAt := gap }, .none, 0) := by
  have hnone : ∀ fk, st.pending.get? fk = none := fun fk => by rw [hempty]; rfl
  have havail : st.nextAvailable = none := by
    unfold VideoEpochStreamState.nextAvailable
    rw [hempty]
    rfl
  obtain ⟨gap, heq, _⟩ := expireStream_idle now reorderWindow
    (hnone st.nextKey) (.inl havail) (fun fk f hf => by rw [hnone fk] at hf; cases hf)
  exact ⟨gap, heq⟩

/-- Expiry that finds every stream idle has no outcome. -/
theorem expire_outcome_default (hidle : ∀ k st, h.streams.get? k = some st →
    (st.expireStream now reorderWindow).2 = (.none, 0)) :
    (h.expire now reorderWindow).2 = .default := by
  have hall : ∀ e ∈ h.streams.entries, (e.2.expireStream now reorderWindow).2 = (.none, 0) :=
    fun e he => hidle e.1 e.2 (OrdMap.mem_entries_iff.mp he)
  show h.streams.entries.foldl _ VideoHoldbackOutcome.default = _
  revert hall
  induction h.streams.entries with
  | nil => intro _; rfl
  | cons e rest ih =>
      intro hall
      rw [List.foldl_cons]
      simp only [hall e List.mem_cons_self]
      exact ih (fun e' he' => hall e' (List.mem_cons_of_mem _ he'))

/-- Only stream `key` is in use, and the table has room for it. -/
structure Alone (key : VideoStreamKey) (h : VideoEpochHoldback) : Prop where
  others : ∀ k st, k ≠ key → h.streams.get? k = some st → st.pending = ∅
  exact : h.AllStreams Exact
  room : h.streams.get? key = none → h.streams.size < maxVideoEpochStreamStates

/-- The stream of `key`, or the default one. -/
def streamOf (h : VideoEpochHoldback) (key : VideoStreamKey) : VideoEpochStreamState :=
  (h.streams.get? key).getD .default

/-- A keyframe does not retire its own stream. -/
theorem retainStreams_get?_self (h : VideoEpochHoldback) (key : VideoStreamKey) :
    (h.retainStreams key).streams.get? key = h.streams.get? key := by
  cases hget : h.streams.get? key with
  | none => simp [VideoEpochHoldback.retainStreams, hget]
  | some st => exact OrdMap.get?_filter_eq_some.mpr ⟨hget, by simp⟩

theorem Alone.retainStreams (halone : Alone key h) : Alone key (h.retainStreams key) where
  others k st hk hst := halone.others k st hk (OrdMap.get?_filter_eq_some.mp hst).1
  exact := halone.exact.retainStreams key
  room hnone := by
    rw [retainStreams_get?_self] at hnone
    exact Nat.lt_of_le_of_lt (OrdMap.size_filter_le _ _) (halone.room hnone)

theorem streamOf_retainStreams (h : VideoEpochHoldback) (key : VideoStreamKey) :
    streamOf (h.retainStreams key) key = streamOf h key := by
  rw [streamOf, retainStreams_get?_self, streamOf]

theorem Alone.setStream (halone : Alone key h) (hexact : Exact st) :
    Alone key (h.setStream key st) where
  others k st' hk hst' := by
    rw [setStream_get?, if_neg hk] at hst'
    exact halone.others k st' hk hst'
  exact := halone.exact.setStream hexact
  room hnone := by simp at hnone

/-- A stream with other clocks. -/
def VideoEpochStreamState.clocked (st : VideoEpochStreamState) (gap : Option Time)
    (generation : Nat) : VideoEpochStreamState :=
  { st with gapStartedAt := gap, lastActivity := generation }

/-- Nothing to release, to skip or to drop in a stream. -/
structure Idle (now reorderWindow : Time) (st : VideoEpochStreamState) : Prop where
  next : st.pending.get? st.nextKey = none
  gap : st.nextAvailable = none ∨ now - st.gapStartedAt.getD now < reorderWindow
  fresh : ∀ fk f, st.pending.get? fk = some f → now - f.receivedAt < videoEpochHoldbackTimeout

/-- **An idle call.** Expiry and preparation only touch the stream's clocks, and
ask for nothing. -/
theorem Alone.settle (halone : Alone key h) (hstream : Idle now reorderWindow (streamOf h key)) :
    (h.expire now reorderWindow).2 = .default ∧
    ((h.expire now reorderWindow).1.prepareStream key .default).2 = .default ∧
    Alone key ((h.expire now reorderWindow).1.prepareStream key .default).1 ∧
    ∃ gap generation, (h.expire now reorderWindow).1.prepared key =
        (streamOf h key).clocked gap generation ∧
      (gap = none ∨ gap = (streamOf h key).gapStartedAt ∨ gap = some now) := by
  have hidle : ∀ k st, h.streams.get? k = some st → ∃ gap,
      st.expireStream now reorderWindow = ({ st with gapStartedAt := gap }, .none, 0) ∧
      (k = key → gap = none ∨ gap = st.gapStartedAt ∨ gap = some now) := by
    intro k st hst
    by_cases hk : k = key
    · have hst' : streamOf h key = st := by rw [streamOf, ← hk, hst]; rfl
      rw [hst'] at hstream
      obtain ⟨gap, heq, hcases⟩ := expireStream_idle now reorderWindow hstream.next hstream.gap
        hstream.fresh
      exact ⟨gap, heq, fun _ => hcases⟩
    · obtain ⟨gap, heq⟩ := expireStream_empty now reorderWindow
        (halone.others k st hk hst)
      exact ⟨gap, heq, fun h => absurd h hk⟩
  have hroom : (h.expire now reorderWindow).1.streams.get? key = none →
      (h.expire now reorderWindow).1.streams.size < maxVideoEpochStreamStates := by
    intro hget
    rw [expire_size]
    rw [expire_get?, Option.map_eq_none_iff] at hget
    exact halone.room hget
  refine ⟨?_, prepareStream_snd hroom _, ⟨?_, ?_, ?_⟩, ?_⟩
  · refine expire_outcome_default ?_
    intro k st hst
    obtain ⟨gap, heq, _⟩ := hidle k st hst
    rw [heq]
  · intro k st hk hst
    rw [prepareStream_streams, room_eq hroom, OrdMap.get?_insert, if_neg hk, expire_get?,
      Option.map_eq_some_iff] at hst
    obtain ⟨st', hst', rfl⟩ := hst
    obtain ⟨gap, heq, _⟩ := hidle k st' hst'
    rw [heq]
    exact halone.others k st' hk hst'
  · exact (halone.exact.expire closed_exact now reorderWindow).prepareStream closed_exact _ _
  · intro hget
    rw [prepareStream_get?_self] at hget
    cases hget
  · unfold prepared streamOf
    rw [expire_get?]
    cases hst : h.streams.get? key with
    | none => exact ⟨none, _, rfl, .inl rfl⟩
    | some st =>
        obtain ⟨gap, heq, hcases⟩ := hidle key st hst
        refine ⟨gap, satAdd (h.expire now reorderWindow).1.activityGeneration 1, ?_, hcases rfl⟩
        rw [Option.map_some, heq]
        rfl

theorem streamOf_setStream (h : VideoEpochHoldback) (key : VideoStreamKey)
    (st : VideoEpochStreamState) : streamOf (h.setStream key st) key = st := by
  simp [streamOf]

/-- Only `key` counts towards the totals. -/
theorem Alone.totals (halone : Alone key h) (hst : h.streams.get? key = some st) :
    h.frames = st.pending.size ∧ h.bytes = st.pendingBytes := by
  constructor
  · refine OrdMap.total_eq_of_only hst ?_
    intro k st' hk hst'
    rw [halone.others k st' hk hst']
    rfl
  · refine OrdMap.total_eq_of_only hst ?_
    intro k st' hk hst'
    rw [halone.exact k st' hst', halone.others k st' hk hst']
    rfl

/-- What an arriving delta leaves behind: it is dropped, or held and drained. -/
def DeltaCases (st : VideoEpochStreamState) (info : VideoSourceInfo) (epoch : Nat)
    (payload : Bytes) (now reorderWindow : Time) (out : VideoHoldbackOutcome)
    (st' : VideoEpochStreamState) : Prop :=
  ((obsoleteDelta st epoch info.frameId = true ∨
      st.pending.contains (frameKey epoch info.frameId) = true) ∧
    out.ready = [] ∧ out.recoveryRequired = false ∧ st' = st) ∨
  (obsoleteDelta st epoch info.frameId = false ∧
    st.pending.contains (frameKey epoch info.frameId) = false ∧
    out.ready = ((holdDelta st info epoch payload now).drainReady now reorderWindow).2.ready ∧
    out.recoveryRequired = decide (((holdDelta st info epoch payload now).drainReady
      now reorderWindow).2.skippedFrames > 0) ∧
    st' = ((holdDelta st info epoch payload now).drainReady now reorderWindow).1)

/-- **One `admit_delta` on an idle stream.** It is dropped as obsolete or
repeated, or held and drained. -/
theorem Alone.admitDelta {info : VideoSourceInfo} {epoch : Nat} {payload : Bytes}
    {h' : VideoEpochHoldback} {out : VideoHoldbackOutcome} (halone : Alone key h)
    (hstream : Idle now reorderWindow (streamOf h key)) (hkey : info.key = key)
    (hepoch : epoch ≠ 0)
    (hfits : (streamOf h key).pending.contains (frameKey epoch info.frameId) = false →
      obsoleteDelta (streamOf h key) epoch info.frameId = false →
      (streamOf h key).pending.size + 1 ≤ videoEpochHoldbackMaxFrames ∧
      (streamOf h key).pendingBytes + payload.length ≤ videoEpochHoldbackMaxBytes)
    (hcall : h.admitDelta info epoch payload now reorderWindow = (h', out)) :
    Alone key h' ∧ out.strictRecoveryRequired = false ∧ ∃ gap generation,
      (gap = none ∨ gap = (streamOf h key).gapStartedAt ∨ gap = some now) ∧
      DeltaCases ((streamOf h key).clocked gap generation) info epoch payload now reorderWindow
        out (streamOf h' key) := by
  subst hkey
  obtain ⟨hexp, hprep, halone', gap, generation, hst, hcases⟩ := halone.settle hstream
  have hget := prepareStream_get?_self (h.expire now reorderWindow).1 info.key .default
  rcases admitDelta_cases h info epoch payload now reorderWindow hcall with
    ⟨hzero, _⟩ | ⟨_, hno, hh', hout⟩ | ⟨hyes, hover, _⟩ | ⟨hyes, hover, hh', hready, hrec, hstrict⟩
  · exact absurd hzero hepoch
  · rw [hexp] at hh' hout
    rw [hprep] at hout
    have hdropped : obsoleteDelta ((h.expire now reorderWindow).1.prepared info.key) epoch
          info.frameId = true ∨
        ((h.expire now reorderWindow).1.prepared info.key).pending.contains
          (frameKey epoch info.frameId) = true := by
      by_contra hneither
      rw [not_or, Bool.not_eq_true, Bool.not_eq_true] at hneither
      rw [admits_iff.mpr ⟨hepoch, hneither⟩] at hno
      cases hno
    rw [hst] at hdropped
    rw [hh', hout]
    refine ⟨halone', rfl, gap, generation, hcases, .inl ⟨hdropped, rfl, rfl, ?_⟩⟩
    rw [streamOf, hget, Option.getD_some, hst]
  · -- the limits hold with the arriving frame
    exfalso
    obtain ⟨_, hfresh, hnew⟩ := admits_iff.mp hyes
    rw [hexp] at hover
    obtain ⟨hf, hb⟩ := hold_totals hget hnew
      { info := info, payload := payload, receivedAt := now
        countedHeld := countedHeld ((h.expire now reorderWindow).1.prepared info.key) epoch
          info.frameId } rfl
    obtain ⟨htf, htb⟩ := halone'.totals hget
    rw [hst] at hfresh hnew htf htb
    obtain ⟨hsize, hbytes⟩ := hfits hnew hfresh
    have hno := not_overflows_of_totals (Nat.le_trans (Nat.le_of_eq hf) (htf ▸ hsize))
      (Nat.le_trans hb (htb ▸ hbytes))
    exact Bool.false_ne_true (hno.symm.trans hover)
  · obtain ⟨_, hfresh, hnew⟩ := admits_iff.mp hyes
    rw [hexp] at hh' hready hrec hstrict hover
    rw [hprep] at hrec hstrict
    rw [setStream_setStream] at hh'
    have hexact := halone'.exact info.key _ hget
    have hheld : Exact (holdDelta ((h.expire now reorderWindow).1.prepared info.key) info epoch
        payload now) := hexact.hold hnew (hold_bytes hover)
    rw [hst] at hfresh hnew
    rw [hst] at hready hrec
    rw [hh', hstrict]
    refine ⟨halone'.setStream (hheld.drain now reorderWindow), rfl, gap, generation, hcases,
      .inr ⟨hfresh, hnew, hready, hrec, ?_⟩⟩
    rw [streamOf_setStream, hst]

/-- **One `accept_keyframe` on an idle stream.** -/
theorem Alone.acceptKeyframe {info : VideoSourceInfo} {payload : Bytes}
    {h' : VideoEpochHoldback} {out : VideoHoldbackOutcome} (halone : Alone key h)
    (hstream : Idle now reorderWindow (streamOf h key)) (hkey : info.key = key)
    (hcall : h.acceptKeyframe info payload now reorderWindow = (h', out)) :
    Alone key h' ∧ out.strictRecoveryRequired = false ∧ ∃ gap generation,
      let st := openEpoch ((streamOf h key).clocked gap generation) info.frameId
      out.ready = (info, payload) :: (st.drainReady now reorderWindow).2.ready ∧
      out.recoveryRequired = decide ((st.drainReady now reorderWindow).2.skippedFrames > 0) ∧
      streamOf h' key = (st.drainReady now reorderWindow).1 := by
  subst hkey
  rw [← streamOf_retainStreams] at hstream
  obtain ⟨hexp, hprep, halone', gap, generation, hst, _⟩ := halone.retainStreams.settle hstream
  have hh' : h' = (h.acceptKeyframe info payload now reorderWindow).1 := by rw [hcall]
  have hout : out = (h.acceptKeyframe info payload now reorderWindow).2 := by rw [hcall]
  obtain ⟨hrec, hstrict⟩ := acceptKeyframe_recovery h info payload now reorderWindow
  have hready := acceptKeyframe_ready h info payload now reorderWindow
  have hfst := acceptKeyframe_fst h info payload now reorderWindow
  have hget := prepareStream_get?_self ((h.retainStreams info.key).expire now reorderWindow).1
    info.key .default
  rw [hexp, hprep] at hrec hstrict
  rw [hexp] at hready hfst
  rw [streamOf_retainStreams] at hst
  have hprepared := halone'.exact info.key _ hget
  have hexact : Exact (h.keyframeStream info now reorderWindow) := by
    refine Exact.dropPending ?_ _
    exact hprepared
  rw [hh', hout, hready, hrec, hstrict, hfst]
  refine ⟨halone'.setStream (hexact.drain now reorderWindow), rfl, gap, generation, ?_, ?_, ?_⟩
  · rw [← hst]
    rfl
  · rw [← hst]
    rfl
  · rw [streamOf_setStream, ← hst]
    rfl

end Idle

/-! ## Stages of an epoch -/

section Stages

open VideoEpochHoldback

variable {E : EpochFrames} {done : List Arrival} {h h' : VideoEpochHoldback}
  {ready : List (VideoSourceInfo × Bytes)} {out : VideoHoldbackOutcome}
  {floor i : Nat} {now reorderWindow : Time} {st : VideoEpochStreamState}
  {arrived : Nat → Prop} {times : Time → Prop}

/-- The frames handed on so far. -/
inductive Stage (E : EpochFrames) (done : List Arrival) (h : VideoEpochHoldback)
    (ready : List (VideoSourceInfo × Bytes)) : Prop
  | waiting : (∀ a ∈ done, a.isKeyframe = false) →
      (streamOf h E.key).currentEpoch < E.first →
      Holding E (ArrivedIn done) (TimeIn done) (E.first + 1) (streamOf h E.key) →
      ready = [] → Stage E done h ready
  | opened (m : Nat) : (∃ a ∈ done, a.isKeyframe = true) →
      Opened E (ArrivedIn done) (TimeIn done) m (streamOf h E.key) →
      (streamOf h E.key).pending.get? (streamOf h E.key).nextKey = none →
      ready = (List.range' E.first (m + 1)).map E.frame → Stage E done h ready

theorem arrivedIn_delta {j : Nat} :
    ArrivedIn (.delta i now reorderWindow :: done) j ↔ j = i ∨ ArrivedIn done j := by
  constructor
  · rintro ⟨t, w, hmem⟩
    rcases List.mem_cons.mp hmem with heq | hmem
    · cases heq
      exact .inl rfl
    · exact .inr ⟨t, w, hmem⟩
  · rintro (rfl | ⟨t, w, hmem⟩)
    · exact ⟨now, reorderWindow, List.mem_cons_self⟩
    · exact ⟨t, w, List.mem_cons_of_mem _ hmem⟩

theorem arrivedIn_keyframe {j : Nat} :
    ArrivedIn (.keyframe now reorderWindow :: done) j ↔ ArrivedIn done j := by
  constructor
  · rintro ⟨t, w, hmem⟩
    rcases List.mem_cons.mp hmem with heq | hmem
    · cases heq
    · exact ⟨t, w, hmem⟩
  · rintro ⟨t, w, hmem⟩
    exact ⟨t, w, List.mem_cons_of_mem _ hmem⟩

theorem timeIn_cons {a : Arrival} {t : Time} (ht : TimeIn done t) : TimeIn (a :: done) t := by
  obtain ⟨b, hb, rfl⟩ := ht
  exact ⟨b, List.mem_cons_of_mem _ hb, rfl⟩

theorem timeIn_self (a : Arrival) : TimeIn (a :: done) a.now := ⟨a, List.mem_cons_self, rfl⟩

/-- Every arrival so far is within the window and the timeout of `b`. -/
theorem within_of_close {b : Arrival} (hclose : ∀ a ∈ done, a.Close b) {t : Time}
    (ht : TimeIn done t) :
    b.now - t < b.reorderWindow ∧ b.now - t < videoEpochHoldbackTimeout := by
  obtain ⟨a, ha, rfl⟩ := ht
  exact (hclose a ha).2

/-- With an earlier arrival the window is not empty. -/
theorem window_pos {b : Arrival} (hclose : ∀ a ∈ done, a.Close b) (hne : ∃ a, a ∈ done) :
    0 < b.reorderWindow := by
  obtain ⟨a, ha⟩ := hne
  exact Nat.lt_of_le_of_lt (Nat.zero_le _) (hclose a ha).2.1

/-- Between arrivals the stream is idle. -/
theorem Stage.idle {b : Arrival} (hstage : Stage E done h ready)
    (hclose : ∀ a ∈ done, a.Close b) : Idle b.now b.reorderWindow (streamOf h E.key) := by
  cases hstage with
  | waiting _ hlt hold _ =>
      obtain ⟨hnext, havail⟩ := hold.idle_of_lt hlt
      refine ⟨hnext, .inl havail, ?_⟩
      intro fk f hf
      obtain ⟨_, _, _, _, _, _, ht⟩ := hold.mem fk f hf
      exact (within_of_close hclose ht).2
  | opened m hkey hopen hnone _ =>
      refine ⟨hnone, .inr ?_, ?_⟩
      · cases hgap : (streamOf h E.key).gapStartedAt with
        | none =>
            obtain ⟨a, ha, _⟩ := hkey
            rw [Option.getD_none, Nat.sub_self]
            exact window_pos hclose ⟨a, ha⟩
        | some t => exact (within_of_close hclose (hopen.gap t hgap)).1
      · intro fk f hf
        obtain ⟨_, _, _, _, _, _, ht⟩ := hopen.holding.mem fk f hf
        exact (within_of_close hclose ht).2

/-- A delta that is already pending, or behind the floor, changes nothing. -/
theorem Holding.repeated {arrived' : Nat → Prop} (hold : Holding E arrived times floor st)
    (harrived : ∀ j, arrived' j → j = i ∨ arrived j)
    (hthere : floor ≤ i → st.pending.contains (frameKey E.first i) = true) :
    Holding E arrived' times floor st := by
  refine ⟨hold.mem, ?_⟩
  intro j hj hle
  rcases harrived j hj with rfl | hj
  · exact hthere hle
  · exact hold.all j hj hle

/-- A new delta joins the pending ones. -/
theorem Holding.hold {arrived' : Nat → Prop} {epoch : Nat}
    (hold : Holding E arrived times floor st) (hepoch : epoch = E.first)
    (harrived : ∀ j, arrived' j → j = i ∨ arrived j)
    (hi : i ∈ E.deltas) (hle : floor ≤ i) (hnow : times now) :
    Holding E arrived' times floor (holdDelta st (E.info i) epoch (E.payload i) now) := by
  subst hepoch
  have hget : ∀ fk, (holdDelta st (E.info i) E.first (E.payload i) now).pending.get? fk =
      if fk = frameKey E.first i then some
        { info := E.info i, payload := E.payload i, receivedAt := now
          countedHeld := countedHeld st E.first (E.info i).frameId }
      else st.pending.get? fk := by
    intro fk
    show (st.pending.insert (frameKey E.first (E.info i).frameId) _).get? fk = _
    rw [OrdMap.get?_insert, E.info_id]
  refine ⟨?_, ?_⟩
  · intro fk f hf
    rw [hget] at hf
    split at hf
    · rename_i hkey
      cases hf
      exact ⟨i, hi, hkey, hle, rfl, rfl, hnow⟩
    · exact hold.mem fk f hf
  · intro j hj hjle
    rw [OrdMap.contains_iff]
    by_cases hji : j = i
    · exact ⟨_, by rw [hget, hji, if_pos rfl]⟩
    · obtain ⟨f, hf⟩ := OrdMap.contains_iff.mp
        (hold.all j ((harrived j hj).resolve_left hji) hjle)
      refine ⟨f, ?_⟩
      rw [hget, if_neg, hf]
      exact fun hkey => hji (frameKey_inj hkey)

/-- There is room for every delta of the epoch. -/
theorem Holding.fits (hold : Holding E arrived times floor st) (hexact : Exact st)
    (hi : i ∈ E.deltas) (hle : floor ≤ i)
    (hnew : st.pending.contains (frameKey E.first (E.info i).frameId) = false) :
    st.pending.size + 1 ≤ E.count ∧
      st.pendingBytes + (E.payload i).length ≤ E.deltaBytes := by
  have hnone := OrdMap.contains_eq_false_iff.mp hnew
  have hheld : Holding E (fun j => j = i ∨ arrived j) (fun _ => True) floor
      (holdDelta st (E.info i) E.first (E.payload i) 0) :=
    (hold.mono (fun _ _ => trivial)).hold rfl (fun j hj => hj) hi hle trivial
  have hsize := hheld.size_le
  have hbytes := hheld.bytes_le
  have hins : (holdDelta st (E.info i) E.first (E.payload i) 0).pending =
      st.pending.insert (frameKey E.first (E.info i).frameId) _ := rfl
  rw [hins, OrdMap.size_insert_of_none _ hnone] at hsize
  rw [hins, OrdMap.total_insert, OrdMap.erase_eq_of_get?_none hnone, ← hexact] at hbytes
  refine ⟨hsize, ?_⟩
  rw [Nat.add_comm]
  exact hbytes

/-- In an open epoch a delta is obsolete when it was handed on already. -/
theorem Opened.obsolete_iff {m : Nat} (hopen : Opened E arrived times m st) :
    obsoleteDelta st E.first (E.info i).frameId = true ↔ i < E.first + m + 1 := by
  unfold obsoleteDelta
  rw [hopen.epoch, hopen.next, E.info_id]
  simp

/-- Before the keyframe no delta is obsolete. -/
theorem obsolete_of_lt (hlt : st.currentEpoch < E.first) :
    obsoleteDelta st E.first (E.info i).frameId = false := by
  unfold obsoleteDelta
  rw [decide_eq_false (by omega), decide_eq_false (by omega)]
  rfl

/-- Before the keyframe a drain releases nothing. -/
theorem Holding.drain_waiting (hold : Holding E arrived times floor st)
    (hlt : st.currentEpoch < E.first) (now reorderWindow : Time) :
    ∃ gap, st.drainReady now reorderWindow = ({ st with gapStartedAt := gap }, .none) := by
  obtain ⟨hnext, havail⟩ := hold.idle_of_lt hlt
  have hgap : st.nextAvailable = none ∨ now - st.gapStartedAt.getD now < reorderWindow :=
    .inl havail
  obtain ⟨gap, heq, _⟩ := st.drainReady_idle hnext hgap
  exact ⟨gap, heq⟩

/-- What was handed on before a drain and by it, together. -/
theorem range'_frames {m m' : Nat} (hle : m ≤ m') :
    (List.range' E.first (m + 1)).map E.frame ++
      (List.range' (E.first + m + 1) (m' - m)).map E.frame =
    (List.range' E.first (m' + 1)).map E.frame := by
  rw [← List.map_append, show E.first + m + 1 = E.first + (m + 1) by omega,
    List.range'_append_1, show m + 1 + (m' - m) = m' + 1 by omega]

/-- Draining an open epoch, from the start of the drain. -/
theorem Opened.drainReady {m : Nat} (hopen : Opened E arrived times m st)
    (hfirst : E.first ≠ 0) (hmax : E.first + E.count < u64Max) (hnow : times now)
    (hwindow : ∀ fk f, st.pending.get? fk = some f → ∀ t, times t → now - t < reorderWindow) :
    ∃ m', m ≤ m' ∧ Opened E arrived times m' (st.drainReady now reorderWindow).1 ∧
      (st.drainReady now reorderWindow).1.pending.get?
        (st.drainReady now reorderWindow).1.nextKey = none ∧
      decide ((st.drainReady now reorderWindow).2.skippedFrames > 0) = false ∧
      (st.drainReady now reorderWindow).2.ready =
        (List.range' (E.first + m + 1) (m' - m)).map E.frame := by
  obtain ⟨m', hle, hopen', hnone, hskip, hready⟩ :=
    Opened.drains (st.drainReady_drains now reorderWindow) hfirst hmax hnow m hopen hwindow
  refine ⟨m', hle, hopen', hnone, ?_, hready⟩
  rw [hskip]
  rfl

section Arrivals

variable {arrived' : Nat → Prop} {times' : Time → Prop} {gap : Option Time}
  {generation : Nat} {info : VideoSourceInfo} {st' : VideoEpochStreamState}

/-- **A delta arrives before the keyframe.** It joins the pending ones. -/
theorem Holding.arrive (hold : Holding E arrived times (E.first + 1) st)
    (hlt : st.currentEpoch < E.first) (hi : i ∈ E.deltas)
    (harrived : ∀ j, arrived' j → j = i ∨ arrived j) (hnow : times now)
    (hcases : DeltaCases (st.clocked gap generation) (E.info i) E.first (E.payload i) now
      reorderWindow out st') :
    st'.currentEpoch < E.first ∧ Holding E arrived' times (E.first + 1) st' ∧
      out.ready = [] ∧ out.recoveryRequired = false := by
  have hclocked : Holding E arrived times (E.first + 1) (st.clocked gap generation) :=
    hold.congr rfl
  rcases hcases with ⟨hdropped, hready, hrec, rfl⟩ | ⟨_, hnew, hready, hrec, hst⟩
  · have hthere := hdropped.resolve_left (by
      rw [obsolete_of_lt (show (st.clocked gap generation).currentEpoch < E.first from hlt)]
      exact Bool.false_ne_true)
    rw [E.info_id] at hthere
    exact ⟨hlt, hclocked.repeated harrived (fun _ => hthere), hready, hrec⟩
  · have hdelta := EpochFrames.mem_deltas.mp hi
    have hheld := hclocked.hold rfl harrived hi (by omega) hnow
    obtain ⟨gap', hdrain⟩ := hheld.drain_waiting hlt now reorderWindow
    rw [hdrain] at hready hrec hst
    rw [hst]
    exact ⟨hlt, hheld.congr rfl, hready, hrec⟩

/-- **A delta arrives after the keyframe.** It is behind the deltas handed on, or
already pending, or it joins the pending ones and the next deltas are handed
on. -/
theorem Opened.arrive {m : Nat} (hopen : Opened E arrived times m st)
    (hnone : st.pending.get? st.nextKey = none) (hfirst : E.first ≠ 0)
    (hmax : E.first + E.count < u64Max) (hi : i ∈ E.deltas)
    (harrived : ∀ j, arrived' j → j = i ∨ arrived j) (htimes : ∀ t, times t → times' t)
    (hnow : times' now) (hwindow : ∀ t, times' t → now - t < reorderWindow)
    (hgap : gap = none ∨ gap = st.gapStartedAt ∨ gap = some now)
    (hcases : DeltaCases (st.clocked gap generation) (E.info i) E.first (E.payload i) now
      reorderWindow out st') :
    ∃ m', m ≤ m' ∧ Opened E arrived' times' m' st' ∧ st'.pending.get? st'.nextKey = none ∧
      out.ready = (List.range' (E.first + m + 1) (m' - m)).map E.frame ∧
      out.recoveryRequired = false := by
  have hgap' : ∀ t, gap = some t → times' t := by
    intro t ht
    rcases hgap with hg | hg | hg <;> rw [hg] at ht
    · cases ht
    · exact htimes t (hopen.gap t ht)
    · exact Option.some.inj ht ▸ hnow
  have hopen' : Opened E arrived times' m (st.clocked gap generation) :=
    ⟨hopen.epoch, hopen.next, hopen.le, (hopen.holding.mono htimes).congr rfl, hgap'⟩
  rcases hcases with ⟨hdropped, hready, hrec, rfl⟩ | ⟨hfresh, hnew, hready, hrec, hst⟩
  · refine ⟨m, Nat.le_refl _, ?_, hnone, by rw [hready, Nat.sub_self]; rfl, hrec⟩
    refine ⟨hopen'.epoch, hopen'.next, hopen'.le, ?_, hgap'⟩
    refine hopen'.holding.repeated harrived ?_
    intro hle
    rcases hdropped with hobs | hthere
    · have := hopen'.obsolete_iff.mp hobs
      omega
    · rw [E.info_id] at hthere
      exact hthere
  · have hle : E.first + m + 1 ≤ i := by
      by_contra hlt
      rw [hopen'.obsolete_iff.mpr (by omega)] at hfresh
      cases hfresh
    have hheld : Opened E arrived' times' m (holdDelta (st.clocked gap generation) (E.info i)
        E.first (E.payload i) now) :=
      ⟨hopen'.epoch, hopen'.next, hopen'.le, hopen'.holding.hold rfl harrived hi hle hnow, hgap'⟩
    obtain ⟨m', hmm, hopen'', hnone', hskip, hdrained⟩ :=
      hheld.drainReady hfirst hmax hnow (fun _ _ _ t ht => hwindow t ht)
    rw [hst, hready, hrec]
    exact ⟨m', hmm, hopen'', hnone', hdrained, hskip⟩

theorem openEpoch_pending {id : Nat} {fk : FrameKey} {f : HeldVideoFrame}
    (hf : (openEpoch (st.clocked gap generation) id).pending.get? fk = some f) :
    st.pending.get? fk = some f :=
  (OrdMap.get?_filter_eq_some.mp hf).1

/-- Nothing collected is obsolete when its epoch opens. -/
theorem Holding.openEpoch (hold : Holding E arrived times (E.first + 1) st)
    (hmax : E.first + E.count < u64Max) (gap : Option Time) (generation : Nat) :
    Opened E arrived times 0 (openEpoch (st.clocked gap generation) E.first) := by
  refine ⟨rfl, satAdd_of_le (by omega), Nat.zero_le _, ?_, fun t ht => by cases ht⟩
  have hkept : ∀ fk f, st.pending.get? fk = some f →
      (!obsoleteBefore E.first fk f) = true := by
    intro fk f hf
    obtain ⟨i, hi, rfl, _⟩ := hold.mem fk f hf
    have hdelta := EpochFrames.mem_deltas.mp hi
    show (!(decide (E.first < E.first) || decide (i ≤ E.first))) = true
    rw [decide_eq_false (Nat.lt_irrefl _), decide_eq_false (by omega)]
    rfl
  have hpending : (VideoEpochHoldback.openEpoch (st.clocked gap generation) E.first).pending =
      st.pending.filter (fun k f => !obsoleteBefore E.first k f) := rfl
  refine hold.congr ?_
  rw [hpending]
  exact OrdMap.filter_eq_self hkept

end Arrivals

section Limits

variable (hfirst : E.first ≠ 0) (hmax : E.first + E.count < u64Max)
  (hcount : E.count ≤ videoEpochHoldbackMaxFrames)
  (hbytes : E.deltaBytes ≤ videoEpochHoldbackMaxBytes)

theorem Alone.exact_streamOf (halone : Alone E.key h) : Exact (streamOf h E.key) := by
  unfold streamOf
  cases hget : h.streams.get? E.key with
  | none => rfl
  | some st => exact halone.exact E.key st hget

include hcount hbytes in
theorem Stage.fits (hstage : Stage E done h ready) (halone : Alone E.key h) (hi : i ∈ E.deltas)
    (hnew : (streamOf h E.key).pending.contains (frameKey E.first (E.info i).frameId) = false)
    (hfresh : obsoleteDelta (streamOf h E.key) E.first (E.info i).frameId = false) :
    (streamOf h E.key).pending.size + 1 ≤ videoEpochHoldbackMaxFrames ∧
      (streamOf h E.key).pendingBytes + (E.payload i).length ≤ videoEpochHoldbackMaxBytes := by
  have hdelta := EpochFrames.mem_deltas.mp hi
  cases hstage with
  | waiting _ _ hold _ =>
      obtain ⟨hf, hb⟩ := hold.fits halone.exact_streamOf hi (by omega) hnew
      exact ⟨Nat.le_trans hf hcount, Nat.le_trans hb hbytes⟩
  | opened m _ hopen _ _ =>
      have hle : E.first + m + 1 ≤ i := by
        by_contra hlt
        rw [hopen.obsolete_iff.mpr (by omega)] at hfresh
        cases hfresh
      obtain ⟨hf, hb⟩ := hopen.holding.fits halone.exact_streamOf hi hle hnew
      exact ⟨Nat.le_trans hf hcount, Nat.le_trans hb hbytes⟩

/-- The window of `b` reaches every arrival so far and `b` itself. -/
theorem window_reaches {b : Arrival} (hclose : ∀ a ∈ done, a.Close b) (hne : ∃ a, a ∈ done) :
    ∀ t, TimeIn (b :: done) t → b.now - t < b.reorderWindow := by
  rintro t ⟨a, ha, rfl⟩
  rcases List.mem_cons.mp ha with rfl | ha
  · rw [Nat.sub_self]
    exact window_pos hclose hne
  · exact (hclose a ha).2.1

include hfirst hmax

include hcount hbytes in
/-- **A delta arrives.** -/
theorem Stage.delta (hstage : Stage E done h ready) (halone : Alone E.key h)
    (hi : i ∈ E.deltas) (hclose : ∀ a ∈ done, a.Close (.delta i now reorderWindow))
    (hcall : h.admitDelta (E.info i) E.first (E.payload i) now reorderWindow = (h', out)) :
    Alone E.key h' ∧ Stage E (.delta i now reorderWindow :: done) h' (ready ++ out.ready) ∧
      out.recoveryRequired = false ∧ out.strictRecoveryRequired = false := by
  have hidle : Idle now reorderWindow (streamOf h E.key) := hstage.idle hclose
  obtain ⟨halone', hstrict, gap, generation, hgap, hcases⟩ :=
    halone.admitDelta hidle (E.info_key i) hfirst
      (hstage.fits hcount hbytes halone hi) hcall
  refine ⟨halone', ?_⟩
  have hnow : TimeIn (.delta i now reorderWindow :: done) now := timeIn_self _
  cases hstage with
  | waiting hno hlt hold hready =>
      obtain ⟨hlt', hold', hout, hrec⟩ := (hold.mono (fun _ ht => timeIn_cons ht)).arrive hlt hi
        (fun j hj => arrivedIn_delta.mp hj) hnow hcases
      refine ⟨.waiting ?_ hlt' hold' (by rw [hready, hout]; rfl), hrec, hstrict⟩
      intro a ha
      rcases List.mem_cons.mp ha with rfl | ha
      · rfl
      · exact hno a ha
  | opened m hkey hopen hnone hready =>
      obtain ⟨a, ha, hakey⟩ := hkey
      obtain ⟨m', hle, hopen', hnone', hout, hrec⟩ := hopen.arrive hnone hfirst hmax hi
        (fun j hj => arrivedIn_delta.mp hj) (fun _ ht => timeIn_cons ht) hnow
        (window_reaches hclose ⟨a, ha⟩) hgap hcases
      refine ⟨.opened m' ⟨a, List.mem_cons_of_mem _ ha, hakey⟩ hopen' hnone' ?_, hrec, hstrict⟩
      rw [hready, hout, range'_frames hle]

/-- **The keyframe arrives.** -/
theorem Stage.keyframe (hstage : Stage E done h ready) (halone : Alone E.key h)
    (hno : ∀ a ∈ done, a.isKeyframe = false)
    (hclose : ∀ a ∈ done, a.Close (.keyframe now reorderWindow))
    (hcall : h.acceptKeyframe (E.info E.first) (E.payload E.first) now reorderWindow =
      (h', out)) :
    Alone E.key h' ∧ Stage E (.keyframe now reorderWindow :: done) h' (ready ++ out.ready) ∧
      out.recoveryRequired = false ∧ out.strictRecoveryRequired = false := by
  have hidle : Idle now reorderWindow (streamOf h E.key) := hstage.idle hclose
  obtain ⟨halone', hstrict, gap, generation, hready', hrec, hst⟩ :=
    halone.acceptKeyframe hidle (E.info_key E.first) hcall
  have hnow : TimeIn (.keyframe now reorderWindow :: done) now := timeIn_self _
  cases hstage with
  | opened _ hkey _ _ _ =>
      obtain ⟨a, ha, hakey⟩ := hkey
      rw [hno a ha] at hakey
      cases hakey
  | waiting _ hlt hold hready =>
      have hopen : Opened E (ArrivedIn done) (TimeIn (.keyframe now reorderWindow :: done)) 0
          (openEpoch ((streamOf h E.key).clocked gap generation) E.first) :=
        (hold.mono (fun _ ht => timeIn_cons ht)).openEpoch hmax gap generation
      rw [E.info_id] at hready' hrec hst
      have hwindow : ∀ fk f,
          (openEpoch ((streamOf h E.key).clocked gap generation) E.first).pending.get? fk = some f →
          ∀ t, TimeIn (.keyframe now reorderWindow :: done) t → now - t < reorderWindow := by
        intro fk f hf
        obtain ⟨_, _, _, _, _, _, a, ha, _⟩ := hold.mem fk f (openEpoch_pending hf)
        exact window_reaches hclose ⟨a, ha⟩
      obtain ⟨m', _, hopen', hnone, hskip, hdrained⟩ :=
        hopen.drainReady hfirst hmax hnow hwindow
      rw [← hst] at hopen' hnone
      refine ⟨halone', .opened m' ⟨_, List.mem_cons_self, rfl⟩ ?_ hnone ?_, hrec.trans hskip,
        hstrict⟩
      · exact ⟨hopen'.epoch, hopen'.next, hopen'.le,
          ⟨hopen'.holding.mem, fun j hj => hopen'.holding.all j (arrivedIn_keyframe.mp hj)⟩,
          hopen'.gap⟩
      · rw [hready, hready', hdrained, List.nil_append, Nat.sub_zero, List.range'_succ]
        rfl

/-! ## Runs -/

omit hfirst hmax in
/-- A call with its state and outcomes. -/
theorem applyAll_cons (call : HoldbackCall) (calls : List HoldbackCall) :
    HoldbackCall.applyAll h (call :: calls) =
      ((HoldbackCall.applyAll (call.apply h).1 calls).1,
        (call.apply h).2 :: (HoldbackCall.applyAll (call.apply h).1 calls).2) := rfl

include hcount hbytes

/-- The stages of a run: induction on the arrivals still to come. -/
theorem Stage.run {arrivals : List Arrival}
    (hdeltas : ∀ i now reorderWindow, .delta i now reorderWindow ∈ arrivals → i ∈ E.deltas)
    (honce : arrivals.countP Arrival.isKeyframe + done.countP Arrival.isKeyframe ≤ 1)
    (hclose : ∀ a ∈ done, ∀ b ∈ arrivals, a.Close b) (hpair : arrivals.Pairwise Arrival.Close)
    (halone : Alone E.key h) (hstage : Stage E done h ready) :
    Alone E.key (HoldbackCall.applyAll h (arrivals.map (Arrival.call E))).1 ∧
    Stage E (arrivals.reverse ++ done) (HoldbackCall.applyAll h (arrivals.map (Arrival.call E))).1
      (ready ++ (HoldbackCall.applyAll h (arrivals.map (Arrival.call E))).2.flatMap
        VideoHoldbackOutcome.ready) ∧
    ∀ out ∈ (HoldbackCall.applyAll h (arrivals.map (Arrival.call E))).2,
      out.recoveryRequired = false ∧ out.strictRecoveryRequired = false := by
  induction arrivals generalizing done h ready with
  | nil =>
      refine ⟨halone, ?_, fun out hout => by cases hout⟩
      simpa [HoldbackCall.applyAll] using hstage
  | cons b rest ih =>
      have hb : ∀ a ∈ done, a.Close b := fun a ha => hclose a ha b List.mem_cons_self
      have hstep : Alone E.key ((b.call E).apply h).1 ∧
          Stage E (b :: done) ((b.call E).apply h).1 (ready ++ ((b.call E).apply h).2.ready) ∧
          ((b.call E).apply h).2.recoveryRequired = false ∧
          ((b.call E).apply h).2.strictRecoveryRequired = false := by
        cases b with
        | delta i now reorderWindow =>
            exact hstage.delta hfirst hmax hcount hbytes halone
              (hdeltas i now reorderWindow List.mem_cons_self) hb Prod.mk.eta.symm
        | keyframe now reorderWindow =>
            refine hstage.keyframe hfirst hmax halone ?_ hb Prod.mk.eta.symm
            have hzero : done.countP Arrival.isKeyframe = 0 := by
              rw [List.countP_cons_of_pos rfl] at honce
              omega
            intro a ha
            have := List.countP_eq_zero.mp hzero a ha
            simpa using this
      obtain ⟨halone', hstage', hrec⟩ := hstep
      obtain ⟨h1, h2, h3⟩ := ih
        (fun i now reorderWindow hmem => hdeltas i now reorderWindow (List.mem_cons_of_mem _ hmem))
        (by rw [List.countP_cons] at honce ⊢; omega)
        (by
          intro a ha c hc
          rcases List.mem_cons.mp ha with rfl | ha
          · exact (List.pairwise_cons.mp hpair).1 c hc
          · exact hclose a ha c (List.mem_cons_of_mem _ hc))
        (List.pairwise_cons.mp hpair).2 halone' hstage'
      rw [List.map_cons, applyAll_cons, List.reverse_cons, List.append_assoc,
        List.singleton_append, List.flatMap_cons, ← List.append_assoc]
      refine ⟨h1, h2, ?_⟩
      intro out hout
      rcases List.mem_cons.mp hout with rfl | hout
      · exact hrec
      · exact h3 out hout

end Limits

/-- When everything has arrived, everything was handed on and nothing waits. -/
theorem Stage.complete (hstage : Stage E done h ready) (hkey : ∃ a ∈ done, a.isKeyframe = true)
    (hall : ∀ i ∈ E.deltas, ArrivedIn done i) :
    ready = (List.range' E.first (E.count + 1)).map E.frame ∧
      (streamOf h E.key).pending = ∅ := by
  cases hstage with
  | waiting hno _ _ _ =>
      obtain ⟨a, ha, hakey⟩ := hkey
      rw [hno a ha] at hakey
      cases hakey
  | opened m _ hopen hnone hready =>
      have hm : m = E.count := by
        by_contra hne
        have hlt : m < E.count := Nat.lt_of_le_of_ne hopen.le hne
        have hmem : E.first + m + 1 ∈ E.deltas := EpochFrames.mem_deltas.mpr (by omega)
        have hthere := hopen.holding.all _ (hall _ hmem) (Nat.le_refl _)
        rw [VideoEpochStreamState.nextKey, hopen.epoch, hopen.next] at hnone
        rw [OrdMap.contains_eq_false_iff.mpr hnone] at hthere
        cases hthere
      refine ⟨by rw [hready, hm], ?_⟩
      apply OrdMap.ext_get?
      intro fk
      cases hget : (streamOf h E.key).pending.get? fk with
      | none => rfl
      | some f =>
          obtain ⟨i, hi, _, hle, _⟩ := hopen.holding.mem fk f hget
          have := EpochFrames.mem_deltas.mp hi
          omega

end Stages

namespace HoldbackRun

/-- **Resequencing.** From any reachable hold-back with nothing pending and a
free place in its table, let the keyframe of a new epoch arrive once and its
deltas at least once each, in any order, all inside one reorder window. Then the
frames handed on are the keyframe and the deltas in order, each once; nothing is
left pending and no recovery is asked for. -/
theorem in_order_inside_window (r : HoldbackRun) (hreach : system.Reach (fun _ _ => True) r)
    (hidle : ∀ k st, r.holdback.streams.get? k = some st → st.pending = ∅)
    (hroom : r.holdback.streams.size < maxVideoEpochStreamStates) (E : EpochFrames)
    (hepoch : (streamOf r.holdback E.key).currentEpoch < E.first)
    (hcount : E.count ≤ videoEpochHoldbackMaxFrames) (hmax : E.first + E.count < u64Max)
    (hbytes : E.deltaBytes ≤ videoEpochHoldbackMaxBytes) (arrivals : List Arrival)
    (honce : arrivals.countP Arrival.isKeyframe = 1)
    (hdeltas : ∀ i now reorderWindow, .delta i now reorderWindow ∈ arrivals → i ∈ E.deltas)
    (hall : ∀ i ∈ E.deltas, ArrivedIn arrivals i)
    (hclose : arrivals.Pairwise Arrival.Close) :
    (HoldbackCall.applyAll r.holdback (arrivals.map (Arrival.call E))).2.flatMap
        VideoHoldbackOutcome.ready = (List.range' E.first (E.count + 1)).map E.frame ∧
    (∀ k st, (HoldbackCall.applyAll r.holdback (arrivals.map (Arrival.call E))).1.streams.get? k =
      some st → st.pending = ∅) ∧
    ∀ out ∈ (HoldbackCall.applyAll r.holdback (arrivals.map (Arrival.call E))).2,
      out.recoveryRequired = false ∧ out.strictRecoveryRequired = false := by
  have hexact := allStreams_of_reach VideoEpochHoldback.closed_exact hreach
  have halone : Alone E.key r.holdback := ⟨fun k st _ => hidle k st, hexact, fun _ => hroom⟩
  have hempty : (streamOf r.holdback E.key).pending = ∅ := by
    unfold streamOf
    cases hget : r.holdback.streams.get? E.key with
    | none => rfl
    | some st => exact hidle E.key st hget
  have hstage : Stage E [] r.holdback [] := by
    refine .waiting (fun a ha => by cases ha) hepoch ⟨?_, ?_⟩ rfl
    · intro fk f hf
      rw [hempty] at hf
      cases hf
    · rintro i ⟨now, reorderWindow, hmem⟩
      cases hmem
  obtain ⟨halone', hstage', hrec⟩ := hstage.run (by omega) hmax hcount hbytes hdeltas
    (by rw [honce, List.countP_nil]) (fun a ha => by cases ha) hclose halone
  have hkey : ∃ a ∈ arrivals.reverse ++ [], a.isKeyframe = true := by
    have hpos : 0 < arrivals.countP Arrival.isKeyframe := by omega
    obtain ⟨a, ha, hakey⟩ := List.countP_pos_iff.mp hpos
    exact ⟨a, by simpa using ha, hakey⟩
  obtain ⟨hready, hpending⟩ := hstage'.complete hkey (by
    intro i hi
    obtain ⟨now, reorderWindow, hmem⟩ := hall i hi
    exact ⟨now, reorderWindow, by simpa using hmem⟩)
  refine ⟨hready, ?_, hrec⟩
  intro k st hst
  by_cases hk : k = E.key
  · rw [streamOf, ← hk, hst] at hpending
    exact hpending
  · exact halone'.others k st hk hst

/-- Keyframe 1 and deltas 2 and 3 of display 0. -/
def threeFrames : EpochFrames where
  key := { display := 0, streamId := 1 }
  first := 1
  count := 2
  info i := frameOf 0 i (decide (i = 1))
  payload i := [UInt8.ofNat i]
  info_key _ := rfl
  info_id _ := rfl

/-- The last delta first, then the keyframe, the missing delta and a repeat. -/
def shuffled : List Arrival :=
  [.delta 3 0 (millis 40), .keyframe (millis 5) (millis 40), .delta 2 (millis 9) (millis 40),
    .delta 3 (millis 12) (millis 40)]

theorem in_order_inside_window_shuffled :
    (HoldbackCall.applyAll system.init.holdback (shuffled.map (Arrival.call threeFrames))).2.flatMap
      VideoHoldbackOutcome.ready =
    [(frameOf 0 1 true, [1]), (frameOf 0 2 false, [2]), (frameOf 0 3 false, [3])] :=
  (in_order_inside_window system.init .init (fun _ _ hst => by cases hst) (by decide) threeFrames
    (by decide) (by decide) (by decide) (by decide) shuffled (by decide)
    (by
      intro i now reorderWindow hmem
      simp only [shuffled, List.mem_cons, Arrival.delta.injEq, reduceCtorEq, false_or,
        List.not_mem_nil, or_false] at hmem
      rcases hmem with ⟨rfl, _⟩ | ⟨rfl, _⟩ | ⟨rfl, _⟩ <;> decide)
    (by
      intro i hi
      have hcases : i = 2 ∨ i = 3 := by
        have := EpochFrames.mem_deltas.mp hi
        change 1 < i ∧ i ≤ 1 + 2 at this
        omega
      rcases hcases with rfl | rfl
      · exact ⟨millis 9, millis 40, by simp [shuffled]⟩
      · exact ⟨0, millis 40, by simp [shuffled]⟩)
    (by decide)).1

end HoldbackRun

end HbbCommon.Transport
