import HbbCommon.Transport.Video.Holdback

/-!
# One stream of the hold-back

Everything the hold-back promises about released frames is a promise per stream,
so the invariant is stated for one stream, its history of events (newest first)
and its admitted deltas. `StreamInv` says what the pending map and the counters
mean; `Settled` says that the next id in sequence follows the last event.

The source edits a stream in five ways, and each has one lemma here: a drain
(`StreamInv.drain`), dropping pending frames (`StreamInv.dropPending`), holding a
delta (`StreamInv.hold`), opening an epoch (`StreamInv.openEpoch`) and touching
its activity (`StreamInv.touch`).
-/

namespace HbbCommon.Transport

open HbbCommon.Base

/-- What the hold-back hands on. -/
inductive HoldbackEvent
  | keyframe (info : VideoSourceInfo) (payload : Bytes)
  | delta (info : VideoSourceInfo) (payload : Bytes)
  deriving DecidableEq, Repr

namespace HoldbackEvent

def info : HoldbackEvent → VideoSourceInfo
  | .keyframe info _ => info
  | .delta info _ => info

/-- The id of the latest keyframe in a stream's history. -/
def latestKeyframe : List HoldbackEvent → Option Nat
  | [] => none
  | .keyframe info _ :: _ => some info.frameId
  | .delta _ _ :: rest => latestKeyframe rest

/-- The id of the latest frame in a stream's history. -/
def lastId : List HoldbackEvent → Option Nat
  | [] => none
  | e :: _ => some e.info.frameId

/-- The released deltas of a stream, each with the id of the latest keyframe
handed on before it. -/
def releases : List HoldbackEvent → List (VideoSourceInfo × Option Nat × Bytes)
  | [] => []
  | .keyframe _ _ :: rest => releases rest
  | .delta info payload :: rest => (info, latestKeyframe rest, payload) :: releases rest

/-- Every delta of a stream's history has a greater id than the frame handed on
before it. -/
def Increasing : List HoldbackEvent → Prop
  | [] => True
  | .keyframe _ _ :: rest => Increasing rest
  | .delta info _ :: rest => (∃ n, lastId rest = some n ∧ n < info.frameId) ∧ Increasing rest

end HoldbackEvent

open HoldbackEvent

/-- The events of a list of released frames, newest first. -/
def emit (ready : List (VideoSourceInfo × Bytes)) : List HoldbackEvent :=
  (ready.map (fun x => .delta x.1 x.2)).reverse

@[simp] theorem emit_nil : emit [] = [] := rfl

@[simp] theorem emit_append (a b : List (VideoSourceInfo × Bytes)) :
    emit (a ++ b) = emit b ++ emit a := by
  simp [emit]

@[simp] theorem emit_singleton (x : VideoSourceInfo × Bytes) :
    emit [x] = [.delta x.1 x.2] := rfl

/-- The pending deltas of a stream, with their reference epochs. -/
def pendingDeltas (st : VideoEpochStreamState) :
    List (VideoSourceInfo × Option Nat × Bytes) :=
  st.pending.entries.map (fun e => (e.2.info, some e.1.epoch, e.2.payload))

/-- The invariant of one stream `k` with history `ev` and admitted deltas `ad`. -/
structure StreamInv (k : VideoStreamKey) (st : VideoEpochStreamState)
    (ev : List HoldbackEvent) (ad : List (VideoSourceInfo × Option Nat × Bytes)) : Prop where
  keyed : ∀ fk f, st.pending.get? fk = some f → f.info.key = k ∧ f.info.frameId = fk.id
  epoch_ne : ∀ fk f, st.pending.get? fk = some f → fk.epoch ≠ 0
  id_lt : ∀ fk f, st.pending.get? fk = some f → fk.id < u64Max
  fresh : ∀ fk f, st.pending.get? fk = some f →
    st.currentEpoch ≤ fk.epoch ∧ (fk.epoch = st.currentEpoch → st.nextFrameId ≤ fk.id)
  opened : st.currentEpoch ≠ 0 →
    latestKeyframe ev = some st.currentEpoch ∧ ∃ n, lastId ev = some n ∧ n < st.nextFrameId
  next_le : st.nextFrameId ≤ u64Max
  accounted : (releases ev ++ pendingDeltas st).Subperm ad

/-- The next id in sequence follows the last event of an open stream. -/
def Settled (st : VideoEpochStreamState) (ev : List HoldbackEvent) : Prop :=
  st.currentEpoch ≠ 0 → ∃ n, lastId ev = some n ∧ n + 1 = st.nextFrameId

section Stream

variable {k : VideoStreamKey} {st st' : VideoEpochStreamState} {ev : List HoldbackEvent}
  {ad : List (VideoSourceInfo × Option Nat × Bytes)} {now reorderWindow : Time}

theorem StreamInv.default (h : (releases ev).Subperm ad) : StreamInv k .default ev ad where
  keyed := fun _ _ h => by cases h
  epoch_ne := fun _ _ h => by cases h
  id_lt := fun _ _ h => by cases h
  fresh := fun _ _ h => by cases h
  opened := fun h => absurd rfl h
  next_le := Nat.zero_le _
  accounted := by
    show (releases ev ++ []).Subperm ad
    rw [List.append_nil]
    exact h

theorem Settled.default : Settled .default ev := fun h => absurd rfl h

/-- More admissions keep the invariant. -/
theorem StreamInv.mono {ad' : List (VideoSourceInfo × Option Nat × Bytes)}
    (h : StreamInv k st ev ad) (had : ad.Subperm ad') : StreamInv k st ev ad' :=
  { h with accounted := h.accounted.trans had }

/-- The activity stamp is not part of the invariant. -/
theorem StreamInv.touch (h : StreamInv k st ev ad) (generation : Nat) :
    StreamInv k { st with lastActivity := generation } ev ad :=
  ⟨h.keyed, h.epoch_ne, h.id_lt, h.fresh, h.opened, h.next_le, h.accounted⟩

/-- The gap clock is not part of the invariant. -/
theorem StreamInv.setGap (h : StreamInv k st ev ad) (gap : Option Time) :
    StreamInv k { st with gapStartedAt := gap } ev ad :=
  ⟨h.keyed, h.epoch_ne, h.id_lt, h.fresh, h.opened, h.next_le, h.accounted⟩

theorem StreamInv.released (h : StreamInv k st ev ad) : (releases ev).Subperm ad :=
  (List.sublist_append_left _ _).subperm.trans h.accounted

/-! ## Dropping pending frames -/

theorem StreamInv.dropPending (h : StreamInv k st ev ad)
    (p : FrameKey → HeldVideoFrame → Bool) : StreamInv k (st.dropPending p) ev ad := by
  have hsub : ∀ fk f, (st.dropPending p).pending.get? fk = some f →
      st.pending.get? fk = some f :=
    fun fk f hf => (OrdMap.get?_filter_eq_some.mp hf).1
  refine ⟨fun fk f hf => h.keyed fk f (hsub fk f hf),
    fun fk f hf => h.epoch_ne fk f (hsub fk f hf), fun fk f hf => h.id_lt fk f (hsub fk f hf),
    fun fk f hf => h.fresh fk f (hsub fk f hf), h.opened, h.next_le, ?_⟩
  have hlist : (pendingDeltas (st.dropPending p)).Sublist (pendingDeltas st) :=
    List.filter_sublist.map _
  exact (hlist.append_left _).subperm.trans h.accounted

/-- A stream emptied by `clear_pending`. -/
theorem StreamInv.clear (h : StreamInv k st ev ad) :
    StreamInv k { st with pending := ∅, pendingBytes := 0, gapStartedAt := none } ev ad where
  keyed := fun _ _ h => by cases h
  epoch_ne := fun _ _ h => by cases h
  id_lt := fun _ _ h => by cases h
  fresh := fun _ _ h => by cases h
  opened := h.opened
  next_le := h.next_le
  accounted := by
    show (releases ev ++ []).Subperm ad
    rw [List.append_nil]
    exact h.released

/-! ## Draining -/

theorem pendingDeltas_erase {fk : FrameKey} {f : HeldVideoFrame}
    (h : st.pending.get? fk = some f) :
    (pendingDeltas st).Perm ((f.info, some fk.epoch, f.payload) ::
      (st.pending.erase fk).entries.map (fun e => (e.2.info, some e.1.epoch, e.2.payload))) := by
  simpa [pendingDeltas] using (OrdMap.erase_perm h).map
    (fun e : FrameKey × HeldVideoFrame => (e.2.info, some e.1.epoch, e.2.payload))

/-- A skipping turn moves the next id to a pending one. -/
theorem StreamInv.skipTurn {available : Nat} (h : StreamInv k st ev ad)
    (havail : st.nextAvailable = some available)
    (hnone : st.pending.get? st.nextKey = none) :
    StreamInv k { st with nextFrameId := available, gapStartedAt := none } ev ad := by
  obtain ⟨⟨g, hg⟩, hlt, hmin⟩ := VideoEpochStreamState.nextAvailable_spec havail
  refine ⟨h.keyed, h.epoch_ne, h.id_lt, ?_, ?_, ?_, h.accounted⟩
  · intro fk f hf
    obtain ⟨hepoch, hid⟩ := h.fresh fk f hf
    refine ⟨hepoch, fun heq => ?_⟩
    have hfk : fk = frameKey st.currentEpoch fk.id := by
      rw [← heq]
      rfl
    -- the frame is not the next one in sequence, so it is after it
    have hne : fk.id ≠ st.nextFrameId := by
      intro he
      rw [hfk, he] at hf
      rw [VideoEpochStreamState.nextKey] at hnone
      rw [hnone] at hf
      cases hf
    have hge := hid heq
    exact hmin fk.id f (hfk ▸ hf) (by omega)
  · intro hne
    obtain ⟨hkey, n, hn, hlt'⟩ := h.opened hne
    exact ⟨hkey, n, hn, lt_trans hlt' hlt⟩
  · exact le_of_lt (h.id_lt _ g hg)

/-- A releasing turn hands on the next frame in sequence. -/
theorem StreamInv.releaseTurn {frame : HeldVideoFrame} (h : StreamInv k st ev ad)
    (hepoch : st.currentEpoch ≠ 0) (hget : st.pending.get? st.nextKey = some frame) :
    StreamInv k { st with
        pending := st.pending.erase st.nextKey
        gapStartedAt := none
        pendingBytes := st.pendingBytes - frame.length
        nextFrameId := satAdd st.nextFrameId 1 }
      (.delta frame.info frame.payload :: ev) ad ∧
    Settled { st with
        pending := st.pending.erase st.nextKey
        gapStartedAt := none
        pendingBytes := st.pendingBytes - frame.length
        nextFrameId := satAdd st.nextFrameId 1 }
      (.delta frame.info frame.payload :: ev) ∧
    ∃ n, lastId ev = some n ∧ n < frame.info.frameId := by
  have hid : frame.info.frameId = st.nextFrameId := (h.keyed _ _ hget).2
  have hlt : st.nextFrameId < u64Max := h.id_lt _ _ hget
  have hnext : satAdd st.nextFrameId 1 = st.nextFrameId + 1 := satAdd_of_le (by omega)
  obtain ⟨hkey, n, hn, hnlt⟩ := h.opened hepoch
  have hsub : ∀ fk f, (st.pending.erase st.nextKey).get? fk = some f →
      fk ≠ st.nextKey ∧ st.pending.get? fk = some f := by
    intro fk f hf
    by_cases hfk : fk = st.nextKey
    · simp [hfk] at hf
    · exact ⟨hfk, by simpa [hfk] using hf⟩
  refine ⟨⟨fun fk f hf => h.keyed fk f (hsub fk f hf).2,
    fun fk f hf => h.epoch_ne fk f (hsub fk f hf).2,
    fun fk f hf => h.id_lt fk f (hsub fk f hf).2, ?_, ?_, ?_, ?_⟩, ?_, n, hn, by omega⟩
  · intro fk f hf
    obtain ⟨hne, hf'⟩ := hsub fk f hf
    obtain ⟨hge, hseq⟩ := h.fresh fk f hf'
    refine ⟨hge, fun heq => ?_⟩
    have hidne : fk.id ≠ st.nextFrameId := by
      intro he
      apply hne
      show toLex (fk.epoch, fk.id) = _
      rw [heq, he]
      rfl
    have := hseq heq
    show satAdd st.nextFrameId 1 ≤ fk.id
    omega
  · intro _
    refine ⟨hkey, frame.info.frameId, rfl, ?_⟩
    show frame.info.frameId < satAdd st.nextFrameId 1
    omega
  · show satAdd st.nextFrameId 1 ≤ u64Max
    omega
  · show ((frame.info, latestKeyframe ev, frame.payload) :: releases ev ++ _).Subperm ad
    rw [hkey]
    have hperm := (pendingDeltas_erase hget).append_left (releases ev)
    exact (List.perm_middle.symm.trans hperm.symm).subperm.trans h.accounted
  · intro _
    refine ⟨frame.info.frameId, rfl, ?_⟩
    show frame.info.frameId + 1 = satAdd st.nextFrameId 1
    omega

/-- **Draining one stream.** The invariant survives, what was released extends
the stream's history in increasing order, and the stream is settled. -/
theorem StreamInv.drains {d d' : Drained}
    (hdrain : st.Drains now reorderWindow d st' d') :
    StreamInv k st (emit d.ready ++ ev) ad → Increasing (emit d.ready ++ ev) →
    (Settled st (emit d.ready ++ ev) ∨ st.pending.contains st.nextKey = true) →
    StreamInv k st' (emit d'.ready ++ ev) ad ∧ Increasing (emit d'.ready ++ ev) ∧
      Settled st' (emit d'.ready ++ ev) := by
  induction hdrain with
  | @stop st st' d hturn =>
      intro h hinc hset
      rcases VideoEpochStreamState.drainTurn_stop hturn with ⟨hzero, rfl⟩ | ⟨_, hnone, hgap⟩
      · refine ⟨h, hinc, fun hne => ?_⟩
        rcases hzero with hz | hz
        · exact absurd hz hne
        · obtain ⟨_, n, _, hlt⟩ := h.opened hne
          omega
      · have hsettled := hset.resolve_right (by
          rw [OrdMap.contains_eq_false_iff.mpr hnone]
          exact Bool.false_ne_true)
        rcases hgap with ⟨_, rfl⟩ | ⟨_, rfl⟩
        · exact ⟨h.setGap _, hinc, hsettled⟩
        · exact ⟨h.setGap _, hinc, hsettled⟩
  | @skip st st' st'' d d' n hturn _ ih =>
      intro h hinc _
      obtain ⟨available, hnone, havail, _, rfl⟩ := VideoEpochStreamState.drainTurn_skip hturn
      obtain ⟨⟨g, hg⟩, _, _⟩ := VideoEpochStreamState.nextAvailable_spec havail
      exact ih (h.skipTurn havail hnone) hinc (.inr (OrdMap.contains_iff.mpr ⟨g, hg⟩))
  | @release st st' st'' d d' frame hturn _ ih =>
      intro h hinc _
      obtain ⟨hepoch, hget, rfl⟩ := VideoEpochStreamState.drainTurn_release hturn
      obtain ⟨h', hset', hlast⟩ := h.releaseTurn hepoch hget
      have hemit : emit (d.release frame).ready = .delta frame.info frame.payload :: emit d.ready := by
        simp [Drained.release]
      rw [hemit] at ih
      exact ih h' ⟨hlast, hinc⟩ (.inl hset')

theorem StreamInv.drain (h : StreamInv k st ev ad) (hinc : Increasing ev)
    (hset : Settled st ev ∨ st.pending.contains st.nextKey = true) :
    StreamInv k (st.drainReady now reorderWindow).1
        (emit (st.drainReady now reorderWindow).2.ready ++ ev) ad ∧
      Increasing (emit (st.drainReady now reorderWindow).2.ready ++ ev) ∧
      Settled (st.drainReady now reorderWindow).1
        (emit (st.drainReady now reorderWindow).2.ready ++ ev) :=
  StreamInv.drains (st.drainReady_drains now reorderWindow) h hinc hset

/-- What a drain takes: pending frames leave the stream, and only they are
handed on. -/
structure DrainFrame (st st' : VideoEpochStreamState) (d d' : Drained) : Prop where
  size_le : st'.pending.size ≤ st.pending.size
  bytes_le : st'.pendingBytes ≤ st.pendingBytes
  epoch_eq : st'.currentEpoch = st.currentEpoch
  kept : ∀ x ∈ d.ready, x ∈ d'.ready
  ready : ∀ x ∈ d'.ready, x ∈ d.ready ∨
    ∃ fk f, st.pending.get? fk = some f ∧ x = (f.info, f.payload)

theorem drains_frame {d d' : Drained} (hdrain : st.Drains now reorderWindow d st' d') :
    DrainFrame st st' d d' := by
  induction hdrain with
  | @stop st st' d hturn =>
      rcases VideoEpochStreamState.drainTurn_stop hturn with
        ⟨_, rfl⟩ | ⟨_, _, ⟨_, rfl⟩ | ⟨_, rfl⟩⟩
      all_goals exact ⟨Nat.le_refl _, Nat.le_refl _, rfl, fun _ hx => hx, fun _ hx => .inl hx⟩
  | @skip st st' st'' d d' n hturn _ ih =>
      obtain ⟨_, _, _, _, rfl⟩ := VideoEpochStreamState.drainTurn_skip hturn
      exact ⟨ih.size_le, ih.bytes_le, ih.epoch_eq, ih.kept, ih.ready⟩
  | @release st st' st'' d d' frame hturn _ ih =>
      obtain ⟨_, hget, rfl⟩ := VideoEpochStreamState.drainTurn_release hturn
      refine ⟨?_, Nat.le_trans ih.bytes_le (Nat.sub_le _ _), ih.epoch_eq,
        fun x hx => ih.kept x (List.mem_append_left _ hx), ?_⟩
      · have hsize := OrdMap.size_erase hget
        have := ih.size_le
        simp only at this
        omega
      · intro x hx
        rcases ih.ready x hx with hx | ⟨fk, f, hf, rfl⟩
        · rcases List.mem_append.mp hx with hx | hx
          · exact .inl hx
          · exact .inr ⟨st.nextKey, frame, hget, List.mem_singleton.mp hx⟩
        · refine .inr ⟨fk, f, ?_, rfl⟩
          by_cases hfk : fk = st.nextKey
          · simp [hfk] at hf
          · simpa [hfk] using hf

/-- The next frame in sequence of an open epoch is handed on by the next drain. -/
theorem mem_drains_next {frame : HeldVideoFrame} {d d' : Drained}
    (hdrain : st.Drains now reorderWindow d st' d') (hepoch : st.currentEpoch ≠ 0)
    (hnext : st.nextFrameId ≠ 0) (hget : st.pending.get? st.nextKey = some frame) :
    (frame.info, frame.payload) ∈ d'.ready := by
  cases hdrain with
  | stop hturn =>
      rcases VideoEpochStreamState.drainTurn_stop hturn with ⟨hzero, _⟩ | ⟨_, hnone, _⟩
      · exact absurd hzero (not_or.mpr ⟨hepoch, hnext⟩)
      · rw [hget] at hnone
        cases hnone
  | skip hturn _ =>
      obtain ⟨_, hnone, _⟩ := VideoEpochStreamState.drainTurn_skip hturn
      rw [hget] at hnone
      cases hnone
  | release hturn hrest =>
      obtain ⟨_, hget', _⟩ := VideoEpochStreamState.drainTurn_release hturn
      rw [hget] at hget'
      cases hget'
      exact (drains_frame hrest).kept _ (List.mem_append_right _ (List.mem_singleton.mpr rfl))

/-! ## The byte counter -/

/-- The stream counts exactly the bytes it holds. -/
def Exact (st : VideoEpochStreamState) : Prop :=
  st.pendingBytes = st.pending.total HeldVideoFrame.length

theorem Exact.dropPending (h : Exact st) (p : FrameKey → HeldVideoFrame → Bool) :
    Exact (st.dropPending p) := by
  have hsplit := st.pending.total_filter_add p HeldVideoFrame.length
  unfold Exact at h ⊢
  show st.pendingBytes - (st.pending.filter p).total _ = (st.pending.filter _).total _
  omega

theorem Exact.drains {d d' : Drained} (hdrain : st.Drains now reorderWindow d st' d') :
    Exact st → Exact st' := by
  induction hdrain with
  | @stop st st' d hturn =>
      intro h
      rcases VideoEpochStreamState.drainTurn_stop hturn with
        ⟨_, rfl⟩ | ⟨_, _, ⟨_, rfl⟩ | ⟨_, rfl⟩⟩
      all_goals exact h
  | @skip st st' st'' d d' n hturn _ ih =>
      intro h
      obtain ⟨_, _, _, _, rfl⟩ := VideoEpochStreamState.drainTurn_skip hturn
      exact ih h
  | @release st st' st'' d d' frame hturn _ ih =>
      intro h
      obtain ⟨_, hget, rfl⟩ := VideoEpochStreamState.drainTurn_release hturn
      refine ih ?_
      have herase := OrdMap.total_erase HeldVideoFrame.length hget
      unfold Exact at h ⊢
      show st.pendingBytes - frame.length = (st.pending.erase _).total _
      omega

theorem Exact.drain (h : Exact st) (now reorderWindow : Time) :
    Exact (st.drainReady now reorderWindow).1 :=
  Exact.drains (st.drainReady_drains now reorderWindow) h

theorem Exact.hold (h : Exact st) {epoch : Nat} {frame : HeldVideoFrame}
    (hnew : st.pending.contains (frameKey epoch frame.info.frameId) = false)
    (hbytes : satAdd st.pendingBytes frame.length = st.pendingBytes + frame.length) :
    Exact (VideoEpochHoldback.hold st epoch frame) := by
  show satAdd st.pendingBytes frame.length = (st.pending.insert _ _).total _
  rw [hbytes, OrdMap.total_insert,
    OrdMap.erase_eq_of_get?_none (OrdMap.contains_eq_false_iff.mp hnew), h, Nat.add_comm]

/-! ## Holding a delta and opening an epoch -/

theorem StreamInv.hold (h : StreamInv k st ev ad) {info : VideoSourceInfo} {epoch : Nat}
    (payload : Bytes) (now : Time) (hkey : info.key = k) (hepoch : epoch ≠ 0)
    (hid : info.frameId < u64Max)
    (hfresh : VideoEpochHoldback.obsoleteDelta st epoch info.frameId = false)
    (hnew : st.pending.contains (frameKey epoch info.frameId) = false) (held : Bool) :
    StreamInv k (VideoEpochHoldback.hold st epoch
        { info := info, payload := payload, receivedAt := now, countedHeld := held }) ev
      ((info, some epoch, payload) :: ad) := by
  have hnone := OrdMap.contains_eq_false_iff.mp hnew
  simp only [VideoEpochHoldback.obsoleteDelta, Bool.or_eq_false_iff, Bool.and_eq_false_iff,
    decide_eq_false_iff_not] at hfresh
  obtain ⟨hge, hseq⟩ := hfresh
  have hcase : ∀ fk f, (VideoEpochHoldback.hold st epoch
      { info := info, payload := payload, receivedAt := now, countedHeld := held }).pending.get? fk
        = some f →
      (fk = frameKey epoch info.frameId ∧
        f = { info := info, payload := payload, receivedAt := now, countedHeld := held }) ∨
      st.pending.get? fk = some f := by
    intro fk f hf
    exact (OrdMap.get?_insert_eq_some hf).imp_right And.right
  refine ⟨?_, ?_, ?_, ?_, h.opened, h.next_le, ?_⟩
  · intro fk f hf
    rcases hcase fk f hf with ⟨rfl, rfl⟩ | hf
    · exact ⟨hkey, rfl⟩
    · exact h.keyed fk f hf
  · intro fk f hf
    rcases hcase fk f hf with ⟨rfl, rfl⟩ | hf
    · exact hepoch
    · exact h.epoch_ne fk f hf
  · intro fk f hf
    rcases hcase fk f hf with ⟨rfl, rfl⟩ | hf
    · exact hid
    · exact h.id_lt fk f hf
  · intro fk f hf
    rcases hcase fk f hf with ⟨rfl, rfl⟩ | hf
    · refine ⟨Nat.le_of_not_lt hge, fun heq => ?_⟩
      show st.nextFrameId ≤ info.frameId
      rcases hseq with (hne | hz) | hlt
      · exact absurd heq hne
      · simp only [ne_eq, not_not] at hz
        omega
      · omega
    · exact h.fresh fk f hf
  · have hperm : (pendingDeltas (VideoEpochHoldback.hold st epoch
        { info := info, payload := payload, receivedAt := now, countedHeld := held })).Perm
        ((info, some epoch, payload) :: pendingDeltas st) := by
      have hins := (st.pending.insert_perm (frameKey epoch info.frameId)
        { info := info, payload := payload, receivedAt := now, countedHeld := held }).map
        (fun e : FrameKey × HeldVideoFrame => (e.2.info, some e.1.epoch, e.2.payload))
      rw [OrdMap.erase_eq_of_get?_none hnone] at hins
      exact hins
    refine (hperm.append_left (releases ev)).subperm.trans ?_
    exact List.perm_middle.subperm.trans ((List.subperm_cons _).mpr h.accounted)

/-- Opening epoch `e` after handing on keyframe `e`. -/
theorem StreamInv.openEpoch (h : StreamInv k st ev ad) {info : VideoSourceInfo}
    (payload : Bytes) (hid : info.frameId < u64Max) :
    StreamInv k (VideoEpochHoldback.openEpoch st info.frameId) (.keyframe info payload :: ev) ad ∧
      Settled (VideoEpochHoldback.openEpoch st info.frameId) (.keyframe info payload :: ev) := by
  have hnext : satAdd info.frameId 1 = info.frameId + 1 := satAdd_of_le (by omega)
  have hdrop := h.dropPending (VideoEpochHoldback.obsoleteBefore info.frameId)
  refine ⟨⟨hdrop.keyed, hdrop.epoch_ne, hdrop.id_lt, ?_, ?_, ?_,
    hdrop.accounted⟩, ?_⟩
  · intro fk f hf
    have hkeep := (OrdMap.get?_filter_eq_some.mp hf).2
    simp only [VideoEpochHoldback.obsoleteBefore, Bool.not_or, Bool.and_eq_true,
      Bool.not_eq_true', decide_eq_false_iff_not] at hkeep
    refine ⟨Nat.le_of_not_lt hkeep.1, fun _ => ?_⟩
    show satAdd info.frameId 1 ≤ fk.id
    omega
  · intro _
    refine ⟨rfl, info.frameId, rfl, ?_⟩
    show info.frameId < satAdd info.frameId 1
    omega
  · show satAdd info.frameId 1 ≤ u64Max
    omega
  · intro _
    exact ⟨info.frameId, rfl, hnext.symm⟩

end Stream

end HbbCommon.Transport
