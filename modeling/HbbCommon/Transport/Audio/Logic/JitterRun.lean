import HbbCommon.Base.TSys
import HbbCommon.Transport.Audio.Jitter

/-!
# The jitter buffer over whole runs

A run records what happened since the start: packets accepted, packets evicted
for capacity, items returned for playout, resets. `JitterInv` relates the buffer
to the events since the last reset (`session`):

* the byte count is exact and both limits hold;
* every buffered number lies in the window `[next, next + 4096]`;
* `next` continues the playout (`Continues`): it is above the last returned
  number, and every number between the two was accepted and evicted.

Before the first item of a session is returned nothing is asked of `next`, so a
packet may still lower it; afterwards a lower packet is late.
-/

namespace HbbCommon.Transport

open HbbCommon.Base

inductive JitterEvent
  | accepted (packet : AudioPacket)
  | evicted (sequence : Nat)
  | returned (item : AudioPlayoutItem)
  | reset
  deriving DecidableEq, Repr

inductive JitterCall
  | push (packet : AudioPacket) (now : Time)
  | popReady (now : Time)
  | reset
  deriving DecidableEq, Repr

/-- A buffer with the events so far, newest first. -/
structure JitterRun where
  buffer : AudioJitterBuffer
  log : List JitterEvent
  deriving DecidableEq

/-- The numbers that the eviction loop of `push` evicts, newest first. -/
def AudioJitterBuffer.evictions (length : Nat) : Nat → AudioJitterBuffer → List Nat
  | 0, _ => []
  | fuel + 1, b =>
      if b.crowded length then
        match b.packets.first?, b.evictOldest with
        | some (sequence, _), some b => evictions length fuel b ++ [sequence]
        | _, _ => []
      else []

namespace JitterRun

/-- The events of a `push`. -/
def pushEvents (b : AudioJitterBuffer) (packet : AudioPacket) :
    Except AudioDatagramError Bool → List JitterEvent
  | .ok true => .accepted packet ::
      (b.evictions packet.payload.length (b.packets.size + 1)).map .evicted
  | _ => []

def step (s : JitterRun) : JitterCall → Option JitterRun
  | .push packet now =>
      (s.buffer.push packet now).map fun (b, result) =>
        { buffer := b, log := pushEvents s.buffer packet result ++ s.log }
  | .popReady now =>
      let (b, item) := s.buffer.popReady now
      some { buffer := b, log := item.toList.map .returned ++ s.log }
  | .reset => some { buffer := s.buffer.reset, log := .reset :: s.log }

/-- A jitter buffer under calls in any order at any times. -/
def system (b : AudioJitterBuffer) : TSys JitterRun JitterCall where
  init := { buffer := b, log := [] }
  step := step

/-- The events since the last reset. -/
def session (log : List JitterEvent) : List JitterEvent :=
  log.takeWhile (fun e => decide (e ≠ .reset))

/-- `next` follows the last returned item: every number between was accepted and
evicted since. -/
def Continues (next : Nat) (log : List JitterEvent) : Prop :=
  ∀ mid item pre, log = mid ++ .returned item :: pre → (∀ i, .returned i ∉ mid) →
    item.sequence < next ∧
    ∀ n, item.sequence < n → n < next → .evicted n ∈ mid ∧
      ∃ packet : AudioPacket, packet.sequence = n ∧ .accepted packet ∈ log

/-- Every returned packet was accepted before, and every item continues the
playout. -/
def Played : List JitterEvent → Prop
  | [] => True
  | .returned item :: older =>
      (∀ packet, item = .packet packet → .accepted packet ∈ older) ∧
      Continues item.sequence older ∧ Played older
  | _ :: older => Played older

variable {log : List JitterEvent} {next : Nat}

/-! ## The log -/

/-- An event other than a return leaves `next` where it is. -/
theorem Continues.cons (h : Continues next log) {event : JitterEvent}
    (hevent : ∀ i, event ≠ .returned i) : Continues next (event :: log) := by
  intro mid item pre hlog hmid
  cases mid with
  | nil => exact absurd (List.cons.inj hlog).1 (hevent item)
  | cons e mid =>
      obtain ⟨rfl, htail⟩ := List.cons.inj hlog
      obtain ⟨hlt, hskipped⟩ := h mid item pre htail
        (fun i hi => hmid i (List.mem_cons_of_mem _ hi))
      refine ⟨hlt, fun n hn hn' => ?_⟩
      obtain ⟨hevicted, packet, hseq, haccepted⟩ := hskipped n hn hn'
      exact ⟨List.mem_cons_of_mem _ hevicted, packet, hseq, List.mem_cons_of_mem _ haccepted⟩

/-- The eviction of the packet to be played next moves `next` past it. -/
theorem Continues.evict (h : Continues next log) {packet : AudioPacket}
    (hseq : packet.sequence = next) (haccepted : .accepted packet ∈ log) :
    Continues (next + 1) (.evicted next :: log) := by
  intro mid item pre hlog hmid
  cases mid with
  | nil => cases (List.cons.inj hlog).1
  | cons e mid =>
      obtain ⟨rfl, htail⟩ := List.cons.inj hlog
      obtain ⟨hlt, hskipped⟩ := h mid item pre htail
        (fun i hi => hmid i (List.mem_cons_of_mem _ hi))
      refine ⟨by omega, fun n hn hn' => ?_⟩
      rcases Nat.lt_succ_iff_lt_or_eq.mp hn' with hlt' | rfl
      · obtain ⟨hevicted, packet', hseq', haccepted'⟩ := hskipped n hn hlt'
        exact ⟨List.mem_cons_of_mem _ hevicted, packet', hseq',
          List.mem_cons_of_mem _ haccepted'⟩
      · exact ⟨List.mem_cons_self, packet, hseq, List.mem_cons_of_mem _ haccepted⟩

/-- After an item is returned its successor is next. -/
theorem continues_returned (item : AudioPlayoutItem) (log : List JitterEvent) :
    Continues (item.sequence + 1) (.returned item :: log) := by
  intro mid item' pre hlog hmid
  cases mid with
  | nil =>
      obtain ⟨he, _⟩ := List.cons.inj hlog
      cases he
      exact ⟨by omega, fun n hn hn' => by omega⟩
  | cons e mid =>
      obtain ⟨rfl, _⟩ := List.cons.inj hlog
      exact absurd List.mem_cons_self (hmid item)

theorem continues_of_none (h : ∀ i, .returned i ∉ log) (next : Nat) : Continues next log := by
  intro mid item pre hlog
  exact absurd (hlog ▸ List.mem_append_right _ List.mem_cons_self) (h item)

theorem Played.cons (h : Played log) {event : JitterEvent} (hevent : ∀ i, event ≠ .returned i) :
    Played (event :: log) := by
  cases event with
  | returned item => exact absurd rfl (hevent item)
  | accepted _ => exact h
  | evicted _ => exact h
  | reset => exact h

theorem Played.split (h : Played log) {post pre : List JitterEvent} {item : AudioPlayoutItem}
    (hlog : log = post ++ .returned item :: pre) :
    (∀ packet, item = .packet packet → .accepted packet ∈ pre) ∧ Continues item.sequence pre := by
  induction post generalizing log with
  | nil =>
      subst hlog
      exact ⟨h.1, h.2.1⟩
  | cons e post ih =>
      subst hlog
      refine ih ?_ rfl
      cases e with
      | returned _ => exact h.2.2
      | accepted _ => exact h
      | evicted _ => exact h
      | reset => exact h

theorem session_cons {event : JitterEvent} (h : event ≠ .reset) (log : List JitterEvent) :
    session (event :: log) = event :: session log :=
  List.takeWhile_cons_of_pos (by simpa using h)

theorem session_reset (log : List JitterEvent) : session (.reset :: log) = [] :=
  List.takeWhile_cons_of_neg (by simp)

/-! ## The invariant -/

/-- What relates a buffer to the events of its session. -/
structure JitterInv (b : AudioJitterBuffer) (log : List JitterEvent) : Prop where
  bytes : b.bufferedBytes = b.packets.total BufferedAudioPacket.length
  bytes_le : b.bufferedBytes ≤ b.config.maxMemoryBytes
  size_le : b.packets.size ≤ b.config.maxPackets
  small : ∀ k p, b.packets.get? k = some p → p.length ≤ maxAudioPayloadBytes
  window : ∀ k p, b.packets.get? k = some p → k < u64Max ∧
    ∃ next, b.nextSequence = some next ∧ next ≤ k ∧ k ≤ next + maxAudioSequenceAhead
  held : ∀ k p, b.packets.get? k = some p →
    p.packet.sequence = k ∧ .accepted p.packet ∈ log
  started : ∀ i, .returned i ∈ log → b.playoutStarted = true ∧ b.nextSequence.isSome = true
  continues : ∀ next, b.nextSequence = some next → Continues next log
  played : Played log

variable {b b' : AudioJitterBuffer}

theorem checkedSucc_of_lt {n : Nat} (h : n < u64Max) : checkedSucc n = some (n + 1) :=
  if_pos h

/-- The window bounds the bytes far below where the counter would saturate. -/
theorem JitterInv.bytes_small (h : JitterInv b log) :
    b.bufferedBytes ≤ (maxAudioSequenceAhead + 1) * maxAudioPayloadBytes := by
  rw [h.bytes]
  have hsize : b.packets.size ≤ maxAudioSequenceAhead + 1 := by
    cases hnext : b.nextSequence with
    | none =>
        -- without a next number nothing is buffered
        have hnothing : ∀ k p, b.packets.get? k = some p → 0 ≤ k ∧ k ≤ 0 + 0 := by
          intro k p hp
          obtain ⟨_, next, hsome, _⟩ := h.window k p hp
          rw [hnext] at hsome
          cases hsome
        have hempty : b.packets.size ≤ 0 + 1 := OrdMap.size_le_of_window hnothing
        exact le_trans hempty (by decide)
    | some next =>
        have hwindow : ∀ k p, b.packets.get? k = some p →
            next ≤ k ∧ k ≤ next + maxAudioSequenceAhead := by
          intro k p hp
          obtain ⟨_, next', hsome, hle, hle'⟩ := h.window k p hp
          rw [hnext] at hsome
          cases hsome
          exact ⟨hle, hle'⟩
        exact OrdMap.size_le_of_window hwindow
  calc b.packets.total BufferedAudioPacket.length
      ≤ b.packets.size * maxAudioPayloadBytes := OrdMap.total_le_size_mul h.small
    _ ≤ (maxAudioSequenceAhead + 1) * maxAudioPayloadBytes := Nat.mul_le_mul_right _ hsize

/-- The saturating sum in the eviction loop is exact. -/
theorem JitterInv.satAdd_bytes (h : JitterInv b log) {length : Nat}
    (hlength : length ≤ maxAudioPayloadBytes) :
    satAdd b.bufferedBytes length = b.bufferedBytes + length := by
  apply satAdd_of_le
  have hsmall := h.bytes_small
  have hmax : (maxAudioSequenceAhead + 1) * maxAudioPayloadBytes + maxAudioPayloadBytes ≤ u64Max := by
    decide
  omega

/-- The next number after the oldest packet is evicted. -/
theorem evictOldest_eq (b : AudioJitterBuffer) {k : Nat} {p : BufferedAudioPacket}
    (h : b.packets.first? = some (k, p)) :
    b.evictOldest = some { b with
      packets := b.packets.erase k
      bufferedBytes := b.bufferedBytes - p.length
      nextSequence := if b.nextSequence = some k then checkedSucc k else b.nextSequence
      stats := { b.stats with evictedPackets := satAdd b.stats.evictedPackets 1 } } := by
  simp [AudioJitterBuffer.evictOldest, h]

/-- What evictions leave: fewer packets, and a next number that is not lower and
does not pass a number that is not buffered. -/
structure Evicts (b b' : AudioJitterBuffer) : Prop where
  config : b'.config = b.config
  started : b'.playoutStarted = b.playoutStarted
  packets : ∀ k p, b'.packets.get? k = some p → b.packets.get? k = some p
  next : ∀ next', b'.nextSequence = some next' → ∃ next, b.nextSequence = some next ∧
    next ≤ next' ∧ ∀ n, b.packets.get? n = none → next ≤ n → next' ≤ n

theorem Evicts.refl (b : AudioJitterBuffer) : Evicts b b where
  config := rfl
  started := rfl
  packets := fun _ _ hp => hp
  next := fun next hnext => ⟨next, hnext, le_refl _, fun _ _ hle => hle⟩

theorem Evicts.trans {b'' : AudioJitterBuffer} (h : Evicts b b') (h' : Evicts b' b'') :
    Evicts b b'' where
  config := h'.config.trans h.config
  started := h'.started.trans h.started
  packets := fun k p hp => h.packets k p (h'.packets k p hp)
  next := by
    intro next'' hnext''
    obtain ⟨next', hnext', hle', hpass'⟩ := h'.next next'' hnext''
    obtain ⟨next, hnext, hle, hpass⟩ := h.next next' hnext'
    refine ⟨next, hnext, le_trans hle hle', fun n habsent hn => hpass' n ?_ (hpass n habsent hn)⟩
    cases hget : b'.packets.get? n with
    | none => rfl
    | some p =>
        rw [h.packets n p hget] at habsent
        cases habsent

/-- One eviction keeps the invariant. -/
theorem JitterInv.evict (h : JitterInv b log) {k : Nat} {p : BufferedAudioPacket}
    (hfirst : b.packets.first? = some (k, p)) :
    ∃ b', b.evictOldest = some b' ∧ JitterInv b' (.evicted k :: log) ∧ Evicts b b' ∧
      b'.packets.size + 1 = b.packets.size := by
  have hget : b.packets.get? k = some p := OrdMap.first?_mem hfirst
  have htotal := OrdMap.total_erase BufferedAudioPacket.length hget
  have hsize := OrdMap.size_erase hget
  have hbytes := h.bytes
  obtain ⟨hk, next, hnext, hle, _⟩ := h.window k p hget
  obtain ⟨hseq, haccepted⟩ := h.held k p hget
  -- the next number afterwards
  have hnext' : (if b.nextSequence = some k then checkedSucc k else b.nextSequence) =
      some (if next = k then k + 1 else next) := by
    rw [hnext]
    by_cases hnk : next = k
    · rw [if_pos (by rw [hnk]), if_pos hnk, checkedSucc_of_lt hk]
    · rw [if_neg (by simpa using hnk), if_neg hnk]
  have hkeep : ∀ j q, (b.packets.erase k).get? j = some q → j ≠ k ∧ b.packets.get? j = some q :=
    fun _ _ => OrdMap.get?_erase_eq_some.mp
  refine ⟨_, evictOldest_eq b hfirst, ⟨?_, ?_, ?_, ?_, ?_, ?_, ?_, ?_, ?_⟩, ⟨rfl, rfl, ?_, ?_⟩, hsize⟩
  · show b.bufferedBytes - p.length = (b.packets.erase k).total BufferedAudioPacket.length
    omega
  · have := h.bytes_le
    show b.bufferedBytes - p.length ≤ b.config.maxMemoryBytes
    omega
  · have := h.size_le
    show (b.packets.erase k).size ≤ b.config.maxPackets
    omega
  · exact fun j q hq => h.small j q (hkeep j q hq).2
  · intro j q hq
    obtain ⟨hne, hq⟩ := hkeep j q hq
    obtain ⟨hj, next', hsome, hlej, hlej'⟩ := h.window j q hq
    rw [hnext] at hsome
    cases hsome
    refine ⟨hj, _, hnext', ?_, ?_⟩
    · split <;> omega
    · split <;> omega
  · intro j q hq
    obtain ⟨hj, hacc⟩ := h.held j q (hkeep j q hq).2
    exact ⟨hj, List.mem_cons_of_mem _ hacc⟩
  · intro i hi
    rcases List.mem_cons.mp hi with he | hi
    · cases he
    · exact ⟨(h.started i hi).1, by show Option.isSome _ = true; rw [hnext']; rfl⟩
  · intro next' hsome
    have hsome : (if b.nextSequence = some k then checkedSucc k else b.nextSequence) =
        some next' := hsome
    rw [hnext'] at hsome
    cases hsome
    have hcont := h.continues next hnext
    split
    · rename_i hnk
      subst hnk
      exact hcont.evict hseq haccepted
    · exact hcont.cons (fun i hi => by cases hi)
  · exact h.played.cons (fun i hi => by cases hi)
  · exact fun j q hq => (hkeep j q hq).2
  · intro next' hsome
    have hsome : (if b.nextSequence = some k then checkedSucc k else b.nextSequence) =
        some next' := hsome
    rw [hnext'] at hsome
    cases hsome
    refine ⟨next, hnext, ?_, fun n habsent hn => ?_⟩
    · split <;> omega
    · -- a number that is not buffered is not the evicted one
      have hne : n ≠ k := by
        rintro rfl
        rw [hget] at habsent
        cases habsent
      split <;> omega

/-- The eviction loop ends with room for the packet. -/
theorem JitterInv.makeRoom {length : Nat} (hlength : length ≤ b.config.maxMemoryBytes)
    (hpackets : 0 < b.config.maxPackets) :
    ∀ (fuel : Nat) (c : AudioJitterBuffer) (log : List JitterEvent), JitterInv c log →
      Evicts b c → c.packets.size < fuel →
      ∃ b', AudioJitterBuffer.makeRoom length fuel c = some (b', true) ∧
        JitterInv b' ((c.evictions length fuel).map .evicted ++ log) ∧ Evicts b b' ∧
        b'.crowded length = false := by
  intro fuel
  induction fuel with
  | zero => intro c log _ _ hfuel; omega
  | succ fuel ih =>
      intro c log h hevicts hfuel
      cases hcrowded : c.crowded length with
      | false =>
          refine ⟨c, ?_, ?_, hevicts, hcrowded⟩
          · simp [AudioJitterBuffer.makeRoom, hcrowded]
          · simpa [AudioJitterBuffer.evictions, hcrowded] using h
      | true =>
          cases hfirst : c.packets.first? with
          | none =>
              -- an empty buffer is not crowded
              have hempty : c.packets.size = 0 := by
                simpa [OrdMap.first?, OrdMap.size] using hfirst
              have hzero : c.bufferedBytes = 0 := by
                have hentries : c.packets.entries = [] := List.length_eq_zero_iff.mp hempty
                rw [h.bytes]
                simp [OrdMap.total, hentries]
              have hsat := satAdd_le_add 0 length
              simp only [AudioJitterBuffer.crowded, hempty, hzero, hevicts.config, Bool.or_eq_true,
                decide_eq_true_eq] at hcrowded
              omega
          | some e =>
              obtain ⟨k, p⟩ := e
              obtain ⟨c', hevict, hinv, hevicts', hsize⟩ := h.evict hfirst
              obtain ⟨b', hroom, hinv', hb', hfits⟩ :=
                ih c' _ hinv (hevicts.trans hevicts') (by omega)
              refine ⟨b', ?_, ?_, hb', hfits⟩
              · simp [AudioJitterBuffer.makeRoom, hcrowded, hevict, hroom]
              · simpa [AudioJitterBuffer.evictions, hcrowded, hfirst, hevict] using hinv'

theorem minimumSequence_le (b : AudioJitterBuffer) (sequence : Nat) :
    b.minimumSequence sequence ≤ sequence := by
  unfold AudioJitterBuffer.minimumSequence
  cases b.nextSequence with
  | none => exact le_refl _
  | some next => exact min_le_right _ _

/-- A packet enters a buffer that has room for it, inside the window. -/
theorem JitterInv.store (h : JitterInv b log) {packet : AudioPacket} (now : Time) {low : Nat}
    (habsent : b.packets.get? packet.sequence = none)
    (hsequence : packet.sequence < u64Max)
    (hpayload : packet.payload.length ≤ maxAudioPayloadBytes)
    (hlow : low ≤ b.minimumSequence packet.sequence)
    (hhigh : packet.sequence ≤ low + maxAudioSequenceAhead ∧
      ∀ k p, b.packets.get? k = some p → k ≤ low + maxAudioSequenceAhead)
    (hlate : b.playoutStarted = true → ∀ next, b.nextSequence = some next → next ≤ packet.sequence)
    (hfits : b.crowded packet.payload.length = false) :
    JitterInv (b.store packet now) (.accepted packet :: log) := by
  simp only [AudioJitterBuffer.crowded, Bool.or_eq_false_iff, decide_eq_false_iff_not,
    h.satAdd_bytes hpayload] at hfits
  have hmin := minimumSequence_le b packet.sequence
  have hcases : ∀ k p, (b.store packet now).packets.get? k = some p →
      (k = packet.sequence ∧ p = { packet := packet, arrivedAt := now }) ∨
      b.packets.get? k = some p := by
    intro k p hp
    exact (OrdMap.get?_insert_eq_some hp).imp_right And.right
  refine ⟨?_, ?_, ?_, ?_, ?_, ?_, ?_, ?_, ?_⟩
  · show b.bufferedBytes + packet.payload.length = (b.packets.insert packet.sequence _).total _
    rw [OrdMap.total_insert, OrdMap.erase_eq_of_get?_none habsent, h.bytes]
    simp only [BufferedAudioPacket.length]
    omega
  · show b.bufferedBytes + packet.payload.length ≤ b.config.maxMemoryBytes
    omega
  · show (b.packets.insert packet.sequence _).size ≤ b.config.maxPackets
    rw [OrdMap.size_insert_of_none _ habsent]
    omega
  · intro k p hp
    rcases hcases k p hp with ⟨_, rfl⟩ | hp
    · exact hpayload
    · exact h.small k p hp
  · intro k p hp
    rcases hcases k p hp with ⟨rfl, _⟩ | hp
    · exact ⟨hsequence, _, rfl, hmin, by omega⟩
    · obtain ⟨hk, next, hnext, hle, _⟩ := h.window k p hp
      have hhigh' := hhigh.2 k p hp
      refine ⟨hk, _, rfl, le_trans ?_ hle, by omega⟩
      simp [AudioJitterBuffer.minimumSequence, hnext]
  · intro k p hp
    rcases hcases k p hp with ⟨rfl, rfl⟩ | hp
    · exact ⟨rfl, List.mem_cons_self⟩
    · obtain ⟨hseq, hacc⟩ := h.held k p hp
      exact ⟨hseq, List.mem_cons_of_mem _ hacc⟩
  · intro i hi
    rcases List.mem_cons.mp hi with he | hi
    · cases he
    · exact ⟨(h.started i hi).1, rfl⟩
  · rintro _ ⟨⟩
    refine Continues.cons ?_ (fun i hi => by cases hi)
    by_cases hreturned : ∃ i, .returned i ∈ log
    · -- playout has started, so the packet does not lower the next number
      obtain ⟨i, hi⟩ := hreturned
      obtain ⟨hstarted, hsome⟩ := h.started i hi
      obtain ⟨next, hnext⟩ := Option.isSome_iff_exists.mp hsome
      have hle := hlate hstarted next hnext
      have heq : b.minimumSequence packet.sequence = next := by
        simp [AudioJitterBuffer.minimumSequence, hnext, hle]
      rw [heq]
      exact h.continues next hnext
    · exact continues_of_none (fun i hi => hreturned ⟨i, hi⟩) _
  · exact h.played.cons (fun i hi => by cases hi)

/-! ## The calls -/

/-- `b'` differs from `b` in its statistics only. -/
def SameButStats (b b' : AudioJitterBuffer) : Prop := b' = { b with stats := b'.stats }

theorem JitterInv.stats (h : JitterInv b log) (hsame : SameButStats b b') : JitterInv b' log := by
  rw [hsame]
  exact ⟨h.bytes, h.bytes_le, h.size_le, h.small, h.window, h.held, h.started, h.continues,
    h.played⟩

/-- The window check of `push` bounds every buffered number. -/
theorem within_of_gap {sequence : Nat}
    (h : b.maximumSequence sequence - b.minimumSequence sequence ≤ maxAudioSequenceAhead) :
    sequence ≤ b.minimumSequence sequence + maxAudioSequenceAhead ∧
    ∀ k p, b.packets.get? k = some p →
      k ≤ b.minimumSequence sequence + maxAudioSequenceAhead := by
  constructor
  · have : sequence ≤ b.maximumSequence sequence := le_max_right _ _
    omega
  · intro k p hp
    have hk : k ≤ b.maximumSequence sequence := by
      cases hlast : b.packets.entries.getLast? with
      | none =>
          rw [List.getLast?_eq_none_iff] at hlast
          have hmem := OrdMap.mem_entries_iff.mpr hp
          rw [hlast] at hmem
          cases hmem
      | some e =>
          refine le_trans (OrdMap.le_last hp hlast) ?_
          simp [AudioJitterBuffer.maximumSequence, hlast]
    omega

/-- A packet that passes the checks of `push` is stored after the eviction loop. -/
theorem JitterInv.pushStored (h : JitterInv b log) (hpackets : 0 < b.config.maxPackets)
    {packet : AudioPacket} (now : Time) (hsequence : packet.sequence < u64Max)
    (hpayload : packet.payload.length ≤ maxAudioPayloadBytes)
    (hlate : b.isLate packet = false) (habsent : b.packets.get? packet.sequence = none)
    (hgap : b.maximumSequence packet.sequence - b.minimumSequence packet.sequence ≤
      maxAudioSequenceAhead)
    (hmemory : packet.payload.length ≤ b.config.maxMemoryBytes) :
    ∃ c, AudioJitterBuffer.makeRoom packet.payload.length (b.packets.size + 1) b = some (c, true) ∧
      Evicts b c ∧
      JitterInv (c.store packet now) (pushEvents b packet (.ok true) ++ log) := by
  obtain ⟨c, hroom, hinv, hevicts, hfits⟩ := JitterInv.makeRoom (b := b) hmemory hpackets
    (b.packets.size + 1) b log h (.refl b) (Nat.lt_succ_self _)
  obtain ⟨hown, hall⟩ := within_of_gap hgap
  have habsent' : c.packets.get? packet.sequence = none := by
    cases hget : c.packets.get? packet.sequence with
    | none => rfl
    | some p =>
        rw [hevicts.packets _ p hget] at habsent
        cases habsent
  have hlow : b.minimumSequence packet.sequence ≤ c.minimumSequence packet.sequence := by
    unfold AudioJitterBuffer.minimumSequence
    cases hnext' : c.nextSequence with
    | none => exact minimumSequence_le b packet.sequence
    | some next' =>
        obtain ⟨next, hnext, hle, _⟩ := hevicts.next next' hnext'
        rw [hnext]
        exact min_le_min_right _ hle
  have hnotLate : c.playoutStarted = true → ∀ next, c.nextSequence = some next →
      next ≤ packet.sequence := by
    intro hstarted next' hnext'
    obtain ⟨next, hnext, _, hpass⟩ := hevicts.next next' hnext'
    refine hpass _ habsent ?_
    rw [hevicts.started] at hstarted
    simpa [AudioJitterBuffer.isLate, hstarted, hnext] using hlate
  exact ⟨c, hroom, hevicts, hinv.store now habsent' hsequence hpayload hlow
    ⟨hown, fun k p hp => hall k p (hevicts.packets k p hp)⟩ hnotLate hfits⟩

/-- What a `push` does: it stores the packet after some evictions, or changes
nothing but statistics. -/
theorem JitterInv.push (h : JitterInv b log) (hpackets : 0 < b.config.maxPackets)
    (packet : AudioPacket) (now : Time) (hsequence : packet.sequence < u64Max) :
    ∃ b' result, b.push packet now = some (b', result) ∧
      JitterInv b' (pushEvents b packet result ++ log) ∧
      ((result = .ok true ∧ ∃ c, Evicts b c ∧ b' = c.store packet now) ∨
        (result ≠ .ok true ∧ SameButStats b b')) := by
  unfold AudioJitterBuffer.push
  split
  · exact ⟨b, _, rfl, h, .inr ⟨(fun he => by cases he), rfl⟩⟩
  · split
    · exact ⟨b, _, rfl, h, .inr ⟨(fun he => by cases he), rfl⟩⟩
    · rename_i hpayload
      split
      · exact ⟨_, _, rfl, h.stats rfl, .inr ⟨(fun he => by cases he), rfl⟩⟩
      · rename_i hlate
        split
        · exact ⟨_, _, rfl, h.stats rfl, .inr ⟨(fun he => by cases he), rfl⟩⟩
        · rename_i hduplicate
          split
          · exact ⟨b, _, rfl, h, .inr ⟨(fun he => by cases he), rfl⟩⟩
          · rename_i hgap
            split
            · exact ⟨b, _, rfl, h, .inr ⟨(fun he => by cases he), rfl⟩⟩
            · -- all checks are passed
              rename_i hmemory
              obtain ⟨c, hroom, hevicts, hstored⟩ := h.pushStored hpackets now hsequence
                (by omega) (by simpa using hlate)
                (OrdMap.contains_eq_false_iff.mp (by simpa using hduplicate))
                (Nat.le_of_not_lt hgap) (Nat.le_of_not_lt hmemory)
              refine ⟨c.store packet now, .ok true, ?_, hstored, .inl ⟨rfl, c, hevicts, rfl⟩⟩
              rw [hroom]
              rfl

end JitterRun

end HbbCommon.Transport
