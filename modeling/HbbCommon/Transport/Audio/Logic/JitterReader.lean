import HbbCommon.Transport.Audio.Logic.JitterPlayout

/-!
# The jitter buffer under `run_datagram_reader`

The reader pushes each packet that arrives and, when the push succeeds, calls
`pop_ready` until it returns `None`; an error of `push` ends the session, so no
step follows it. `highest` is the largest number pushed so far.

`Below` is the invariant: nothing in the buffer is above `highest`, and the next
number is at most one above it. A packet above `highest` is then neither late nor
a duplicate, and only the window check can refuse it. The window starts at the
next number, which is moved by what is played, reported lost or evicted; expiry
empties the buffer and leaves it where it is.
-/

namespace HbbCommon.Transport

open HbbCommon.Base

structure AudioReader where
  buffer : AudioJitterBuffer
  highest : Nat
  deriving DecidableEq

/-- A packet arrives; `popTimes` are the times of the `pop_ready` calls after it. -/
structure AudioArrival where
  packet : AudioPacket
  now : Time
  popTimes : List Time
  deriving DecidableEq, Repr

/-- `pop_ready` at the given times, where the last call and no other returns
`None`. -/
def AudioJitterBuffer.popUntilNone : List Time → AudioJitterBuffer → Option AudioJitterBuffer
  | [], _ => none
  | now :: later, b =>
      match b.popReady now with
      | (b, some _) => popUntilNone later b
      | (b, none) => if later = [] then some b else none

namespace AudioReader

def step (s : AudioReader) (arrival : AudioArrival) : Option AudioReader :=
  match s.buffer.push arrival.packet arrival.now with
  | some (b, .ok _) =>
      (b.popUntilNone arrival.popTimes).map fun b =>
        { buffer := b, highest := max s.highest arrival.packet.sequence }
  | _ => none

/-- The reader of one session. -/
def system (b : AudioJitterBuffer) : TSys AudioReader AudioArrival where
  init := { buffer := b, highest := 0 }
  step := step

/-- What a sender puts into a packet: numbers from 1, well below 2^64, accepted
metadata and a payload within the limits. -/
def Sent (packet : AudioPacket) : Prop :=
  validateAudioMetadata packet.metadata = none ∧ packet.sequence < u64Max ∧
  0 < packet.payload.length ∧ packet.payload.length ≤ maxAudioPayloadBytes

instance (packet : AudioPacket) : Decidable (Sent packet) :=
  inferInstanceAs (Decidable (_ ∧ _))

open JitterRun (JitterInv)

variable {b : AudioJitterBuffer} {log : List JitterEvent} {n : Nat}

/-- No buffered number is above `n`, and the next one is at most `n + 1`. -/
structure Below (n : Nat) (b : AudioJitterBuffer) : Prop where
  packets : ∀ k p, b.packets.get? k = some p → k ≤ n
  next : ∀ next, b.nextSequence = some next → next ≤ n + 1

theorem Below.mono (h : Below n b) {m : Nat} (hle : n ≤ m) : Below m b where
  packets := fun k p hp => le_trans (h.packets k p hp) hle
  next := fun next hnext => le_trans (h.next next hnext) (Nat.succ_le_succ hle)

/-- Evictions move the next number past buffered numbers only. -/
theorem Below.evicts (h : Below n b) {c : AudioJitterBuffer} (hevicts : JitterRun.Evicts b c) :
    Below n c where
  packets := fun k p hp => h.packets k p (hevicts.packets k p hp)
  next := by
    intro next' hnext'
    obtain ⟨next, hnext, _, hpass⟩ := hevicts.next next' hnext'
    refine hpass (n + 1) ?_ (h.next next hnext)
    cases hget : b.packets.get? (n + 1) with
    | none => rfl
    | some p =>
        have := h.packets _ p hget
        omega

theorem Below.store (h : Below n b) {packet : AudioPacket} (hle : packet.sequence ≤ n)
    (now : Time) : Below n (b.store packet now) where
  packets := by
    intro k p hp
    have hp : (b.packets.insert packet.sequence { packet := packet, arrivedAt := now }).get? k =
        some p := hp
    obtain ⟨hk, -⟩ | ⟨-, hp⟩ := OrdMap.get?_insert_eq_some hp
    · omega
    · exact h.packets k p hp
  next := by
    rintro _ ⟨⟩
    have hmin : b.minimumSequence packet.sequence ≤ packet.sequence :=
      JitterRun.minimumSequence_le b packet.sequence
    omega

theorem Below.discardExpired (h : Below n b) (now : Time) : Below n (b.discardExpired now) where
  packets := fun k p hp => h.packets k p (OrdMap.get?_filter_eq_some.mp hp).1
  next := h.next

/-- Playout moves past a number only if that number or a later one is buffered. -/
theorem Below.popNext (h : Below n b) (hinv : JitterInv b log) (now : Time) :
    Below n (b.popNext now).1 := by
  have hsucc : ∀ next, next ≤ n → ∀ next', checkedSucc next = some next' → next' ≤ n + 1 := by
    intro next hle next' hsome
    unfold checkedSucc at hsome
    split at hsome
    · cases hsome
      omega
    · cases hsome
  unfold AudioJitterBuffer.popNext
  cases hnext : b.nextSequence with
  | none => exact h
  | some next =>
      cases hget : b.packets.get? next with
      | some p =>
          simp only [hget]
          split
          · exact h
          · refine ⟨fun k q hq => ?_, hsucc next (h.packets next p hget)⟩
            exact h.packets k q (OrdMap.get?_erase_eq_some.mp hq).2
      | none =>
          simp only [hget]
          cases hfirst : b.packets.first? with
          | none => exact h
          | some e =>
              obtain ⟨k, p⟩ := e
              simp only
              split
              · exact h
              · -- the first buffered number is in the window, so above the missing one
                have hk := OrdMap.first?_mem hfirst
                obtain ⟨_, next', hsome, hle, _⟩ := hinv.window k p hk
                rw [hnext] at hsome
                cases hsome
                exact ⟨h.packets, hsucc next (le_trans hle (h.packets k p hk))⟩

/-- What holds of the reader's buffer. -/
def ReaderInv (config : AudioJitterConfig) (s : AudioReader) : Prop :=
  s.buffer.config = config ∧ (∃ log, JitterInv s.buffer log) ∧ Below s.highest s.buffer

theorem ReaderInv.popUntilNone {config : AudioJitterConfig} {highest : Nat} :
    ∀ (times : List Time) (b b' : AudioJitterBuffer),
      ReaderInv config { buffer := b, highest := highest } →
      b.popUntilNone times = some b' →
      ReaderInv config { buffer := b', highest := highest } := by
  intro times
  induction times with
  | nil =>
      intro b b' _ hpop
      cases hpop
  | cons now later ih =>
      rintro b b' ⟨hconfig, ⟨log, hinv⟩, hbelow⟩ hpop
      obtain ⟨hconfig', hinv'⟩ := (hinv.discardExpired now).popNext now
      have hnow : ReaderInv config { buffer := (b.popReady now).1, highest := highest } :=
        ⟨hconfig'.trans hconfig, ⟨_, hinv'⟩,
          (hbelow.discardExpired now).popNext (hinv.discardExpired now) now⟩
      unfold AudioJitterBuffer.popUntilNone at hpop
      rcases hready : b.popReady now with ⟨c, item⟩
      rw [hready] at hpop hnow
      cases item with
      | some item => exact ih c b' hnow hpop
      | none =>
          simp only at hpop
          split at hpop
          · cases hpop
            exact hnow
          · cases hpop

theorem ReaderInv.step {config : AudioJitterConfig} (hpackets : 0 < config.maxPackets)
    {s t : AudioReader} {arrival : AudioArrival} (h : ReaderInv config s)
    (hsent : Sent arrival.packet) (hstep : s.step arrival = some t) : ReaderInv config t := by
  obtain ⟨hconfig, ⟨log, hinv⟩, hbelow⟩ := h
  obtain ⟨b, result, hpush, hinv', heffect⟩ :=
    hinv.push (by rw [hconfig]; exact hpackets) arrival.packet arrival.now hsent.2.1
  have hpushed : ReaderInv config
      { buffer := b, highest := max s.highest arrival.packet.sequence } := by
    have hmono := hbelow.mono (le_max_left s.highest arrival.packet.sequence)
    rcases heffect with ⟨_, c, hevicts, rfl⟩ | ⟨_, hsame⟩
    · exact ⟨hevicts.config.trans hconfig, ⟨_, hinv'⟩,
        (hmono.evicts hevicts).store (le_max_right _ _) _⟩
    · refine ⟨by rw [hsame]; exact hconfig, ⟨_, hinv'⟩, ?_⟩
      rw [hsame]
      exact ⟨hmono.packets, hmono.next⟩
  unfold AudioReader.step at hstep
  rw [hpush] at hstep
  cases result with
  | error _ => cases hstep
  | ok _ =>
      obtain ⟨b', hpop, rfl⟩ := Option.map_eq_some_iff.mp hstep
      exact hpushed.popUntilNone _ _ _ hpop

theorem readerInv_of_reach {config : AudioJitterConfig} {b₀ : AudioJitterBuffer}
    (hnew : AudioJitterBuffer.new config = .ok b₀) {s : AudioReader}
    (h : (system b₀).Reach (fun _ arrival => Sent arrival.packet) s) : ReaderInv config s := by
  obtain ⟨hpackets, hconfig, hreset⟩ := JitterRun.new_ok hnew
  refine h.invariant (I := ReaderInv config) ⟨hconfig, ⟨[], ?_⟩, ?_⟩ ?_
  · show JitterInv b₀ []
    rw [hreset]
    exact JitterRun.jitterInv_reset b₀
  · show Below 0 b₀
    rw [hreset]
    exact ⟨(fun _ _ hp => by cases hp), (fun _ hnext => by cases hnext)⟩
  · intro s arrival t hs hsent hstep
    exact hs.step hpackets hsent hstep

/-- A packet above everything seen so far spans the window by itself. -/
theorem Below.maximumSequence (h : Below n b) {sequence : Nat} (hlt : n < sequence) :
    b.maximumSequence sequence = sequence := by
  unfold AudioJitterBuffer.maximumSequence
  cases hlast : b.packets.entries.getLast? with
  | none => simp
  | some e =>
      obtain ⟨k, p⟩ := e
      have hk : k ≤ n := h.packets k p (OrdMap.mem_entries_iff.mp (List.mem_of_getLast? hlast))
      simp only [Option.map_some, Option.getD_some]
      exact max_eq_right (by omega)

/-- In every state of the reader, a packet whose number is above all earlier ones
is refused with `SequenceGap` exactly when it lies more than 4096 above the next
number to be played. -/
theorem highest_refused_iff (config : AudioJitterConfig) (b₀ : AudioJitterBuffer)
    (hnew : AudioJitterBuffer.new config = .ok b₀) (s : AudioReader)
    (h : (system b₀).Reach (fun _ arrival => Sent arrival.packet) s) (packet : AudioPacket)
    (hsent : Sent packet) (hhighest : s.highest < packet.sequence) (now : Time) :
    (∃ b, s.buffer.push packet now = some (b, .error .sequenceGap)) ↔
      ∃ next, s.buffer.nextSequence = some next ∧
        next + maxAudioSequenceAhead < packet.sequence := by
  obtain ⟨hpackets, _, _⟩ := JitterRun.new_ok hnew
  obtain ⟨hconfig, ⟨log, hinv⟩, hbelow⟩ := readerInv_of_reach hnew h
  obtain ⟨hvalid, hsequence, hpos, hmax⟩ := hsent
  have hlate : s.buffer.isLate packet = false := by
    unfold AudioJitterBuffer.isLate
    cases hnext : s.buffer.nextSequence with
    | none => simp
    | some next =>
        have := hbelow.next next hnext
        simp only [Option.any_some, Bool.and_eq_false_iff, decide_eq_false_iff_not]
        exact .inr (by omega)
  have habsent : s.buffer.packets.get? packet.sequence = none := by
    cases hget : s.buffer.packets.get? packet.sequence with
    | none => rfl
    | some p =>
        have := hbelow.packets _ p hget
        omega
  have hgap : (∃ next, s.buffer.nextSequence = some next ∧
      next + maxAudioSequenceAhead < packet.sequence) ↔
      s.buffer.maximumSequence packet.sequence - s.buffer.minimumSequence packet.sequence >
        maxAudioSequenceAhead := by
    rw [hbelow.maximumSequence hhighest]
    unfold AudioJitterBuffer.minimumSequence
    cases hnext : s.buffer.nextSequence with
    | none => simp
    | some next =>
        have hle := hbelow.next next hnext
        have hmin : min next packet.sequence = next := min_eq_left (by omega)
        simp only [Option.some.injEq, exists_eq_left', Option.map_some, Option.getD_some, hmin]
        omega
  rw [hgap]
  have hpush : s.buffer.push packet now =
      if s.buffer.maximumSequence packet.sequence - s.buffer.minimumSequence packet.sequence >
          maxAudioSequenceAhead then some (s.buffer, .error .sequenceGap)
      else if packet.payload.length > s.buffer.config.maxMemoryBytes then
        some (s.buffer, .error .memoryLimit)
      else (AudioJitterBuffer.makeRoom packet.payload.length (s.buffer.packets.size + 1)
          s.buffer).map (fun r =>
        if r.2 then (r.1.store packet now, .ok true) else (r.1, .error .memoryLimit)) := by
    unfold AudioJitterBuffer.push
    rw [hvalid]
    simp only [hlate, OrdMap.contains_eq_false_iff.mpr habsent]
    rw [if_neg (by omega), if_neg Bool.false_ne_true, if_neg Bool.false_ne_true]
  constructor
  · rintro ⟨b, hb⟩
    rw [hpush] at hb
    by_contra hwithin
    rw [if_neg hwithin] at hb
    split at hb
    · cases hb
    · rename_i hmemory
      obtain ⟨c, hroom, _⟩ := hinv.pushStored (by rw [hconfig]; exact hpackets) now hsequence
        hmax hlate habsent (Nat.le_of_not_lt hwithin) (Nat.le_of_not_lt hmemory)
      rw [hroom] at hb
      cases hb
  · intro hwide
    exact ⟨_, by rw [hpush, if_pos hwide]⟩

/-- Packet 1 arrives and waits for playout. -/
def firstArrival : AudioArrival :=
  { packet := JitterRun.audioPacket 1, now := 0, popTimes := [0] }

/-- The state after the first packet of a session. -/
def afterFirst : AudioReader :=
  { buffer :=
      { config := .default
        packets := OrdMap.insert ∅ 1 { packet := JitterRun.audioPacket 1, arrivedAt := 0 }
        nextSequence := some 1, playoutStarted := false, bufferedBytes := 1
        stats := { AudioJitterStats.default with acceptedPackets := 1 } }
    highest := 1 }

/-- After packet 1 the packets 2 to 4097 are lost; packet 4098 is refused. -/
theorem highest_refused_iff_first :
    ∃ b₀, AudioJitterBuffer.new .default = .ok b₀ ∧
      (system b₀).run [firstArrival] = some afterFirst ∧
      ((∃ b, afterFirst.buffer.push (JitterRun.audioPacket 4098) (millis 1000) =
          some (b, .error .sequenceGap)) ↔
        ∃ next, afterFirst.buffer.nextSequence = some next ∧
          next + maxAudioSequenceAhead < 4098) := by
  refine ⟨_, rfl, by decide, ?_⟩
  exact highest_refused_iff .default _ rfl afterFirst
    (TSys.reach_of_run [firstArrival] (by decide) (by decide)) (JitterRun.audioPacket 4098)
    (by decide) (by decide) (millis 1000)

/-- A loss burst of 4096 packets is enough: packet 4098 is above all earlier ones,
arrives when packet 1 has long expired, and is refused. -/
theorem highest_refused_after_burst :
    ∃ b₀ s, AudioJitterBuffer.new .default = .ok b₀ ∧
      (system b₀).Reach (fun _ arrival => Sent arrival.packet) s ∧
      s.highest < (JitterRun.audioPacket 4098).sequence ∧ Sent (JitterRun.audioPacket 4098) ∧
      s.buffer.push (JitterRun.audioPacket 4098) (millis 1000) =
        some (s.buffer, .error .sequenceGap) := by
  refine ⟨_, afterFirst, rfl, ?_, by decide, by decide, by decide⟩
  exact TSys.reach_of_run [firstArrival] (by decide) (by decide)

end AudioReader

end HbbCommon.Transport
