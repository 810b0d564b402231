import HbbCommon.Transport.Audio.Logic.JitterRun

/-!
# Playout of the jitter buffer

`pop_ready` discards what has expired and returns the next packet or reports it
lost. With `push` and `reset` from the module before, `JitterInv` holds over every
run, and the playout order reads off the log.
-/

namespace HbbCommon.Transport

open HbbCommon.Base

namespace JitterRun

variable {b b' : AudioJitterBuffer} {log : List JitterEvent}

/-- A buffer that only lost packets. -/
theorem JitterInv.discard (h : JitterInv b log) (p : Nat → BufferedAudioPacket → Bool)
    (stats : AudioJitterStats) :
    JitterInv { b with
      packets := b.packets.filter (fun k q => !p k q)
      bufferedBytes := b.bufferedBytes - (b.packets.filter p).total BufferedAudioPacket.length
      stats := stats } log := by
  have hsplit := b.packets.total_filter_add p BufferedAudioPacket.length
  have hbytes := h.bytes
  have hkept : ∀ k q, (b.packets.filter (fun k q => !p k q)).get? k = some q →
      b.packets.get? k = some q := fun k q hq => (OrdMap.get?_filter_eq_some.mp hq).1
  refine ⟨?_, ?_, le_trans (OrdMap.size_filter_le _ _) h.size_le,
    (fun k q hq => h.small k q (hkept k q hq)), (fun k q hq => h.window k q (hkept k q hq)),
    (fun k q hq => h.held k q (hkept k q hq)), h.started, h.continues, h.played⟩
  · show b.bufferedBytes - _ = (b.packets.filter _).total _
    omega
  · have := h.bytes_le
    show b.bufferedBytes - _ ≤ b.config.maxMemoryBytes
    omega

theorem JitterInv.discardExpired (h : JitterInv b log) (now : Time) :
    JitterInv (b.discardExpired now) log :=
  h.discard (AudioJitterBuffer.expired b.config.maxPacketAge now) _

/-- The next number was the last one returned, so the items that were already
returned stay in order. -/
theorem JitterInv.returned_log (h : JitterInv b log) {next : Nat} (item : AudioPlayoutItem)
    (hnext : b.nextSequence = some next) (hitem : item.sequence = next)
    (hheld : ∀ packet, item = .packet packet → .accepted packet ∈ log) :
    Played (.returned item :: log) ∧ Continues (next + 1) (.returned item :: log) := by
  constructor
  · exact ⟨hheld, hitem ▸ h.continues next hnext, h.played⟩
  · rw [← hitem]
    exact continues_returned item log

/-- The packet to be played next is returned. -/
theorem JitterInv.play (h : JitterInv b log) {next : Nat} {p : BufferedAudioPacket}
    (hnext : b.nextSequence = some next) (hget : b.packets.get? next = some p)
    (stats : AudioJitterStats) :
    JitterInv { b with
      packets := b.packets.erase next
      bufferedBytes := b.bufferedBytes - p.length
      nextSequence := checkedSucc next
      playoutStarted := true
      stats := stats } (.returned (.packet p.packet) :: log) := by
  have htotal := OrdMap.total_erase BufferedAudioPacket.length hget
  have hsize := OrdMap.size_erase hget
  have hbytes := h.bytes
  obtain ⟨hlt, _⟩ := h.window next p hget
  obtain ⟨hseq, haccepted⟩ := h.held next p hget
  obtain ⟨hplayed, hcontinues⟩ := h.returned_log (.packet p.packet) hnext hseq (by
    rintro _ ⟨⟩
    exact haccepted)
  have hkeep : ∀ k q, (b.packets.erase next).get? k = some q →
      k ≠ next ∧ b.packets.get? k = some q :=
    fun _ _ => OrdMap.get?_erase_eq_some.mp
  refine ⟨?_, ?_, ?_, (fun k q hq => h.small k q (hkeep k q hq).2), ?_, ?_, ?_, ?_, hplayed⟩
  · show b.bufferedBytes - p.length = (b.packets.erase next).total BufferedAudioPacket.length
    omega
  · have := h.bytes_le
    show b.bufferedBytes - p.length ≤ b.config.maxMemoryBytes
    omega
  · have := h.size_le
    show (b.packets.erase next).size ≤ b.config.maxPackets
    omega
  · intro k q hq
    obtain ⟨hne, hq⟩ := hkeep k q hq
    obtain ⟨hk, next', hsome, hle, hle'⟩ := h.window k q hq
    rw [hnext] at hsome
    cases hsome
    exact ⟨hk, next + 1, checkedSucc_of_lt hlt, by omega, by omega⟩
  · intro k q hq
    obtain ⟨hk, hacc⟩ := h.held k q (hkeep k q hq).2
    exact ⟨hk, List.mem_cons_of_mem _ hacc⟩
  · intro i _
    exact ⟨rfl, by show (checkedSucc next).isSome = true; rw [checkedSucc_of_lt hlt]; rfl⟩
  · intro next' hsome
    have hsome : checkedSucc next = some next' := hsome
    rw [checkedSucc_of_lt hlt] at hsome
    cases hsome
    exact hcontinues

/-- The packet to be played next is missing and reported lost. -/
theorem JitterInv.lose (h : JitterInv b log) {next first : Nat} {p : BufferedAudioPacket}
    (hnext : b.nextSequence = some next) (hget : b.packets.get? next = none)
    (hfirst : b.packets.get? first = some p) (stats : AudioJitterStats) :
    JitterInv { b with
      nextSequence := checkedSucc next
      playoutStarted := true
      stats := stats } (.returned (.packetLoss next) :: log) := by
  have hmissing : ∀ k q, b.packets.get? k = some q → k ≠ next := by
    rintro k q hq rfl
    rw [hget] at hq
    cases hq
  -- something later is buffered, so the number is below the limit
  have hlt : next < u64Max := by
    obtain ⟨hk, next', hsome, hle, _⟩ := h.window first p hfirst
    rw [hnext] at hsome
    cases hsome
    omega
  obtain ⟨hplayed, hcontinues⟩ := h.returned_log (.packetLoss next) hnext rfl
    (fun packet hp => by cases hp)
  refine ⟨h.bytes, h.bytes_le, h.size_le, h.small, ?_, ?_, ?_, ?_, hplayed⟩
  · intro k q hq
    have hne := hmissing k q hq
    obtain ⟨hk, next', hsome, hle, hle'⟩ := h.window k q hq
    rw [hnext] at hsome
    cases hsome
    exact ⟨hk, next + 1, checkedSucc_of_lt hlt, by omega, by omega⟩
  · intro k q hq
    obtain ⟨hk, hacc⟩ := h.held k q hq
    exact ⟨hk, List.mem_cons_of_mem _ hacc⟩
  · intro i _
    exact ⟨rfl, by show (checkedSucc next).isSome = true; rw [checkedSucc_of_lt hlt]; rfl⟩
  · intro next' hsome
    have hsome : checkedSucc next = some next' := hsome
    rw [checkedSucc_of_lt hlt] at hsome
    cases hsome
    exact hcontinues

theorem JitterInv.popNext (h : JitterInv b log) (now : Time) :
    (b.popNext now).1.config = b.config ∧
    JitterInv (b.popNext now).1 ((b.popNext now).2.toList.map .returned ++ log) := by
  unfold AudioJitterBuffer.popNext
  cases hnext : b.nextSequence with
  | none => exact ⟨rfl, h⟩
  | some next =>
      cases hget : b.packets.get? next with
      | some p =>
          simp only [hget]
          split
          · exact ⟨rfl, h⟩
          · exact ⟨rfl, h.play hnext hget _⟩
      | none =>
          simp only [hget]
          cases hfirst : b.packets.first? with
          | none => exact ⟨rfl, h⟩
          | some e =>
              obtain ⟨k, p⟩ := e
              simp only
              split
              · exact ⟨rfl, h⟩
              · exact ⟨rfl, h.lose hnext hget (OrdMap.first?_mem hfirst) _⟩

theorem jitterInv_reset (b : AudioJitterBuffer) : JitterInv b.reset [] where
  bytes := rfl
  bytes_le := Nat.zero_le _
  size_le := Nat.zero_le _
  small := fun _ _ hp => by cases hp
  window := fun _ _ hp => by cases hp
  held := fun _ _ hp => by cases hp
  started := fun _ hi => by cases hi
  continues := fun _ hnext => by cases hnext
  played := trivial

/-! ## Runs -/

/-- The calls that the result is about: a pushed packet has a number below the
largest one. -/
def Numbered : JitterCall → Prop
  | .push packet _ => packet.sequence < u64Max
  | _ => True

instance : (call : JitterCall) → Decidable (Numbered call)
  | .push packet _ => inferInstanceAs (Decidable (packet.sequence < u64Max))
  | .popReady _ | .reset => .isTrue trivial

theorem session_append {events : List JitterEvent} (h : ∀ e ∈ events, e ≠ .reset)
    (log : List JitterEvent) : session (events ++ log) = events ++ session log := by
  induction events with
  | nil => rfl
  | cons e events ih =>
      rw [List.cons_append, session_cons (h e List.mem_cons_self),
        ih (fun e' he' => h e' (List.mem_cons_of_mem _ he')), List.cons_append]

theorem pushEvents_ne_reset (b : AudioJitterBuffer) (packet : AudioPacket)
    (result : Except AudioDatagramError Bool) : ∀ e ∈ pushEvents b packet result, e ≠ .reset := by
  intro e he
  unfold pushEvents at he
  split at he
  · rcases List.mem_cons.mp he with rfl | he
    · intro h
      cases h
    · obtain ⟨k, _, rfl⟩ := List.mem_map.mp he
      intro h
      cases h
  · cases he

/-- The invariant over one call. -/
theorem JitterInv.step {s t : JitterRun} {call : JitterCall}
    (h : JitterInv s.buffer (session s.log)) (hpackets : 0 < s.buffer.config.maxPackets)
    (hcall : Numbered call) (hstep : s.step call = some t) :
    t.buffer.config = s.buffer.config ∧ JitterInv t.buffer (session t.log) := by
  cases call with
  | push packet now =>
      obtain ⟨b', result, hpush, hinv, heffect⟩ := h.push hpackets packet now hcall
      simp only [JitterRun.step, hpush, Option.map_some, Option.some.injEq] at hstep
      subst hstep
      refine ⟨?_, ?_⟩
      · rcases heffect with ⟨_, c, hevicts, rfl⟩ | ⟨_, hsame⟩
        · exact hevicts.config
        · show b'.config = s.buffer.config
          rw [hsame]
      rw [session_append (pushEvents_ne_reset _ _ _)]
      exact hinv
  | popReady now =>
      simp only [JitterRun.step, Option.some.injEq] at hstep
      subst hstep
      obtain ⟨hconfig, hinv⟩ := (h.discardExpired now).popNext now
      refine ⟨hconfig, ?_⟩
      rw [session_append ?_]
      · exact hinv
      · intro e he
        obtain ⟨item, _, rfl⟩ := List.mem_map.mp he
        intro h
        cases h
  | reset =>
      simp only [JitterRun.step, Option.some.injEq] at hstep
      subst hstep
      refine ⟨rfl, ?_⟩
      rw [session_reset]
      exact jitterInv_reset s.buffer

/-- An accepted configuration, and the buffer it starts with. -/
theorem new_ok {config : AudioJitterConfig} {b : AudioJitterBuffer}
    (h : AudioJitterBuffer.new config = .ok b) :
    0 < config.maxPackets ∧ b.config = config ∧ b = b.reset := by
  unfold AudioJitterBuffer.new at h
  split at h
  · cases h
  · rename_i hvalid
    cases h
    exact ⟨by omega, rfl, rfl⟩

theorem inv_of_reach {config : AudioJitterConfig} {b₀ : AudioJitterBuffer}
    (hnew : AudioJitterBuffer.new config = .ok b₀) {s : JitterRun}
    (h : (system b₀).Reach (fun _ call => Numbered call) s) :
    s.buffer.config = config ∧ JitterInv s.buffer (session s.log) := by
  obtain ⟨hpackets, hconfig, hreset⟩ := new_ok hnew
  refine h.invariant (I := fun s => s.buffer.config = config ∧
    JitterInv s.buffer (session s.log)) ⟨hconfig, ?_⟩ ?_
  · show JitterInv b₀ []
    rw [hreset]
    exact jitterInv_reset b₀
  · rintro s call t ⟨hs, hinv⟩ hcall hstep
    obtain ⟨hsame, hinv'⟩ := hinv.step (by rw [hs]; exact hpackets) hcall hstep
    exact ⟨hsame.trans hs, hinv'⟩

/-- The numbers of the returned items, newest first. -/
def returnedSequences (log : List JitterEvent) : List Nat :=
  log.filterMap (fun e => match e with
    | .returned item => some item.sequence
    | _ => none)

/-- A number above the last returned one is above all of them. -/
theorem above_all {next : Nat}
    (hlast : ∀ (mid : List JitterEvent) (item : AudioPlayoutItem) (pre : List JitterEvent),
      log = mid ++ .returned item :: pre → (∀ i, .returned i ∉ mid) → item.sequence < next)
    (hsorted : (returnedSequences log).Pairwise (· > ·)) :
    ∀ n ∈ returnedSequences log, n < next := by
  induction log with
  | nil => exact fun _ hn => by cases hn
  | cons e log ih =>
      cases e with
      | returned item =>
          have hitem := hlast [] item log rfl (fun _ hi => by cases hi)
          have hbelow := (List.pairwise_cons.mp hsorted).1
          intro n hn
          rcases List.mem_cons.mp hn with rfl | hn
          · exact hitem
          · exact lt_trans (hbelow n hn) hitem
      | _ =>
          -- the last return is further back
          refine ih ?_ hsorted
          intro mid item pre hlog hmid
          refine hlast (_ :: mid) item pre (by rw [hlog]; rfl) ?_
          intro i hi
          rcases List.mem_cons.mp hi with he | hi
          · cases he
          · exact hmid i hi

theorem Played.sorted (h : Played log) : (returnedSequences log).Pairwise (· > ·) := by
  induction log with
  | nil => exact .nil
  | cons e log ih =>
      cases e with
      | returned item =>
          obtain ⟨_, hcontinues, hplayed⟩ := h
          refine List.pairwise_cons.mpr ⟨?_, ih hplayed⟩
          exact above_all (fun mid item pre hlog hmid => (hcontinues mid item pre hlog hmid).1)
            (ih hplayed)
      | _ => exact ih h

/-- The jitter buffer of an accepted configuration, after any calls whose packets
are numbered below 2^64 - 1: the byte count is exact and within the limit, as is
the number of packets; every buffered number lies between the next one and 4096
above it; the eviction loop ends without its `MemoryLimit`; a push that does not
accept its packet changes statistics only; and since the last reset the returned
numbers increase, returned packets were pushed, and a number is only skipped when
its packet was accepted and evicted. -/
theorem jitter_safety (config : AudioJitterConfig) (b₀ : AudioJitterBuffer)
    (hnew : AudioJitterBuffer.new config = .ok b₀) (s : JitterRun)
    (h : (system b₀).Reach (fun _ call => Numbered call) s) :
    s.buffer.bufferedBytes = s.buffer.packets.total BufferedAudioPacket.length ∧
    s.buffer.bufferedBytes ≤ config.maxMemoryBytes ∧
    s.buffer.packets.size ≤ config.maxPackets ∧
    (∀ k p, s.buffer.packets.get? k = some p → p.packet.sequence = k ∧
      ∃ next, s.buffer.nextSequence = some next ∧ next ≤ k ∧ k ≤ next + 4096) ∧
    (∀ length, length ≤ config.maxMemoryBytes →
      ∃ b, AudioJitterBuffer.makeRoom length (s.buffer.packets.size + 1) s.buffer =
        some (b, true)) ∧
    (∀ packet now, packet.sequence < u64Max →
      ∃ b result, s.buffer.push packet now = some (b, result) ∧
        (result ≠ .ok true → b = { s.buffer with stats := b.stats })) ∧
    (returnedSequences (session s.log)).Pairwise (· > ·) ∧
    (∀ post item pre, session s.log = post ++ .returned item :: pre →
      (∀ packet, item = .packet packet → .accepted packet ∈ pre) ∧
      ∀ mid item' older, pre = mid ++ .returned item' :: older → (∀ i, .returned i ∉ mid) →
        ∀ n, item'.sequence < n → n < item.sequence → .evicted n ∈ mid ∧
          ∃ packet : AudioPacket, packet.sequence = n ∧ .accepted packet ∈ pre) := by
  obtain ⟨hpackets, _, _⟩ := new_ok hnew
  obtain ⟨hconfig, hinv⟩ := inv_of_reach hnew h
  rw [← hconfig] at hpackets ⊢
  refine ⟨hinv.bytes, hinv.bytes_le, hinv.size_le, ?_, ?_, ?_, hinv.played.sorted, ?_⟩
  · intro k p hp
    exact ⟨(hinv.held k p hp).1, (hinv.window k p hp).2⟩
  · intro length hlength
    obtain ⟨b, hroom, _⟩ := JitterInv.makeRoom hlength hpackets _ s.buffer _ hinv (.refl _)
      (Nat.lt_succ_self _)
    exact ⟨b, hroom⟩
  · intro packet now hsequence
    obtain ⟨b, result, hpush, _, heffect⟩ := hinv.push hpackets packet now hsequence
    refine ⟨b, result, hpush, fun hne => ?_⟩
    rcases heffect with ⟨heq, _⟩ | ⟨_, hsame⟩
    · exact absurd heq hne
    · exact hsame
  · intro post item pre hlog
    obtain ⟨hheld, hcontinues⟩ := hinv.played.split hlog
    refine ⟨hheld, fun mid item' older hpre hmid => ?_⟩
    exact (hcontinues mid item' older hpre hmid).2

/-- A packet of one byte. -/
def audioPacket (sequence : Nat) : AudioPacket :=
  { metadata :=
      { sequenceNumber := sequence, captureTimestampUs := 0, codec := .opus, channels := 2
        sampleRateHz := 48000 }
    payload := [7] }

/-- Two packets at most, played from the first on. -/
def smallConfig : AudioJitterConfig :=
  { AudioJitterConfig.default with maxPackets := 2, startPackets := 1 }

/-- Packet 1 is played; then 2, 3 and 4 arrive, which evicts 2, and 3 is played. -/
def evictingRun : List JitterCall :=
  [.push (audioPacket 1) 0, .popReady 0, .push (audioPacket 2) 0, .push (audioPacket 3) 0,
    .push (audioPacket 4) 0, .popReady 0]

theorem jitter_safety_evicting :
    ∃ b₀ s, AudioJitterBuffer.new smallConfig = .ok b₀ ∧ (system b₀).run evictingRun = some s ∧
      returnedSequences (session s.log) = [3, 1] ∧
      (returnedSequences (session s.log)).Pairwise (· > ·) := by
  refine ⟨_, _, rfl, rfl, by decide, ?_⟩
  exact (jitter_safety smallConfig _ rfl _
    (TSys.reach_of_run evictingRun (by decide) rfl)).2.2.2.2.2.2.1

end JitterRun

end HbbCommon.Transport
