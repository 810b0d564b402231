import HbbCommon.Transport.Video.Types

/-!
# The audio jitter buffer (`AudioJitterBuffer`)

Packets are kept by sequence number and played in order. `next_sequence` is the
number to play next; it is set by the first packet, lowered by an earlier packet
while playout has not started, and raised by a played packet, by a reported loss
and by the eviction of the packet it names.

The eviction loop of `push` is `makeRoom`, with fuel for one turn more than there
are packets. `none` stands for a loop that has not ended within its fuel;
`push` is undefined there.
-/

namespace HbbCommon.Transport

open HbbCommon.Base

def maxAudioPayloadBytes : Nat := 64 * 1024

def maxAudioSequenceAhead : Nat := 4096

inductive AudioCodec
  | opus
  deriving DecidableEq, Repr

structure AudioPacketMetadata where
  sequenceNumber : Nat
  captureTimestampUs : Nat
  codec : AudioCodec
  channels : Nat
  sampleRateHz : Nat
  deriving DecidableEq, Repr

structure AudioPacket where
  metadata : AudioPacketMetadata
  payload : Bytes
  deriving DecidableEq, Repr

def AudioPacket.sequence (p : AudioPacket) : Nat := p.metadata.sequenceNumber

structure AudioJitterConfig where
  playoutDelay : Time
  maxPacketAge : Time
  maxPackets : Nat
  maxMemoryBytes : Nat
  startPackets : Nat
  deriving DecidableEq, Repr

/-- `AudioJitterConfig::default`. -/
def AudioJitterConfig.default : AudioJitterConfig :=
  { playoutDelay := millis 30, maxPacketAge := millis 120, maxPackets := 64
    maxMemoryBytes := 2 * 1024 * 1024, startPackets := 3 }

structure AudioJitterStats where
  acceptedPackets : Nat
  playedPackets : Nat
  duplicatePackets : Nat
  latePackets : Nat
  lostPackets : Nat
  evictedPackets : Nat
  deriving DecidableEq, Repr

def AudioJitterStats.default : AudioJitterStats :=
  { acceptedPackets := 0, playedPackets := 0, duplicatePackets := 0, latePackets := 0
    lostPackets := 0, evictedPackets := 0 }

inductive AudioPlayoutItem
  | packet (packet : AudioPacket)
  | packetLoss (sequenceNumber : Nat)
  deriving DecidableEq, Repr

/-- The number an item stands for. -/
def AudioPlayoutItem.sequence : AudioPlayoutItem → Nat
  | .packet p => p.sequence
  | .packetLoss sequenceNumber => sequenceNumber

/-- The errors of the jitter buffer. -/
inductive AudioDatagramError
  | zeroSequence
  | invalidChannelCount (channels : Nat)
  | invalidSampleRate (sampleRateHz : Nat)
  | invalidPayloadSize (size : Nat)
  | invalidJitterConfig
  | memoryLimit
  | sequenceGap
  deriving DecidableEq, Repr

structure BufferedAudioPacket where
  packet : AudioPacket
  arrivedAt : Time
  deriving DecidableEq, Repr

def BufferedAudioPacket.length (b : BufferedAudioPacket) : Nat := b.packet.payload.length

structure AudioJitterBuffer where
  config : AudioJitterConfig
  packets : OrdMap Nat BufferedAudioPacket
  nextSequence : Option Nat
  playoutStarted : Bool
  bufferedBytes : Nat
  stats : AudioJitterStats
  deriving DecidableEq

/-- `validate_metadata` of an audio packet. -/
def validateAudioMetadata (metadata : AudioPacketMetadata) : Option AudioDatagramError :=
  if metadata.sequenceNumber = 0 then some .zeroSequence
  else if metadata.channels = 0 ∨ metadata.channels > 8 then
    some (.invalidChannelCount metadata.channels)
  else if ¬ (8000 ≤ metadata.sampleRateHz ∧ metadata.sampleRateHz ≤ 192000) then
    some (.invalidSampleRate metadata.sampleRateHz)
  else none

/-- `checked_add(1)` on an unsigned 64-bit value. -/
def checkedSucc (n : Nat) : Option Nat := if n + 1 ≤ u64Max then some (n + 1) else none

namespace AudioJitterBuffer

/-- `AudioJitterBuffer::new`. -/
def new (config : AudioJitterConfig) : Except AudioDatagramError AudioJitterBuffer :=
  if config.maxPackets = 0 ∨ config.maxMemoryBytes = 0 ∨ config.startPackets = 0 ∨
      config.startPackets > config.maxPackets ∨ config.playoutDelay > config.maxPacketAge then
    .error .invalidJitterConfig
  else
    .ok { config := config, packets := ∅, nextSequence := none, playoutStarted := false
          bufferedBytes := 0, stats := .default }

/-- `AudioJitterBuffer::evict_oldest`; `none` when there is nothing to evict. -/
def evictOldest (b : AudioJitterBuffer) : Option AudioJitterBuffer :=
  b.packets.first?.map fun (sequence, packet) =>
    { b with
      packets := b.packets.erase sequence
      bufferedBytes := b.bufferedBytes - packet.length
      nextSequence :=
        if b.nextSequence = some sequence then checkedSucc sequence else b.nextSequence
      stats := { b.stats with evictedPackets := satAdd b.stats.evictedPackets 1 } }

/-- A packet of `length` bytes does not fit. -/
def crowded (b : AudioJitterBuffer) (length : Nat) : Bool :=
  decide (b.packets.size ≥ b.config.maxPackets) ||
    decide (satAdd b.bufferedBytes length > b.config.maxMemoryBytes)

/-- The eviction loop of `push`: the buffer, and `false` where the loop returns its
`MemoryLimit`. -/
def makeRoom (length : Nat) : Nat → AudioJitterBuffer → Option (AudioJitterBuffer × Bool)
  | 0, _ => none
  | fuel + 1, b =>
      if b.crowded length then
        match b.evictOldest with
        | some b => makeRoom length fuel b
        | none => some (b, false)
      else some (b, true)

/-- The smallest and the largest number that the buffer spans with `sequence`. -/
def minimumSequence (b : AudioJitterBuffer) (sequence : Nat) : Nat :=
  (b.nextSequence.map (fun next => min next sequence)).getD sequence

def maximumSequence (b : AudioJitterBuffer) (sequence : Nat) : Nat :=
  max ((b.packets.entries.getLast?.map Prod.fst).getD sequence) sequence

/-- The end of `push`: the packet enters the buffer. -/
def store (b : AudioJitterBuffer) (packet : AudioPacket) (now : Time) : AudioJitterBuffer :=
  { b with
    nextSequence := some (b.minimumSequence packet.sequence)
    bufferedBytes := b.bufferedBytes + packet.payload.length
    packets := b.packets.insert packet.sequence { packet := packet, arrivedAt := now }
    stats := { b.stats with acceptedPackets := satAdd b.stats.acceptedPackets 1 } }

/-- A packet that playout has moved past. -/
def isLate (b : AudioJitterBuffer) (packet : AudioPacket) : Bool :=
  b.playoutStarted && b.nextSequence.any (fun next => decide (packet.sequence < next))

/-- `AudioJitterBuffer::push`. -/
def push (b : AudioJitterBuffer) (packet : AudioPacket) (now : Time) :
    Option (AudioJitterBuffer × Except AudioDatagramError Bool) :=
  match validateAudioMetadata packet.metadata with
  | some error => some (b, .error error)
  | none =>
      if packet.payload.length = 0 ∨ packet.payload.length > maxAudioPayloadBytes then
        some (b, .error (.invalidPayloadSize packet.payload.length))
      else if b.isLate packet then
        some ({ b with
          stats := { b.stats with latePackets := satAdd b.stats.latePackets 1 } }, .ok false)
      else if b.packets.contains packet.sequence then
        some ({ b with
          stats := { b.stats with duplicatePackets := satAdd b.stats.duplicatePackets 1 } },
          .ok false)
      else if b.maximumSequence packet.sequence - b.minimumSequence packet.sequence >
          maxAudioSequenceAhead then
        some (b, .error .sequenceGap)
      else if packet.payload.length > b.config.maxMemoryBytes then some (b, .error .memoryLimit)
      else
        (makeRoom packet.payload.length (b.packets.size + 1) b).map fun (b, fits) =>
          if fits then (b.store packet now, .ok true) else (b, .error .memoryLimit)

/-- A packet that has waited for the maximum packet age. -/
def expired (maxPacketAge now : Time) (_ : Nat) (b : BufferedAudioPacket) : Bool :=
  decide (now - b.arrivedAt ≥ maxPacketAge)

/-- `AudioJitterBuffer::discard_expired`. -/
def discardExpired (b : AudioJitterBuffer) (now : Time) : AudioJitterBuffer :=
  let gone := b.packets.filter (expired b.config.maxPacketAge now)
  { b with
    packets := b.packets.filter (fun sequence p => !expired b.config.maxPacketAge now sequence p)
    bufferedBytes := b.bufferedBytes - gone.total BufferedAudioPacket.length
    stats := { b.stats with latePackets := satAdd b.stats.latePackets gone.size } }

/-- Playout may go on with a packet that arrived at `arrivedAt`. -/
def ready (b : AudioJitterBuffer) (now arrivedAt : Time) : Bool :=
  decide (b.packets.size ≥ b.config.startPackets) ||
    decide (now - arrivedAt ≥ b.config.playoutDelay)

/-- The part of `pop_ready` after the expired packets are gone. -/
def popNext (b : AudioJitterBuffer) (now : Time) :
    AudioJitterBuffer × Option AudioPlayoutItem :=
  match b.nextSequence with
  | none => (b, none)
  | some next =>
      match b.packets.get? next with
      | some p =>
          if !b.ready now p.arrivedAt then (b, none)
          else
            ({ b with
              packets := b.packets.erase next
              bufferedBytes := b.bufferedBytes - p.length
              nextSequence := checkedSucc next
              playoutStarted := true
              stats := { b.stats with playedPackets := satAdd b.stats.playedPackets 1 } },
              some (.packet p.packet))
      | none =>
          match b.packets.first? with
          | none => (b, none)
          | some (_, first) =>
              if !b.ready now first.arrivedAt then (b, none)
              else
                ({ b with
                  nextSequence := checkedSucc next
                  playoutStarted := true
                  stats := { b.stats with lostPackets := satAdd b.stats.lostPackets 1 } },
                  some (.packetLoss next))

/-- `AudioJitterBuffer::pop_ready`. -/
def popReady (b : AudioJitterBuffer) (now : Time) :
    AudioJitterBuffer × Option AudioPlayoutItem :=
  (b.discardExpired now).popNext now

/-- `AudioJitterBuffer::reset`. -/
def reset (b : AudioJitterBuffer) : AudioJitterBuffer :=
  { b with packets := ∅, nextSequence := none, playoutStarted := false, bufferedBytes := 0 }

end AudioJitterBuffer

end HbbCommon.Transport
