import HbbCommon.Transport.Input

/-!
# Reconnecting

`ReconnectState` counts the delays it has given since the last connection and refuses
the next one when the policy's attempts are used up. A delay doubles from the initial
one, is capped, and is then moved by a jitter of some percent; the arithmetic is on
128-bit milliseconds and saturates, and the result is cut to 64 bits.
-/

namespace HbbCommon.Transport

open HbbCommon.Base

/-! ## Durations and 128-bit integers -/

/-- `Duration`, in nanoseconds; the seconds are 64-bit. -/
def Duration := { nanos : Nat // nanos < 2 ^ 64 * 10 ^ 9 }

namespace Duration

instance : DecidableEq Duration := inferInstanceAs (DecidableEq { _n : Nat // _ })

instance : LinearOrder Duration := inferInstanceAs (LinearOrder { _n : Nat // _ })

def isZero (d : Duration) : Bool := d.val == 0

def asMillis (d : Duration) : Nat := d.val / 10 ^ 6

def fromMillis (millis : UInt64) : Duration :=
  ⟨millis.toNat * 10 ^ 6, by have := millis.toNat_lt; omega⟩

def fromSecs (secs : UInt64) : Duration :=
  ⟨secs.toNat * 10 ^ 9, by have := secs.toNat_lt; omega⟩

end Duration

def u128Max : Nat := 2 ^ 128 - 1

/-- Saturating unsigned 128-bit multiplication. -/
def satMul128 (a b : Nat) : Nat := min (a * b) u128Max

/-- Saturating unsigned 128-bit addition. -/
def satAdd128 (a b : Nat) : Nat := min (a + b) u128Max

/-- The cast `as i128` of an unsigned 128-bit value. -/
def asI128 (n : Nat) : Int := Int.bmod n (2 ^ 128)

/-! ## The policy -/

structure ReconnectPolicy where
  initialDelay : Duration
  maximumDelay : Duration
  maximumAttempts : UInt32
  jitterPercent : UInt8
  deriving DecidableEq

/-- `ReconnectPolicy::default`. -/
def ReconnectPolicy.default : ReconnectPolicy :=
  { initialDelay := .fromMillis 250, maximumDelay := .fromSecs 8, maximumAttempts := 8,
    jitterPercent := 20 }

/-- The test of `ReconnectState::new`. -/
def ReconnectPolicy.isInvalid (p : ReconnectPolicy) : Bool :=
  p.initialDelay.isZero || p.maximumDelay < p.initialDelay || p.maximumAttempts == 0 ||
    p.jitterPercent > 50

inductive RecoveryError
  | invalidPolicy
  | attemptsExhausted
  deriving DecidableEq, Repr

structure DisconnectActions where
  inputReleases : List ReliableInputEvent
  discardVideoAndAudio : Bool
  requestFreshKeyframe : Bool
  reauthenticate : Bool
  renegotiateCapabilities : Bool
  resumeFilesAfterIntegrityCheck : Bool

/-! ## The state -/

structure ReconnectState where
  policy : ReconnectPolicy
  attempts : Nat
  generation : Nat
  accepted : policy.isInvalid = false
  attempts_le : attempts ≤ policy.maximumAttempts.toNat

namespace ReconnectState

def new (policy : ReconnectPolicy) : Except RecoveryError ReconnectState :=
  if h : policy.isInvalid = true then .error .invalidPolicy
  else
    .ok
      { policy, attempts := 0, generation := 1, accepted := Bool.eq_false_iff.mpr h,
        attempts_le := Nat.zero_le _ }

def onDisconnect (s : ReconnectState) (input : ReliableInputReceiver) :
    ReconnectState × ReliableInputReceiver × DisconnectActions :=
  let (input, inputReleases) := input.releaseAll
  ({ s with generation := satAdd s.generation 1 }, input,
    { inputReleases, discardVideoAndAudio := true, requestFreshKeyframe := true,
      reauthenticate := true, renegotiateCapabilities := true,
      resumeFilesAfterIntegrityCheck := true })

/-- The delay before the jitter, in milliseconds. -/
def baseMillis (policy : ReconnectPolicy) (attempts : Nat) : Nat :=
  min (satMul128 policy.initialDelay.asMillis (2 ^ min attempts 31))
    policy.maximumDelay.asMillis

/-- The delay after the jitter, in milliseconds. -/
def jittered (baseMillis : Nat) (jitterPercent : UInt8) (jitterSample : UInt64) : Nat :=
  let range := satMul128 baseMillis jitterPercent.toNat / 100
  let width := satAdd128 (satMul128 range 2) 1
  let offset :=
    if width = 0 then 0 else asI128 (jitterSample.toNat % width) - asI128 range
  (max (asI128 baseMillis + offset) 0).toNat

def nextDelay (s : ReconnectState) (jitterSample : UInt64) :
    ReconnectState × Except RecoveryError Duration :=
  if h : s.attempts ≥ s.policy.maximumAttempts.toNat then (s, .error .attemptsExhausted)
  else
    ({ s with attempts := s.attempts + 1, attempts_le := by omega },
      .ok (.fromMillis (UInt64.ofNat (min
        (jittered (baseMillis s.policy s.attempts) s.policy.jitterPercent jitterSample)
        u64Max))))

def onConnected (s : ReconnectState) : ReconnectState :=
  { s with attempts := 0, attempts_le := Nat.zero_le _ }

/-! ## Runs -/

inductive Call
  | nextDelay (jitterSample : UInt64)
  | onConnected
  | onDisconnect (input : ReliableInputReceiver)

/-- A state, and how many delays were given since the last `on_connected`. -/
structure Run where
  state : ReconnectState
  given : Nat

/-- One call. The count goes by what the call returned. -/
def Run.call (r : Run) : Call → Run
  | .nextDelay jitterSample =>
      let (state, result) := r.state.nextDelay jitterSample
      match result with
      | .ok _ => { state, given := r.given + 1 }
      | .error _ => { r with state }
  | .onConnected => { state := r.state.onConnected, given := 0 }
  | .onDisconnect input => { r with state := (r.state.onDisconnect input).1 }

/-- The calls one after another from a new state. -/
def Run.after (start : ReconnectState) (calls : List Call) : Run :=
  calls.foldl Run.call { state := start, given := 0 }

end ReconnectState

end HbbCommon.Transport
