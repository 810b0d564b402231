import HbbCommon.Transport.Recovery

/-!
# Bounds of the reconnect delays

A duration has less than `2 ^ 74` milliseconds, so none of the 128-bit operations
saturates and every cast to a signed number is exact. The jitter moves the capped base
by at most its percentage, in both directions; that happens after the cap, so a delay
may lie above the maximum of the policy by that much.

The number of doublings stops at 31, and the result is cut to 64 bits.
-/

namespace HbbCommon.Transport.ReconnectState

open HbbCommon.Base

/-! ## The arithmetic of one delay -/

theorem asMillis_lt (d : Duration) : d.asMillis < 2 ^ 74 := by
  have h := d.property
  unfold Duration.asMillis
  omega

theorem satMul128_of_lt {a b : Nat} (h : a * b < 2 ^ 128) : satMul128 a b = a * b :=
  Nat.min_eq_left (Nat.le_sub_one_of_lt h)

theorem satAdd128_of_lt {a b : Nat} (h : a + b < 2 ^ 128) : satAdd128 a b = a + b :=
  Nat.min_eq_left (Nat.le_sub_one_of_lt h)

theorem asI128_of_lt {n : Nat} (h : n < 2 ^ 127) : asI128 n = n := by
  unfold asI128
  refine Int.bmod_eq_of_le ?_ ?_ <;> omega

/-- The base is the doubled initial delay under the maximum; nothing saturates. -/
theorem baseMillis_eq (policy : ReconnectPolicy) (attempts : Nat) :
    baseMillis policy attempts =
      min (policy.initialDelay.asMillis * 2 ^ min attempts 31) policy.maximumDelay.asMillis := by
  have hinitial := asMillis_lt policy.initialDelay
  have hpow : 2 ^ min attempts 31 ≤ 2 ^ 31 :=
    Nat.pow_le_pow_right (by decide) (Nat.min_le_right _ _)
  have hproduct : policy.initialDelay.asMillis * 2 ^ min attempts 31 < 2 ^ 128 :=
    calc policy.initialDelay.asMillis * 2 ^ min attempts 31
        ≤ 2 ^ 74 * 2 ^ 31 := Nat.mul_le_mul hinitial.le hpow
      _ < 2 ^ 128 := by decide
  rw [baseMillis, satMul128_of_lt hproduct]

theorem baseMillis_lt (policy : ReconnectPolicy) (attempts : Nat) :
    baseMillis policy attempts < 2 ^ 74 :=
  lt_of_le_of_lt (Nat.min_le_right _ _) (asMillis_lt policy.maximumDelay)

/-- The range of the jitter is a whole number of milliseconds below the percentage. -/
theorem range_le (base percent : Nat) : base * percent / 100 * 100 ≤ percent * base := by
  rw [Nat.mul_comm percent]
  exact Nat.div_mul_le_self _ _

/-- The jitter moves the base by at most its percentage. -/
theorem jittered_close {base : Nat} (hbase : base < 2 ^ 74) {percent : UInt8}
    (hpercent : percent.toNat ≤ 50) (sample : UInt64) :
    100 * ((jittered base percent sample : Int) - base).natAbs ≤ percent.toNat * base := by
  have hproduct : base * percent.toNat < 2 ^ 128 :=
    calc base * percent.toNat ≤ 2 ^ 74 * 50 := Nat.mul_le_mul hbase.le hpercent
      _ < 2 ^ 128 := by decide
  generalize hr : base * percent.toNat / 100 = range
  have hrange : range * 100 ≤ percent.toNat * base := hr ▸ range_le base percent.toNat
  -- at most half of the base, so that the sum stays above zero
  have hhalf : range ≤ base := by
    have hle : percent.toNat * base ≤ 50 * base := Nat.mul_le_mul_right _ hpercent
    omega
  have hrange2 : satMul128 range 2 = range * 2 := satMul128_of_lt (by omega)
  have hwidth : satAdd128 (range * 2) 1 = range * 2 + 1 := satAdd128_of_lt (by omega)
  have hsample : sample.toNat % (range * 2 + 1) < range * 2 + 1 := Nat.mod_lt _ (Nat.succ_pos _)
  unfold jittered
  rw [satMul128_of_lt hproduct, hr]
  simp only [hrange2, hwidth, if_neg (Nat.succ_ne_zero _)]
  rw [asI128_of_lt (show base < 2 ^ 127 by omega), asI128_of_lt (show range < 2 ^ 127 by omega),
    asI128_of_lt (show sample.toNat % (range * 2 + 1) < 2 ^ 127 by omega)]
  omega

/-! ## Runs -/

theorem nextDelay_of_exhausted {s : ReconnectState}
    (h : s.attempts ≥ s.policy.maximumAttempts.toNat) (jitterSample : UInt64) :
    s.nextDelay jitterSample = (s, .error .attemptsExhausted) :=
  dif_pos h

theorem attempts_left {s : ReconnectState}
    (h : ¬ s.attempts ≥ s.policy.maximumAttempts.toNat) :
    s.attempts + 1 ≤ s.policy.maximumAttempts.toNat := by
  omega

theorem nextDelay_of_left {s : ReconnectState}
    (h : ¬ s.attempts ≥ s.policy.maximumAttempts.toNat) (jitterSample : UInt64) :
    s.nextDelay jitterSample =
      ({ s with attempts := s.attempts + 1, attempts_le := attempts_left h },
        .ok (.fromMillis (UInt64.ofNat (min
          (jittered (baseMillis s.policy s.attempts) s.policy.jitterPercent jitterSample)
          u64Max)))) :=
  dif_neg h

/-- The count of the run is the count of the state, and the policy does not change. -/
structure Counted (start : ReconnectState) (r : Run) : Prop where
  policy : r.state.policy = start.policy
  attempts : r.state.attempts = r.given

theorem Counted.call {start : ReconnectState} {r : Run} (h : Counted start r) (call : Call) :
    Counted start (r.call call) := by
  cases call with
  | nextDelay jitterSample =>
      by_cases hall : r.state.attempts ≥ r.state.policy.maximumAttempts.toNat
      · rw [Run.call, nextDelay_of_exhausted hall]
        exact ⟨h.policy, h.attempts⟩
      · rw [Run.call, nextDelay_of_left hall]
        exact ⟨h.policy, congrArg (· + 1) h.attempts⟩
  | onConnected => exact ⟨h.policy, rfl⟩
  | onDisconnect input => exact ⟨h.policy, h.attempts⟩

theorem counted_after {start : ReconnectState} (hstart : start.attempts = 0)
    (calls : List Call) : Counted start (Run.after start calls) := by
  suffices hall : ∀ r, Counted start r → Counted start (calls.foldl Run.call r) from
    hall _ ⟨rfl, hstart⟩
  induction calls with
  | nil => exact fun r h => h
  | cons call calls ih => exact fun r h => ih _ (h.call call)

theorem new_eq_ok {policy : ReconnectPolicy} {start : ReconnectState}
    (h : new policy = .ok start) : start.policy = policy ∧ start.attempts = 0 := by
  unfold new at h
  split at h
  · cases h
  · cases h
    exact ⟨rfl, rfl⟩

theorem jitterPercent_le (s : ReconnectState) : s.policy.jitterPercent.toNat ≤ 50 := by
  have h := s.accepted
  unfold ReconnectPolicy.isInvalid at h
  simp only [Bool.or_eq_false_iff, decide_eq_false_iff_not] at h
  have hle : ¬ (50 : UInt8) < s.policy.jitterPercent := h.2
  exact UInt8.le_iff_toNat_le.mp (UInt8.not_lt.mp hle)

/-- The `k`-th delay after the last connection, as it is given. -/
def DelayWithin (policy : ReconnectPolicy) (k : Nat) (delay : Duration) : Prop :=
  ∃ millis : Nat, delay.asMillis = min millis u64Max ∧
    100 * ((millis : Int) - min (policy.initialDelay.asMillis * 2 ^ min k 31)
      policy.maximumDelay.asMillis).natAbs ≤
      policy.jitterPercent.toNat *
        min (policy.initialDelay.asMillis * 2 ^ min k 31) policy.maximumDelay.asMillis

theorem asMillis_fromMillis (millis : UInt64) : (Duration.fromMillis millis).asMillis = millis.toNat :=
  Nat.mul_div_cancel _ (by decide)

/-- The jitter comes after the cap, so the maximum holds up to the jitter. -/
theorem DelayWithin.le_maximum {policy : ReconnectPolicy} {k : Nat} {delay : Duration}
    (h : DelayWithin policy k delay) :
    100 * delay.asMillis ≤
      (100 + policy.jitterPercent.toNat) * policy.maximumDelay.asMillis := by
  obtain ⟨millis, hdelay, hclose⟩ := h
  generalize hbase : min (policy.initialDelay.asMillis * 2 ^ min k 31)
    policy.maximumDelay.asMillis = base at hclose
  have hcap : base ≤ policy.maximumDelay.asMillis := hbase ▸ Nat.min_le_right _ _
  have hshare : policy.jitterPercent.toNat * base ≤
      policy.jitterPercent.toNat * policy.maximumDelay.asMillis := Nat.mul_le_mul_left _ hcap
  have hcut : delay.asMillis ≤ millis := hdelay ▸ Nat.min_le_left _ _
  rw [Nat.add_mul]
  omega

/-- In every run of a state that `new` accepts: the next delay is refused exactly when all
attempts were given since the last connection, and otherwise lies within the jitter of the
doubled and capped initial delay. -/
theorem reconnect_delays {policy : ReconnectPolicy} {start : ReconnectState}
    (hnew : new policy = .ok start) (calls : List Call) (jitterSample : UInt64) :
    (((Run.after start calls).state.nextDelay jitterSample).2 = .error .attemptsExhausted ↔
      (Run.after start calls).given = policy.maximumAttempts.toNat) ∧
    ((Run.after start calls).given ≠ policy.maximumAttempts.toNat →
      ∃ delay, ((Run.after start calls).state.nextDelay jitterSample).2 = .ok delay ∧
        DelayWithin policy (Run.after start calls).given delay ∧
        100 * delay.asMillis ≤
          (100 + policy.jitterPercent.toNat) * policy.maximumDelay.asMillis) := by
  obtain ⟨hpolicy, hzero⟩ := new_eq_ok hnew
  have hcounted := counted_after hzero calls
  generalize Run.after start calls = r at hcounted
  have hsame : r.state.policy = policy := hcounted.policy.trans hpolicy
  have hcount := hcounted.attempts
  have hle := r.state.attempts_le
  by_cases hall : r.state.attempts ≥ r.state.policy.maximumAttempts.toNat
  · have hgiven : r.given = policy.maximumAttempts.toNat := by
      rw [← hcount, ← hsame]
      exact Nat.le_antisymm hle hall
    rw [nextDelay_of_exhausted hall]
    exact ⟨⟨fun _ => hgiven, fun _ => rfl⟩, fun h => absurd hgiven h⟩
  · have hgiven : r.given ≠ policy.maximumAttempts.toNat := by
      rw [← hcount, ← hsame]
      omega
    rw [nextDelay_of_left hall]
    refine ⟨⟨(by intro h; cases h), fun h => absurd h hgiven⟩, fun _ => ?_⟩
    have hwithin : DelayWithin policy r.given (.fromMillis (UInt64.ofNat (min
        (jittered (baseMillis r.state.policy r.state.attempts) r.state.policy.jitterPercent
          jitterSample) u64Max))) := by
      refine ⟨jittered (baseMillis r.state.policy r.state.attempts) r.state.policy.jitterPercent
        jitterSample, ?_, ?_⟩
      · rw [asMillis_fromMillis]
        exact UInt64.toNat_ofNat_of_lt (lt_of_le_of_lt (Nat.min_le_right _ _) (by decide))
      · have hclose := jittered_close (baseMillis_lt r.state.policy r.state.attempts)
          r.state.jitterPercent_le jitterSample
        rw [baseMillis_eq, hsame, hcount] at hclose
        rw [baseMillis_eq, hsame, hcount]
        exact_mod_cast hclose
    exact ⟨_, rfl, hwithin, hwithin.le_maximum⟩

/-- A new state of the default policy, after five delays. -/
theorem reconnect_delays_default :
    ∃ delay, ((Run.after ⟨.default, 0, 1, rfl, Nat.zero_le _⟩
        (List.replicate 5 (.nextDelay 0))).state.nextDelay 3200).2 = .ok delay ∧
      DelayWithin .default 5 delay ∧ 100 * delay.asMillis ≤ 120 * 8000 :=
  (reconnect_delays (show new .default = .ok _ from rfl) (List.replicate 5 (.nextDelay 0)) 3200).2
    (by decide +kernel)

/-- A policy whose maximum lies past 31 doublings of its initial delay. -/
def slowPolicy : ReconnectPolicy :=
  { initialDelay := .fromMillis 1, maximumDelay := .fromMillis (2 ^ 40), maximumAttempts := 40,
    jitterPercent := 0 }

/-- The longest delay there is. -/
def endlessPolicy : ReconnectPolicy :=
  { initialDelay := .fromSecs (2 ^ 64 - 1), maximumDelay := .fromSecs (2 ^ 64 - 1),
    maximumAttempts := 1, jitterPercent := 0 }

/-- Three bounds that one may expect do not hold. At the default policy the sixth delay is
9.6 seconds under a maximum of 8; with 40 attempts the 33rd delay is as long as the 32nd,
far below the maximum; and a delay of more than `2 ^ 64` milliseconds is cut. -/
theorem jitter_exceeds_maximum :
    (((Run.after ⟨.default, 0, 1, rfl, Nat.zero_le _⟩
        (List.replicate 5 (.nextDelay 0))).state.nextDelay 3200).2 = .ok (.fromMillis 9600) ∧
      ReconnectPolicy.default.maximumDelay = .fromMillis 8000) ∧
    (((Run.after ⟨slowPolicy, 0, 1, rfl, Nat.zero_le _⟩
        (List.replicate 32 (.nextDelay 0))).state.nextDelay 0).2 = .ok (.fromMillis (2 ^ 31)) ∧
      min (slowPolicy.initialDelay.asMillis * 2 ^ 32) slowPolicy.maximumDelay.asMillis = 2 ^ 32) ∧
    (((Run.after ⟨endlessPolicy, 0, 1, rfl, Nat.zero_le _⟩ []).state.nextDelay 0).2 =
        .ok (.fromMillis (2 ^ 64 - 1)) ∧
      min (endlessPolicy.initialDelay.asMillis * 2 ^ 0) endlessPolicy.maximumDelay.asMillis =
        (2 ^ 64 - 1) * 1000) := by
  decide +kernel

end HbbCommon.Transport.ReconnectState
