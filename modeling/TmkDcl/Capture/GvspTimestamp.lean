import TmkDcl.Capture.Gvsp

/-!
# Timestamps of the leader (gvsp.h)

A timestamp in ticks is converted to nanoseconds by whole seconds and the rest of a second.
-/

namespace TmkDcl.Capture

/-! ### Places in `gvsp_data_leader` -/

def timestampHighOffset : ℕ := 4
def timestampLowOffset : ℕ := 8

def nanosecondsPerSecond : UInt64 := 1000000000

/-- `timestamp_high` and `timestamp_low` as one number. -/
def leaderTimestamp (packet : Bytes) : UInt64 :=
  let leader := gvspPacketGetData packet
  UInt64.ofNat (beNat (field leader timestampHighOffset 4)) <<< 32 |||
    UInt64.ofNat (beNat (field leader timestampLowOffset 4))

def gvspPacketGetTimestamp (packet : Bytes) (timestampTickFrequency : UInt64) : UInt64 :=
  if timestampTickFrequency < 1 then 0
  else
    let timestamp := leaderTimestamp packet
    let timestampS := timestamp / timestampTickFrequency
    let timestampNs :=
      timestamp % timestampTickFrequency * nanosecondsPerSecond / timestampTickFrequency
    timestampNs + timestampS * nanosecondsPerSecond

theorem mul_div_by_parts (t n : ℕ) {q : ℕ} (hq : 0 < q) :
    t * n / q = t / q * n + t % q * n / q := by
  have hsplit : t * n = t % q * n + q * (t / q * n) := by
    calc t * n = (t % q + q * (t / q)) * n := by rw [Nat.mod_add_div]
      _ = t % q * n + q * (t / q * n) := by rw [Nat.add_mul, Nat.mul_assoc]
  rw [hsplit, Nat.add_mul_div_left _ _ hq, Nat.add_comm]

theorem wrapped_div_eq_iff {x q : ℕ} (hq : 0 < q) (hlt : q < 2 ^ 64) :
    x % 2 ^ 64 / q = x / q ↔ x < 2 ^ 64 := by
  constructor
  · intro heq
    by_contra hle
    have hgap : x % 2 ^ 64 + q ≤ x := by
      have hdiv := Nat.mod_add_div x (2 ^ 64)
      have hpos : 1 ≤ x / 2 ^ 64 := Nat.div_pos (Nat.not_lt.mp hle) (by decide)
      omega
    have hnext : x % 2 ^ 64 / q + 1 ≤ x / q := by
      rw [← Nat.add_div_right _ hq]
      exact Nat.div_le_div_right hgap
    omega
  · intro hx
    rw [Nat.mod_eq_of_lt hx]

theorem add_mod_word {a b c : ℕ} (hb : b ≤ c) (hsum : a + c < 2 ^ 64) :
    (b + a % 2 ^ 64) % 2 ^ 64 = a + b := by
  rw [Nat.mod_eq_of_lt (by omega : a < 2 ^ 64), Nat.mod_eq_of_lt (by omega), Nat.add_comm]

/-- What the code computes, as long as the nanoseconds fit a word. -/
theorem timestamp_toNat {packet : Bytes} {f : UInt64} (hf : 1 ≤ f)
    (hfits : (leaderTimestamp packet).toNat * 1000000000 / f.toNat < 2 ^ 64) :
    (gvspPacketGetTimestamp packet f).toNat =
      (leaderTimestamp packet).toNat / f.toNat * 1000000000 +
        (leaderTimestamp packet).toNat % f.toNat * 1000000000 % 2 ^ 64 / f.toNat := by
  have hq : 0 < f.toNat := UInt64.le_iff_toNat_le.mp hf
  have hle : (leaderTimestamp packet).toNat % f.toNat * 1000000000 % 2 ^ 64 / f.toNat ≤
      (leaderTimestamp packet).toNat % f.toNat * 1000000000 / f.toNat :=
    Nat.div_le_div_right (Nat.mod_le _ _)
  rw [mul_div_by_parts _ _ hq] at hfits
  rw [gvspPacketGetTimestamp, if_neg (UInt64.not_lt.mpr hf)]
  have hsecond : nanosecondsPerSecond.toNat = 1000000000 := by decide
  simp only [UInt64.toNat_add, UInt64.toNat_div, UInt64.toNat_mul, UInt64.toNat_mod, hsecond]
  exact add_mod_word hle hfits

/-- The conversion is exact if and only if the ticks of the last second, times 10⁹, fit a word. -/
theorem timestamp_exact_iff (packet : Bytes) (f : UInt64) (hf : 1 ≤ f)
    (hfits : (leaderTimestamp packet).toNat * 1000000000 / f.toNat < 2 ^ 64) :
    (gvspPacketGetTimestamp packet f).toNat =
        (leaderTimestamp packet).toNat * 1000000000 / f.toNat ↔
      (leaderTimestamp packet).toNat % f.toNat * 1000000000 < 2 ^ 64 := by
  have hq : 0 < f.toNat := UInt64.le_iff_toNat_le.mp hf
  rw [timestamp_toNat hf hfits, mul_div_by_parts _ _ hq, Nat.add_left_cancel_iff,
    wrapped_div_eq_iff hq f.toNat_lt]

/-- A packet with a leader and its timestamp. -/
def leaderPacket (timestamp : ℕ) : Bytes :=
  [0, 0, 0, 1, 1, 0, 0, 0] ++ [0, 0, 0, 1] ++ beBytes 8 timestamp

theorem timestamp_exact_megahertz :
    (gvspPacketGetTimestamp (leaderPacket 125000001) 125000000).toNat =
        (leaderTimestamp (leaderPacket 125000001)).toNat * 1000000000 / (125000000 : UInt64).toNat ↔
      (leaderTimestamp (leaderPacket 125000001)).toNat % (125000000 : UInt64).toNat * 1000000000 <
        2 ^ 64 :=
  timestamp_exact_iff (leaderPacket 125000001) 125000000 (by decide) (by decide +kernel)

/-- Half a second of ticks of 2⁻⁶³ s. -/
theorem timestamp_wrapped :
    ¬ ((gvspPacketGetTimestamp (leaderPacket 0x4000000000000000) 0x8000000000000000).toNat =
      (leaderTimestamp (leaderPacket 0x4000000000000000)).toNat * 1000000000 /
        (0x8000000000000000 : UInt64).toNat) := by
  decide +kernel

end TmkDcl.Capture
