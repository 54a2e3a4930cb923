import Mathlib.Algebra.Order.Field.Power
import Mathlib.Data.Rat.Cast.Order
import Mathlib.Tactic.FieldSimp
import Mathlib.Tactic.Linarith
import Mathlib.Tactic.Positivity
import Mathlib.Tactic.Ring
import DynLisp.Decimal.Shortest

/-!
# Shortest decimals tell doubles apart

The numbers that round to a double form an interval around it (`Binary.Covers`).  The shortest
decimal of a double lies in its interval (`Binary.Canonical.covers_shortest`): among the decimals
with seventeen significant digits there is always one that does, since they are closer together than
the ends of the interval.

The intervals of two doubles have no number in common (`Binary.Canonical.eq_of_covers`).  They may
touch, but only if the doubles are neighbours; then one of the two mantissas is odd and its interval
is open.
-/

namespace DynLisp

namespace Decimal

/-! ## Ratios as numbers -/

namespace Ratio

/-- The number that a ratio is. -/
def value (r : Ratio) : ℚ := r.num / r.den

theorem den_ofBinary_pos (n : Nat) (e : Int) : 0 < (ofBinary n e).den := by
  unfold ofBinary
  split
  · exact Nat.one_pos
  · exact Nat.pow_pos (by decide)

theorem value_ofBinary (n : Nat) (e : Int) : (ofBinary n e).value = n * 2 ^ e := by
  unfold ofBinary value
  split
  next h =>
    obtain ⟨k, rfl⟩ := Int.eq_ofNat_of_zero_le h
    simp
  next h =>
    obtain ⟨k, hk⟩ := Int.eq_ofNat_of_zero_le (show 0 ≤ -e by omega)
    obtain rfl : e = -k := by omega
    simp [div_eq_mul_inv]

theorem den_shift_pos {r : Ratio} (e : Int) (h : 0 < r.den) : 0 < (r.shift e).den := by
  unfold shift
  split
  · exact Nat.mul_pos h (Nat.pow_pos (by decide))
  · exact h

theorem value_shift (r : Ratio) (e : Int) : (r.shift e).value = r.value / 10 ^ e := by
  unfold shift value
  split
  next h =>
    obtain ⟨k, rfl⟩ := Int.eq_ofNat_of_zero_le h
    simp [div_mul_eq_div_div]
  next h =>
    obtain ⟨k, hk⟩ := Int.eq_ofNat_of_zero_le (show 0 ≤ -e by omega)
    obtain rfl : e = -k := by omega
    simp [div_mul_eq_mul_div]

section Compare

variable {r : Ratio} (h : 0 < r.den) (n : Nat)

include h

theorem num_le_iff : r.num ≤ n * r.den ↔ r.value ≤ n := by
  rw [value, div_le_iff₀ (by exact_mod_cast h)]
  exact_mod_cast Iff.rfl

theorem le_num_iff : n * r.den ≤ r.num ↔ n ≤ r.value := by
  rw [value, le_div_iff₀ (by exact_mod_cast h)]
  exact_mod_cast Iff.rfl

theorem num_lt_iff : r.num < n * r.den ↔ r.value < n := by
  rw [value, div_lt_iff₀ (by exact_mod_cast h)]
  exact_mod_cast Iff.rfl

theorem lt_num_iff : n * r.den < r.num ↔ n < r.value := by
  rw [value, lt_div_iff₀ (by exact_mod_cast h)]
  exact_mod_cast Iff.rfl

end Compare

end Ratio

/-! ## The interval around a binary fraction -/

/-- The number that a decimal is. -/
def Scientific.value (d : Scientific) : ℚ := d.digits * 10 ^ d.exponent

namespace Binary

/-- The number that a binary fraction is. -/
def value (b : Binary) : ℚ := b.mantissa * 2 ^ b.exponent

/-- A quarter of the distance to the next larger double. -/
def unit (b : Binary) : ℚ := 2 ^ (b.exponent - 2)

/-- The lower end of the interval. -/
def low (b : Binary) : ℚ := ((4 * b.mantissa - (if b.narrowBelow then 1 else 2) : Nat) : ℚ) * b.unit

/-- The upper end of the interval. -/
def high (b : Binary) : ℚ := ((4 * b.mantissa + 2 : Nat) : ℚ) * b.unit

/-- Does a number lie in the interval of those that round to the binary fraction? -/
def Covers (b : Binary) (x : ℚ) : Prop :=
  if b.mantissa % 2 = 0 then b.low ≤ x ∧ x ≤ b.high else b.low < x ∧ x < b.high

theorem unit_pos (b : Binary) : 0 < b.unit := zpow_pos (by norm_num) _

theorem value_eq (b : Binary) : b.value = 4 * b.mantissa * b.unit := by
  rw [value, unit, zpow_sub₀ (by norm_num)]
  ring

theorem value_quarter_shift (b : Binary) (n : Nat) (e : Int) :
    ((b.quarter n).shift e).value = n * b.unit / 10 ^ e := by
  rw [Ratio.value_shift, quarter, Ratio.value_ofBinary, unit]

theorem den_quarter_shift_pos (b : Binary) (n : Nat) (e : Int) : 0 < ((b.quarter n).shift e).den :=
  Ratio.den_shift_pos e (Ratio.den_ofBinary_pos _ _)

theorem contains_iff (b : Binary) (n : Nat) (e : Int) :
    b.contains n e = true ↔ b.Covers (n * 10 ^ e) := by
  have hten : (0 : ℚ) < 10 ^ e := zpow_pos (by norm_num) e
  unfold contains Covers low high
  dsimp only
  split
  · rw [Bool.and_eq_true, decide_eq_true_eq, decide_eq_true_eq,
      Ratio.num_le_iff (b.den_quarter_shift_pos _ e),
      Ratio.le_num_iff (b.den_quarter_shift_pos _ e), value_quarter_shift, value_quarter_shift,
      div_le_iff₀ hten, le_div_iff₀ hten]
  · rw [Bool.and_eq_true, decide_eq_true_eq, decide_eq_true_eq,
      Ratio.num_lt_iff (b.den_quarter_shift_pos _ e),
      Ratio.lt_num_iff (b.den_quarter_shift_pos _ e), value_quarter_shift, value_quarter_shift,
      div_lt_iff₀ hten, lt_div_iff₀ hten]

/-! ## Different doubles have different decimals -/

/-- A binary fraction as doubles have it: the mantissa is as long as it can be unless the exponent
is the least, and the next smaller double is nearer exactly if it has a smaller exponent. -/
structure Canonical (b : Binary) : Prop where
  pos : 0 < b.mantissa
  lt : b.mantissa < 2 ^ 53
  least : -1074 ≤ b.exponent
  long : -1074 < b.exponent → 2 ^ 52 ≤ b.mantissa
  narrow : b.narrowBelow = true ↔ b.mantissa = 2 ^ 52 ∧ -1074 < b.exponent

theorem Covers.le {b : Binary} {x : ℚ} (h : b.Covers x) : b.low ≤ x ∧ x ≤ b.high := by
  unfold Covers at h
  split at h
  · exact h
  · exact ⟨h.1.le, h.2.le⟩

theorem Covers.lt {b : Binary} {x : ℚ} (h : b.Covers x) (hodd : b.mantissa % 2 = 1) :
    b.low < x ∧ x < b.high := by
  rwa [Covers, if_neg (by omega)] at h

/-- Intervals of which one is below the other have nothing in common, unless they touch and are both
closed. -/
theorem not_covers_of_le {b c : Binary} {x : ℚ} (hle : b.high ≤ c.low)
    (hodd : b.mantissa % 2 = 1 ∨ c.mantissa % 2 = 1 ∨ b.high < c.low) (hb : b.Covers x) :
    ¬ c.Covers x := by
  intro hc
  have hlow := hc.le.1
  have hhigh := hb.le.2
  rcases hodd with hodd | hodd | hlt
  · linarith [hb.lt hodd]
  · linarith [hc.lt hodd]
  · linarith

namespace Canonical

variable {b c : Binary}

theorem not_covers_of_mantissa_lt (hc : c.Canonical) (hb : b.Canonical)
    (he : b.exponent = c.exponent) (hm : b.mantissa < c.mantissa) {x : ℚ} (h : b.Covers x) :
    ¬ c.Covers x := by
  have hunit : c.unit = b.unit := by rw [unit, unit, he]
  have hpos := b.unit_pos
  -- a power of two has a neighbour with a smaller exponent, so it is not one of two with the same
  have hwide : c.narrowBelow = false := by
    by_contra hnarrow
    obtain ⟨hpower, hexp⟩ := hc.narrow.mp (Bool.not_eq_false _ ▸ hnarrow)
    have := hb.long (he ▸ hexp)
    omega
  have hends : 4 * b.mantissa + 2 ≤ 4 * c.mantissa - 2 := by omega
  refine not_covers_of_le ?_ ?_ h
  · rw [low, high, hunit, hwide]
    exact mul_le_mul_of_nonneg_right (by exact_mod_cast hends) hpos.le
  · by_cases hnext : c.mantissa = b.mantissa + 1
    · omega
    · refine .inr (.inr ?_)
      rw [low, high, hunit, hwide]
      refine mul_lt_mul_of_pos_right ?_ hpos
      exact_mod_cast (show 4 * b.mantissa + 2 < 4 * c.mantissa - 2 by omega)

/-- The largest double below a power of two is odd, and the power has a narrow interval below it. -/
theorem not_covers_of_exponent_lt (hc : c.Canonical) (hb : b.Canonical)
    (he : b.exponent < c.exponent) {x : ℚ} (h : b.Covers x) : ¬ c.Covers x := by
  have hlong : 2 ^ 52 ≤ c.mantissa := hc.long (by have := hb.least; omega)
  have hpos := b.unit_pos
  have hunit : 2 * b.unit ≤ c.unit := by
    rw [unit, unit, ← zpow_one_add₀ (by norm_num)]
    exact zpow_le_zpow_right₀ (by norm_num) (by omega)
  have hlow : ((2 ^ 54 - 1 : Nat) : ℚ) * (2 * b.unit) ≤ c.low := by
    have hends : 2 ^ 54 - 1 ≤ 4 * c.mantissa - (if c.narrowBelow then 1 else 2) := by
      split
      · omega
      next hwide =>
        have : c.mantissa ≠ 2 ^ 52 := fun h => hwide (hc.narrow.mpr ⟨h, by have := hb.least; omega⟩)
        omega
    exact mul_le_mul (by exact_mod_cast hends) hunit (by positivity) (by positivity)
  have hmiddle : ((2 ^ 54 - 1 : Nat) : ℚ) * (2 * b.unit) = ((2 ^ 55 - 2 : Nat) : ℚ) * b.unit := by
    norm_num
    ring
  rw [hmiddle] at hlow
  have hlt := hb.lt
  rcases Nat.mod_two_eq_zero_or_one b.mantissa with heven | hodd
  · have hhigh : b.high < ((2 ^ 55 - 2 : Nat) : ℚ) * b.unit := by
      refine mul_lt_mul_of_pos_right ?_ hpos
      exact_mod_cast (show 4 * b.mantissa + 2 < 2 ^ 55 - 2 by omega)
    exact not_covers_of_le (hhigh.trans_le hlow).le (.inr (.inr (hhigh.trans_le hlow))) h
  · have hhigh : b.high ≤ ((2 ^ 55 - 2 : Nat) : ℚ) * b.unit := by
      refine mul_le_mul_of_nonneg_right ?_ hpos.le
      exact_mod_cast (show 4 * b.mantissa + 2 ≤ 2 ^ 55 - 2 by omega)
    exact not_covers_of_le (hhigh.trans hlow) (.inl hodd) h

theorem eq_of_covers (hb : b.Canonical) (hc : c.Canonical) {x : ℚ} (hbx : b.Covers x)
    (hcx : c.Covers x) : b = c := by
  have he : b.exponent = c.exponent := by
    rcases lt_trichotomy b.exponent c.exponent with h | h | h
    · exact absurd hcx (not_covers_of_exponent_lt hc hb h hbx)
    · exact h
    · exact absurd hbx (not_covers_of_exponent_lt hb hc h hcx)
  have hm : b.mantissa = c.mantissa := by
    rcases lt_trichotomy b.mantissa c.mantissa with h | h | h
    · exact absurd hcx (not_covers_of_mantissa_lt hc hb he h hbx)
    · exact h
    · exact absurd hbx (not_covers_of_mantissa_lt hb hc he.symm h hcx)
  have hn : b.narrowBelow = c.narrowBelow := by
    rw [Bool.eq_iff_iff, hb.narrow, hc.narrow, hm, he]
  cases b
  cases c
  simp_all

end Canonical

/-! ## Seventeen digits suffice -/

theorem lt_pow_digitCount (n : Nat) : n < 10 ^ digitCount n := by
  unfold digitCount
  split
  next h => simp [h]
  next => exact (Nat.length_toDigits_le_iff (by decide) Nat.length_toDigits_pos).mp le_rfl

theorem pow_le_of_lt_digitCount {n k : Nat} (h : k < digitCount n) : 10 ^ k ≤ n := by
  by_contra hlt
  have hn : n ≠ 0 := by
    rintro rfl
    simp [digitCount] at h
  rw [digitCount, if_neg hn] at h
  rcases Nat.eq_zero_or_pos k with rfl | hk
  · simp at hlt
    exact hn hlt
  · exact absurd ((Nat.length_toDigits_le_iff (by decide) hk).mpr (not_le.mp hlt)) (by omega)

theorem pow_magnitude_le {b : Binary} (hb : 0 < b.mantissa) : 10 ^ (b.magnitude - 1) ≤ b.value := by
  rw [value, ← Ratio.value_ofBinary]
  unfold magnitude
  dsimp only
  have hden := Ratio.den_ofBinary_pos b.mantissa b.exponent
  have hnum : 0 < (Ratio.ofBinary b.mantissa b.exponent).num := by
    unfold Ratio.ofBinary
    split
    · exact Nat.mul_pos hb (Nat.pow_pos (by decide))
    · exact hb
  generalize Ratio.ofBinary b.mantissa b.exponent = r at *
  split
  next h =>
    obtain ⟨k, hk⟩ : ∃ k, digitCount (r.num / r.den) = k + 1 := by
      refine Nat.exists_eq_succ_of_ne_zero fun h0 => ?_
      have hlt := lt_pow_digitCount (r.num / r.den)
      rw [h0, pow_zero] at hlt
      exact absurd hlt (Nat.not_lt.mpr (Nat.div_pos h hden))
    have hpow : 10 ^ k * r.den ≤ r.num :=
      (Nat.le_div_iff_mul_le hden).mp (pow_le_of_lt_digitCount (by omega))
    rw [hk, Nat.cast_succ, add_sub_cancel_right, zpow_natCast]
    exact_mod_cast (Ratio.le_num_iff hden (10 ^ k)).mp hpow
  next h =>
    have hpow : r.den - 1 < 10 ^ digitCount ((r.den - 1) / r.num) * r.num :=
      (Nat.div_lt_iff_lt_mul hnum).mp (lt_pow_digitCount _)
    generalize digitCount ((r.den - 1) / r.num) = k at *
    rw [sub_sub_cancel_left, zpow_neg, zpow_natCast, Ratio.value, inv_eq_one_div,
      div_le_div_iff₀ (by positivity) (by exact_mod_cast hden), one_mul, mul_comm]
    exact_mod_cast (show r.den ≤ 10 ^ k * r.num by omega)

section Grid

variable {b : Binary} {e : Int}

theorem covers_of_onGrid? {n : Nat} (h : b.onGrid? e = some n) : b.Covers (n * 10 ^ e) := by
  rw [← contains_iff]
  unfold onGrid? at h
  dsimp only at h
  split at h
  · cases h
  · simp_all
  · simp_all
  · split_ifs at h <;> simp_all

theorem low_lt_value (hb : 0 < b.mantissa) : b.low < b.value := by
  rw [low, value_eq]
  refine mul_lt_mul_of_pos_right ?_ b.unit_pos
  have : 4 * b.mantissa - (if b.narrowBelow then 1 else 2) < 4 * b.mantissa := by split <;> omega
  exact_mod_cast this

theorem value_lt_high (b : Binary) : b.value < b.high := by
  rw [high, value_eq]
  refine mul_lt_mul_of_pos_right ?_ b.unit_pos
  exact_mod_cast (show 4 * b.mantissa < 4 * b.mantissa + 2 by omega)

theorem le_low_of_not_covers {x : ℚ} (h : ¬ b.Covers x) (hx : x ≤ b.value) : x ≤ b.low := by
  have := b.value_lt_high
  by_contra hlow
  refine h ?_
  unfold Covers
  split
  · exact ⟨by linarith, by linarith⟩
  · exact ⟨by linarith, by linarith⟩

theorem high_le_of_not_covers (hb : 0 < b.mantissa) {x : ℚ} (h : ¬ b.Covers x) (hx : b.value ≤ x) :
    b.high ≤ x := by
  have := low_lt_value hb
  by_contra hhigh
  refine h ?_
  unfold Covers
  split
  · exact ⟨by linarith, by linarith⟩
  · exact ⟨by linarith, by linarith⟩

/-- A grid without a point in the interval is at least as coarse as the interval is wide. -/
theorem width_le_of_onGrid? (hb : 0 < b.mantissa) (h : b.onGrid? e = none) :
    b.high - b.low ≤ 10 ^ e := by
  have hten : (0 : ℚ) < 10 ^ e := zpow_pos (by norm_num) e
  have hv := b.value_quarter_shift (4 * b.mantissa) e
  have hden := b.den_quarter_shift_pos (4 * b.mantissa) e
  unfold onGrid? at h
  dsimp only at h
  generalize (b.quarter (4 * b.mantissa)).shift e = v at *
  have hbelow : ((v.num / v.den : Nat) : ℚ) ≤ v.value :=
    (Ratio.le_num_iff hden _).mp (Nat.div_mul_le_self _ _)
  have habove : v.value < ((v.num / v.den + 1 : Nat) : ℚ) := by
    refine (Ratio.num_lt_iff hden _).mp ?_
    rw [mul_comm]
    exact Nat.lt_mul_div_succ _ hden
  generalize v.num / v.den = below at *
  rw [hv, le_div_iff₀ hten] at hbelow
  rw [hv, div_lt_iff₀ hten] at habove
  have hfalse : b.contains below e = false ∧ b.contains (below + 1) e = false := by
    split at h
    · simp_all
    · cases h
    · cases h
    · split_ifs at h
  have hlow : (below : ℚ) * 10 ^ e ≤ b.low := by
    refine le_low_of_not_covers (mt (contains_iff b below e).mpr (by simp [hfalse])) ?_
    rw [value_eq]
    exact_mod_cast hbelow
  have hhigh : b.high ≤ (below + 1 : Nat) * 10 ^ e := by
    refine high_le_of_not_covers hb (mt (contains_iff b (below + 1) e).mpr (by simp [hfalse])) ?_
    rw [value_eq]
    exact_mod_cast habove.le
  push_cast at hhigh
  linarith

/-- The grid with seventeen significant digits is finer than the interval. -/
theorem Canonical.exists_onGrid? (hb : b.Canonical) :
    ∃ n, b.onGrid? (b.magnitude - 17) = some n := by
  by_contra hnone
  have hwidth :=
    width_le_of_onGrid? hb.pos (Option.eq_none_iff_forall_ne_some.mpr fun n hn => hnone ⟨n, hn⟩)
  have hmagnitude := pow_magnitude_le hb.pos
  have hsplit : (10 : ℚ) ^ (b.magnitude - 1) = 10 ^ 16 * 10 ^ (b.magnitude - 17) := by
    rw [← zpow_natCast, ← zpow_add₀ (by norm_num)]
    congr 1
    push_cast
    ring
  rw [hsplit, value_eq] at hmagnitude
  have hunit := b.unit_pos
  have hends : b.high - b.low = (if b.narrowBelow then 3 else 4) * b.unit := by
    have := hb.pos
    rw [high, low, ← sub_mul, Nat.cast_sub (by split <;> omega)]
    split <;> push_cast <;> ring
  rw [hends] at hwidth
  have hmantissa : (10 : ℚ) ^ 16 * (if b.narrowBelow then 3 else 4) ≤ 4 * b.mantissa := by
    refine le_of_mul_le_mul_right ?_ hunit
    linarith
  split at hmantissa
  next hnarrow =>
    rw [(hb.narrow.mp hnarrow).1] at hmantissa
    norm_num at hmantissa
  next =>
    have hle : 10 ^ 16 * 4 ≤ 4 * b.mantissa := by exact_mod_cast hmantissa
    have := hb.lt
    omega

theorem covers_of_firstGrid {places : List Nat} (magnitude : Int)
    (h : ∃ k ∈ places, ∃ n, b.onGrid? (magnitude - k) = some n) :
    b.Covers (b.firstGrid magnitude places).value := by
  induction places with
  | nil => simp at h
  | cons k more ih =>
    rw [firstGrid]
    split
    next n hn => exact covers_of_onGrid? hn
    next hn =>
      refine ih ?_
      simpa [hn] using h

/-- The shortest decimal of a double rounds to the double. -/
theorem Canonical.covers_shortest (hb : b.Canonical) : b.Covers b.shortest.value :=
  covers_of_firstGrid b.magnitude ⟨17, by decide, hb.exists_onGrid?⟩

theorem Canonical.digits_shortest_pos (hb : b.Canonical) : 0 < b.shortest.digits := by
  have hlow : 0 < b.low := by
    have hpos := hb.pos
    have hend : 0 < 4 * b.mantissa - (if b.narrowBelow then 1 else 2) := by split <;> omega
    exact mul_pos (by exact_mod_cast hend) b.unit_pos
  by_contra h
  have hzero : b.shortest.digits = 0 := by omega
  have := hb.covers_shortest.le.1
  rw [Scientific.value, hzero, Nat.cast_zero, zero_mul] at this
  linarith

end Grid

end Binary

end Decimal

end DynLisp
