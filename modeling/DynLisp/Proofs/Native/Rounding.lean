import Mathlib
import DynLisp.Native.Builtin

/-!
# Integers as doubles

The double nearest to an integer of the language is never infinite (`realOfInt_of_inRange`), so
arithmetic never fails to turn an integer into a real.

What is rounded has a mantissa and an exponent, and rounding moves the exponent by no more than the
mantissa has bits (`within_roundWithAccuracy`).  A conversion rounds once or twice, starting with
some hundred bits at most, and the exponents of doubles go up to 971: the bound is far from being
reached, and no digit of the mantissa matters for it.
-/

namespace DynLisp

namespace Arithmetic

open Float.Model UnpackedFloat

/-! ## Rounding -/

/-- Zero, or a finite number with an exponent up to a bound. -/
def Within (top : Int) : UnpackedFloat → Prop
  | .zero _ => True
  | .finite _ _ exponent _ => exponent ≤ top
  | _ => False

theorem targetExponent_eq (t : Int) : Format.binary64.targetExponent t = max (t - 53) (-1074) := rfl

theorem mantissa_shiftRight_le (em : ExtendedMantissa) (k : Nat) :
    (em >>> k).mantissa ≤ em.mantissa := by
  induction k with
  | zero => exact Nat.le_refl _
  | succ k ih => exact Nat.le_trans (Nat.div_le_self _ 2) ih

theorem mantissa_ofMantissaAndAccuracy (m : Nat) (accuracy : Accuracy) :
    (ExtendedMantissa.ofMantissaAndAccuracy m accuracy).mantissa = m := by
  unfold ExtendedMantissa.ofMantissaAndAccuracy
  split <;> rfl

theorem roundedMantissa_le (em : ExtendedMantissa) : em.roundedMantissa ≤ em.mantissa + 1 := by
  unfold ExtendedMantissa.roundedMantissa Accuracy.roundToNearestEven
  split <;> omega

section Shift

variable {m bits : Nat} {e top : Int} (accuracy : Accuracy)

theorem mantissa_shiftToTargetExponent_le :
    (shiftToTargetExponent Format.binary64 m e accuracy).1.mantissa ≤ m := by
  refine Nat.le_trans (mantissa_shiftRight_le _ _) (Nat.le_of_eq ?_)
  exact mantissa_ofMantissaAndAccuracy m accuracy

theorem exponent_shiftToTargetExponent_le (hm : m < 2 ^ bits) (he : e + bits ≤ top)
    (htop : -1074 ≤ top) : (shiftToTargetExponent Format.binary64 m e accuracy).2 ≤ top := by
  have hlog : m.log2 < bits + 1 := by
    by_cases h : m = 0
    · rw [h]; simp
    · exact Nat.lt_succ_of_lt ((Nat.log2_lt h).mpr hm)
  simp only [shiftToTargetExponent, shiftToExponent, targetExponent_eq, totalExponent]
  omega

theorem within_roundWithAccuracy (sign : Sign) (hm : m < 2 ^ bits) (he : e + 2 * bits + 1 ≤ top)
    (htop : bits - 1073 ≤ top) :
    Within top (roundWithAccuracy Format.binary64 sign m e accuracy) := by
  unfold roundWithAccuracy
  have hmantissa := @mantissa_shiftToTargetExponent_le m e accuracy
  have hexponent : (shiftToTargetExponent Format.binary64 m e accuracy).2 ≤ top - bits - 1 :=
    exponent_shiftToTargetExponent_le accuracy hm (by omega) (by omega)
  generalize shiftToTargetExponent Format.binary64 m e accuracy = first at *
  have hrounded : first.1.roundedMantissa < 2 ^ (bits + 1) := by
    have := roundedMantissa_le first.1
    rw [Nat.pow_succ]
    omega
  -- rounding up may take one more bit, so the mantissa is shifted a second time
  dsimp only
  split
  · trivial
  · exact exponent_shiftToTargetExponent_le .exact hrounded (by push_cast; omega) (by omega)

end Shift

/-! ## Packing -/

/-- A double that is taken apart has a mantissa of at most 53 bits. -/
theorem mantissa_unpack_lt {b : BitVec Format.binary64.numBits} {sign : Sign} {m : Nat} {e : Int}
    {hm : 0 < m} (h : UnpackedFloat.unpack Format.binary64 b = .finite sign m e hm) :
    m < 2 ^ 53 := by
  unfold UnpackedFloat.unpack at h
  dsimp only at h
  split at h
  · split at h <;> cases h
  · split at h
    · split at h
      · cases h
      · cases h
        exact Nat.lt_of_lt_of_le (BitVec.isLt _) (by decide)
    · cases h
      exact Nat.lt_of_lt_of_le (BitVec.isLt _) (by decide)

theorem within_unpack {b : BitVec Format.binary64.numBits} {top : Int}
    (hb : (unpackExponent b).toNat < 2047) (htop : (unpackExponent b).toNat - 1075 ≤ top)
    (hlo : -1074 ≤ top) : Within top (UnpackedFloat.unpack Format.binary64 b) := by
  have hbias : (Format.binary64.exponentBias : Int) +
      Format.binary64.mantissaBitsWithoutImplicit = 1075 := by decide
  unfold UnpackedFloat.unpack
  dsimp only
  split
  next h =>
    rw [h] at hb
    exact absurd hb (by decide)
  next =>
    split
    next h =>
      split
      · trivial
      · show _ ≤ _
        rw [h, hbias]
        exact hlo
    next =>
      show _ ≤ _
      rw [hbias]
      exact htop

/-- Packing keeps a double finite. -/
theorem within_unpack_pack {f : UnpackedFloat} {top : Int} (h : Within top f) (hlo : -1074 ≤ top)
    (hhi : top < 972) : Within top (Float.Model.pack f).unpack := by
  show Within top (UnpackedFloat.unpack Format.binary64 (UnpackedFloat.pack Format.binary64 f))
  suffices hb : (unpackExponent (UnpackedFloat.pack Format.binary64 f)).toNat < 2047 ∧
      (unpackExponent (UnpackedFloat.pack Format.binary64 f)).toNat - 1075 ≤
        top from within_unpack hb.1 hb.2 hlo
  cases f with
  | infinity | notANumber => exact h.elim
  | zero sign =>
    rw [UnpackedFloat.pack, packedZero, unpackExponent_packComponents]
    exact ⟨by decide, by simp; omega⟩
  | finite sign m e hm =>
    have he : e ≤ top := h
    have hbias : (Format.binary64.exponentBias : Int) = 1023 := by decide
    unfold UnpackedFloat.pack
    dsimp only
    rw [hbias]
    split
    next hinf => omega
    next =>
      split
      · rw [unpackExponent_packComponents, BitVec.toNat_ofNat]
        rw [Nat.mod_eq_of_lt (by omega)]
        omega
      · rw [unpackExponent_packComponents]
        exact ⟨by decide, by simp; omega⟩

/-! ## Conversion -/

/-- The double is zero or finite, with an exponent up to a bound. -/
def Bounded (top : Int) (x : Float) : Prop := Within top x.toModel.unpack

theorem Bounded.isInf_eq_false {top : Int} {x : Float} (h : Bounded top x) : x.isInf = false := by
  show x.toModel.unpack.isInf = false
  unfold Bounded at h
  cases hx : x.toModel.unpack with
  | infinity sign =>
    rw [hx] at h
    exact h.elim
  | _ => rfl

theorem Within.bounded {f : UnpackedFloat} {top : Int} (h : Within top f) (hlo : -1074 ≤ top)
    (hhi : top < 972) :
    Bounded top (.ofModel (.pack f)) := within_unpack_pack h hlo hhi

/-- A product has the exponents of its factors and what rounding adds. -/
theorem Bounded.mul {a b top : Int} {x y : Float} (hx : Bounded a x) (hy : Bounded b y)
    (htop : a + b + 213 ≤ top) (hlo : -967 ≤ top) (hhi : top < 972) : Bounded top (x * y) := by
  refine Within.bounded ?_ (by omega) hhi
  unfold Bounded at hx hy
  cases hfx : x.toModel.unpack with
  | infinity | notANumber =>
    rw [hfx] at hx
    exact hx.elim
  | zero sign =>
    cases hfy : y.toModel.unpack with
    | infinity | notANumber =>
      rw [hfy] at hy
      exact hy.elim
    | zero | finite => trivial
  | finite sign m e hm =>
    rw [hfx] at hx
    cases hfy : y.toModel.unpack with
    | infinity | notANumber =>
      rw [hfy] at hy
      exact hy.elim
    | zero => trivial
    | finite sign' m' e' hm' =>
      rw [hfy] at hy
      have hx : e ≤ a := hx
      have hy : e' ≤ b := hy
      have hmul : m * m' < 2 ^ 106 :=
        calc
          m * m' < 2 ^ 53 * 2 ^ 53 :=
            Nat.mul_lt_mul'' (mantissa_unpack_lt hfx) (mantissa_unpack_lt hfy)
          _ = 2 ^ 106 := by decide
      exact within_roundWithAccuracy .exact _ hmul (by omega) (by omega)

theorem bounded_toFloat (n : UInt64) : Bounded 233 n.toFloat := by
  refine Within.bounded ?_ (by decide) (by decide)
  show Within 233 (UnpackedFloat.normalize Format.binary64 (n.toNat : Int) 0 .positive)
  have hn : n.toNat < 2 ^ 64 := n.toNat_lt
  unfold UnpackedFloat.normalize
  split
  next h =>
    have := Int.compare_eq_lt.mp h
    omega
  next => trivial
  next h =>
    unfold UnpackedFloat.round decreaseExponent
    dsimp only
    rw [Int.toNat_natCast, targetExponent_eq, totalExponent]
    have hshift : (0 - max ((n.toNat.log2 : Int) + 1 + 0 - 53) (-1074)).toNat ≤ 52 := by omega
    generalize (0 - max ((n.toNat.log2 : Int) + 1 + 0 - 53) (-1074)).toNat = shift at *
    have hm : n.toNat <<< shift < 2 ^ 116 := by
      rw [Nat.shiftLeft_eq]
      calc n.toNat * 2 ^ shift < 2 ^ 64 * 2 ^ 52 :=
            Nat.mul_lt_mul_of_lt_of_le hn (Nat.pow_le_pow_right (by decide) hshift) (by decide)
        _ = 2 ^ 116 := by decide
    exact within_roundWithAccuracy .exact _ hm (by omega) (by decide)

/-- Numbers below `2 ^ 53` are converted as words and multiplied by one; greater ones are rounded
from all their digits. -/
theorem bounded_ofScientific {n : Nat} (hn : n ≤ 2 ^ 63) :
    Bounded 500 (Float.ofScientific n false 0) := by
  unfold Float.ofScientific
  split
  · have hone : Bounded 0 (Float.ofBits 0x3FF0000000000000) := by
      have h : (Float.ofBits 0x3FF0000000000000).toModel.unpack =
          .finite .positive (2 ^ 52) (-52) (by decide) := rfl
      rw [Bounded, h]
      show (-52 : Int) ≤ 0
      decide
    exact (bounded_toFloat _).mul hone (by decide) (by decide) (by decide)
  · refine Within.bounded ?_ (by decide) (by decide)
    show Within 500 (UnpackedFloat.ofScientific Format.binary64 n 0)
    unfold UnpackedFloat.ofScientific
    split
    · trivial
    · have hbits : (0 : Int) < 2 ^ Format.binary64.exponentBits := by decide
      rw [if_neg (by decide), if_neg (by omega), if_pos (by decide), UnpackedFloat.mul]
      have hm : n <<< Format.binary64.mantissaBits * 10 ^ (0 : Int).toNat < 2 ^ 117 := by
        rw [Nat.shiftLeft_eq, show Format.binary64.mantissaBits = 53 from rfl,
          show (0 : Int).toNat = 0 from rfl]
        omega
      generalize n <<< Format.binary64.mantissaBits * 10 ^ (0 : Int).toNat = m at hm ⊢
      exact within_roundWithAccuracy .exact _ hm (by decide) (by decide)

theorem natAbs_le_of_inRange {n : Int} (h : Datum.inRange n = true) : n.natAbs ≤ 2 ^ 63 := by
  rw [Datum.inRange, Datum.minInt, Datum.maxInt, Bool.and_eq_true, decide_eq_true_eq,
    decide_eq_true_eq] at h
  omega

theorem realOfInt_of_inRange {n : Int} (h : Datum.inRange n = true) : ∃ x, realOfInt n = .ok x := by
  unfold realOfInt
  dsimp only
  rw [(bounded_ofScientific (natAbs_le_of_inRange h)).isInf_eq_false]
  exact ⟨_, rfl⟩

end Arithmetic

end DynLisp
