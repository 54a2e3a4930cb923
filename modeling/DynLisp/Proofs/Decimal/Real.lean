import Mathlib
import DynLisp.Decimal.Real
import DynLisp.Proofs.Decimal.Shortest
import DynLisp.Proofs.Token.Number

/-!
# The text of a real tells which real it is

What is written for a finite double, read as a decimal number, is the shortest decimal of the double
(`Scientific.reading_write`), in whichever layout it is written.  So the text determines the
decimal, the decimal determines the double by the intervals of `Decimal.Binary.Covers`, and two
reals have the same text only if they have the same bits (`realText_injective`).  All nans share one
text.

The text is never that of an integer (`realText_mark`) and has none of the characters that end a
word (`realText_chars`).
-/

namespace DynLisp

namespace Decimal

/-! ## Reading decimal text -/

/-- The number that decimal digits are. -/
def natural (digits : List Char) : Nat := Nat.ofDigitChars 10 digits 0

/-- The parts of a text before and after the first occurrence of a character. -/
def cut (mark : Char) (text : List Char) : List Char × List Char :=
  (text.takeWhile (· ≠ mark), (text.dropWhile (· ≠ mark)).tail)

/-- The exponent in a text: a sign and digits. -/
def exponentOf : List Char → Int
  | [] => 0
  | sign :: digits => if sign = '-' then -natural digits else natural digits

/-- The number that a text without a sign stands for: digits with or without a point, and an
exponent or none. -/
def reading (text : List Char) : ℚ :=
  let (mantissa, exponent) := cut 'e' text
  let (whole, fraction) := cut '.' mantissa
  natural (whole ++ fraction) * 10 ^ (exponentOf exponent - fraction.length)

/-- Nothing but digits. -/
def AllDigits (cs : List Char) : Prop := ∀ c ∈ cs, Text.isAsciiDigit c = true

theorem AllDigits.not_mem {cs : List Char} (h : AllDigits cs) {c : Char}
    (hc : Text.isAsciiDigit c = false) : c ∉ cs :=
  fun hmem => Bool.false_ne_true (hc ▸ h c hmem)

theorem AllDigits.append {cs ds : List Char} (hc : AllDigits cs) (hd : AllDigits ds) :
    AllDigits (cs ++ ds) :=
  List.forall_mem_append.mpr ⟨hc, hd⟩

theorem allDigits_zeros (k : Nat) : AllDigits (List.replicate k '0') := by
  intro c hc
  rw [List.eq_of_mem_replicate hc]
  rfl

theorem allDigits_toDigits (n : Nat) : AllDigits (Nat.toDigits 10 n) :=
  (Number.numeral_toDigits n).isAsciiDigit

section Reading

theorem cut_of_not_mem {mark : Char} {cs : List Char} (h : mark ∉ cs) : cut mark cs = (cs, []) := by
  have hall : ∀ c ∈ cs, decide (c ≠ mark) = true :=
    fun c hc => decide_eq_true fun hcm => h (hcm ▸ hc)
  rw [cut, List.takeWhile_eq_self_iff.mpr hall, List.dropWhile_eq_nil_iff.mpr hall, List.tail_nil]

theorem cut_append {mark : Char} {cs : List Char} (h : mark ∉ cs) (rest : List Char) :
    cut mark (cs ++ mark :: rest) = (cs, rest) := by
  have hall : ∀ c ∈ cs, decide (c ≠ mark) = true :=
    fun c hc => decide_eq_true fun hcm => h (hcm ▸ hc)
  rw [cut, List.takeWhile_append_of_pos hall, List.dropWhile_append_of_pos hall]
  simp

variable {whole fraction : List Char}

theorem reading_whole (hw : AllDigits whole) : reading whole = natural whole := by
  rw [reading, cut_of_not_mem (hw.not_mem rfl)]
  dsimp only
  rw [cut_of_not_mem (hw.not_mem rfl)]
  simp [exponentOf]

theorem reading_point (hw : AllDigits whole) (hf : AllDigits fraction) :
    reading (whole ++ '.' :: fraction) =
      natural (whole ++ fraction) * 10 ^ (-fraction.length : Int) := by
  have he : 'e' ∉ whole ++ '.' :: fraction := by
    simp [hw.not_mem (c := 'e') rfl, hf.not_mem (c := 'e') rfl]
  rw [reading, cut_of_not_mem he]
  dsimp only
  rw [cut_append (hw.not_mem rfl)]
  simp [exponentOf]

theorem reading_exponent {lead : List Char} (he : 'e' ∉ lead) (exponent : List Char) :
    reading (lead ++ 'e' :: exponent) = reading lead * 10 ^ exponentOf exponent := by
  rw [reading, reading, cut_append he, cut_of_not_mem he]
  dsimp only
  rw [exponentOf, mul_assoc, ← zpow_add₀ (by norm_num)]
  congr 2
  ring

end Reading

/-! ## Writing decimal text -/

theorem natural_append_zeros (digits : List Char) (k : Nat) :
    natural (digits ++ List.replicate k '0') = natural digits * 10 ^ k := by
  rw [natural, natural, Nat.ofDigitChars_append, Nat.ofDigitChars_replicate_zero, mul_comm]

theorem natural_zeros_append (k : Nat) (digits : List Char) :
    natural (List.replicate k '0' ++ digits) = natural digits := by
  rw [natural, natural, Nat.ofDigitChars_append, Nat.ofDigitChars_replicate_zero, mul_zero]

theorem natural_toDigits (n : Nat) : natural (Nat.toDigits 10 n) = n :=
  Nat.ofDigitChars_ten_toDigits

namespace Scientific

variable (d : Scientific)

/-- Only zeros at the end are left out. -/
theorem exists_zeros : ∃ k, Nat.toDigits 10 d.digits = d.significant.1 ++ List.replicate k '0' := by
  rw [significant]
  dsimp only
  generalize Nat.toDigits 10 d.digits = all
  have hzeros : ∀ c ∈ all.reverse.takeWhile (· == '0'), c = '0' := by
    intro c hc
    simpa using List.mem_takeWhile_imp hc
  refine ⟨(all.reverse.takeWhile (· == '0')).length, ?_⟩
  rw [← List.reverse_replicate, ← List.eq_replicate_of_mem hzeros, ← List.reverse_append,
    List.takeWhile_append_dropWhile, List.reverse_reverse]

theorem allDigits_significant : AllDigits d.significant.1 := by
  obtain ⟨k, hk⟩ := d.exists_zeros
  exact fun c hc => allDigits_toDigits d.digits c (hk ▸ List.mem_append_left _ hc)

theorem significant_ne_nil (h : 0 < d.digits) : d.significant.1 ≠ [] := by
  intro hnil
  obtain ⟨k, hk⟩ := d.exists_zeros
  have hdigits := natural_toDigits d.digits
  rw [hk, natural_append_zeros, hnil, natural, Nat.ofDigitChars_nil] at hdigits
  omega

theorem value_eq_significant :
    d.value = natural d.significant.1 * 10 ^ (d.significant.2 + 1 - d.significant.1.length) := by
  obtain ⟨k, hk⟩ := d.exists_zeros
  have hdigits : (d.digits : ℚ) = natural d.significant.1 * 10 ^ k := by
    rw [← natural_toDigits d.digits, hk, natural_append_zeros]
    push_cast
    rfl
  have hpower : d.significant.2 + 1 - d.significant.1.length = k + d.exponent := by
    have hlength := congrArg List.length hk
    rw [List.length_append, List.length_replicate] at hlength
    have : d.significant.2 = d.exponent + (Nat.toDigits 10 d.digits).length - 1 := rfl
    omega
  rw [hpower, value, hdigits, zpow_add₀ (by norm_num), zpow_natCast, mul_assoc]

end Scientific

theorem exponentOf_power (width : Nat) (power : Int) :
    exponentOf ((if power < 0 then '-' else '+') ::
      (List.replicate width '0' ++ Nat.toDigits 10 power.natAbs)) = power := by
  rw [exponentOf, natural_zeros_append, natural_toDigits]
  split_ifs <;> first | omega | simp_all

section Layouts

variable {digits : List Char} (h : AllDigits digits) (power : Int)

include h

theorem reading_positional :
    reading (positional digits power) = natural digits * 10 ^ (power + 1 - digits.length) := by
  unfold positional
  split
  next hneg =>
    generalize hk : (-power - 1).toNat = k
    have hzero : AllDigits ['0'] := allDigits_zeros 1
    have htext : '0' :: '.' :: List.replicate k '0' ++ digits =
        ['0'] ++ '.' :: (List.replicate k '0' ++ digits) := rfl
    have hdigits :
        ['0'] ++ (List.replicate k '0' ++ digits) = List.replicate (k + 1) '0' ++ digits := rfl
    rw [htext, reading_point hzero ((allDigits_zeros k).append h), hdigits, natural_zeros_append,
      List.length_append, List.length_replicate]
    congr 2
    omega
  next hpos =>
    dsimp only
    generalize hk : power.toNat + 1 + 1 - digits.length = k
    have hpadded : AllDigits (digits ++ List.replicate k '0') := h.append (allDigits_zeros k)
    rw [reading_point (fun c hc => hpadded c (List.mem_of_mem_take hc))
      (fun c hc => hpadded c (List.mem_of_mem_drop hc)), List.take_append_drop,
      natural_append_zeros, List.length_drop, List.length_append, List.length_replicate]
    push_cast
    rw [mul_assoc, ← zpow_natCast, ← zpow_add₀ (by norm_num)]
    congr 2
    omega

/-- One digit stands before the point, if there is a point. -/
theorem reading_exponential (width : Nat) (hne : digits ≠ []) :
    reading (exponential width digits power) =
      natural digits * 10 ^ (power + 1 - digits.length) := by
  have hlead {lead : List Char} (he : 'e' ∉ lead)
      (hl : reading lead = natural digits * 10 ^ (1 - digits.length : Int)) :
      reading (lead ++ 'e' :: (if power < 0 then '-' else '+') ::
        (List.replicate (width - (Nat.toDigits 10 power.natAbs).length) '0' ++
          Nat.toDigits 10 power.natAbs)) =
      natural digits * 10 ^ (power + 1 - digits.length) := by
    rw [reading_exponent he, hl, exponentOf_power, mul_assoc, ← zpow_add₀ (by norm_num)]
    congr 2
    ring
  unfold exponential
  dsimp only
  rw [List.append_assoc, List.cons_append, List.cons_append]
  split
  next => exact absurd rfl hne
  next d =>
    refine hlead (h.not_mem rfl) ?_
    rw [reading_whole h]
    simp
  next d more _ =>
    obtain ⟨hd, hmore⟩ := List.forall_mem_cons.mp h
    have hone : AllDigits [d] := List.forall_mem_singleton.mpr hd
    have hreading :
        reading (d :: '.' :: more) = natural (d :: more) * 10 ^ (1 - (d :: more).length : Int) := by
      have htext : d :: '.' :: more = [d] ++ '.' :: more := rfl
      rw [htext, reading_point hone hmore]
      simp
    refine hlead ?_ hreading
    have := h.not_mem (c := 'e') rfl
    simp_all

end Layouts

theorem Scientific.reading_write (l : Layout) {d : Scientific} (hd : 0 < d.digits) :
    reading (d.write l) = d.value := by
  rw [value_eq_significant, write]
  dsimp only
  split
  · exact reading_positional d.allDigits_significant d.significant.2
  · exact reading_exponential d.allDigits_significant d.significant.2 l.exponentWidth
      (d.significant_ne_nil hd)

/-! ## The form of decimal text -/

/-- Digits and points. -/
def IsMantissa (cs : List Char) : Prop := ∀ c ∈ cs, Text.isAsciiDigit c = true ∨ c = '.'

theorem AllDigits.isMantissa {cs : List Char} (h : AllDigits cs) : IsMantissa cs :=
  fun c hc => .inl (h c hc)

/-- How a real is written without its sign: with a point or with an exponent. -/
inductive IsUnsigned : List Char → Prop where
  | point {text : List Char} (h : IsMantissa text) (hpoint : '.' ∈ text) : IsUnsigned text
  | exponent {lead digits : List Char} {sign : Char} (h : IsMantissa lead)
      (hsign : sign = '-' ∨ sign = '+')
    (hdigits : AllDigits digits) : IsUnsigned (lead ++ 'e' :: sign :: digits)

namespace IsUnsigned

variable {text : List Char}

theorem chars (h : IsUnsigned text) :
    ∀ c ∈ text, Text.isAsciiDigit c = true ∨ c ∈ ['.', 'e', '+', '-'] := by
  intro c hc
  cases h with
  | point h _ =>
    have := h c hc
    grind
  | exponent h hsign hdigits =>
    have := h c
    have := hdigits c
    grind

theorem exists_mark (h : IsUnsigned text) : ∃ c ∈ text, c = '.' ∨ c = 'e' := by
  cases h with
  | point _ hpoint => exact ⟨'.', hpoint, .inl rfl⟩
  | exponent => exact ⟨'e', by simp, .inr rfl⟩

theorem head (h : IsUnsigned text) :
    ∀ c ∈ text.head?, Text.isAsciiDigit c = true ∨ c = '.' ∨ c = 'e' := by
  intro c hc
  cases h with
  | point h _ => exact (h c (List.mem_of_mem_head? hc)).imp_right .inl
  | @exponent lead digits sign h =>
    cases lead with
    | nil =>
      cases hc
      exact .inr (.inr rfl)
    | cons d lead =>
      cases hc
      exact (h _ List.mem_cons_self).imp_right .inl

end IsUnsigned

theorem isUnsigned_point {whole fraction : List Char} (hw : AllDigits whole)
    (hf : AllDigits fraction) : IsUnsigned (whole ++ '.' :: fraction) :=
  .point (List.forall_mem_append.mpr
    ⟨hw.isMantissa, List.forall_mem_cons.mpr ⟨.inr rfl, hf.isMantissa⟩⟩) (by simp)

theorem isUnsigned_positional {digits : List Char} (h : AllDigits digits) (power : Int) :
    IsUnsigned (positional digits power) := by
  unfold positional
  split
  · exact isUnsigned_point (allDigits_zeros 1) ((allDigits_zeros _).append h)
  · have hpadded (k : Nat) : AllDigits (digits ++ List.replicate k '0') :=
      h.append (allDigits_zeros k)
    refine isUnsigned_point (fun c hc => ?_) fun c hc => ?_
    · exact hpadded _ c (List.mem_of_mem_take hc)
    · exact hpadded _ c (List.mem_of_mem_drop hc)

theorem isUnsigned_exponential (width : Nat) {digits : List Char} (h : AllDigits digits)
    (power : Int) : IsUnsigned (exponential width digits power) := by
  unfold exponential
  dsimp only
  rw [List.append_assoc, List.cons_append, List.cons_append]
  refine .exponent ?_ ?_ ((allDigits_zeros _).append (allDigits_toDigits _))
  · split
    · exact fun c hc => absurd hc List.not_mem_nil
    · exact h.isMantissa
    · obtain ⟨hd, hmore⟩ := List.forall_mem_cons.mp h.isMantissa
      exact List.forall_mem_cons.mpr ⟨hd, List.forall_mem_cons.mpr ⟨.inr rfl, hmore⟩⟩
  · split
    · exact .inl rfl
    · exact .inr rfl

theorem Scientific.isUnsigned_write (l : Layout) (d : Scientific) : IsUnsigned (d.write l) := by
  rw [write]
  dsimp only
  split
  · exact isUnsigned_positional d.allDigits_significant _
  · exact isUnsigned_exponential _ d.allDigits_significant _

/-! ## Bits -/

namespace Shape

/-- The bits of a double that is no nan. -/
def bits : Shape → Nat
  | .nan => 0
  | .infinite negative => negative.toNat * 2 ^ 63 + 2047 * 2 ^ 52
  | .zero negative => negative.toNat * 2 ^ 63
  | .finite negative b =>
    negative.toNat * 2 ^ 63 +
      if b.mantissa < 2 ^ 52 then b.mantissa
      else (b.exponent + 1075).toNat * 2 ^ 52 + (b.mantissa - 2 ^ 52)

theorem bits_ofFloat {x : Float} (h : ofFloat x ≠ .nan) : (ofFloat x).bits = x.toBits.toNat := by
  have hlt : x.toBits.toNat < 2 ^ 64 := x.toBits.toNat_lt
  have hsign : (decide (2 ^ 63 ≤ x.toBits.toNat)).toNat = x.toBits.toNat / 2 ^ 63 := by
    by_cases hneg : 2 ^ 63 ≤ x.toBits.toNat
    · rw [decide_eq_true hneg, Bool.toNat_true]
      omega
    · rw [decide_eq_false hneg, Bool.toNat_false]
      omega
  unfold ofFloat at h ⊢
  simp only [Nat.pow_eq] at h ⊢
  split at h
  next hpower =>
    split at h
    next hfraction =>
      rw [if_pos hpower, if_pos hfraction, bits, hsign]
      omega
    next => exact absurd rfl h
  next hpower =>
    rw [if_neg hpower]
    split
    next hzero =>
      split
      next hfraction =>
        rw [bits, hsign]
        omega
      next hfraction =>
        rw [bits, hsign]
        dsimp only
        rw [if_pos (Nat.mod_lt _ (by decide))]
        omega
    next hzero =>
      rw [bits, hsign]
      dsimp only
      rw [if_neg (by omega)]
      omega

theorem canonical_of_ofFloat {x : Float} {negative : Bool} {b : Binary}
    (h : ofFloat x = .finite negative b) : b.Canonical := by
  have hlt : x.toBits.toNat < 2 ^ 64 := x.toBits.toNat_lt
  unfold ofFloat at h
  simp only [Nat.pow_eq] at h
  split at h
  · split at h <;> cases h
  next hpower =>
    split at h
    next hzero =>
      split at h
      · cases h
      next hfraction =>
        cases h
        exact ⟨Nat.pos_of_ne_zero hfraction, by dsimp only; omega, le_rfl, by simp, by simp⟩
    next hzero =>
      cases h
      refine ⟨by dsimp only; omega, by dsimp only; omega, by dsimp only; omega,
        fun _ => by dsimp only; omega, ?_⟩
      dsimp only
      rw [Bool.and_eq_true, decide_eq_true_eq, decide_eq_true_eq]
      omega

open Float.Model UnpackedFloat

theorem toNat_unpackExponent (b : BitVec Format.binary64.numBits) :
    (unpackExponent b).toNat = b.toNat / 2 ^ 52 % 2048 := by
  rw [unpackExponent, BitVec.toNat_cast, BitVec.extractLsb_toNat, Nat.shiftRight_eq_div_pow]
  rfl

theorem toNat_unpackMantissa (b : BitVec Format.binary64.numBits) :
    (unpackMantissa b).toNat = b.toNat % 2 ^ 52 := by
  rw [unpackMantissa, BitVec.toNat_cast, BitVec.extractLsb_toNat, Nat.shiftRight_zero]
  rfl

theorem isNaN_unpack {b : BitVec Format.binary64.numBits} (hpower : b.toNat / 2 ^ 52 % 2048 = 2047)
    (hfraction : b.toNat % 2 ^ 52 ≠ 0) : (UnpackedFloat.unpack Format.binary64 b).isNaN = true := by
  have hexponent : unpackExponent b = -1#_ :=
    BitVec.eq_of_toNat_eq ((toNat_unpackExponent b).trans hpower)
  have hmantissa : unpackMantissa b ≠ 0#_ := by
    intro hzero
    rw [← toNat_unpackMantissa, hzero] at hfraction
    exact hfraction rfl
  rw [UnpackedFloat.unpack]
  dsimp only
  rw [if_pos hexponent, if_neg hmantissa]
  rfl

theorem isNaN_of_ofFloat {x : Float} (h : ofFloat x = .nan) : x.isNaN = true := by
  unfold ofFloat at h
  simp only [Nat.pow_eq] at h
  split at h
  next hpower =>
    split at h
    · cases h
    next hfraction =>
      exact isNaN_unpack (b := x.toBits.toBitVec) hpower hfraction
  next =>
    split at h
    · split at h <;> cases h
    · cases h

theorem ofFloat_injective {x y : Float} (hx : x.isNaN = false) (hy : y.isNaN = false)
    (h : ofFloat x = ofFloat y) : x = y := by
  have hx' : ofFloat x ≠ .nan := fun hnan => Bool.false_ne_true (hx ▸ isNaN_of_ofFloat hnan)
  have hy' : ofFloat y ≠ .nan := fun hnan => Bool.false_ne_true (hy ▸ isNaN_of_ofFloat hnan)
  have hbits : x.toBits.toNat = y.toBits.toNat := by rw [← bits_ofFloat hx', ← bits_ofFloat hy', h]
  exact Float.toBits_inj.mp (UInt64.toNat_inj.mp hbits)

end Shape

/-! ## Texts of reals -/

namespace Shape

/-- Does the text start with a sign? -/
def isNegative : Shape → Bool
  | .nan => false
  | .infinite negative | .zero negative | .finite negative _ => negative

/-- The text without the sign. -/
def unsigned : Shape → List Char
  | .nan => "nan".toList
  | .infinite _ => "inf".toList
  | .zero _ => "0.0".toList
  | .finite _ b => b.shortest.write layout

theorem toList_realText (x : Float) :
    (realText x).toList =
      (if (ofFloat x).isNegative then ['-'] else []) ++ (ofFloat x).unsigned := by
  unfold realText
  cases ofFloat x with
  | nan => rfl
  | infinite negative | zero negative => cases negative <;> rfl
  | finite negative b => cases negative <;> simp [isNegative, unsigned]

theorem unsigned_cases (s : Shape) :
    s.unsigned = "nan".toList ∨ s.unsigned = "inf".toList ∨ IsUnsigned s.unsigned := by
  cases s with
  | nan => exact .inl rfl
  | infinite => exact .inr (.inl rfl)
  | zero => exact .inr (.inr (isUnsigned_point (allDigits_zeros 1) (allDigits_zeros 1)))
  | finite _ b => exact .inr (.inr (b.shortest.isUnsigned_write layout))

theorem unsigned_ne_cons_minus (s : Shape) (cs : List Char) : s.unsigned ≠ '-' :: cs := by
  intro h
  rcases s.unsigned_cases with hs | hs | hs
  · exact absurd (h.symm.trans hs) (by simp)
  · exact absurd (h.symm.trans hs) (by simp)
  · rw [h] at hs
    exact absurd (hs.head '-' rfl) (by decide)

theorem isNegative_eq_of_text {s t : Shape}
    (h : (if s.isNegative then ['-'] else []) ++ s.unsigned =
    (if t.isNegative then ['-'] else []) ++ t.unsigned) :
    s.isNegative = t.isNegative ∧ s.unsigned = t.unsigned := by
  cases hs : s.isNegative <;> cases ht : t.isNegative <;> simp only [hs, ht] at h
  · exact ⟨rfl, h⟩
  · exact absurd h (s.unsigned_ne_cons_minus _)
  · exact absurd h.symm (t.unsigned_ne_cons_minus _)
  · exact ⟨rfl, List.cons.inj h |>.2⟩

end Shape

/-- The characters of reals. -/
def realAlphabet : List Char := "0123456789.e+-infa".toList

theorem realText_chars (x : Float) : ∀ c ∈ (realText x).toList, c ∈ realAlphabet := by
  have hall {cs : List Char} (h : cs.all (· ∈ realAlphabet) = true) : ∀ c ∈ cs, c ∈ realAlphabet :=
    fun c hc => of_decide_eq_true (List.all_eq_true.mp h c hc)
  have hunsigned : ∀ c ∈ (Shape.ofFloat x).unsigned, c ∈ realAlphabet := by
    rcases (Shape.ofFloat x).unsigned_cases with h | h | h
    · rw [h]
      exact hall (by decide)
    · rw [h]
      exact hall (by decide)
    · intro c hc
      rcases h.chars c hc with hc | hc
      · exact hall (by decide) c (Number.mem_of_isAsciiDigit hc)
      · exact hall (by decide) c hc
  rw [Shape.toList_realText]
  refine List.forall_mem_append.mpr ⟨?_, hunsigned⟩
  split <;> exact hall (by decide)

/-- A real is never written like an integer. -/
theorem realText_mark (x : Float) :
    ∃ c ∈ (realText x).toList, Text.isAsciiDigit c = false ∧ c ≠ '-' := by
  have hunsigned : ∃ c ∈ (Shape.ofFloat x).unsigned, Text.isAsciiDigit c = false ∧ c ≠ '-' := by
    rcases (Shape.ofFloat x).unsigned_cases with h | h | h
    · rw [h]
      exact ⟨'n', by decide⟩
    · rw [h]
      exact ⟨'i', by decide⟩
    · obtain ⟨c, hc, rfl | rfl⟩ := h.exists_mark
      · exact ⟨'.', hc, by decide⟩
      · exact ⟨'e', hc, by decide⟩
  obtain ⟨c, hc, hmark⟩ := hunsigned
  exact ⟨c, by rw [Shape.toList_realText]; exact List.mem_append_right _ hc, hmark⟩

namespace Shape

/-- The number that a shape is written as; infinities have none. -/
def magnitude? : Shape → Option ℚ
  | .zero _ => some 0
  | .finite _ b => some b.shortest.value
  | _ => none

/-- A shape that doubles other than nan have. -/
def Canonical : Shape → Prop
  | .nan => False
  | .finite _ b => b.Canonical
  | _ => True

theorem canonical_ofFloat {x : Float} (h : x.isNaN = false) : (ofFloat x).Canonical := by
  cases hs : ofFloat x with
  | nan => exact absurd (h ▸ isNaN_of_ofFloat hs) Bool.false_ne_true
  | infinite | zero => trivial
  | finite => exact canonical_of_ofFloat hs

theorem Canonical.magnitude?_eq {s : Shape} (h : s.Canonical) :
    s.magnitude? = if s.unsigned.head? = some 'i' then none else some (reading s.unsigned) := by
  cases s with
  | nan => exact h.elim
  | infinite => rfl
  | zero =>
    have hreading : reading "0.0".toList = 0 := by
      have hdigits : natural (List.replicate 1 '0' ++ List.replicate 1 '0') = 0 := rfl
      have hpoint := reading_point (allDigits_zeros 1) (allDigits_zeros 1)
      rwa [hdigits, Nat.cast_zero, zero_mul] at hpoint
    rw [magnitude?, unsigned, hreading]
    rfl
  | finite _ b =>
    have hhead : (b.shortest.write layout).head? ≠ some 'i' := by
      intro hi
      exact absurd ((b.shortest.isUnsigned_write layout).head 'i' hi) (by decide)
    rw [magnitude?, unsigned, if_neg hhead,
      Scientific.reading_write layout (Binary.Canonical.digits_shortest_pos h)]

theorem Canonical.eq_of_magnitude? {s t : Shape} (hs : s.Canonical) (ht : t.Canonical)
    (hsign : s.isNegative = t.isNegative) (h : s.magnitude? = t.magnitude?) : s = t := by
  have hpos {b : Binary} (hb : b.Canonical) : 0 < b.shortest.value :=
    mul_pos (by exact_mod_cast hb.digits_shortest_pos) (zpow_pos (by norm_num) _)
  cases s with
  | nan => exact hs.elim
  | infinite m =>
    cases t with
    | infinite n => exact congrArg _ hsign
    | nan => exact ht.elim
    | zero | finite => cases h
  | zero m =>
    cases t with
    | zero n => exact congrArg _ hsign
    | nan => exact ht.elim
    | infinite => cases h
    | finite n c => exact absurd (Option.some.inj h) (hpos ht).ne
  | finite m b =>
    cases t with
    | zero => exact absurd (Option.some.inj h) (hpos hs).ne'
    | nan => exact ht.elim
    | infinite => cases h
    | finite n c =>
      have hcovers := Binary.Canonical.covers_shortest ht
      rw [← Option.some.inj h] at hcovers
      obtain rfl : b = c :=
        Binary.Canonical.eq_of_covers hs ht (Binary.Canonical.covers_shortest hs) hcovers
      exact congrArg (finite · b) hsign

end Shape

/-- Two reals of which neither is a nan are written differently unless they are the same double. -/
theorem realText_injective {x y : Float} (hx : x.isNaN = false) (hy : y.isNaN = false)
    (h : realText x = realText y) : x = y := by
  have htext := congrArg String.toList h
  rw [Shape.toList_realText, Shape.toList_realText] at htext
  obtain ⟨hsign, hunsigned⟩ := Shape.isNegative_eq_of_text htext
  have hx' := Shape.canonical_ofFloat hx
  have hy' := Shape.canonical_ofFloat hy
  refine Shape.ofFloat_injective hx hy (hx'.eq_of_magnitude? hy' hsign ?_)
  rw [hx'.magnitude?_eq, hy'.magnitude?_eq, hunsigned]

end Decimal

end DynLisp
