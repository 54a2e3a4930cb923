import DynLisp.Proofs.Datum.RoundTrip
import DynLisp.Proofs.Token.Notation

/-!
# Integers as hexadecimal patterns

The builtin `hex` writes the 64-bit pattern of an integer.  Every integer of the language has a
pattern of its own: read as a two's complement number, the pattern is the integer again.

A pattern with the mark for hexadecimal in front is a number literal.  It stands for the pattern
itself and not for the integer that was written, so a negative integer comes back as a literal that
is out of range.
-/

namespace DynLisp

namespace Number

/-- At most sixteen capital hexadecimal digits, with no zero in front, and their value. -/
structure IsPattern (run : List Char) (pattern : Nat) : Prop where
  numeral : Numeral 16 run pattern
  capitals : ∀ c ∈ run, c ∈ upperDigits
  length_pos : 1 ≤ run.length
  length_le : run.length ≤ 16
  no_zero : run.head? = some '0' → run = ['0']

/-! ## Digits of a pattern -/

theorem IsDigit.unique {base d e : Nat} {c : Char} (hd : IsDigit base c d) (he : IsDigit base c e) :
    d = e := by
  rw [← digit?_eq_some_iff] at hd he
  exact Option.some.inj (hd.symm.trans he)

theorem Numeral.unique {base n m : Nat} {run : List Char} (hn : Numeral base run n)
    (hm : Numeral base run m) : n = m := by
  rw [← value?_eq_some_iff] at hn hm
  exact Option.some.inj (hn.symm.trans hm)

theorem Numeral.exists_isDigit {base n : Nat} {run : List Char} (h : Numeral base run n) {c : Char}
    (hc : c ∈ run) : ∃ d, IsDigit base c d := by
  obtain ⟨-, ds, hds, -⟩ := h
  induction hds with
  | nil => cases hc
  | cons hd _ ih =>
    rcases List.mem_cons.mp hc with rfl | hc
    · exact ⟨_, hd⟩
    · exact ih hc

/-- The first digit of a positive number is not zero. -/
theorem toDigits_eq_cons {base : Nat} (h₁ : 1 < base) (h₂ : base ≤ 16) {n : Nat} (hn : 0 < n) :
    ∃ c rest d, Nat.toDigits base n = c :: rest ∧ IsDigit base c d ∧ 0 < d := by
  induction n using Nat.strongRecOn with
  | ind n ih =>
    rw [Nat.toDigits_eq_if h₁]
    split
    next hlt => exact ⟨_, [], n, rfl, isDigit_digitChar hlt h₂, hn⟩
    next hle =>
      have hpos : 0 < n / base := Nat.div_pos (Nat.not_lt.mp hle) (by omega)
      obtain ⟨c, rest, d, hdigits, hc, hd⟩ := ih (n / base) (Nat.div_lt_self hn h₁) hpos
      exact ⟨c, rest ++ [(n % base).digitChar], d, by rw [hdigits, List.cons_append], hc, hd⟩

theorem isPattern_toDigits {pattern : Nat} (h : pattern < 2 ^ 64) :
    IsPattern ((Nat.toDigits 16 pattern).map Char.toUpper) pattern := by
  have hnumeral : Numeral 16 (Nat.toDigits 16 pattern) pattern :=
    numeral_toDigits_of_le (by decide) (by decide) pattern
  refine ⟨hnumeral.toUpper, ?_, ?_, ?_, ?_⟩
  · rw [List.forall_mem_map]
    intro c hc
    obtain ⟨d, hd⟩ := hnumeral.exists_isDigit hc
    exact List.mem_of_getElem? hd.getElem?_upperDigits
  · rw [List.length_map]
    exact Nat.length_toDigits_pos
  · rw [List.length_map]
    exact (Nat.length_toDigits_le_iff (by decide) (by decide)).mpr h
  · intro hzero
    obtain rfl | hpos := Nat.eq_zero_or_pos pattern
    · rfl
    · -- a zero in front would be a first digit of value zero
      obtain ⟨c, rest, d, hdigits, hc, hd⟩ := @toDigits_eq_cons 16 (by decide) (by decide) _ hpos
      rw [hdigits, List.map_cons, List.head?_cons, Option.some.injEq] at hzero
      have hupper := hc.toUpper
      rw [hzero] at hupper
      exact absurd (hupper.unique (isDigit_zero (by decide))) (Nat.ne_of_gt hd)

end Number

namespace Builtin

/-! ## Patterns of integers -/

/-- The pattern of an integer as a number. -/
def pattern (n : Int) : Nat := (n % 2 ^ 64).toNat

theorem pattern_lt (n : Int) : pattern n < 2 ^ 64 := by
  unfold pattern
  omega

theorem natCast_pattern (n : Int) : (pattern n : Int) = n % 2 ^ 64 := by
  unfold pattern
  omega

theorem isPattern_hexText (n : Int) : Number.IsPattern (hexText n).toList (pattern n) := by
  rw [hexText, String.toList_ofList]
  exact Number.isPattern_toDigits (pattern_lt n)

/-- Two's complement undoes the reduction to a pattern. -/
theorem toInt_pattern {n : Int} (lo : -2 ^ 63 ≤ n) (hi : n < 2 ^ 63) :
    (BitVec.ofNat 64 (pattern n)).toInt = n := by
  rw [BitVec.toInt_ofNat', natCast_pattern]
  have hmod : (n % 2 ^ 64).bmod (2 ^ 64) = n.bmod (2 ^ 64) := Int.emod_bmod n (2 ^ 64)
  rw [hmod]
  exact Int.bmod_eq_of_le (by omega) (by omega)

theorem pattern_of_nonneg {n : Int} (h₀ : 0 ≤ n) (hi : n < 2 ^ 63) : (pattern n : Int) = n := by
  rw [natCast_pattern]
  omega

theorem le_pattern_of_neg {n : Int} (lo : -2 ^ 63 ≤ n) (h : n < 0) : 2 ^ 63 ≤ pattern n := by
  have := natCast_pattern n
  omega

theorem hexText_injective {m n : Int} (hm : -2 ^ 63 ≤ m ∧ m < 2 ^ 63)
    (hn : -2 ^ 63 ≤ n ∧ n < 2 ^ 63) (h : hexText m = hexText n) : m = n := by
  have hpattern := (isPattern_hexText m).numeral
  rw [h] at hpattern
  rw [← toInt_pattern hm.1 hm.2, ← toInt_pattern hn.1 hn.2,
    hpattern.unique (isPattern_hexText n).numeral]

/-! ## Reading a pattern -/

theorem toList_marked (n : Int) :
    ("0x" ++ hexText n).toList = '0' :: 'x' :: (hexText n).toList := by
  rw [String.toList_append]
  rfl

theorem spellsInt_hexText (n : Int) : Number.SpellsInt ("0x" ++ hexText n).toList (pattern n) := by
  rw [toList_marked]
  exact .marked rfl (isPattern_hexText n).numeral

theorem not_isLong_hexText (n : Int) : ¬ Number.IsLong ("0x" ++ hexText n).toList := by
  rw [toList_marked]
  exact Number.not_isLong_of_mark rfl _

theorem token_hexText_of_nonneg {n : Int} (h₀ : 0 ≤ n) (hi : n < 2 ^ 63) (line : Int) :
    Number.token line ("0x" ++ hexText n).toList = .ok ⟨.int, .int n, line⟩ := by
  have hvalue := pattern_of_nonneg h₀ hi
  have hlt : pattern n < 2 ^ 63 := by omega
  have htoken := Number.token_of_legal line ⟨.int (spellsInt_hexText n) hlt, not_isLong_hexText n⟩
  rwa [hvalue] at htoken

theorem token_hexText_of_neg {n : Int} (lo : -2 ^ 63 ≤ n) (h : n < 0) (line : Int) :
    Number.token line ("0x" ++ hexText n).toList =
      .error (.lex line (.outOfRange ("0x" ++ hexText n))) := by
  have hcause := Number.Malformed.outOfRange (spellsInt_hexText n) (le_pattern_of_neg lo h)
  rw [String.ofList_toList] at hcause
  exact Number.token_of_malformed line hcause (not_isLong_hexText n)

/-! ## Calls in a program -/

/-- The head of the call is looked up and the operand stands for itself, each one level down. -/
theorem form_hex (hosted : List HostProcedure) {room : Nat} (hroom : 0 < room) {w : World}
    (hw : 0 < w.env.levelsLeft)
    (hname : w.env.lookup hex.name = .ok (.native hex.name (.builtin hex))) (place : Nat)
    (n : Int) :
    Eval.form (Session.nativesOf hosted) (evaluate (Session.nativesOf hosted) room)
      (.call place [.symbol hex.name, .int n]) w = .ok (.str (hexText n)) w := by
  have hhead : evaluate (Session.nativesOf hosted) room (.symbol hex.name) w =
      .ok (.native hex.name (.builtin hex)) w := by
    refine evaluate_of_form hroom hw fun _ _ => ?_
    change Eval.ofExcept (w.env.lookup hex.name) _ = _
    rw [hname]
    rfl
  have hoperand : evaluate (Session.nativesOf hosted) room (.int n) w = .ok (.int n) w :=
    evaluate_of_form hroom hw fun _ _ => rfl
  have hspecial : (Datum.symbol hex.name).special? = none := by decide
  rw [Eval.form, Eval.call, hspecial]
  dsimp only
  rw [Eval.bind_apply, hhead]
  dsimp only
  rw [Eval.apply, Eval.applyNative, Eval.bind_apply, Eval.each, Eval.bind_apply, hoperand]
  rfl

theorem evalForm_hex (hosted : List HostProcedure) {w : World} (hw : 1 < w.env.levelsLeft)
    (hname : w.env.lookup hex.name = .ok (.native hex.name (.builtin hex))) (place : Nat)
    (n : Int) :
    evalForm (Session.nativesOf hosted) (.call place [.symbol hex.name, .int n]) w =
      .ok (.str (hexText n)) w := by
  refine evaluate_of_form (Environment.lt_room hw) hw fun inner hinner => ?_
  exact form_hex hosted hinner (World.lt_levelsLeft_deeper hw) hname place n

/-- What `hex` gives for an integer of the language is the shortest capital hexadecimal numeral of
the integer modulo `2 ^ 64`.  Two's complement takes it back to the integer, so no two integers have
the same text.  As a literal with the mark `0x` it is read as the integer if that is not negative,
and is out of range otherwise. -/
theorem hex_faithful {n : Int} (lo : -2 ^ 63 ≤ n) (hi : n ≤ 2 ^ 63 - 1) :
    hex.reply [.int n] = .give (.str (hexText n)) ∧
    (∀ hosted (w : World) place, 1 < w.env.levelsLeft →
      w.env.lookup hex.name = .ok (.native hex.name (.builtin hex)) →
      evalForm (Session.nativesOf hosted) (.call place [.symbol hex.name, .int n]) w =
        .ok (.str (hexText n)) w) ∧
    (∃ value, Number.IsPattern (hexText n).toList value ∧ (value : Int) = n % 2 ^ 64) ∧
    (∀ value, Number.Numeral 16 (hexText n).toList value → (BitVec.ofNat 64 value).toInt = n) ∧
    (∀ m, -2 ^ 63 ≤ m → m ≤ 2 ^ 63 - 1 → hexText m = hexText n → m = n) ∧
    (0 ≤ n → ∀ line, Number.token line ("0x" ++ hexText n).toList = .ok ⟨.int, .int n, line⟩) ∧
    (n < 0 → ∀ line,
      Number.token line ("0x" ++ hexText n).toList =
        .error (.lex line (.outOfRange ("0x" ++ hexText n)))) := by
  have hlt : n < 2 ^ 63 := by omega
  refine ⟨rfl, ?_, ?_, ?_, ?_, ?_, ?_⟩
  · intro hosted w place hw hname
    exact evalForm_hex hosted hw hname place n
  · exact ⟨pattern n, isPattern_hexText n, natCast_pattern n⟩
  · intro value hvalue
    rw [hvalue.unique (isPattern_hexText n).numeral]
    exact toInt_pattern lo hlt
  · intro m hm hm' htext
    exact hexText_injective ⟨hm, by omega⟩ ⟨lo, hlt⟩ htext
  · intro h₀ line
    exact token_hexText_of_nonneg h₀ hlt line
  · intro hneg line
    exact token_hexText_of_neg lo hneg line

/-- The two ends of the range and minus one. -/
theorem hex_faithful_edges :
    hex.reply [.int (-1)] = .give (.str "FFFFFFFFFFFFFFFF") ∧
    Number.token 3 "0xFFFFFFFFFFFFFFFF".toList =
      .error (.lex 3 (.outOfRange "0xFFFFFFFFFFFFFFFF")) ∧
    Number.token 3 "0x8000000000000000".toList =
      .error (.lex 3 (.outOfRange "0x8000000000000000")) ∧
    Number.token 3 "0x7FFFFFFFFFFFFFFF".toList = .ok ⟨.int, .int 9223372036854775807, 3⟩ := by
  have one : hexText (-1) = "FFFFFFFFFFFFFFFF" := by decide +kernel
  have least : hexText (-9223372036854775808) = "8000000000000000" := by decide +kernel
  have greatest : hexText 9223372036854775807 = "7FFFFFFFFFFFFFFF" := by decide +kernel
  obtain ⟨hone, -, -, -, -, -, htokenOne⟩ := @hex_faithful (-1) (by decide) (by decide)
  obtain ⟨-, -, -, -, -, -, htokenLeast⟩ :=
    @hex_faithful (-9223372036854775808) (by decide) (by decide)
  obtain ⟨-, -, -, -, -, htokenGreatest, -⟩ :=
    @hex_faithful 9223372036854775807 (by decide) (by decide)
  rw [one] at hone htokenOne
  rw [least] at htokenLeast
  rw [greatest] at htokenGreatest
  exact ⟨hone, htokenOne (by decide) 3, htokenLeast (by decide) 3, htokenGreatest (by decide) 3⟩

end Builtin

end DynLisp
