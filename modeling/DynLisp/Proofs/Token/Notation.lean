import DynLisp.Proofs.Token.Number

/-!
# Reading number literals

Reading decides the spelling of numbers: it gives an integer for the digits of one in range, a real
for two runs of digits around a point, and a lexical fault for everything else.  An integer that is
well spelt but out of range has a fault of its own.

So an integer can be written in any of the four notations, in small or capital digits and with zeros
in front, and all of these are read alike.
-/

namespace DynLisp

namespace Number

/-! ## Digits in capitals and marks -/

/-- A digit in capitals is the one that the table of capital digits has for its value. -/
theorem IsDigit.getElem?_upperDigits {base d : Nat} {c : Char} (h : IsDigit base c d) :
    upperDigits[d]? = some c.toUpper := by
  have small : lowerDigits.map Char.toUpper = upperDigits := by decide
  have capital : upperDigits.map Char.toUpper = upperDigits := by decide
  obtain ⟨-, h | h⟩ := h
  · rw [← small, List.getElem?_map, h, Option.map_some]
  · rw [← capital, List.getElem?_map, h, Option.map_some]

theorem IsDigit.toUpper {base d : Nat} {c : Char} (h : IsDigit base c d) :
    IsDigit base c.toUpper d :=
  ⟨h.1, .inr h.getElem?_upperDigits⟩

theorem Numeral.toUpper {base n : Nat} {run : List Char} (h : Numeral base run n) :
    Numeral base (run.map Char.toUpper) n := by
  obtain ⟨hne, ds, hds, hn⟩ := h
  refine ⟨mt List.map_eq_nil_iff.mp hne, ds, ?_, hn⟩
  rw [List.forall₂_map_left_iff]
  exact hds.imp fun _ _ => IsDigit.toUpper

theorem base?_bounds {m : Char} {base : Nat} (h : base? m = some base) : 1 < base ∧ base ≤ 16 := by
  unfold base? at h
  split at h <;> cases h <;> decide

theorem not_isLong_of_mark {m : Char} {base : Nat} (hm : base? m = some base) (run : List Char) :
    ¬ IsLong ('0' :: m :: run) := by
  intro hlong
  have hdigit := hlong.2 m (by simp)
  rw [not_isAsciiDigit_of_base? hm] at hdigit
  cases hdigit

/-! ## Outcomes -/

section Outcomes

variable {run : List Char} (line : Int) (hs : ¬ IsLong run)

include hs

theorem token_eq_ok_iff {t : Token} : token line run = .ok t ↔
    ∃ kind value, Literal run kind value ∧ t = ⟨kind, value, line⟩ := by
  constructor
  · intro ht
    obtain ⟨kind, value, h⟩ | ⟨cause, h⟩ := literal_or_malformed run
    · rw [token_of_legal line ⟨h, hs⟩] at ht
      exact ⟨kind, value, h, (Except.ok.inj ht).symm⟩
    · rw [token_of_malformed line h hs] at ht
      cases ht
  · rintro ⟨kind, value, h, rfl⟩
    exact token_of_legal line ⟨h, hs⟩

theorem token_eq_error_iff {f : Fault} : token line run = .error f ↔
    ∃ cause, Malformed run cause ∧ f = .lex line cause := by
  constructor
  · intro hf
    obtain ⟨kind, value, h⟩ | ⟨cause, h⟩ := literal_or_malformed run
    · rw [token_of_legal line ⟨h, hs⟩] at hf
      cases hf
    · rw [token_of_malformed line h hs] at hf
      exact ⟨cause, h, (Except.error.inj hf).symm⟩
  · rintro ⟨cause, h, rfl⟩
    exact token_of_malformed line h hs

theorem token_eq_outOfRange_iff {literal : String} :
    token line run = .error (.lex line (.outOfRange literal)) ↔
    literal = String.ofList run ∧ ∃ n, SpellsInt run n ∧ 2 ^ 63 ≤ n := by
  rw [token_eq_error_iff line hs]
  constructor
  · rintro ⟨cause, h, heq⟩
    cases heq
    cases h with
    | outOfRange h hn => exact ⟨rfl, _, h, hn⟩
  · rintro ⟨rfl, n, h, hn⟩
    exact ⟨_, .outOfRange h hn, rfl⟩

end Outcomes

/-- A text gives an integer exactly if it is made of decimal digits, or of a mark and digits of its
base, with a value below `2 ^ 63`, and a real exactly if it is digits, a point and digits.  Every
other text is a lexical fault, which says `out of range` exactly if the text is a well-formed
integer.  So all notations of an integer in range are read as that integer, with any number of zeros
in front.  The one exception are decimal integers with too many digits. -/
theorem token_denotes (line : Int) :
    (∀ run, ¬ IsLong run →
      (∀ t, token line run = .ok t ↔
        (∃ n, SpellsInt run n ∧ n < 2 ^ 63 ∧ t = ⟨.int, .int n, line⟩) ∨
          ∃ x, SpellsReal run x ∧ t = ⟨.real, .real x 0, line⟩) ∧
      (∀ f, token line run = .error f → ∃ cause, f = .lex line cause) ∧
      ∀ literal, token line run = .error (.lex line (.outOfRange literal)) ↔
        literal = String.ofList run ∧ ∃ n, SpellsInt run n ∧ 2 ^ 63 ≤ n) ∧
    ∀ n < 2 ^ 63, ∀ zeros,
      (zeros + (Nat.toDigits 10 n).length ≤ maxDigits →
        token line (List.replicate zeros '0' ++ Nat.toDigits 10 n) = .ok ⟨.int, .int n, line⟩) ∧
      ∀ m base, base? m = some base →
        ∀ digits, digits = Nat.toDigits base n ∨ digits = (Nat.toDigits base n).map Char.toUpper →
          token line ('0' :: m :: (List.replicate zeros '0' ++ digits)) =
            .ok ⟨.int, .int n, line⟩ := by
  refine ⟨fun run hs =>
    ⟨fun t => ?_, fun f hf => ?_, fun literal => token_eq_outOfRange_iff line hs⟩,
    fun n hn zeros => ⟨fun hz => ?_, fun m base hm digits hdigits => ?_⟩⟩
  · rw [token_eq_ok_iff line hs]
    constructor
    · rintro ⟨kind, value, h, rfl⟩
      cases h with
      | int h hn => exact .inl ⟨_, h, hn, rfl⟩
      | real h => exact .inr ⟨_, h, rfl⟩
    · rintro (⟨n, h, hn, rfl⟩ | ⟨x, h, rfl⟩)
      · exact ⟨_, _, .int h hn, rfl⟩
      · exact ⟨_, _, .real h, rfl⟩
  · obtain ⟨cause, -, rfl⟩ := (token_eq_error_iff line hs).mp hf
    exact ⟨cause, rfl⟩
  · have short : ¬ IsLong (List.replicate zeros '0' ++ Nat.toDigits 10 n) := by
      intro hlong
      have := hlong.1
      rw [List.length_append, List.length_replicate] at this
      omega
    exact token_of_legal line ⟨.int (.decimal ((numeral_toDigits n).zeros zeros)) hn, short⟩
  · obtain ⟨h₁, h₂⟩ := base?_bounds hm
    have hnumeral : Numeral base digits n := by
      have h := numeral_toDigits_of_le h₁ h₂ n
      rcases hdigits with rfl | rfl
      · exact h
      · exact h.toUpper
    exact token_of_legal line ⟨.int (.marked hm (hnumeral.zeros zeros)) hn, not_isLong_of_mark hm _⟩

/-- The greatest integer in capital hexadecimal digits with two zeros in front, and the first that
is out of range. -/
theorem token_denotes_limit :
    ¬ IsLong "9223372036854775808".toList ∧
    token 7 "9223372036854775808".toList = .error (.lex 7 (.outOfRange "9223372036854775808")) ∧
    token 7 "0x007FFFFFFFFFFFFFFF".toList = .ok ⟨.int, .int 9223372036854775807, 7⟩ := by
  have short : ¬ IsLong "9223372036854775808".toList := fun h => absurd h.1 (by decide)
  have digits : Nat.toDigits 10 (2 ^ 63) = "9223372036854775808".toList := by decide +kernel
  have capitals : (Nat.toDigits 16 (2 ^ 63 - 1)).map Char.toUpper = "7FFFFFFFFFFFFFFF".toList := by
    decide +kernel
  have spelt : SpellsInt "9223372036854775808".toList (2 ^ 63) :=
    .decimal (digits ▸ numeral_toDigits (2 ^ 63))
  obtain ⟨outcomes, notations⟩ := token_denotes 7
  have marked := (notations (2 ^ 63 - 1) (by decide) 2).2 'x' 16 rfl _ (.inr capitals.symm)
  exact ⟨short, ((outcomes _ short).2.2 _).mpr ⟨rfl, _, spelt, Nat.le_refl _⟩, marked⟩

end Number

end DynLisp
