import Mathlib.Data.List.Forall2
import Mathlib.Data.List.TakeWhile
import Mathlib.Data.Nat.Digits.Defs
import Mathlib.Tactic.IntervalCases
import DynLisp.Token.Number

/-!
# What number literals denote

A literal is described without the way it is read: by the digits that it is made of and their
positional value.  A run of characters that is no literal is malformed in one of three ways, and
reading it names that way.

One more bound comes from the conversion of decimal text.  A decimal integer of more than
`maxDigits` digits is *long*.  Leading zeros count, so a long integer may well be in range; it is
refused all the same, and not as a malformed literal.
-/

namespace DynLisp

namespace Number

def lowerDigits : List Char := "0123456789abcdef".toList

def upperDigits : List Char := "0123456789ABCDEF".toList

/-- The character is the digit of value `d` in the base. -/
def IsDigit (base : Nat) (c : Char) (d : Nat) : Prop :=
  d < base ∧ (lowerDigits[d]? = some c ∨ upperDigits[d]? = some c)

/-- A non-empty run of digits of the base, and its positional value. -/
def Numeral (base : Nat) (run : List Char) (n : Nat) : Prop :=
  run ≠ [] ∧ ∃ ds, List.Forall₂ (IsDigit base) run ds ∧ Nat.ofDigits base ds.reverse = n

/-- The integer that is spelt in decimal digits, or in the digits of the base that a mark stands
for. -/
inductive SpellsInt : List Char → Nat → Prop where
  | decimal {run : List Char} {n : Nat} (h : Numeral 10 run n) : SpellsInt run n
  | marked {m : Char} {base : Nat} {run : List Char} {n : Nat} (hm : base? m = some base)
    (h : Numeral base run n) : SpellsInt ('0' :: m :: run) n

/-- The double nearest to the decimal fraction that is spelt. -/
inductive SpellsReal : List Char → Float → Prop where
  | intro {whole fraction : List Char} {n m : Nat} (hw : Numeral 10 whole n)
      (hf : Numeral 10 fraction m) :
    SpellsReal (whole ++ '.' :: fraction)
      (Float.ofScientific (n * 10 ^ fraction.length + m) true fraction.length)

/-- A number literal, with the kind and the content of its token. -/
inductive Literal : List Char → TokenKind → Datum → Prop where
  | int {run : List Char} {n : Nat} (h : SpellsInt run n) (hn : n < 2 ^ 63) :
      Literal run .int (.int n)
  | real {run : List Char} {x : Float} (h : SpellsReal run x) : Literal run .real (.real x 0)

/-- A run that is no literal, and what is wrong with it. -/
inductive Malformed : List Char → LexFault → Prop where
  | noDigits {m : Char} {base : Nat} (hm : base? m = some base) :
    Malformed ['0', m] (.noDigits (String.ofList ['0', m]) (String.ofList ['0', m]))
  | outOfRange {run : List Char} {n : Nat} (h : SpellsInt run n) (hn : 2 ^ 63 ≤ n) :
    Malformed run (.outOfRange (String.ofList run))
  | misspelt {run : List Char} (hmark : ∀ m base, base? m = some base → run ≠ ['0', m])
    (hint : ∀ n, ¬ SpellsInt run n) (hreal : ∀ x, ¬ SpellsReal run x) :
    Malformed run (.badNumber (String.ofList run))

/-- A decimal integer with too many digits to be converted. -/
def IsLong (run : List Char) : Prop :=
  maxDigits < run.length ∧ ∀ c ∈ run, Text.isAsciiDigit c = true

/-- A literal that can be read. -/
def Legal (run : List Char) (kind : TokenKind) (value : Datum) : Prop :=
  Literal run kind value ∧ ¬ IsLong run

/-! ## Digits -/

theorem digit?_of_mem_table {base d : Nat} {c : Char}
    (h : lowerDigits[d]? = some c ∨ upperDigits[d]? = some c) :
    digit? base c = if d < base then some d else none := by
  have hd : d < 16 := by
    rcases h with h | h <;> exact (List.getElem?_eq_some_iff.mp h).1
  interval_cases d <;> rcases h with h | h <;> cases h <;> rfl

/-- A row of characters is known from the first of them. -/
theorem getElem?_of_range {table : List Char} {c : Char} {first size shift : Nat}
    (hrow : ∀ k < size, table[first + k - shift]? = some (Char.ofNat (first + k)))
    (hlo : first ≤ c.toNat) (hhi : c.toNat < first + size) : table[c.toNat - shift]? = some c := by
  have h := hrow (c.toNat - first) (by omega)
  rwa [Nat.add_sub_cancel' hlo, Char.ofNat_toNat] at h

theorem isDigit_of_digit? {base d : Nat} {c : Char} (h : digit? base c = some d) :
    IsDigit base c d := by
  simp only [digit?, Char.le_def, UInt32.le_iff_toNat_le] at h
  split at h
  next hr =>
    split at h
    next hd =>
      cases h
      have hr : 48 ≤ c.toNat ∧ c.toNat ≤ 57 := hr
      exact ⟨hd, .inl (@getElem?_of_range _ _ 48 10 48 (by decide) hr.1 (by omega))⟩
    next => cases h
  next =>
    split at h
    next hr =>
      split at h
      next hd =>
        cases h
        have hr : 97 ≤ c.toNat ∧ c.toNat ≤ 102 := hr
        exact ⟨hd, .inl (@getElem?_of_range _ _ 97 6 87 (by decide) hr.1 (by omega))⟩
      next => cases h
    next =>
      split at h
      next hr =>
        split at h
        next hd =>
          cases h
          have hr : 65 ≤ c.toNat ∧ c.toNat ≤ 70 := hr
          exact ⟨hd, .inr (@getElem?_of_range _ _ 65 6 55 (by decide) hr.1 (by omega))⟩
        next => cases h
      next =>
        rw [if_neg (Nat.lt_irrefl base)] at h
        cases h

theorem digit?_eq_some_iff {base d : Nat} {c : Char} :
    digit? base c = some d ↔ IsDigit base c d := by
  constructor
  · exact isDigit_of_digit?
  · rintro ⟨hd, h⟩
    rw [digit?_of_mem_table h, if_pos hd]

theorem digits?_eq_some_iff {base : Nat} {run : List Char} {ds : List Nat} :
    digits? base run = some ds ↔ List.Forall₂ (IsDigit base) run ds := by
  induction run generalizing ds with
  | nil => simp [digits?, List.forall₂_nil_left_iff, eq_comm]
  | cons c rest ih =>
    rw [digits?]
    constructor
    · intro h
      split at h
      next d ds' hd hds =>
        cases h
        exact .cons (digit?_eq_some_iff.mp hd) (ih.mp hds)
      next => cases h
    · rintro (_ | ⟨hd, hds⟩)
      rw [digit?_eq_some_iff.mpr hd, ih.mpr hds]

theorem ofDigits_eq (base : Nat) (ds : List Nat) :
    ofDigits base ds = Nat.ofDigits base ds.reverse := by
  rw [Nat.ofDigits_eq_foldr, List.foldr_reverse, ofDigits]
  congr
  funext n d
  rw [Nat.cast_id, Nat.mul_comm, Nat.add_comm]

theorem ofDigits_append (base : Nat) (ds es : List Nat) :
    ofDigits base (ds ++ es) = ofDigits base ds * base ^ es.length + ofDigits base es := by
  rw [ofDigits_eq, ofDigits_eq, ofDigits_eq, List.reverse_append, Nat.ofDigits_append,
    List.length_reverse, Nat.add_comm, Nat.mul_comm]

theorem value?_eq_some_iff {base n : Nat} {run : List Char} :
    value? base run = some n ↔ Numeral base run n := by
  unfold value? Numeral
  split
  next h => simp [List.isEmpty_iff.mp h]
  next h =>
    rw [Option.map_eq_some_iff]
    simp only [digits?_eq_some_iff, ofDigits_eq]
    rw [List.isEmpty_iff] at h
    exact (and_iff_right h).symm

theorem isAsciiDigit_iff {c : Char} : Text.isAsciiDigit c = true ↔ ∃ d, IsDigit 10 c d := by
  simp only [← digit?_eq_some_iff, ← Option.isSome_iff_exists, Text.isAsciiDigit,
    Text.asciiDigit?, digit?, Char.le_def, UInt32.le_iff_toNat_le]
  change (if 48 ≤ c.toNat ∧ c.toNat ≤ 57 then some _ else none : Option Nat).isSome = true ↔
    (if (if 48 ≤ c.toNat ∧ c.toNat ≤ 57 then _ else if 97 ≤ c.toNat ∧ c.toNat ≤ 102 then _
      else if 65 ≤ c.toNat ∧ c.toNat ≤ 70 then _ else _) < 10 then _ else none
      : Option Nat).isSome = true
  split_ifs <;> simp <;> omega

theorem mem_of_isAsciiDigit {c : Char} (h : Text.isAsciiDigit c = true) :
    c ∈ "0123456789".toList := by
  obtain ⟨d, hd, hc⟩ := isAsciiDigit_iff.mp h
  interval_cases d <;> rcases hc with hc | hc <;> cases hc <;> decide

theorem isDigit_zero {base : Nat} (h : 0 < base) : IsDigit base '0' 0 := ⟨h, .inl rfl⟩

/-- Zeros in front do not change the value. -/
theorem Numeral.zeros {base n : Nat} {run : List Char} (h : Numeral base run n) (k : Nat) :
    Numeral base (List.replicate k '0' ++ run) n := by
  obtain ⟨hne, ds, hds, rfl⟩ := h
  have hbase : 0 < base := by
    cases hds with
    | nil => contradiction
    | cons hd _ => exact Nat.zero_lt_of_lt hd.1
  refine ⟨List.append_ne_nil_of_right_ne_nil _ hne, List.replicate k 0 ++ ds, ?_, ?_⟩
  · induction k with
    | zero => exact hds
    | succ k ih => exact .cons (isDigit_zero hbase) ih
  · rw [List.reverse_append, List.reverse_replicate, Nat.ofDigits_append_replicate_zero]

/-- Zeros spell zero, however many they are. -/
theorem numeral_zeros (k : Nat) : Numeral 10 (List.replicate (k + 1) '0') 0 := by
  have zero : Numeral 10 ['0'] 0 :=
    ⟨List.cons_ne_nil _ _, [0], .cons (isDigit_zero (by decide)) .nil, rfl⟩
  rw [List.replicate_succ']
  exact zero.zeros k

theorem isLong_replicate {c : Char} (hc : Text.isAsciiDigit c = true) {k : Nat}
    (hk : maxDigits < k) : IsLong (List.replicate k c) := by
  refine ⟨by rwa [List.length_replicate], fun d hd => ?_⟩
  rwa [List.eq_of_mem_replicate hd]

theorem Numeral.snoc {base n d : Nat} {run : List Char} {c : Char} (h : Numeral base run n)
    (hd : IsDigit base c d) : Numeral base (run ++ [c]) (d + base * n) := by
  obtain ⟨-, ds, hds, rfl⟩ := h
  refine ⟨List.append_ne_nil_of_right_ne_nil run (List.cons_ne_nil c []), ds ++ [d], ?_, ?_⟩
  · exact List.rel_append hds (.cons hd .nil)
  · rw [List.reverse_append, List.reverse_singleton, List.singleton_append, Nat.ofDigits_cons]

theorem isDigit_digitChar {base d : Nat} (hd : d < base) (h : base ≤ 16) :
    IsDigit base d.digitChar d := by
  have table : ∀ d < 16, lowerDigits[d]? = some d.digitChar := by decide
  exact ⟨hd, .inl (table d (by omega))⟩

/-- A number is written with the digits that spell it, in every base up to sixteen. -/
theorem numeral_toDigits_of_le {base : Nat} (h₁ : 1 < base) (h₂ : base ≤ 16) (n : Nat) :
    Numeral base (Nat.toDigits base n) n := by
  induction n using Nat.strongRecOn with
  | ind n ih =>
    rw [Nat.toDigits_eq_if h₁]
    split
    next hn => exact ⟨List.cons_ne_nil _ _, [n], .cons (isDigit_digitChar hn h₂) .nil,
      Nat.ofDigits_singleton⟩
    next hn =>
      have hlt : n / base < n := Nat.div_lt_self (by omega) h₁
      have h := (ih (n / base) hlt).snoc (isDigit_digitChar (Nat.mod_lt n (by omega)) h₂)
      rwa [Nat.mod_add_div] at h

theorem numeral_toDigits (n : Nat) : Numeral 10 (Nat.toDigits 10 n) n :=
  numeral_toDigits_of_le (by decide) (by decide) n

/-- Decimal digits, and nothing else, make up a decimal numeral. -/
theorem exists_numeral_iff {run : List Char} :
    (∃ n, Numeral 10 run n) ↔ run ≠ [] ∧ ∀ c ∈ run, Text.isAsciiDigit c = true := by
  have hdigits :
      (∃ ds, List.Forall₂ (IsDigit 10) run ds) ↔ ∀ c ∈ run, Text.isAsciiDigit c = true := by
    induction run with
    | nil => simp [List.forall₂_nil_left_iff]
    | cons c rest ih =>
      rw [List.forall_mem_cons, ← ih, isAsciiDigit_iff]
      constructor
      · rintro ⟨ds, hds⟩
        cases hds with
        | cons hd hds => exact ⟨⟨_, hd⟩, ⟨_, hds⟩⟩
      · rintro ⟨⟨d, hd⟩, ⟨ds, hds⟩⟩
        exact ⟨d :: ds, .cons hd hds⟩
  rw [← hdigits]
  constructor
  · rintro ⟨n, hne, ds, hds, -⟩
    exact ⟨hne, ds, hds⟩
  · rintro ⟨hne, ds, hds⟩
    exact ⟨_, hne, ds, hds, rfl⟩

theorem Numeral.isAsciiDigit {run : List Char} {n : Nat} (h : Numeral 10 run n) :
    ∀ c ∈ run, Text.isAsciiDigit c = true :=
  (exists_numeral_iff.mp ⟨n, h⟩).2

/-! ## Marks and points -/

theorem not_isAsciiDigit_of_base? {m : Char} {base : Nat} (h : base? m = some base) :
    Text.isAsciiDigit m = false := by
  unfold base? at h
  split at h <;> first | rfl | cases h

theorem marked?_eq_none {run : List Char} (h : ∀ m rest, run = '0' :: m :: rest → base? m = none) :
    marked? run = none := by
  unfold marked?
  split
  next m rest => rw [h m rest rfl, Option.map_none]
  next => rfl

/-- Decimal digits, whatever follows them, have no mark, unless it is among what follows. -/
theorem marked?_append_eq_none {run rest : List Char} (hne : run ≠ [])
    (hrun : ∀ c ∈ run, Text.isAsciiDigit c = true) (hrest : ∀ c ∈ rest.head?, base? c = none) :
    marked? (run ++ rest) = none := by
  refine marked?_eq_none fun m more h => ?_
  match run, hne with
  | [c], _ =>
    have htail : rest = m :: more := (List.cons.inj h).2
    exact hrest m (by rw [htail]; rfl)
  | c :: d :: run, _ =>
    obtain rfl : d = m := (List.cons.inj (List.cons.inj h).2).1
    cases hm : base? d with
    | none => rfl
    | some base =>
      have hd := hrun d (by simp)
      rw [not_isAsciiDigit_of_base? hm] at hd
      cases hd

theorem Numeral.marked?_eq_none {run : List Char} {n : Nat} (h : Numeral 10 run n) :
    marked? run = none := by
  have hnone := @marked?_append_eq_none run [] h.1 h.isAsciiDigit (by simp)
  rwa [List.append_nil] at hnone

theorem exists_mark {run mark digits : List Char} {base : Nat}
    (h : marked? run = some (mark, base, digits)) :
    ∃ m, run = '0' :: m :: digits ∧ base? m = some base := by
  unfold marked? at h
  split at h
  next m rest =>
    obtain ⟨b, hb, heq⟩ := Option.map_eq_some_iff.mp h
    cases heq
    exact ⟨m, rfl, hb⟩
  next => cases h

theorem realParts?_of_numerals {whole fraction : List Char} {n m : Nat} (hw : Numeral 10 whole n)
    (hf : Numeral 10 fraction m) :
    ∃ ws fs, realParts? (whole ++ '.' :: fraction) = some (ws, fs) ∧
      toReal ws fs = Float.ofScientific (n * 10 ^ fraction.length + m) true fraction.length := by
  have hdrop : (whole ++ '.' :: fraction).dropWhile Text.isAsciiDigit = '.' :: fraction :=
    (List.dropWhile_append_of_pos hw.isAsciiDigit).trans (List.dropWhile_cons_of_neg (by decide))
  have htake : (whole ++ '.' :: fraction).takeWhile Text.isAsciiDigit = whole := by
    rw [List.takeWhile_append_of_pos hw.isAsciiDigit, List.takeWhile_cons_of_neg (by decide),
      List.append_nil]
  obtain ⟨hwne, ws, hws, rfl⟩ := hw
  obtain ⟨hfne, fs, hfs, rfl⟩ := hf
  refine ⟨ws, fs, ?_, ?_⟩
  · rw [realParts?, hdrop, htake]
    simp [hwne, hfne, digits?_eq_some_iff.mpr hws, digits?_eq_some_iff.mpr hfs]
  · rw [toReal, ofDigits_append, ofDigits_eq, ofDigits_eq, hfs.length_eq]

theorem spellsReal_of_realParts? {run : List Char} {ws fs : List Nat}
    (h : realParts? run = some (ws, fs)) : SpellsReal run (toReal ws fs) := by
  unfold realParts? at h
  split at h
  next fraction hdrop =>
    have hrun : run = run.takeWhile Text.isAsciiDigit ++ '.' :: fraction := by
      rw [← hdrop, List.takeWhile_append_dropWhile]
    simp only [Bool.or_eq_true, List.isEmpty_iff] at h
    split at h
    next => cases h
    next hne =>
      rw [not_or] at hne
      split at h
      next hws hfs =>
        cases h
        have hws := digits?_eq_some_iff.mp hws
        have hfs := digits?_eq_some_iff.mp hfs
        have := SpellsReal.intro ⟨hne.1, ws, hws, rfl⟩ ⟨hne.2, fs, hfs, rfl⟩
        rwa [← hrun, hfs.length_eq, ← ofDigits_eq, ← ofDigits_eq, ← ofDigits_append] at this
      next => cases h
  next => cases h

theorem SpellsReal.not_isAsciiDigit {run : List Char} {x : Float} (h : SpellsReal run x) :
    ¬ ∀ c ∈ run, Text.isAsciiDigit c = true := by
  obtain ⟨hw, hf⟩ := h
  intro hall
  exact absurd (hall '.' (by simp)) (by decide)

/-! ## Reading a literal -/

section Reading

variable {run : List Char} {n : Nat} (line : Int)

theorem inRange_natCast : Datum.inRange n = true ↔ n < 2 ^ 63 := by
  unfold Datum.inRange Datum.minInt Datum.maxInt
  rw [Bool.and_eq_true, decide_eq_true_iff, decide_eq_true_iff]
  omega

theorem intToken_of_lt (hn : n < 2 ^ 63) : intToken line run n = .ok ⟨.int, .int n, line⟩ := by
  rw [intToken, if_pos (inRange_natCast.mpr hn)]

theorem intToken_of_le (hn : 2 ^ 63 ≤ n) :
    intToken line run n = .error (.lex line (.outOfRange (String.ofList run))) := by
  rw [intToken, if_neg (mt inRange_natCast.mp (Nat.not_lt.mpr hn))]

theorem token_of_long (h : IsLong run) :
    token line run = .error (.unreadableInteger run.length) := by
  have hne : run ≠ [] := by
    rintro rfl
    exact absurd h.1 (by decide)
  obtain ⟨n, hn⟩ := exists_numeral_iff.mpr ⟨hne, h.2⟩
  rw [token, hn.marked?_eq_none, value?_eq_some_iff.mpr hn]
  exact if_pos h.1

theorem token_of_spellsInt (h : SpellsInt run n) (hs : ¬ IsLong run) :
    token line run = intToken line run n := by
  cases h with
  | decimal h =>
    rw [token, h.marked?_eq_none, value?_eq_some_iff.mpr h]
    exact if_neg fun hlong => hs ⟨hlong, h.isAsciiDigit⟩
  | @marked m base digits _ hm h =>
    have hmark : marked? ('0' :: m :: digits) = some (['0', m], base, digits) := by
      rw [marked?, hm]
      rfl
    rw [token, hmark]
    simp [h.1, value?_eq_some_iff.mpr h]

theorem token_of_spellsReal {x : Float} (h : SpellsReal run x) :
    token line run = .ok ⟨.real, .real x 0, line⟩ := by
  have hvalue : value? 10 run = none := by
    cases hv : value? 10 run with
    | none => rfl
    | some n => exact absurd (value?_eq_some_iff.mp hv).isAsciiDigit h.not_isAsciiDigit
  obtain @⟨whole, fraction, n, m, hw, hf⟩ := h
  have hmark : marked? (whole ++ '.' :: fraction) = none :=
    marked?_append_eq_none hw.1 hw.isAsciiDigit (by simp [base?])
  obtain ⟨ws, fs, hparts, hx⟩ := realParts?_of_numerals hw hf
  rw [token, hmark, hvalue, hparts]
  simp only
  rw [hx]

theorem token_of_legal {kind : TokenKind} {value : Datum} (h : Legal run kind value) :
    token line run = .ok ⟨kind, value, line⟩ := by
  obtain ⟨h, hs⟩ := h
  cases h with
  | int h hn => rw [token_of_spellsInt line h hs, intToken_of_lt line hn]
  | real h => exact token_of_spellsReal line h

theorem token_of_malformed {cause : LexFault} (h : Malformed run cause) (hs : ¬ IsLong run) :
    token line run = .error (.lex line cause) := by
  cases h with
  | @noDigits m base hm =>
    have hmark : marked? ['0', m] = some (['0', m], base, []) := by
      rw [marked?, hm]
      rfl
    rw [token, hmark]
    rfl
  | outOfRange h hn => rw [token_of_spellsInt line h hs, intToken_of_le line hn]
  | misspelt hmark hint hreal =>
    unfold token
    cases hm : marked? run with
    | some parts =>
      obtain ⟨mark, base, digits⟩ := parts
      obtain ⟨m, rfl, hbase⟩ := exists_mark hm
      cases digits with
      | nil => exact absurd rfl (hmark m base hbase)
      | cons d ds =>
        cases hv : value? base (d :: ds) with
        | none => simp [hv]
        | some n => exact absurd (.marked hbase (value?_eq_some_iff.mp hv)) (hint n)
    | none =>
      simp only
      cases hv : value? 10 run with
      | some n => exact absurd (.decimal (value?_eq_some_iff.mp hv)) (hint n)
      | none =>
        cases hr : realParts? run with
        | some parts => exact absurd (spellsReal_of_realParts? hr) (hreal _)
        | none => rfl

end Reading

/-- Every run is a literal, or malformed in one of the three ways. -/
theorem literal_or_malformed (run : List Char) :
    (∃ kind value, Literal run kind value) ∨ ∃ cause, Malformed run cause := by
  by_cases hint : ∃ n, SpellsInt run n
  · obtain ⟨n, h⟩ := hint
    obtain hn | hn := Nat.lt_or_ge n (2 ^ 63)
    · exact .inl ⟨_, _, .int h hn⟩
    · exact .inr ⟨_, .outOfRange h hn⟩
  by_cases hreal : ∃ x, SpellsReal run x
  · obtain ⟨x, h⟩ := hreal
    exact .inl ⟨_, _, .real h⟩
  by_cases hmark : ∃ m base, base? m = some base ∧ run = ['0', m]
  · obtain ⟨m, base, hm, rfl⟩ := hmark
    exact .inr ⟨_, .noDigits hm⟩
  · refine .inr ⟨_, .misspelt ?_ (not_exists.mp hint) (not_exists.mp hreal)⟩
    exact fun m base hm h => hmark ⟨m, base, hm, h⟩

end Number

end DynLisp
