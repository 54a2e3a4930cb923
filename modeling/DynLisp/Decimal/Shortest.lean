/-!
# The shortest decimal of a binary fraction

A finite double is `m · 2 ^ q`.  The reals that round to it form an interval around it, closed when
`m` is even and open otherwise.  `Binary.shortest` gives the decimal with the fewest digits in that
interval; of two such decimals it takes the nearer one, and of two equally near the one with the
even last digit.  All arithmetic is exact.
-/

namespace DynLisp

namespace Decimal

/-- A decimal `digits · 10 ^ exponent`. -/
structure Scientific where
  digits : Nat
  exponent : Int
deriving DecidableEq, Repr

/-- A positive binary fraction `mantissa · 2 ^ exponent`.  The flag tells whether the next smaller
double is only half as far away as the next larger one, which happens at powers of two. -/
structure Binary where
  mantissa : Nat
  exponent : Int
  narrowBelow : Bool
deriving DecidableEq, Repr

/-- A ratio of two naturals. -/
structure Ratio where
  num : Nat
  den : Nat

/-- The ratio `n · 2 ^ e`. -/
def Ratio.ofBinary (n : Nat) (e : Int) : Ratio :=
  if 0 ≤ e then ⟨n * Nat.pow 2 e.toNat, 1⟩ else ⟨n, Nat.pow 2 (-e).toNat⟩

/-- The ratio divided by `10 ^ e`. -/
def Ratio.shift (r : Ratio) (e : Int) : Ratio :=
  if 0 ≤ e then ⟨r.num, r.den * Nat.pow 10 e.toNat⟩ else ⟨r.num * Nat.pow 10 (-e).toNat, r.den⟩

/-- Four times the value: the common unit in which the ends of the interval are whole. -/
def Binary.quarter (b : Binary) (n : Nat) : Ratio :=
  Ratio.ofBinary n (b.exponent - 2)

/-- Does `n · 10 ^ e` lie in the interval of reals that round to `b`? -/
def Binary.contains (b : Binary) (n : Nat) (e : Int) : Bool :=
  let low := (b.quarter (4 * b.mantissa - (if b.narrowBelow then 1 else 2))).shift e
  let high := (b.quarter (4 * b.mantissa + 2)).shift e
  if b.mantissa % 2 = 0 then low.num ≤ n * low.den && n * high.den ≤ high.num
  else low.num < n * low.den && n * high.den < high.num

/-- The neighbour of the value on the grid of multiples of `10 ^ e` that rounds to it, if there is
one. -/
def Binary.onGrid? (b : Binary) (e : Int) : Option Nat :=
  let v := (b.quarter (4 * b.mantissa)).shift e
  let below := v.num / v.den
  let twice := 2 * (v.num % v.den)
  match b.contains below e, b.contains (below + 1) e with
  | false, false => none
  | true, false => some below
  | false, true => some (below + 1)
  | true, true =>
    if twice < v.den then some below
    else if v.den < twice then some (below + 1)
    else if below % 2 = 0 then some below else some (below + 1)

/-- The number of decimal digits; zero has none. -/
def digitCount (n : Nat) : Nat :=
  if n = 0 then 0 else (Nat.toDigits 10 n).length

/-- The exponent `k` with `10 ^ (k - 1) ≤ v < 10 ^ k`. -/
def Binary.magnitude (b : Binary) : Int :=
  let v := Ratio.ofBinary b.mantissa b.exponent
  if v.den ≤ v.num then digitCount (v.num / v.den)
  else 1 - digitCount ((v.den - 1) / v.num)

/-- Tries the grids with the given numbers of significant digits in turn. -/
def Binary.firstGrid (b : Binary) (magnitude : Int) : List Nat → Scientific
  | [] => ⟨0, 0⟩
  | places :: more =>
    let e := magnitude - places
    match b.onGrid? e with
    | some n => ⟨n, e⟩
    | none => b.firstGrid magnitude more

/-- The decimal with the fewest digits that rounds to `b`.  Seventeen digits always suffice. -/
def Binary.shortest (b : Binary) : Scientific :=
  b.firstGrid b.magnitude ((List.range 17).map (· + 1))

end Decimal

end DynLisp
