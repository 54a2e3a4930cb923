import DynLisp.Decimal.Shortest

/-!
# Decimal text of reals

A finite real is written with the fewest digits that read back.  Values from `10 ^ -4` up to `10 ^
16` are written positionally, and always with a point; the others as digits and a signed exponent of
at least two digits.
-/

namespace DynLisp

namespace Decimal

/-- What a double is, taken from its bits. -/
inductive Shape where
  | nan
  | infinite (negative : Bool)
  | zero (negative : Bool)
  | finite (negative : Bool) (magnitude : Binary)

/-- Takes a double apart. -/
def Shape.ofFloat (x : Float) : Shape :=
  let bits : Nat := x.toBits.toNat
  let negative : Bool := Nat.pow 2 63 ≤ bits
  let power : Nat := bits / Nat.pow 2 52 % 2048
  let fraction : Nat := bits % Nat.pow 2 52
  if power = 2047 then
    if fraction = 0 then .infinite negative else .nan
  else if power = 0 then
    if fraction = 0 then .zero negative else .finite negative ⟨fraction, -1074, false⟩
  else .finite negative ⟨Nat.pow 2 52 + fraction, (power : Int) - 1075, fraction = 0 && 1 < power⟩

/-- How reals are laid out. -/
structure Layout where
  /-- the smallest power of ten that is written positionally -/
  least : Int
  /-- the smallest power of ten above it that is not -/
  most : Int
  /-- the least number of digits of an exponent -/
  exponentWidth : Nat

/-- The layout of the language. -/
def layout : Layout := ⟨-4, 16, 2⟩

/-- The digits of a decimal without trailing zeros, and the power of ten of the first of them. -/
def Scientific.significant (d : Scientific) : List Char × Int :=
  let all := Nat.toDigits 10 d.digits
  let short := (all.reverse.dropWhile (· == '0')).reverse
  (short, d.exponent + all.length - 1)

/-- Digits written positionally; the first of them stands for `10 ^ power`. -/
def positional (digits : List Char) (power : Int) : List Char :=
  if power < 0 then
    '0' :: '.' :: List.replicate (-power - 1).toNat '0' ++ digits
  else
    let whole := power.toNat + 1
    let padded := digits ++ List.replicate (whole + 1 - digits.length) '0'
    padded.take whole ++ '.' :: padded.drop whole

/-- Digits written with an exponent. -/
def exponential (width : Nat) (digits : List Char) (power : Int) : List Char :=
  let mark := if power < 0 then '-' else '+'
  let size := Nat.toDigits 10 power.natAbs
  let lead := match digits with
    | [] => []
    | [d] => [d]
    | d :: more => d :: '.' :: more
  lead ++ 'e' :: mark :: List.replicate (width - size.length) '0' ++ size

/-- A positive decimal in a layout. -/
def Scientific.write (l : Layout) (d : Scientific) : List Char :=
  let (digits, power) := d.significant
  if l.least ≤ power && power < l.most then positional digits power
  else exponential l.exponentWidth digits power

/-- The text of a real. -/
def realText (x : Float) : String :=
  match Shape.ofFloat x with
  | .nan => "nan"
  | .infinite negative => if negative then "-inf" else "inf"
  | .zero negative => if negative then "-0.0" else "0.0"
  | .finite negative b =>
    let body := String.ofList (b.shortest.write layout)
    if negative then "-" ++ body else body

end Decimal

end DynLisp
