import DynLisp.Fault
import DynLisp.Text.Blank
import DynLisp.Text.Digit

/-!
# Integers from outside

An integer of the settings or the command line: a sign or none, then decimal digits of any script
with single underscores between them, and blanks around it all.
-/

namespace DynLisp

namespace Decimal

/-- Can the character stand around an integer?  ASCII's information separators cannot. -/
def isMargin (c : Char) : Bool :=
  Text.isAsciiBlank c || (127 ≤ c.toNat && Text.isBlank c)

/-- The text without its margins. -/
def trimMargins (cs : List Char) : List Char :=
  ((cs.dropWhile isMargin).reverse.dropWhile isMargin).reverse

/-- The digits of a run with single underscores between digits; `afterDigit` tells what stands
before it. -/
def digitRun? (afterDigit : Bool) : List Char → Option (List Nat)
  | [] => if afterDigit then some [] else none
  | c :: rest =>
    if c = '_' then if afterDigit then digitRun? false rest else none
    else
      match Text.digitValue? c with
      | some d => (digitRun? true rest).map (d :: ·)
      | none => none

/-- The number that a run of digits is. -/
def natural? (cs : List Char) : Option Nat :=
  match digitRun? false cs with
  | some digits =>
    if maxDigits < digits.length then none else some (digits.foldl (fun n d => n * 10 + d) 0)
  | none => none

/-- The integer that a text is. -/
def integer? (text : String) : Option Int :=
  match trimMargins text.toList with
  | '-' :: rest => (natural? rest).map fun n => -(n : Int)
  | '+' :: rest => (natural? rest).map Int.ofNat
  | cs => (natural? cs).map Int.ofNat

end Decimal

end DynLisp
