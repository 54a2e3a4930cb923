import DynLisp.Native.Reply
import DynLisp.Datum.Equality
import DynLisp.Datum.Printer

/-!
# Builtins

Arithmetic is exact on integers and faults when a running result does not fit in 64 bits; as soon as
a real is involved it is binary64 arithmetic.  All arguments are checked to be numbers before
anything is computed.
-/

namespace DynLisp

/-- The operations that fold over numbers. -/
inductive Arithmetic where
  | add
  | sub
  | mul
deriving DecidableEq, Repr

namespace Arithmetic

/-- The builtin that an operation belongs to. -/
def builtin : Arithmetic → Builtin
  | .add => .add
  | .sub => .sub
  | .mul => .mul

/-- The exact result on integers. -/
def exact : Arithmetic → Int → Int → Int
  | .add, m, n => m + n
  | .sub, m, n => m - n
  | .mul, m, n => m * n

/-- The rounded result on reals. -/
def rounded : Arithmetic → Float → Float → Float
  | .add, x, y => x + y
  | .sub, x, y => x - y
  | .mul, x, y => x * y

/-- The double nearest to an integer, unless the integer lies beyond all doubles. -/
def realOfInt (n : Int) : Except Fault Float :=
  let x := Float.ofScientific n.natAbs false 0
  if x.isInf then .error .tooLargeForReal else .ok (if n < 0 then -x else x)

/-- A number as a real. -/
def toReal : Datum → Except Fault Float
  | .int n => realOfInt n
  | .real x _ => .ok x
  | d => .error (.notValue d)

/-- The result on two numbers. -/
def combine (op : Arithmetic) (a b : Datum) : Except Fault Datum :=
  match a, b with
  | .int m, .int n => (Datum.checkInt (op.exact m n)).map .int
  | a, b =>
    match toReal a with
    | .error f => .error f
    | .ok x =>
      match toReal b with
      | .error f => .error f
      | .ok y => .ok (.real (op.rounded x y) 0)

/-- Folds an operation over numbers. -/
def fold (op : Arithmetic) : Datum → List Datum → Except Fault Datum
  | result, [] => .ok result
  | result, x :: rest =>
    match op.combine result x with
    | .error f => .error f
    | .ok result => fold op result rest

/-- Checks that all arguments are numbers. -/
def checkNumbers (b : Builtin) : List Datum → Except Fault Unit
  | [] => .ok ()
  | x :: rest =>
    match x.kindOf with
    | .error f => .error f
    | .ok .int => checkNumbers b rest
    | .ok .real => checkNumbers b rest
    | .ok kind => .error (.notNumber b kind)

/-- Folds an operation over arguments from a start, once all of them are known to be numbers. -/
def foldChecked (op : Arithmetic) (start : Datum) (args : List Datum) : Except Fault Datum :=
  match checkNumbers op.builtin args with
  | .error f => .error f
  | .ok _ => op.fold start args

/-- The number with its sign changed. -/
def negate : Datum → Except Fault Datum
  | .int n => (Datum.checkInt (-n)).map .int
  | .real x _ => .ok (.real (-x) 0)
  | d => .error (.notValue d)

end Arithmetic

namespace Builtin

open Arithmetic

/-- The difference of the first argument and all others, or the negative of a single one. -/
def difference (args : List Datum) : Except Fault Datum :=
  match args with
  | [] => .error (.tooFewArguments .sub)
  | x :: rest =>
    match checkNumbers .sub args with
    | .error f => .error f
    | .ok _ => if rest.isEmpty then negate x else Arithmetic.sub.fold x rest

/-- Are all others equal to the first?  The comparison ends at the first that is not. -/
def allEqual (first : Datum) : List Datum → Except Fault Bool
  | [] => .ok true
  | d :: rest =>
    match first.equal d with
    | .ok true => allEqual first rest
    | outcome => outcome

/-- Are all arguments equal? -/
def equalArguments : List Datum → Except Fault Datum
  | [] => .error (.tooFewArguments .equal)
  | first :: rest => (allEqual first rest).map .bool

/-- The number of 64-bit patterns. -/
def patterns : Int := 18446744073709551616

/-- The 64-bit pattern of an integer in hexadecimal. -/
def hexText (n : Int) : String :=
  String.ofList ((Nat.toDigits 16 (n % patterns).toNat).map Char.toUpper)

/-- The pattern of the only argument, which must be an integer. -/
def hexArgument : List Datum → Except Fault Datum
  | [.int n] => .ok (.str (hexText n))
  | [d] =>
    match d.kindOf with
    | .error f => .error f
    | .ok kind => .error (.hexOperand kind)
  | _ => .error (.tooFewArguments .hex)

/-- Writes all arguments back to back and ends the line. -/
def sayAll : List Datum → Reply
  | [] => .say "\n" (.give .nil)
  | d :: rest =>
    match d.display with
    | .ok text => .say text (sayAll rest)
    | .error f => .fail f

/-- What a builtin does with its arguments. -/
def reply : Builtin → List Datum → Reply
  | .add, args => .ofExcept (Arithmetic.add.foldChecked (.int 0) args)
  | .mul, args => .ofExcept (Arithmetic.mul.foldChecked (.int 1) args)
  | .sub, args => .ofExcept (difference args)
  | .equal, args => .ofExcept (equalArguments args)
  | .hex, args => .ofExcept (hexArgument args)
  | .echo, args => sayAll args

end Builtin

end DynLisp
