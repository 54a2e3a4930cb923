import DynLisp.Fault
import DynLisp.Text.Digit

/-!
# Number literals

An integer is a run of decimal digits, or one of the marks `0x`, `0o`, `0b` and a run of digits of
that base.  A real is two runs of decimal digits around a point.
-/

namespace DynLisp

namespace Number

/-- The value of a digit in a base up to sixteen; letters count in either case. -/
def digit? (base : Nat) (c : Char) : Option Nat :=
  let n :=
    if '0' ≤ c ∧ c ≤ '9' then c.toNat - 48
    else if 'a' ≤ c ∧ c ≤ 'f' then c.toNat - 87
    else if 'A' ≤ c ∧ c ≤ 'F' then c.toNat - 55
    else base
  if n < base then some n else none

/-- The digits of a run in a base. -/
def digits? (base : Nat) : List Char → Option (List Nat)
  | [] => some []
  | c :: rest =>
    match digit? base c, digits? base rest with
    | some d, some ds => some (d :: ds)
    | _, _ => none

/-- The value of digits, the most significant first. -/
def ofDigits (base : Nat) (ds : List Nat) : Nat :=
  ds.foldl (fun n d => n * base + d) 0

/-- The value of a non-empty run of digits. -/
def value? (base : Nat) (run : List Char) : Option Nat :=
  if run.isEmpty then none else (digits? base run).map (ofDigits base)

/-- The base that a mark stands for. -/
def base? : Char → Option Nat
  | 'x' => some 16
  | 'o' => some 8
  | 'b' => some 2
  | _ => none

/-- A literal that starts with a mark: the mark, its base, and what follows. -/
def marked? : List Char → Option (List Char × Nat × List Char)
  | '0' :: m :: rest => (base? m).map fun base => (['0', m], base, rest)
  | _ => none

/-- The two runs of digits of a real. -/
def realParts? (run : List Char) : Option (List Nat × List Nat) :=
  match run.dropWhile Text.isAsciiDigit with
  | '.' :: fraction =>
    let whole := run.takeWhile Text.isAsciiDigit
    if whole.isEmpty || fraction.isEmpty then none
    else
      match digits? 10 whole, digits? 10 fraction with
      | some ws, some fs => some (ws, fs)
      | _, _ => none
  | _ => none

/-- The double nearest to a decimal with the given whole and fraction digits. -/
def toReal (whole fraction : List Nat) : Float :=
  Float.ofScientific (ofDigits 10 (whole ++ fraction)) true fraction.length

/-- The token of an integer literal, if its value is in range. -/
def intToken (line : Int) (run : List Char) (n : Nat) : Except Fault Token :=
  if Datum.inRange n then .ok ⟨.int, .int n, line⟩
  else .error (.lex line (.outOfRange (String.ofList run)))

/-- The token of a number literal. -/
def token (line : Int) (run : List Char) : Except Fault Token :=
  let text := String.ofList run
  match marked? run with
  | some (mark, base, digits) =>
    if digits.isEmpty then .error (.lex line (.noDigits text (String.ofList mark)))
    else
      match value? base digits with
      | some n => intToken line run n
      | none => .error (.lex line (.badNumber text))
  | none =>
    match value? 10 run with
    | some n =>
      if maxDigits < run.length then .error (.unreadableInteger run.length)
      else intToken line run n
    | none =>
      match realParts? run with
      | some (whole, fraction) => .ok ⟨.real, .real (toReal whole fraction) 0, line⟩
      | none => .error (.lex line (.badNumber text))

end Number

end DynLisp
