import DynLisp.Fault

/-!
# Values

The kind and the truth of a value, and the admission of what a host hands over.  Admission goes
through lists and maps and refuses whatever is not a value, an integer out of range, and a map key
that is not a name; it looks at all keys of a map before any of its values.
-/

namespace DynLisp

namespace Datum

/-- The kind of a value. -/
def kindOf (d : Datum) : Except Fault Kind :=
  match d.kind? with
  | some kind => .ok kind
  | none => .error (.notValue d)

/-- Is the value an integer or a real? -/
def isNumber (d : Datum) : Except Fault Bool := do
  match ← d.kindOf with
  | .int | .real => return true
  | _ => return false

/-- Does the value count as true?  Numbers do unless they are zero; texts, lists, maps and functions
never do. -/
def truthy (d : Datum) : Except Fault Bool := do
  let _ ← d.kindOf
  match d with
  | .bool b => return b
  | .int n => return n != 0
  | .real x _ => return x != 0
  | _ => return false

/-- The integer, if it fits in 64 bits.  A number too long to be written has a fault of its own. -/
def checkInt (n : Int) : Except Fault Int :=
  if inRange n then .ok n
  else if n.natAbs < Nat.pow 10 maxDigits then .error (.overflow n)
  else .error .unwritableInteger

mutual

/-- Admits a value that a host hands over. -/
def accept : Datum → Except Fault Datum
  | .int n => (checkInt n).map .int
  | .list items => (acceptAll items).map .list
  | .map entries => (acceptEntries entries).map .map
  | .table key _ => .error (.badKey key)
  | d =>
    match d.kind? with
    | some _ => .ok d
    | none => .error (.notValue d)

/-- Admits several values in turn. -/
def acceptAll : List Datum → Except Fault (List Datum)
  | [] => .ok []
  | d :: rest =>
    match accept d with
    | .error f => .error f
    | .ok d =>
      match acceptAll rest with
      | .error f => .error f
      | .ok rest => .ok (d :: rest)

/-- Admits the values of several entries in turn. -/
def acceptEntries : List (String × Datum) → Except Fault (List (String × Datum))
  | [] => .ok []
  | (key, d) :: rest =>
    match accept d with
    | .error f => .error f
    | .ok d =>
      match acceptEntries rest with
      | .error f => .error f
      | .ok rest => .ok ((key, d) :: rest)

end

end Datum

end DynLisp
