import DynLisp.Datum.Key
import DynLisp.Datum.Value

/-!
# Equality of values

Values of different kinds differ.  Lists are equal item by item and maps key by key, in whatever
order the keys stand.  A nan equals nothing but itself, which its mark decides.  Functions are equal
when they have the same parameters and were made from the same form; bodies that hold only `true`,
`false`, `nil`, small integers and the like are the same wherever they stand.  Natives are equal
when they run the same procedure.
-/

namespace DynLisp

namespace Datum

/-- Do two maps have the same names? -/
def sameNames (entries others : Assoc Datum) : Bool :=
  entries.length == others.length && entries.all fun e => (Assoc.find? others e.1).isSome

/-- The kinds of two values, which must both be values; are they the same? -/
def sameKind (a b : Datum) : Except Fault Bool := do
  return (← a.kindOf) == (← b.kindOf)

mutual

/-- Are two values equal? -/
def equal : Datum → Datum → Except Fault Bool
  | .str s, .str t => .ok (s == t)
  | .int m, .int n => .ok (m == n)
  | .real x m, .real y n => .ok (sameReal x y m n)
  | .bool a, .bool b => .ok (a == b)
  | .nil, .nil => .ok true
  | .fn p params body, .fn q others other => .ok (params == others && sameBody p q body other)
  | .native _ p, .native _ q => .ok (p == q)
  | .list items, .list others =>
    if items.length == others.length then equalAll items others else .ok false
  | .map entries, .map others =>
    if sameNames entries others then equalEntries entries others else .ok false
  | .table _ rows, .table _ others =>
    if sameKeys rows others then equalRows rows others else .ok false
  | .table _ _, .map _ => .ok false
  | .map _, .table _ _ => .ok false
  | a, b => if sameObject a b then .ok true else sameKind a b

/-- Are two lists equal item by item? -/
def equalAll : List Datum → List Datum → Except Fault Bool
  | a :: rest, b :: others =>
    match equal a b with
    | .ok true => equalAll rest others
    | outcome => outcome
  | _, _ => .ok true

/-- Does every entry have an equal one in the other map? -/
def equalEntries : List (String × Datum) → Assoc Datum → Except Fault Bool
  | [], _ => .ok true
  | (key, a) :: rest, others =>
    match Assoc.find? others key with
    | none => .ok false
    | some b =>
      match equal a b with
      | .ok true => equalEntries rest others
      | outcome => outcome

/-- Does every row have an equal one in the other table? -/
def equalRows : List (Datum × Datum) → List (Datum × Datum) → Except Fault Bool
  | [], _ => .ok true
  | (key, a) :: rest, others =>
    match findRow? others key with
    | none => .ok false
    | some b =>
      match equal a b with
      | .ok true => equalRows rest others
      | outcome => outcome

end

end Datum

end DynLisp
