import DynLisp.Datum.Identity
import DynLisp.Fault

/-!
# Keys

A host's read-only map may have keys of any kind.  Two things are the same key when the host takes
them for equal, and the host is not as strict as the language: truth values count as numbers, an
integer equals a real of the same value, and forms are equal when they are written alike.  A key
that occurs again keeps its first place and takes the last value.
-/

namespace DynLisp

/-- The integer that a double is exactly. -/
def Decimal.whole? (x : Float) : Option Int :=
  match Shape.ofFloat x with
  | .nan => none
  | .infinite _ => none
  | .zero _ => some 0
  | .finite negative b =>
    let v := Ratio.ofBinary b.mantissa b.exponent
    if v.num % v.den = 0 then
      let n : Int := (v.num / v.den : Nat)
      some (if negative then -n else n)
    else none

namespace Datum

/-- The form that was handed over as a value; anything else stands for itself. -/
def bare : Datum → Datum
  | .quoted _ form => form
  | d => d

/-- The integer that a number or truth value equals. -/
def whole? : Datum → Option Int
  | .int n => some n
  | .bool b => some (if b then 1 else 0)
  | .real x _ => Decimal.whole? x
  | _ => none

/-- Are two things the same number? -/
def sameNumber (a b : Datum) : Bool :=
  match whole? a, whole? b with
  | some m, some n => m == n
  | _, _ =>
    match a, b with
    | .real x m, .real y n => sameReal x y m n
    | _, _ => false

mutual

/-- Does the host take two things for the same key? -/
def sameKey (a b : Datum) : Bool :=
  match a, b.bare with
  | .quoted _ form, d => sameKey form d
  | .str s, .str t => s == t
  | .nil, .nil => true
  | .absent, .absent => true
  | .symbol s, .symbol t => s == t
  | .list items, .list others => sameKeyAll items others
  | .call _ items, .call _ others => sameKeyAll items others
  | .listForm items, .listForm others => sameKeyAll items others
  | .mapForm entries, .mapForm others => sameKeyEntries entries others
  | .fn p params body, .fn q others other => params == others && sameBody p q body other
  | .native _ p, .native _ q => p == q
  | d, e => sameNumber d e

/-- Are two lists the same key item by item? -/
def sameKeyAll : List Datum → List Datum → Bool
  | [], [] => true
  | a :: rest, b :: others => sameKey a b && sameKeyAll rest others
  | _, _ => false

/-- Are two lists of entries the same key, names and order included? -/
def sameKeyEntries : List (String × Datum) → List (String × Datum) → Bool
  | [], [] => true
  | (s, a) :: rest, (t, b) :: others => s == t && sameKey a b && sameKeyEntries rest others
  | _, _ => false

end

mutual

/-- The first part of a thing that keeps it from being a key: something that can change, or a
map. -/
def unusable? : Datum → Option Datum
  | .array mark items => some (.array mark items)
  | .record mark entries => some (.record mark entries)
  | .map entries => some (.map entries)
  | .table key rows => some (.table key rows)
  | .list items => unusableAll? items
  | .call _ items => unusableAll? items
  | .listForm items => unusableAll? items
  | .mapForm entries => unusableEntries? entries
  | .quoted _ form => unusable? form
  | _ => none

/-- The first such part of several things. -/
def unusableAll? : List Datum → Option Datum
  | [] => none
  | d :: rest =>
    match unusable? d with
    | some part => some part
    | none => unusableAll? rest

/-- The first such part of several entries. -/
def unusableEntries? : List (String × Datum) → Option Datum
  | [] => none
  | (_, d) :: rest =>
    match unusable? d with
    | some part => some part
    | none => unusableEntries? rest

end

/-! ## Rows -/

/-- The value under a key. -/
def findRow? : List (Datum × Datum) → Datum → Option Datum
  | [], _ => none
  | (k, d) :: rest, key => if sameKey k key then some d else findRow? rest key

/-- Puts a value under a key: in place if the key is there already, at the end otherwise. -/
def insertRow : List (Datum × Datum) → Datum → Datum → List (Datum × Datum)
  | [], key, d => [(key, d)]
  | (k, old) :: rest, key, d =>
    if sameKey k key then (k, d) :: rest else (k, old) :: insertRow rest key d

/-- Do two lists of rows have the same keys? -/
def sameKeys (rows others : List (Datum × Datum)) : Bool :=
  rows.length == others.length && rows.all fun r => (findRow? others r.1).isSome

/-- The first key that is not a name. -/
def badKey? : List (Datum × Datum) → Option Datum
  | [] => none
  | (.str _, _) :: rest => badKey? rest
  | (key, _) :: _ => some key

/-- The rows whose keys are names. -/
def namedRows : List (Datum × Datum) → List (String × Datum)
  | [] => []
  | (.str name, d) :: rest => (name, d) :: namedRows rest
  | _ :: rest => namedRows rest

/-- Puts rows one after another under their keys, all of which must be usable. -/
def collectRows (taken : List (Datum × Datum)) :
    List (Datum × Datum) → Except Fault (List (Datum × Datum))
  | [] => .ok taken
  | (key, d) :: rest =>
    match unusable? key with
    | some part => .error (.unusableKey part)
    | none => collectRows (insertRow taken key d) rest

/-- A read-only map of a host: a map if all of its keys are names, a table otherwise. -/
def ofRows (rows : List (Datum × Datum)) : Except Fault Datum := do
  let rows ← collectRows [] rows
  match badKey? rows with
  | none => return .map (namedRows rows)
  | some key => return .table key rows

end Datum

end DynLisp
