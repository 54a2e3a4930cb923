import DynLisp.Datum.Basic

/-!
# Places of call forms

The reader leaves every call form at place `0`.  Before a form is evaluated its calls are given
places of their own, so that functions made from different forms can be told apart.
-/

namespace DynLisp

namespace Datum

mutual

/-- Gives every call of a form a place, counting from `next`; also returns the first number not
used. -/
def settle (next : Nat) : Datum → Datum × Nat
  | .call _ items =>
    let (items, after) := settleAll (next + 1) items
    (.call next items, after)
  | .listForm items =>
    let (items, after) := settleAll next items
    (.listForm items, after)
  | .mapForm entries =>
    let (entries, after) := settleEntries next entries
    (.mapForm entries, after)
  | d => (d, next)

/-- Settles several forms in turn. -/
def settleAll (next : Nat) : List Datum → List Datum × Nat
  | [] => ([], next)
  | d :: rest =>
    let (d, after) := settle next d
    let (rest, last) := settleAll after rest
    (d :: rest, last)

/-- Settles the forms of several entries in turn. -/
def settleEntries (next : Nat) : List (String × Datum) → List (String × Datum) × Nat
  | [] => ([], next)
  | (key, d) :: rest =>
    let (d, after) := settle next d
    let (rest, last) := settleEntries after rest
    ((key, d) :: rest, last)

end

end Datum

end DynLisp
