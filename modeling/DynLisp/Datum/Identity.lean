import DynLisp.Datum.Basic

/-!
# Identity

When two occurrences of a datum are one and the same thing, as far as equality asks: nans, the
bodies of functions, and what a host hands over although it is no value.  Places and marks decide,
except for the few things of which there is only one copy each.
-/

namespace DynLisp

namespace Datum

/-- The things of which there is only one copy each: some constants, the small integers, and the
texts of at most one character, if that is a character of one byte. -/
inductive Unique where
  | true
  | false
  | nil
  | absent
  | emptyList
  | int (n : Int)
  | text (content : String)
deriving DecidableEq

/-- The unique thing that a datum is. -/
def unique? : Datum → Option Unique
  | .bool b => some (if b then .true else .false)
  | .nil => some .nil
  | .absent => some .absent
  | .list [] => some .emptyList
  | .int n => if -5 ≤ n ∧ n ≤ 256 then some (.int n) else none
  | .str content =>
    match content.toList with
    | [] => some (.text content)
    | [c] => if c.toNat < 256 then some (.text content) else none
    | _ => none
  | _ => none

/-- Does a host keep only one copy of the thing? -/
def isShared (d : Datum) : Bool := (unique? d).isSome

/-- The unique forms of a body; none if it holds any other form. -/
def uniqueBody? : List Datum → Option (List Unique)
  | [] => some []
  | d :: rest =>
    match unique? d, uniqueBody? rest with
    | some u, some us => some (u :: us)
    | _, _ => none

/-- Are the bodies of two functions the very same forms?  `p` and `q` are the functions' places. -/
def sameBody (p q : Nat) (body other : List Datum) : Bool :=
  match uniqueBody? body, uniqueBody? other with
  | some us, some vs => us == vs
  | none, none => p == q && body.length == other.length
  | _, _ => false

/-- Are two reals equal, or one and the same nan? -/
def sameReal (x y : Float) (mark other : Nat) : Bool :=
  x == y || (x.isNaN && y.isNaN && mark == other)

/-- Are two things the same object although they are no values? -/
def sameObject : Datum → Datum → Bool
  | .absent, .absent => true
  | .array m _, .array n _ => m == n
  | .record m _, .record n _ => m == n
  | .quoted m _, .quoted n _ => m == n
  | _, _ => false

end Datum

end DynLisp
