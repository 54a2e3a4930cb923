import DynLisp.Assoc

/-!
# Data

Code and data are one type.  A *value* is what evaluation works with: a text, an integer, a real, a
truth value, nil, a list, a map, a function or a native.  A *form* is what the reader makes: an
atom, a symbol, a call, or a list or map form.  The rest are things that a host program may hand
over although they are neither.

Two things that look alike can still be told apart.  A call form has a *place*, and every function
made from it has that place as its origin.  A nan, a host's mutable object and a form handed over as
a value have a *mark*.  Places and marks are numbers drawn from one counter; `0` is the place of a
form just read and the mark of a nan just made.
-/

namespace DynLisp

/-- The procedures that every session starts with. -/
inductive Builtin where
  | add
  | sub
  | mul
  | equal
  | hex
  | echo
deriving DecidableEq, Repr

/-- The name under which a builtin is bound. -/
def Builtin.name : Builtin → String
  | .add => "+"
  | .sub => "-"
  | .mul => "*"
  | .equal => "="
  | .hex => "hex"
  | .echo => "echo"

/-- All builtins, in the order in which they are bound. -/
def Builtin.all : List Builtin := [.add, .sub, .mul, .equal, .hex, .echo]

/-- What a native runs: a builtin, or a procedure that the host has registered under a number. -/
inductive Procedure where
  | builtin (b : Builtin)
  | hosted (index : Nat)
deriving DecidableEq, Repr

/-- Code and data. -/
inductive Datum where
  | str (text : String)
  | int (n : Int)
  | real (x : Float) (mark : Nat)
  | bool (b : Bool)
  | nil
  | list (items : List Datum)
  | map (entries : List (String × Datum))
  | fn (place : Nat) (params : List String) (body : List Datum)
  | native (name : String) (procedure : Procedure)
  | symbol (name : String)
  | call (place : Nat) (items : List Datum)
  | listForm (items : List Datum)
  | mapForm (entries : List (String × Datum))
  /-- nothing at all, as a host's procedure may return it -/
  | absent
  /-- a host's mutable sequence -/
  | array (mark : Nat) (items : List Datum)
  /-- a host's mutable record -/
  | record (mark : Nat) (entries : List (String × Datum))
  /-- a read-only map some of whose keys are not names, with the first such key -/
  | table (badKey : Datum) (rows : List (Datum × Datum))
  /-- a form handed over as a value -/
  | quoted (mark : Nat) (form : Datum)
deriving Inhabited

/-- The kinds of values. -/
inductive Kind where
  | str
  | int
  | real
  | bool
  | nil
  | list
  | map
  | fn
  | native
deriving DecidableEq, Repr

/-- The name of a kind in messages. -/
def Kind.name : Kind → String
  | .str => "str"
  | .int => "int"
  | .real => "real"
  | .bool => "bool"
  | .nil => "nil"
  | .list => "list"
  | .map => "map"
  | .fn => "fn"
  | .native => "external-fn"

namespace Datum

/-- The kind of a datum; none if it is not a value. -/
def kind? : Datum → Option Kind
  | .str _ => some .str
  | .int _ => some .int
  | .real _ _ => some .real
  | .bool _ => some .bool
  | .nil => some .nil
  | .list _ => some .list
  | .map _ => some .map
  | .table _ _ => some .map
  | .fn _ _ _ => some .fn
  | .native _ _ => some .native
  | _ => none

/-- The least integer of the language, `-2 ^ 63`. -/
def minInt : Int := -9223372036854775808

/-- The greatest integer of the language, `2 ^ 63 - 1`. -/
def maxInt : Int := 9223372036854775807

/-- Is the integer one of the language's? -/
def inRange (n : Int) : Bool :=
  minInt ≤ n && n ≤ maxInt

end Datum

/-- The forms that look like calls but decide themselves what to evaluate. -/
inductive SpecialForm where
  | lambda
  | define
  | branch
  | allOf
  | anyOf
deriving DecidableEq, Repr

/-- The word that names a special form at the head of a call. -/
def SpecialForm.name : SpecialForm → String
  | .lambda => "fn"
  | .define => "def"
  | .branch => "if"
  | .allOf => "and"
  | .anyOf => "or"

/-- All special forms. -/
def SpecialForm.all : List SpecialForm := [.lambda, .define, .branch, .allOf, .anyOf]

/-- The special form that a name stands for. -/
def SpecialForm.ofName? (name : String) : Option SpecialForm :=
  SpecialForm.all.find? fun f => f.name == name

/-- The special form that the head of a call stands for. -/
def Datum.special? : Datum → Option SpecialForm
  | .symbol name => SpecialForm.ofName? name
  | _ => none

end DynLisp
