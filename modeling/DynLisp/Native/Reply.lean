import DynLisp.Fault

/-!
# Natives

A native is a procedure of the host.  What it does when called is a `Reply`: it may write, look up
and change what the host remembers, have the interpreter run some source text and go on with what
came of it, and in the end it returns something or fails.  It sees its arguments and, of the
evaluation around it, the counters in `Sight`.
-/

namespace DynLisp

/-- What a native sees of the evaluation that calls it. -/
structure Sight where
  /-- the number of scopes -/
  depth : Nat
  /-- the level of evaluation -/
  level : Nat
  /-- the limit on levels -/
  limit : Option Int
deriving DecidableEq, Repr

/-- What a native does. -/
inductive Reply where
  | give (d : Datum)
  | fail (f : Fault)
  | say (text : String) (next : Reply)
  /-- goes on with what the host remembers -/
  | consult (next : Datum → Reply)
  /-- has the host remember something from now on -/
  | keep (memory : Datum) (next : Reply)
  /-- runs source text in the same session and goes on with its values or its fault -/
  | run (source : String) (next : Except Fault (List Datum) → Reply)

/-- A procedure of the host. -/
abbrev HostProcedure := Sight → List Datum → Reply

/-- The reply of every procedure. -/
abbrev Natives := Procedure → HostProcedure

/-- The reply that returns or fails at once. -/
def Reply.ofExcept : Except Fault Datum → Reply
  | .ok d => .give d
  | .error f => .fail f

end DynLisp
