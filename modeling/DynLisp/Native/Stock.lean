import DynLisp.Native.Reply

/-!
# Stock procedures

Ready-made procedures that a host can register under names of its own.
-/

namespace DynLisp

namespace Stock

/-- The number of arguments. -/
def count : HostProcedure := fun _ args => .give (.int args.length)

/-- The arguments as a list. -/
def list : HostProcedure := fun _ args => .give (.list args)

/-- The first argument. -/
def first : HostProcedure := fun _ args =>
  match args with
  | [] => .fail .noElement
  | d :: _ => .give d

/-- The number of scopes during the call. -/
def depth : HostProcedure := fun sight _ => .give (.int sight.depth)

/-- The level of evaluation during the call. -/
def level : HostProcedure := fun sight _ => .give (.int sight.level)

/-- The limit on levels. -/
def limit : HostProcedure := fun sight _ => .give (sight.limit.elim .nil .int)

/-- Nothing. -/
def nothing : HostProcedure := fun _ _ => .give .absent

/-- Always the same thing. -/
def constant (d : Datum) : HostProcedure := fun _ _ => .give d

/-- The last of some values, which must exist. -/
def last (values : List Datum) : Reply :=
  match values.getLast? with
  | some d => .give d
  | none => .fail .noElement

/-- The last value of a source text.  If the text fails, so does the procedure. -/
def script (source : String) : HostProcedure := fun _ _ =>
  .run source fun outcome =>
    match outcome with
    | .error f => .fail f
    | .ok values => last values

/-- The last value of a source text, or something else if the text fails. -/
def rescue (source : String) (instead : Datum) : HostProcedure := fun _ _ =>
  .run source fun outcome =>
    match outcome with
    | .error _ => .give instead
    | .ok values => last values

/-- The number of calls so far, this one included. -/
def counter : HostProcedure := fun _ _ =>
  .consult fun memory =>
    let calls := match memory with
      | .int n => n + 1
      | _ => 1
    .keep (.int calls) (.give (.int calls))

/-- Always a fault. -/
def failure (f : Fault) : HostProcedure := fun _ _ => .fail f

end Stock

end DynLisp
