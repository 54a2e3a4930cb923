import DynLisp.Datum.Equality
import DynLisp.Evaluation
import DynLisp.Native.Stock

/-!
# Sessions

A session keeps the state of an interpreter between requests: the environment with its global
bindings, and the procedures that the host has registered.
-/

namespace DynLisp

/-- A thing that is no native and has been wrapped as one. -/
structure Wrapped where
  thing : Datum
  /-- the number under which the host handed the thing over, if it is known to come from the host -/
  origin : Option Nat
  /-- the number of the procedure that stands for it -/
  index : Nat

/-- Is it the same thing that is wrapped?  Things handed over separately differ although they look
alike, unless the host keeps only one copy of them. -/
def Wrapped.holds (w : Wrapped) (thing : Datum) (origin : Option Nat) : Bool :=
  let alike := match w.thing.equal thing with
    | .ok b => b
    | .error _ => false
  let together := match w.origin, origin with
    | some m, some n => m == n
    | _, _ => true
  alike && (together || thing.isShared)

/-- An interpreter with its state. -/
structure Session where
  world : World
  /-- the host's procedures, by number -/
  hosted : List HostProcedure
  /-- what the host has handed over under a name, each with a number of its own -/
  handed : Assoc (Nat × Datum)
  /-- what has been wrapped as a native -/
  wrapped : List Wrapped

namespace Session

/-- The number of the procedure that counts its arguments. -/
def countIndex : Nat := 0

/-- The number of the procedure that lists its arguments. -/
def listIndex : Nat := 1

/-- The procedures that every session has. -/
def stock : List HostProcedure := [Stock.count, Stock.list]

/-- The replies of the builtins and of the given procedures. -/
def nativesOf (hosted : List HostProcedure) : Natives
  | .builtin b => fun _ args => b.reply args
  | .hosted index => hosted.getD index Stock.nothing

/-- The replies of all procedures of a session. -/
def natives (s : Session) : Natives := nativesOf s.hosted

/-- The global scope in which every session starts. -/
def initialScope : Scope :=
  Assoc.ofList (Builtin.all.map fun b => (b.name, .native b.name (.builtin b)))

/-- A session on an environment. -/
def ofEnvironment (env : Environment) : Session := ⟨⟨env, "", 1, .nil⟩, stock, [], []⟩

/-- A new session with the given limit on levels. -/
def start (limit : Int) : Session :=
  ofEnvironment { Environment.empty (some limit) with globals := initialScope }

/-- What came of an action: its result, what it wrote, and the session after it. -/
structure Outcome (α : Type) where
  result : Except Fault α
  written : String
  session : Session

/-- Runs an action. -/
def run {α : Type} (s : Session) (act : Natives → Eval α) : Outcome α :=
  match act s.natives { s.world with written := "" } with
  | .ok a w => ⟨.ok a, w.written, { s with world := { w with written := "" } }⟩
  | .error f w => ⟨.error f, w.written, { s with world := { w with written := "" } }⟩

/-- Reads and evaluates a source text. -/
def evalSource (s : Session) (text : String) : Outcome (List Datum) :=
  s.run fun natives => DynLisp.evalSource natives text

/-- Evaluates one form. -/
def evalForm (s : Session) (form : Datum) : Outcome Datum :=
  s.run fun natives => interpret natives form

/-- Applies a value to operands that are not evaluated yet. -/
def apply (s : Session) (f : Datum) (operands : List Datum) : Outcome Datum :=
  s.run fun natives => applyTo natives f operands

/-- Replaces the environment. -/
def withEnvironment (s : Session) (env : Environment) : Session :=
  { s with world := { s.world with env := env } }

/-- Binds a native globally under a name; its own name may be another. -/
def bindNative (s : Session) (name : String) (native : Datum) : Session :=
  s.withEnvironment (s.world.env.defineGlobal name native)

/-- Registers a procedure and binds a native that runs it. -/
def register (s : Session) (name : String) (procedure : HostProcedure) : Datum × Session :=
  let native := Datum.native name (.hosted s.hosted.length)
  (native, { s with hosted := s.hosted ++ [procedure] }.bindNative name native)

/-- Binds a native that runs a procedure registered before. -/
def registerIndex (s : Session) (name : String) (index : Nat) : Datum × Session :=
  let native := Datum.native name (.hosted index)
  (native, s.bindNative name native)

/-- Binds a name to what the host hands over. -/
def define (s : Session) (name : String) (value : Datum) : Session :=
  let number := s.world.next
  { s with
    world := { s.world with env := s.world.env.define name value, next := number + 1 }
    handed := Assoc.insert s.handed name (number, value) }

/-- The number under which the host handed over what a name means, if the name still means that. -/
def origin? (s : Session) (name : String) (meaning : Datum) : Option Nat :=
  match Assoc.find? s.handed name with
  | some (number, value) =>
    match value.equal meaning with
    | .ok true => some number
    | _ => none
  | none => none

/-- Binds what a name means under another name.  A native is bound as it is; anything else is
wrapped as a native that cannot be called, and the same thing is always wrapped in the same way. -/
def registerSame (s : Session) (name other : String) : Except Fault (Datum × Session) :=
  match s.world.env.lookup other with
  | .error f => .error f
  | .ok (.native own procedure) =>
    let native := Datum.native own procedure
    .ok (native, s.bindNative name native)
  | .ok thing =>
    let origin := s.origin? other thing
    match s.wrapped.find? (·.holds thing origin) with
    | some w => .ok (s.registerIndex name w.index)
    | none =>
      let w : Wrapped := ⟨thing, origin, s.hosted.length⟩
      .ok ({ s with wrapped := s.wrapped ++ [w] }.register name
        (Stock.failure (.notProcedure thing)))

end Session

end DynLisp
