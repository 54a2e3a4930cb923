import DynLisp.Datum.Place
import DynLisp.Environment.Basic
import DynLisp.Native.Builtin
import DynLisp.Reader.Basic

/-!
# Evaluation

Atoms evaluate to themselves, symbols to their innermost binding, list and map forms item by item.
A call whose head names a special form is that form's own affair; any other call evaluates its head
and applies it.

* A function checks the number of its operands, opens a scope, evaluates and binds the operands
  there one by one, and runs its body in that scope.
* A native has its operands evaluated where the call stands.  What it returns is accepted before the
  program sees it, and a failure that is not the program's own is reported by the native's name.

Every evaluation of a form is one level deeper than the form around it.  Each definition takes the
evaluation of the forms inside as the argument `go`; `evaluate` ties the knot, with as many rounds
as there is room.
-/

namespace DynLisp

/-- The state of a session. -/
structure World where
  env : Environment
  /-- what has been written -/
  written : String
  /-- the first place or mark that is not in use -/
  next : Nat
  /-- what the host's procedures remember from call to call -/
  host : Datum

/-- Actions on the state that may fault.  The state is kept when they do. -/
abbrev Eval := EStateM Fault World

namespace Eval

/-- A result that does not depend on the state. -/
def ofExcept {α : Type} : Except Fault α → Eval α
  | .ok a => fun w => .ok a w
  | .error f => fun w => .error f w

/-- Runs an action one level deeper. -/
def nested {α : Type} (act : Eval α) : Eval α := fun w =>
  match w.env.descend with
  | .error f => .error f w
  | .ok env =>
    match act { w with env := env } with
    | .ok a w => .ok a { w with env := w.env.ascend }
    | .error f w => .error f { w with env := w.env.ascend }

/-- Runs an action in a scope of its own. -/
def framed {α : Type} (act : Eval α) : Eval α := fun w =>
  match act { w with env := w.env.enter } with
  | .ok a w => .ok a { w with env := w.env.leave }
  | .error f w => .error f { w with env := w.env.leave }

/-- Runs an action, and changes its fault if it has one. -/
def mapFault {α : Type} (g : Fault → Fault) (act : Eval α) : Eval α := fun w =>
  match act w with
  | .ok a w => .ok a w
  | .error f w => .error (g f) w

/-- Runs an action on behalf of a native. -/
def contained {α : Type} (name : String) (act : Eval α) : Eval α := mapFault (Fault.within name) act

/-- Runs an action on behalf of an interpreter. -/
def interpreted {α : Type} (act : Eval α) : Eval α := mapFault Fault.reported act

/-- Runs an action and returns what came of it, also when it faults. -/
def attempt {α : Type} (act : Eval α) : Eval (Except Fault α) := fun w =>
  match act w with
  | .ok a w => .ok (.ok a) w
  | .error f w => .ok (.error f) w

/-- The innermost binding of a name. -/
def lookup (name : String) : Eval Datum := fun w => ofExcept (w.env.lookup name) w

/-- Binds a name in the innermost scope. -/
def define (name : String) (value : Datum) : Eval Unit := fun w =>
  .ok () { w with env := w.env.define name value }

/-- Binds a name in the global scope. -/
def defineGlobal (name : String) (value : Datum) : Eval Unit := fun w =>
  .ok () { w with env := w.env.defineGlobal name value }

/-- Writes a text. -/
def say (text : String) : Eval Unit := fun w => .ok () { w with written := w.written ++ text }

/-- What a native sees. -/
def sight : Eval Sight := fun w => .ok ⟨w.env.depth, w.env.level, w.env.limit⟩ w

/-- What the host remembers. -/
def consult : Eval Datum := fun w => .ok w.host w

/-- Has the host remember something. -/
def keep (memory : Datum) : Eval Unit := fun w => .ok () { w with host := memory }

/-- Gives the calls of a form places of their own. -/
def settle (form : Datum) : Eval Datum := fun w =>
  let (form, next) := form.settle w.next
  .ok form { w with next := next }

/-- Gives a nan that was just made a mark of its own. -/
def mint (d : Datum) : Eval Datum := fun w =>
  match d with
  | .real x 0 => if x.isNaN then .ok (.real x w.next) { w with next := w.next + 1 } else .ok d w
  | d => .ok d w

/-! ## Sequences -/

/-- Evaluates forms from left to right. -/
def each (go : Datum → Eval Datum) : List Datum → Eval (List Datum)
  | [] => pure []
  | form :: rest => do
    let value ← go form
    let values ← each go rest
    return value :: values

/-- Evaluates the forms of entries from left to right. -/
def entries (go : Datum → Eval Datum) : List (String × Datum) → Eval (List (String × Datum))
  | [] => pure []
  | (key, form) :: rest => do
    let value ← go form
    let values ← entries go rest
    return (key, value) :: values

/-- Evaluates forms from left to right and keeps the last value. -/
def body (go : Datum → Eval Datum) (result : Datum) : List Datum → Eval Datum
  | [] => pure result
  | form :: rest => do
    let value ← go form
    body go value rest

/-- Evaluates operands in the innermost scope and binds each there before the next is evaluated. -/
def bindAll (go : Datum → Eval Datum) : List String → List Datum → Eval Unit
  | name :: names, operand :: operands => do
    let value ← go operand
    define name value
    bindAll go names operands
  | _, _ => pure ()

/-- Evaluates a form that has just been read. -/
def fresh (go : Datum → Eval Datum) (form : Datum) : Eval Datum := do
  let form ← settle form
  interpreted (go form)

/-- Runs the forms that were read, then meets the fault that ended reading. -/
def reading (go : Datum → Eval Datum) (r : Reading) : Eval (List Datum) := do
  let values ← each (fresh go) r.forms
  match r.failure with
  | none => return values
  | some f => throw f

/-- Reads and evaluates a source text. -/
def source (go : Datum → Eval Datum) (text : String) : Eval (List Datum) :=
  reading go (read text)

/-! ## Application -/

/-- Carries out what a native does. -/
def reply (go : Datum → Eval Datum) : Reply → Eval Datum
  | .give d => pure d
  | .fail f => throw f
  | .say text next => do
    say text
    reply go next
  | .consult next => do
    let memory ← consult
    reply go (next memory)
  | .keep memory next => do
    keep memory
    reply go next
  | .run text next => do
    let outcome ← attempt (source go text)
    reply go (next outcome)

/-- What the program sees of a native's result: nil stands for nothing. -/
def accepted (d : Datum) : Eval Datum :=
  match d with
  | .absent => pure .nil
  | d => ofExcept d.accept

/-- Applies a native. -/
def applyNative (natives : Natives) (go : Datum → Eval Datum) (name : String)
    (procedure : Procedure) (operands : List Datum) : Eval Datum := do
  let args ← each go operands
  let seen ← sight
  let result ← contained name do
    let result ← reply go (natives procedure seen args)
    accepted result
  mint result

/-- Applies a function. -/
def applyFn (go : Datum → Eval Datum) (params : List String) (forms operands : List Datum) :
    Eval Datum :=
  if operands.length = params.length then
    framed do
      bindAll go params operands
      body go .nil forms
  else throw (.argumentCount params.length operands.length)

/-- Applies a value to operands that are not evaluated yet. -/
def apply (natives : Natives) (go : Datum → Eval Datum) (f : Datum) (operands : List Datum) :
    Eval Datum :=
  match f with
  | .native name procedure => applyNative natives go name procedure operands
  | .fn _ params forms => applyFn go params forms operands
  | d =>
    match d.kind? with
    | some kind => throw (.notCallable kind)
    | none => throw (.notValue d)

/-! ## Special forms -/

/-- The names of parameters, which must be distinct symbols. -/
def paramNames (seen : List String) : List Datum → Except Fault (List String)
  | [] => .ok []
  | .symbol name :: rest =>
    if seen.contains name then .error (.form (.duplicateParameter name))
    else (paramNames (name :: seen) rest).map (name :: ·)
  | d :: _ => .error (.form (.badParameter d))

/-- A function from a parameter list and a body. -/
def lambda (place : Nat) : List Datum → Except Fault Datum
  | .call _ params :: forms => (paramNames [] params).map fun names => .fn place names forms
  | .listForm params :: forms => (paramNames [] params).map fun names => .fn place names forms
  | _ => .error (.form .noParameters)

/-- Are all forms true?  Evaluation ends at the first that is not. -/
def allOf (go : Datum → Eval Datum) : List Datum → Eval Bool
  | [] => pure true
  | form :: rest => do
    let value ← go form
    if ← ofExcept value.truthy then allOf go rest else return false

/-- Is some form true?  Evaluation ends at the first that is. -/
def anyOf (go : Datum → Eval Datum) : List Datum → Eval Bool
  | [] => pure false
  | form :: rest => do
    let value ← go form
    if ← ofExcept value.truthy then return true else anyOf go rest

/-- Evaluates a condition and then one of two forms. -/
def branch (go : Datum → Eval Datum) (condition yes : Datum) (no : Option Datum) : Eval Datum := do
  let value ← go condition
  if ← ofExcept value.truthy then go yes
  else
    match no with
    | some form => go form
    | none => return .nil

/-- A call of a special form. -/
def special (go : Datum → Eval Datum) (place : Nat) : SpecialForm → List Datum → Eval Datum
  | .lambda, operands => ofExcept (lambda place operands)
  | .define, [.symbol name, form] => do
    let value ← go form
    defineGlobal name value
    return value
  | .define, _ => throw (.form .badDefine)
  | .branch, [condition, yes] => branch go condition yes none
  | .branch, [condition, yes, no] => branch go condition yes (some no)
  | .branch, [] => throw (.form .shortBranch)
  | .branch, [_] => throw (.form .shortBranch)
  | .branch, _ => throw (.form .longBranch)
  | .allOf, operands => return .bool (← allOf go operands)
  | .anyOf, operands => return .bool (← anyOf go operands)

/-! ## Forms -/

/-- Evaluates a call. -/
def call (natives : Natives) (go : Datum → Eval Datum) (place : Nat) : List Datum → Eval Datum
  | [] => throw (.form .emptyCall)
  | head :: operands =>
    match head.special? with
    | some form => special go place form operands
    | none => do
      let f ← go head
      apply natives go f operands

/-- Evaluates a form whose inner forms are evaluated by `go`. -/
def form (natives : Natives) (go : Datum → Eval Datum) : Datum → Eval Datum
  | .symbol name => lookup name
  | .call place items => call natives go place items
  | .listForm items => do return .list (← each go items)
  | .mapForm es => do return .map (Assoc.ofList (← entries go es))
  | .str text => pure (.str text)
  | .int n => pure (.int n)
  | .real x mark => pure (.real x mark)
  | .bool b => pure (.bool b)
  | .nil => pure .nil
  | d => throw (.cannotEvaluate d)

end Eval

/-- Evaluates a form, with room for the given number of levels. -/
def evaluate (natives : Natives) : Nat → Datum → Eval Datum
  | 0, _ => throw .stackSpent
  | room + 1, d => Eval.nested (Eval.form natives (evaluate natives room) d)

/-- The room of an environment that has no limit: the levels for which the host's stack lasts. -/
def freeRoom : Nat := 10000

/-- The levels that the limit leaves; without a limit, those for which the host's stack lasts. -/
def Environment.levelsLeft (e : Environment) : Nat :=
  match e.limit with
  | some limit => (limit - e.level).toNat
  | none => freeRoom

/-- Room for every level that is left.  A limit takes one more, at which it is met. -/
def Environment.room (e : Environment) : Nat :=
  match e.limit with
  | some _ => e.levelsLeft + 1
  | none => e.levelsLeft

/-- There is room for more than `n` levels if more than `n` are left. -/
theorem Environment.lt_room {e : Environment} {n : Nat} (h : n < e.levelsLeft) : n < e.room := by
  unfold room
  split <;> omega

theorem Environment.levelsLeft_of_some {e : Environment} {limit : Int} (h : e.limit = some limit) :
    e.levelsLeft = (limit - e.level).toNat := by
  rw [levelsLeft, h]

theorem Environment.room_of_some {e : Environment} {limit : Int} (h : e.limit = some limit) :
    e.room = (limit - e.level).toNat + 1 := by
  rw [room, levelsLeft_of_some h, h]

/-- Evaluates one form. -/
def evalForm (natives : Natives) (d : Datum) : Eval Datum := fun w =>
  evaluate natives w.env.room d w

/-- Applies a value to operands that are not evaluated yet. -/
def applyTo (natives : Natives) (f : Datum) (operands : List Datum) : Eval Datum := fun w =>
  Eval.apply natives (evaluate natives w.env.room) f operands w

/-- Evaluates one form for an interpreter. -/
def interpret (natives : Natives) (d : Datum) : Eval Datum :=
  Eval.interpreted (evalForm natives d)

/-- Reads and evaluates a source text for an interpreter. -/
def evalSource (natives : Natives) (text : String) : Eval (List Datum) := fun w =>
  Eval.source (evaluate natives w.env.room) text w

end DynLisp
