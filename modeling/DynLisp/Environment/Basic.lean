import DynLisp.Fault

/-!
# Environments

A stack of scopes over the global one, and the level of evaluation with its limit.  A name means its
innermost binding, whoever made it: scope is dynamic.  The global scope is a part of the structure,
so the stack is never empty.
-/

namespace DynLisp

/-- The bindings of one scope. -/
abbrev Scope := Assoc Datum

/-- Scopes, and how deep evaluation is and may be. -/
structure Environment where
  /-- the scopes above the global one, innermost first -/
  inner : List Scope
  globals : Scope
  /-- the deepest level allowed, if there is a limit -/
  limit : Option Int
  level : Nat

namespace Environment

/-- Only the global scope, and nothing in it. -/
def empty (limit : Option Int) : Environment := ⟨[], [], limit, 0⟩

/-- All scopes, innermost first. -/
def scopes (e : Environment) : List Scope := e.inner ++ [e.globals]

/-- The number of scopes. -/
def depth (e : Environment) : Nat := e.inner.length + 1

/-- Opens a scope. -/
def enter (e : Environment) : Environment := { e with inner := [] :: e.inner }

/-- Closes the innermost scope, if it is not the global one. -/
def leave (e : Environment) : Environment := { e with inner := e.inner.tail }

/-- Closes the innermost scope; the global one cannot be closed. -/
def exit (e : Environment) : Except Fault Environment :=
  if e.inner.isEmpty then .error .globalExit else .ok e.leave

/-- Binds a name in the innermost scope. -/
def define (e : Environment) (name : String) (value : Datum) : Environment :=
  match e.inner with
  | [] => { e with globals := Assoc.insert e.globals name value }
  | scope :: rest => { e with inner := Assoc.insert scope name value :: rest }

/-- Binds a name in the global scope. -/
def defineGlobal (e : Environment) (name : String) (value : Datum) : Environment :=
  { e with globals := Assoc.insert e.globals name value }

/-- The innermost binding of a name. -/
def lookup? (e : Environment) (name : String) : Option Datum :=
  match e.inner.findSome? fun scope => Assoc.find? scope name with
  | some value => some value
  | none => Assoc.find? e.globals name

/-- Looking a name up goes through all scopes, innermost first. -/
theorem lookup?_eq_findSome? (e : Environment) (name : String) :
    e.lookup? name = e.scopes.findSome? fun scope => Assoc.find? scope name := by
  unfold lookup? scopes
  rw [List.findSome?_append]
  cases e.inner.findSome? fun scope => Assoc.find? scope name <;> simp

/-- The innermost binding of a name, which must exist. -/
def lookup (e : Environment) (name : String) : Except Fault Datum :=
  match e.lookup? name with
  | some value => .ok value
  | none => .error (.unbound name)

/-- Does some scope bind the name? -/
def contains (e : Environment) (name : String) : Bool :=
  e.scopes.any fun scope => (Assoc.find? scope name).isSome

/-- One level deeper, unless the limit is reached. -/
def descend (e : Environment) : Except Fault Environment :=
  match e.limit with
  | none => .ok { e with level := e.level + 1 }
  | some limit =>
    if limit ≤ e.level then .error (.tooDeep limit) else .ok { e with level := e.level + 1 }

/-- One level back. -/
def ascend (e : Environment) : Environment := { e with level := e.level - 1 }

/-- The bindings of a scope in messages. -/
def scopeText (scope : Scope) : String :=
  "\x7b" ++ commas (scope.map fun b => b.1 ++ ": " ++ b.2.inspect) ++ "\x7d"

/-- The innermost scope, and whether there are more. -/
def text (e : Environment) : String :=
  match e.inner with
  | [] => scopeText e.globals
  | scope :: _ => scopeText scope ++ " -> ..."

/-- All scopes, innermost first. -/
def inspect (e : Environment) : String :=
  "<Environment stack: " ++ String.intercalate " -> " (e.scopes.map scopeText) ++ ">"

end Environment

end DynLisp
