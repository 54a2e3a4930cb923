import DynLisp.Environment.Basic

/-!
# Commands on an environment

The operations of an environment as data, one command at a time, with blocks that are opened and
closed again: a block is one more level or one more scope.  Closing a block undoes what opening it
did, also if a fault closes it.
-/

namespace DynLisp

namespace Environment

/-- What a block added when it was opened. -/
inductive Block where
  | level
  | frame
deriving DecidableEq, Repr

/-- An operation. -/
inductive Command where
  | enter
  | exit
  | define (name : String) (value : Datum)
  | defineGlobal (name : String) (value : Datum)
  | lookup (name : String)
  | contains (name : String)
  | openLevel
  | openFrame
  /-- ends the block opened last -/
  | close
  /-- ends the block opened last by a fault that passes through it -/
  | abort

/-- What an operation answers. -/
inductive Answer where
  | done
  | value (d : Datum)
  | truth (b : Bool)
  | count (n : Nat)

/-- An environment with the blocks that are open, the last one first. -/
structure Bench where
  env : Environment
  blocks : List Block

/-- An environment in which no block is open. -/
def Bench.ofEnvironment (env : Environment) : Bench := ⟨env, []⟩

/-- Ends the block opened last, in whatever way. -/
def Bench.endBlock : EStateM Fault Bench Unit := fun b =>
  match b.blocks with
  | [] => .error .noElement b
  | .level :: rest => .ok () ⟨b.env.ascend, rest⟩
  | .frame :: rest =>
    match b.env.exit with
    | .ok env => .ok () ⟨env, rest⟩
    | .error f => .error f ⟨b.env, rest⟩

/-- Runs one operation. -/
def Command.run : Command → EStateM Fault Bench Answer
  | .enter => fun b => .ok .done { b with env := b.env.enter }
  | .exit => fun b =>
    match b.env.exit with
    | .ok env => .ok .done { b with env := env }
    | .error f => .error f b
  | .define name value => fun b => .ok .done { b with env := b.env.define name value }
  | .defineGlobal name value => fun b => .ok .done { b with env := b.env.defineGlobal name value }
  | .lookup name => fun b =>
    match b.env.lookup name with
    | .ok d => .ok (.value d) b
    | .error f => .error f b
  | .contains name => fun b => .ok (.truth (b.env.contains name)) b
  | .openLevel => fun b =>
    match b.env.descend with
    | .ok env => .ok (.count env.level) ⟨env, .level :: b.blocks⟩
    | .error f => .error f b
  | .openFrame => fun b => .ok (.count 0) ⟨b.env.enter, .frame :: b.blocks⟩
  | .close => do
    Bench.endBlock
    return .done
  | .abort => do
    Bench.endBlock
    -- the fault is not taken up, so it goes on to whoever is outside
    return .truth false

end Environment

end DynLisp
