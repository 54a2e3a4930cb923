import DynLisp.Reader.Basic

/-!
# Token streams

A stream hands out tokens one at a time and can look ahead: tokens that have been looked at wait
in a buffer.  It reads a single form when asked to, and leaves everything after that form unread.
-/

namespace DynLisp

/-- Tokens still to be read: those that have been looked at already, then the supply. -/
structure Stream where
  buffer : List Token
  supply : Lexed
  limit : Int
  /-- brackets that are open around the tokens -/
  nesting : Nat

/-- Actions on a stream. -/
abbrev Reader := EStateM Fault Stream

/-- What came of scanning for one form, with the tokens that are left. -/
inductive Scan where
  | complete (form : Datum) (rest : List Token)
  /-- `kept` tells whether the token that cannot stand there is still the first of the rest -/
  | reject (cause : ReadFault) (kept : Bool) (rest : List Token)
  /-- the tokens ended before the form did -/
  | hungry

/-- Scans for one form. -/
def Gauge.scan (g : Gauge) : ReadState → List Token → Scan
  | _, [] => .hungry
  | s, t :: ts =>
    match g.step s t with
    | .shift s' => g.scan s' ts
    | .complete d => .complete d ts
    | .reject cause kept => .reject cause kept (if kept then t :: ts else ts)

namespace Stream

/-- A stream over the tokens of a text. -/
def ofLexed (l : Lexed) (limit : Int) : Stream := ⟨[], l, limit, 0⟩

/-- The tokens that have not been consumed. -/
def unread (s : Stream) : List Token :=
  s.buffer ++ s.supply.tokens

/-- Takes the next token of the supply.  A fault is met once; afterwards the supply is at its
end. -/
def pull : Reader (Option Token) := fun s =>
  match s.supply with
  | ⟨t :: ts, failure⟩ => .ok (some t) { s with supply := ⟨ts, failure⟩ }
  | ⟨[], some f⟩ => .error f { s with supply := .empty }
  | ⟨[], none⟩ => .ok none s

/-- Looks at the next token without consuming it. -/
def peek : Reader (Option Token) := do
  match (← get).buffer with
  | t :: _ => return some t
  | [] =>
    match ← pull with
    | some t =>
      modify fun s => { s with buffer := s.buffer ++ [t] }
      return some t
    | none => return none

/-- Consumes the next token. -/
def advance : Reader (Option Token) := do
  match (← get).buffer with
  | t :: ts =>
    modify fun s => { s with buffer := ts }
    return some t
  | [] => pull

/-- Consumes the next token, which must exist. -/
def expectMore : Reader Token := do
  match ← advance with
  | some t => return t
  | none => throw (.read .endOfInput)

/-- The kind of the next token. -/
def peekKind : Reader (Option TokenKind) := do
  return (← peek).map (·.kind)

/-- The stream when only these tokens are left and at least `seen` of them have been looked at.
A token that was in the buffer is still there if it is left. -/
def upTo (s : Stream) (seen : Nat) (rest : List Token) : Stream :=
  let ahead := max seen (rest.length - s.supply.tokens.length)
  { s with buffer := rest.take ahead, supply := ⟨rest.drop ahead, s.supply.failure⟩ }

/-- The stream when all tokens are consumed and the fault behind them has been met. -/
def exhausted (s : Stream) : Stream := { s with buffer := [], supply := .empty }

/-- Reads on from a state until a form is complete. -/
def resume (opened : Int) (start : ReadState) : Reader Datum := fun s =>
  match Gauge.scan ⟨s.limit, opened⟩ start s.unread with
  | .complete d rest => .ok d (s.upTo 0 rest)
  | .reject cause kept rest => .error (.read cause) (s.upTo kept.toNat rest)
  | .hungry => .error (s.supply.failure.getD (.read .endOfInput)) s.exhausted

/-- Reads one form. -/
def form : Reader Datum := do
  resume (← get).nesting (.ready [])

/-- Reads the rest of a list or map form whose opening brace has been consumed and is not
counted. -/
def collection : Reader Datum := do
  resume ((← get).nesting - 1) (.ready [.brace []])

/-- Reads all forms. -/
def readAll (s : Stream) : Reading :=
  Gauge.readFrom ⟨s.limit, s.nesting⟩ s.supply.failure (.ready []) s.unread

end Stream

end DynLisp
