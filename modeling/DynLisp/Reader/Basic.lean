import DynLisp.Token.Lexer

/-!
# From tokens to forms

    form  =  atom  |  ( form* )  |  { }  |  { : }  |  { form+ }  |  { (symbol : form)+ }

The reader takes one token at a time and keeps the brackets that are open.  An open bracket that
waits for a form is a `Hole`; a `State` also knows the places inside a map where no form may stand.
`step` says what one token does, and everything else repeats it: a form is complete as soon as its
last token has been taken, so the reader never looks beyond it.
-/

namespace DynLisp

/-- An open bracket that waits for a form.  What it has taken so far stands last first. -/
inductive Hole where
  | call (taken : List Datum)
  | brace (taken : List Datum)
  /-- inside a map, after a key and its colon -/
  | value (entries : Assoc Datum) (key : String)

/-- What the reader has seen of a form. -/
inductive ReadState where
  /-- a form may start here -/
  | ready (holes : List Hole)
  /-- after a brace and a colon -/
  | emptyMap (holes : List Hole)
  /-- inside a map, before a key or the closing brace -/
  | beforeKey (entries : Assoc Datum) (holes : List Hole)
  /-- inside a map, after a key -/
  | afterKey (entries : Assoc Datum) (key : String) (holes : List Hole)

/-- The effect of one token. -/
inductive Verdict where
  | shift (state : ReadState)
  /-- the token completes a form -/
  | complete (form : Datum)
  /-- the token cannot stand here; `kept` tells whether it is left unread -/
  | reject (cause : ReadFault) (kept : Bool)

/-- How many brackets may be open at once, and how many are open around the form. -/
structure Gauge where
  limit : Int
  opened : Int

/-- A form fills the innermost hole. -/
def fill (d : Datum) : List Hole → Verdict
  | [] => .complete d
  | .call taken :: holes => .shift (.ready (.call (d :: taken) :: holes))
  | .brace taken :: holes => .shift (.ready (.brace (d :: taken) :: holes))
  | .value entries key :: holes => .shift (.beforeKey (Assoc.insert entries key d) holes)

/-- One more bracket opens, unless too many are open. -/
def Gauge.push (g : Gauge) (hole : Hole) (holes : List Hole) : Verdict :=
  if g.limit ≤ g.opened + holes.length then .reject (.tooDeep g.limit) false
  else .shift (.ready (hole :: holes))

/-- A token where a form may start. -/
def Gauge.start (g : Gauge) (holes : List Hole) (t : Token) : Verdict :=
  match t.kind with
  | .string | .int | .real | .bool => fill t.value holes
  | .nil => fill .nil holes
  | .symbol =>
    match t.name? with
    | some name => fill (.symbol name) holes
    | none => .reject (.nameless t.value) false
  | .openParen => g.push (.call []) holes
  | .openBrace => g.push (.brace []) holes
  | _ => .reject (.unexpected t) false

/-- The effect of one token. -/
def Gauge.step (g : Gauge) : ReadState → Token → Verdict
  | .ready (.call taken :: holes), t =>
    if t.kind = .closeParen then fill (.call 0 taken.reverse) holes
    else g.start (.call taken :: holes) t
  | .ready (.brace taken :: holes), t =>
    match t.kind, taken with
    | .closeBrace, _ => fill (.listForm taken.reverse) holes
    | .colon, [] => .shift (.emptyMap holes)
    | .colon, [.symbol key] => .shift (.ready (.value [] key :: holes))
    | .colon, [_] => .reject .keyNotSymbol true
    | .colon, _ => .reject .colonInList true
    | _, _ => g.start (.brace taken :: holes) t
  | .ready holes, t => g.start holes t
  | .emptyMap holes, t =>
    if t.kind = .closeBrace then fill (.mapForm []) holes else .reject .badEmptyMap false
  | .beforeKey entries holes, t =>
    match t.kind with
    | .closeBrace => fill (.mapForm entries) holes
    | .symbol => .shift (.afterKey entries t.value.plain holes)
    | _ => .reject .expectedKey false
  | .afterKey entries key holes, t =>
    if t.kind = .colon then .shift (.ready (.value entries key :: holes))
    else .reject (.expectedColon key) false

/-- The forms read, and the fault that ended reading if there was one. -/
structure Reading where
  forms : List Datum
  failure : Option Fault

/-- One more form in front. -/
def Reading.cons (d : Datum) (r : Reading) : Reading := ⟨d :: r.forms, r.failure⟩

/-- Where the tokens end: their own fault comes first, and an open form is a fault too. -/
def ReadState.finish (failure : Option Fault) : ReadState → Reading
  | .ready [] => ⟨[], failure⟩
  | _ => ⟨[], some (failure.getD (.read .endOfInput))⟩

/-- Reads all forms of a token sequence that ends with the given fault, if any. -/
def Gauge.readFrom (g : Gauge) (failure : Option Fault) : ReadState → List Token → Reading
  | s, [] => s.finish failure
  | s, t :: ts =>
    match g.step s t with
    | .shift s' => g.readFrom failure s' ts
    | .complete d => (g.readFrom failure (.ready []) ts).cons d
    | .reject cause _ => ⟨[], some (.read cause)⟩

/-- The most brackets that may be open at once in a source text. -/
def maxNesting : Int := 200

/-- Reads all forms. -/
def Lexed.read (l : Lexed) (limit : Int) : Reading :=
  Gauge.readFrom ⟨limit, 0⟩ l.failure (.ready []) l.tokens

/-- The forms of a source text. -/
def read (source : String) : Reading :=
  (lex source).read maxNesting

end DynLisp
