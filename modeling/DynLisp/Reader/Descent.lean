import DynLisp.Reader.Stream

/-!
# Recursive descent

A form can be read by routines that call each other, one for each kind of bracket.  They look at
the next token before they decide what to do with it, and they count a bracket as open while they
read what is in it, however that ends.
-/

namespace DynLisp

namespace Stream

/-- Counts one open bracket while an action runs, however it ends. -/
def nested {α : Type} (act : Reader α) : Reader α := fun s =>
  if s.limit ≤ s.nesting then .error (.read (.tooDeep s.limit)) s
  else
    match act { s with nesting := s.nesting + 1 } with
    | .ok a u => .ok a { u with nesting := u.nesting - 1 }
    | .error f u => .error f { u with nesting := u.nesting - 1 }

namespace Descent

mutual

/-- Reads one form, with so many calls inside each other. -/
def form : Nat → Reader Datum
  | 0 => throw (.read .endOfInput)
  | n + 1 => do
    let t ← expectMore
    match t.kind with
    | .string | .int | .real | .bool => return t.value
    | .nil => return .nil
    | .symbol =>
      match t.name? with
      | some name => return .symbol name
      | none => throw (.read (.nameless t.value))
    | .openParen =>
      let items ← nested (callItems n [])
      discard advance
      return .call 0 items
    | .openBrace => nested (collection n)
    | _ => throw (.read (.unexpected t))

/-- Reads the forms up to a closing parenthesis, which is looked at and left. -/
def callItems : Nat → List Datum → Reader (List Datum)
  | 0, _ => throw (.read .endOfInput)
  | n + 1, taken => do
    match ← peekKind with
    | none => throw (.read .endOfInput)
    | some .closeParen => return taken.reverse
    | some _ =>
      let d ← form n
      callItems n (d :: taken)

/-- Reads the rest of a list or map form after its opening brace. -/
def collection : Nat → Reader Datum
  | 0 => throw (.read .endOfInput)
  | n + 1 => do
    match ← peekKind with
    | none => throw (.read .endOfInput)
    | some .colon =>
      discard advance
      let t ← expectMore
      if t.kind = .closeBrace then return .mapForm [] else throw (.read .badEmptyMap)
    | some .closeBrace =>
      discard advance
      return .listForm []
    | some _ =>
      let first ← form n
      match ← peekKind, first with
      | some .colon, .symbol key =>
        discard advance
        mapRest n [] key
      | some .colon, _ => throw (.read .keyNotSymbol)
      | _, _ => listRest n [first]

/-- Reads the rest of a list form after some of its forms. -/
def listRest : Nat → List Datum → Reader Datum
  | 0, _ => throw (.read .endOfInput)
  | n + 1, taken => do
    match ← peekKind with
    | none => throw (.read .endOfInput)
    | some .closeBrace =>
      discard advance
      return .listForm taken.reverse
    | some .colon => throw (.read .colonInList)
    | some _ =>
      let d ← form n
      listRest n (d :: taken)

/-- Reads the rest of a map form after a key and its colon. -/
def mapRest : Nat → Assoc Datum → String → Reader Datum
  | 0, _, _ => throw (.read .endOfInput)
  | n + 1, entries, key => do
    let d ← form n
    let entries := Assoc.insert entries key d
    let t ← expectMore
    match t.kind with
    | .closeBrace => return .mapForm entries
    | .symbol =>
      let c ← expectMore
      if c.kind = .colon then mapRest n entries t.value.plain
      else throw (.read (.expectedColon t.value.plain))
    | _ => throw (.read .expectedKey)

end

end Descent

end Stream

end DynLisp
