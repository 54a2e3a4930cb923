import DynLisp.Datum.Value

/-!
# Text of values

`display` writes a value for people, `source` as it could be written in a program: the two differ in
texts, which `source` puts in quotes with the four escapes of the language.
-/

namespace DynLisp

namespace Datum

/-- One character of a text literal. -/
def escapeChar (c : Char) : List Char :=
  match c with
  | '\\' => ['\\', '\\']
  | '"' => ['\\', '"']
  | '\n' => ['\\', 'n']
  | '\t' => ['\\', 't']
  | c => [c]

/-- A text literal. -/
def stringLiteral (text : String) : String :=
  String.ofList ('"' :: text.toList.flatMap escapeChar ++ ['"'])

mutual

/-- The text of a value; `literal` decides whether texts are written as literals. -/
def write (literal : Bool) : Datum → Except Fault String
  | .str text => .ok (if literal then stringLiteral text else text)
  | .bool b => .ok (if b then "true" else "false")
  | .int n => .ok (toString n)
  | .real x _ => .ok (Decimal.realText x)
  | .nil => .ok "<Nil>"
  | .list items => (writeAll literal items).map fun text => "\x7b " ++ text ++ "\x7d"
  | .map [] => .ok "\x7b:\x7d"
  | .map entries => (writeEntries literal entries).map fun text => "\x7b " ++ text ++ "\x7d"
  | .table _ rows => (writeRows literal rows).map fun text => "\x7b " ++ text ++ "\x7d"
  | .fn _ _ _ => .ok "<Fn::Internal>"
  | .native _ _ => .ok "<Fn::External>"
  | d => .error (.notValue d)

/-- The items of a list, each followed by a blank. -/
def writeAll (literal : Bool) : List Datum → Except Fault String
  | [] => .ok ""
  | d :: rest =>
    match write literal d with
    | .error f => .error f
    | .ok text => (writeAll literal rest).map fun more => text ++ " " ++ more

/-- The entries of a map, each followed by a blank. -/
def writeEntries (literal : Bool) : List (String × Datum) → Except Fault String
  | [] => .ok ""
  | (key, d) :: rest =>
    match write literal d with
    | .error f => .error f
    | .ok text => (writeEntries literal rest).map fun more => key ++ ": " ++ text ++ " " ++ more

/-- The rows of a table, each followed by a blank. -/
def writeRows (literal : Bool) : List (Datum × Datum) → Except Fault String
  | [] => .ok ""
  | (key, d) :: rest =>
    match write literal d with
    | .error f => .error f
    | .ok text =>
      (writeRows literal rest).map fun more => key.plain ++ ": " ++ text ++ " " ++ more

end

/-- The text of a value for people. -/
def display (d : Datum) : Except Fault String := d.write false

/-- The text of a value as in a program. -/
def source (d : Datum) : Except Fault String := d.write true

end Datum

end DynLisp
