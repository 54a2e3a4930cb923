import DynLisp.Datum.Basic
import DynLisp.Decimal.Real
import DynLisp.Text.Quoted

/-!
# Inspection text

The text of any datum as messages show it: texts are quoted, a list is a tuple, and forms and
functions name what they are.
-/

namespace DynLisp

/-- The most digits of an integer that is read from or written to decimal text. -/
def maxDigits : Nat := 4300

/-- Texts joined by a comma and a blank. -/
def commas (texts : List String) : String :=
  String.intercalate ", " texts

/-- A tuple; a comma marks one that holds a single text. -/
def tuple : List String → String
  | [text] => "(" ++ text ++ ",)"
  | texts => "(" ++ commas texts ++ ")"

/-- The text of a truth value in messages. -/
def truthText (b : Bool) : String :=
  if b then "True" else "False"

namespace Datum

mutual

/-- The inspection text of a datum. -/
def inspect : Datum → String
  | .str text => Text.quoted text
  | .int n => toString n
  | .real x _ => Decimal.realText x
  | .bool b => truthText b
  | .nil => "Nil"
  | .list items => tuple (inspectAll items)
  | .map entries => "mappingproxy(\x7b" ++ commas (inspectFields entries) ++ "\x7d)"
  | .fn _ params _ => "Func(params=[" ++ commas (params.map Text.quoted) ++ "])"
  | .native name _ => "ExternalFn(" ++ Text.quoted name ++ ")"
  | .symbol name => "Symbol(" ++ Text.quoted name ++ ")"
  | .call _ items => "Expr(items=" ++ tuple (inspectAll items) ++ ")"
  | .listForm items => "ListLiteral(items=" ++ tuple (inspectAll items) ++ ")"
  | .mapForm entries => "MapLiteral(entries=" ++ tuple (inspectPairs entries) ++ ")"
  | .absent => "None"
  | .array _ items => "[" ++ commas (inspectAll items) ++ "]"
  | .record _ entries => "\x7b" ++ commas (inspectFields entries) ++ "\x7d"
  | .table _ rows => "mappingproxy(\x7b" ++ commas (inspectRows rows) ++ "\x7d)"
  | .quoted _ form => inspect form

/-- The inspection texts of several data. -/
def inspectAll : List Datum → List String
  | [] => []
  | d :: rest => inspect d :: inspectAll rest

/-- Named data as the fields of a record. -/
def inspectFields : List (String × Datum) → List String
  | [] => []
  | (name, d) :: rest => (Text.quoted name ++ ": " ++ inspect d) :: inspectFields rest

/-- Named data as pairs. -/
def inspectPairs : List (String × Datum) → List String
  | [] => []
  | (name, d) :: rest => tuple [Text.quoted name, inspect d] :: inspectPairs rest

/-- Data under keys of any kind. -/
def inspectRows : List (Datum × Datum) → List String
  | [] => []
  | (key, d) :: rest => (inspect key ++ ": " ++ inspect d) :: inspectRows rest

end

mutual

/-- Can the inspection text be written?  It cannot if it shows an integer with too many digits. -/
def inspectable : Datum → Bool
  | .int n => n.natAbs < Nat.pow 10 maxDigits
  | .list items => inspectableAll items
  | .map entries => inspectableFields entries
  | .call _ items => inspectableAll items
  | .listForm items => inspectableAll items
  | .mapForm entries => inspectableFields entries
  | .array _ items => inspectableAll items
  | .record _ entries => inspectableFields entries
  | .table _ rows => inspectableRows rows
  | .quoted _ form => inspectable form
  | _ => true

/-- Can the inspection texts of several data be written? -/
def inspectableAll : List Datum → Bool
  | [] => true
  | d :: rest => inspectable d && inspectableAll rest

/-- Can the inspection texts of named data be written? -/
def inspectableFields : List (String × Datum) → Bool
  | [] => true
  | (_, d) :: rest => inspectable d && inspectableFields rest

/-- Can the inspection texts of keys and data be written? -/
def inspectableRows : List (Datum × Datum) → Bool
  | [] => true
  | (key, d) :: rest => inspectable key && inspectable d && inspectableRows rest

end

/-- The inspection text, except that a text or a name stands for itself and a map shows only its
content. -/
def plain : Datum → String
  | .str text => text
  | .symbol name => name
  | .quoted _ (.symbol name) => name
  | .map entries => "\x7b" ++ commas (inspectFields entries) ++ "\x7d"
  | .table _ rows => "\x7b" ++ commas (inspectRows rows) ++ "\x7d"
  | d => d.inspect

end Datum

end DynLisp
