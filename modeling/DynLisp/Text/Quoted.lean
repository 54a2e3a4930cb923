import DynLisp.Text.Printable

/-!
# Quoted text for messages

A text is shown between single quotes, or between double quotes when it holds a single quote and no
double one.  The backslash and the quote in use are escaped, and so is every character that cannot
be shown: by name (`\n`, `\r`, `\t`) or by its code in hexadecimal, two, four or eight digits wide.
-/

namespace DynLisp

namespace Text

/-- The hexadecimal digit of a number below sixteen. -/
def hexDigit (upper : Bool) (n : Nat) : Char :=
  if n < 10 then Char.ofNat (48 + n) else Char.ofNat ((if upper then 55 else 87) + n)

/-- The last `width` hexadecimal digits of a number, with leading zeros. -/
def hexFixed (width n : Nat) : List Char :=
  (List.range width).reverse.map fun i => hexDigit false (n / Nat.pow 16 i % 16)

/-- A character by its code, in the narrowest of the three widths. -/
def escapeCode (c : Char) : List Char :=
  let n := c.toNat
  if n < 0x100 then '\\' :: 'x' :: hexFixed 2 n
  else if n < 0x10000 then '\\' :: 'u' :: hexFixed 4 n
  else '\\' :: 'U' :: hexFixed 8 n

/-- One character of a quoted text. -/
def quoteChar (quote c : Char) : List Char :=
  if c = quote ∨ c = '\\' then ['\\', c]
  else if c = '\n' then ['\\', 'n']
  else if c = '\r' then ['\\', 'r']
  else if c = '\t' then ['\\', 't']
  else if isPrintable c then [c]
  else escapeCode c

/-- The quote that needs the fewer escapes: double only if the text holds a single quote and no
double. -/
def chooseQuote (cs : List Char) : Char :=
  if cs.contains '\'' && !cs.contains '"' then '"' else '\''

/-- The text as it is shown in messages. -/
def quoted (s : String) : String :=
  let quote := chooseQuote s.toList
  String.ofList (quote :: s.toList.flatMap (quoteChar quote) ++ [quote])

example : quoted "it's" = "\"it's\"" := by decide +kernel

example : quoted "a\n" = "'a\\n'" := by decide +kernel

end Text

end DynLisp
