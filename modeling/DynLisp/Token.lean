import DynLisp.Datum.Basic

/-!
# Tokens
-/

namespace DynLisp

/-- The kinds of tokens.  The lexer makes none of the last kind, but a host may hand some over. -/
inductive TokenKind where
  | openParen
  | closeParen
  | openBrace
  | closeBrace
  | colon
  | string
  | int
  | real
  | bool
  | nil
  | symbol
  | other (name : String)
deriving DecidableEq, Repr

/-- Is the kind one of the brackets or the colon? -/
def TokenKind.isStructural : TokenKind → Bool
  | .openParen | .closeParen | .openBrace | .closeBrace | .colon => true
  | _ => false

/-- A token with its content and the line on which it starts. -/
structure Token where
  kind : TokenKind
  value : Datum
  line : Int

/-- The name that a symbol token holds. -/
def Token.name? (t : Token) : Option String :=
  match t.value with
  | .str name => some name
  | _ => none

end DynLisp
