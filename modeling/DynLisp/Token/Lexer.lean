import DynLisp.Token.Number
import DynLisp.Text.Blank

/-!
# From text to tokens

`lex` cuts a text into blanks, comments, brackets, colons, texts in double quotes, and runs of
anything else.  A run that starts with a digit must be a number, and every character of a run must
be printable.  A token's line is one more than the number of newlines before it.

Cutting stops at the first fault.  The outcome holds the tokens before it, so that a reader can take
them one at a time and meets the fault only when it asks for one more.
-/

namespace DynLisp

/-- The tokens of a text, and the fault that ended them if there was one. -/
structure Lexed where
  tokens : List Token
  failure : Option Fault

namespace Lexed

/-- No tokens, no fault. -/
def empty : Lexed := ⟨[], none⟩

/-- No tokens before a fault. -/
def failed (f : Fault) : Lexed := ⟨[], some f⟩

/-- One more token in front. -/
def cons (t : Token) (l : Lexed) : Lexed := ⟨t :: l.tokens, l.failure⟩

/-- All the tokens, or the fault. -/
def all (l : Lexed) : Except Fault (List Token) :=
  match l.failure with
  | none => .ok l.tokens
  | some f => .error f

end Lexed

namespace Lexer

/-- The kind of a bracket or colon. -/
def structural? : Char → Option TokenKind
  | '(' => some .openParen
  | ')' => some .closeParen
  | '\x7b' => some .openBrace
  | '\x7d' => some .closeBrace
  | ':' => some .colon
  | _ => none

/-- Can the character stand in a run? -/
def isRunChar (c : Char) : Bool :=
  !Text.isBlank c && (structural? c).isNone && c != ';' && c != '"'

/-- The character that an escape stands for. -/
def unescape? : Char → Option Char
  | 'n' => some '\n'
  | 't' => some '\t'
  | '\\' => some '\\'
  | '"' => some '"'
  | _ => none

/-- The rest of a text in quotes that started on line `start`: its characters, the line on which it
ends, and what follows it. -/
def scanString (start : Int) : Int → List Char → Except Fault (List Char × Int × List Char)
  | _, [] => .error (.lex start .unterminated)
  | line, '"' :: rest => .ok ([], line, rest)
  | _, ['\\'] => .error (.lex start .unterminated)
  | line, '\\' :: c :: rest =>
    match unescape? c with
    | none => .error (.lex line (.badEscape c))
    | some d =>
      match scanString start line rest with
      | .ok (text, last, after) => .ok (d :: text, last, after)
      | .error f => .error f
  | line, c :: rest =>
    match scanString start (if c = '\n' then line + 1 else line) rest with
    | .ok (text, last, after) => .ok (c :: text, last, after)
    | .error f => .error f

theorem length_scanString {start line : Int} {cs text after : List Char} {last : Int}
    (h : scanString start line cs = .ok (text, last, after)) : after.length < cs.length := by
  fun_induction scanString start line cs generalizing text last after with
  | case1 => simp at h
  | case2 => simp_all
  | case3 => simp at h
  | case4 => simp_all
  | case5 line c rest d hd text' last' after' he ih =>
    have := ih he
    simp only [Except.ok.injEq, Prod.mk.injEq] at h
    obtain ⟨-, -, rfl⟩ := h
    simp only [List.length_cons]
    omega
  | case6 => simp_all
  | case7 line c rest _ _ _ text' last' after' he ih =>
    have := ih he
    simp only [Except.ok.injEq, Prod.mk.injEq] at h
    obtain ⟨-, -, rfl⟩ := h
    simp only [List.length_cons]
    omega
  | case8 => simp_all

/-- The words that are literals. -/
def reserved? : String → Option (TokenKind × Datum)
  | "true" => some (.bool, .bool true)
  | "false" => some (.bool, .bool false)
  | "nil" => some (.nil, .absent)
  | _ => none

/-- The token of a run that holds printable characters only. -/
def wordToken (line : Int) (run : List Char) : Except Fault Token :=
  if run.head?.any Text.isAsciiDigit then Number.token line run
  else
    match reserved? (String.ofList run) with
    | some (kind, value) => .ok ⟨kind, value, line⟩
    | none => .ok ⟨.symbol, .str (String.ofList run), line⟩

/-- The token of a run. -/
def runToken (line : Int) (run : List Char) : Except Fault Token :=
  match run.find? (fun c => !Text.isPrintable c) with
  | some c => .error (.lex line (.illegalCharacter c))
  | none => wordToken line run

theorem length_dropWhile_le (p : Char → Bool) (cs : List Char) :
    (cs.dropWhile p).length ≤ cs.length :=
  (List.dropWhile_sublist p).length_le

/-- The tokens of a text that starts on the given line. -/
def lexFrom (line : Int) (cs : List Char) : Lexed :=
  match cs with
  | [] => .empty
  | c :: rest =>
    if c = '\n' then lexFrom (line + 1) rest
    else if Text.isBlank c then lexFrom line rest
    else if c = ';' then lexFrom line (rest.dropWhile (· != '\n'))
    else
      match structural? c with
      | some kind => (lexFrom line rest).cons ⟨kind, .str (String.singleton c), line⟩
      | none =>
        if c = '"' then
          match _h : scanString line line rest with
          | .ok (text, last, after) =>
            (lexFrom last after).cons ⟨.string, .str (String.ofList text), line⟩
          | .error f => .failed f
        else
          match runToken line (c :: rest.takeWhile isRunChar) with
          | .ok t => (lexFrom line (rest.dropWhile isRunChar)).cons t
          | .error f => .failed f
termination_by cs.length
decreasing_by
  · simp
  · simp
  · exact Nat.lt_succ_of_le (length_dropWhile_le _ _)
  · simp
  · exact Nat.lt_succ_of_lt (length_scanString _h)
  · exact Nat.lt_succ_of_le (length_dropWhile_le _ _)

end Lexer

/-- The tokens of a text. -/
def lex (source : String) : Lexed :=
  Lexer.lexFrom 1 source.toList

end DynLisp
