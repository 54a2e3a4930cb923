import DynLisp.Datum.Inspect
import DynLisp.Text.Utf8
import DynLisp.Token

/-!
# Faults

Everything that can go wrong, by cause.  `Fault.kind` sorts the causes, `Fault.message` words them.
The kinds up to `native` belong to the language: a program's errors.  The others are failures of
the host around it, and a native that fails in such a way makes a `nativeFailed` fault of it
(`Fault.within`), provided that the failure can be put into words at all (`Fault.wording`).
-/

namespace DynLisp

/-- Why a text is not a sequence of tokens. -/
inductive LexFault where
  | illegalCharacter (c : Char)
  | badEscape (c : Char)
  | unterminated
  | noDigits (literal radix : String)
  | badNumber (literal : String)
  | outOfRange (literal : String)
deriving DecidableEq, Repr

/-- Why tokens are not a sequence of forms. -/
inductive ReadFault where
  | endOfInput
  | tooDeep (limit : Int)
  | unexpected (token : Token)
  | badEmptyMap
  | keyNotSymbol
  | colonInList
  | expectedKey
  | expectedColon (key : String)
  /-- a symbol token whose content is not a text -/
  | nameless (content : Datum)

/-- Why a call or special form makes no sense. -/
inductive FormFault where
  | emptyCall
  | noParameters
  | badParameter (d : Datum)
  | duplicateParameter (name : String)
  | badDefine
  | shortBranch
  | longBranch

/-- Why a setting cannot be used. -/
inductive SettingFault where
  | notInteger (name raw : String)
  | notPositive (name : String) (n : Int)

/-- The sorts of faults. -/
inductive FaultKind where
  | general
  | lexical
  | grammar
  | evaluation
  | unbound
  | form
  | arity
  | type
  | notCallable
  | overflow
  | depth
  | native
  | badValue
  | badType
  | misuse
  | magnitude
  | index
  | encoding
  | stack
deriving DecidableEq, Repr

/-- Is it a fault of the program, and not of the host around it? -/
def FaultKind.isProgram : FaultKind → Bool
  | .badValue | .badType | .misuse | .magnitude | .index | .encoding | .stack => false
  | _ => true

/-- Everything that can go wrong. -/
inductive Fault where
  | lex (line : Int) (cause : LexFault)
  | read (cause : ReadFault)
  | form (cause : FormFault)
  | cannotEvaluate (d : Datum)
  | unbound (name : String)
  | argumentCount (expected got : Nat)
  | tooFewArguments (b : Builtin)
  | notNumber (b : Builtin) (kind : Kind)
  | hexOperand (kind : Kind)
  | notCallable (kind : Kind)
  | overflow (n : Int)
  | tooDeep (limit : Int)
  /-- evaluation has used up the host's stack -/
  | stackSpent
  /-- the same, as an interpreter reports it -/
  | noRoom
  | nativeFailed (name text : String)
  /-- raised by a host's procedure -/
  | raised (kind : FaultKind) (text : String)
  /-- raised by a host's procedure, with a content that cannot be written: the attempt fails in
  another way -/
  | unspeakable (kind instead : FaultKind) (text : String)
  | notValue (d : Datum)
  | badKey (d : Datum)
  | unusableKey (d : Datum)
  | notProcedure (d : Datum)
  /-- a level that is no number is compared with one -/
  | unorderedLevel
  | globalExit
  | tooLargeForReal
  /-- a decimal integer literal with too many digits to be read -/
  | unreadableInteger (digits : Nat)
  /-- an integer with too many digits to be written -/
  | unwritableInteger
  | noElement
  | setting (cause : SettingFault)
  | undecodable (m : Utf8.Malformed)
  | nullInPath

/-- The wording of a lexical fault, without its line. -/
def LexFault.message : LexFault → String
  | .illegalCharacter c => "illegal character " ++ Text.quoted (String.singleton c)
  | .badEscape c => "unescapable character '\\" ++ String.singleton c ++ "' in string"
  | .unterminated => "unterminated string"
  | .noDigits literal radix =>
    "illegal number literal '" ++ literal ++ "': no digits after " ++ radix
  | .badNumber literal => "illegal number literal '" ++ literal ++ "'"
  | .outOfRange literal => "integer literal '" ++ literal ++ "' out of range"

/-- What the host calls the sort of a datum. -/
def Datum.className : Datum → String
  | .str _ => "str"
  | .int _ => "int"
  | .real _ _ => "float"
  | .bool _ => "bool"
  | .nil => "NilType"
  | .list _ => "tuple"
  | .map _ | .table _ _ => "mappingproxy"
  | .fn _ _ _ => "Func"
  | .native _ _ => "ExternalFn"
  | .symbol _ => "Symbol"
  | .call _ _ => "Expr"
  | .listForm _ => "ListLiteral"
  | .mapForm _ => "MapLiteral"
  | .absent => "NoneType"
  | .array _ _ => "list"
  | .record _ _ => "dict"
  | .quoted _ form => form.className

/-- The sort of a datum in complaints about an argument, where nothing goes by its own name. -/
def Datum.argumentName : Datum → String
  | .absent => "None"
  | d => d.className

/-- The wording of a reader fault. -/
def ReadFault.message : ReadFault → String
  | .endOfInput => "unexpected end of input"
  | .tooDeep limit => "nesting too deep (more than " ++ toString limit ++ " levels)"
  | .unexpected token =>
    if token.kind.isStructural then "unexpected token '" ++ token.value.plain ++ "'"
    else "unexpected token " ++ token.value.inspect
  | .badEmptyMap => "illegal collection literal: expected '\x7d' after '\x7b:'"
  | .keyNotSymbol => "illegal collection literal: map keys must be symbols"
  | .colonInList => "illegal list literal: unexpected ':' in a list"
  | .expectedKey => "illegal map literal: expected a symbol key"
  | .expectedColon key => "illegal map literal: expected ':' after key '" ++ key ++ "'"
  | .nameless content => "intern() argument must be str, not " ++ content.argumentName

/-- The sort of a reader fault: a token that no text can hold is the host's fault. -/
def ReadFault.kind : ReadFault → FaultKind
  | .nameless _ => .badType
  | _ => .grammar

/-- The wording of a fault in a call or special form. -/
def FormFault.message : FormFault → String
  | .emptyCall => "cannot evaluate empty expression"
  | .noParameters => "illegal fn syntax: expected a parameter list"
  | .badParameter d => "illegal fn syntax: parameter " ++ d.inspect ++ " is not a symbol"
  | .duplicateParameter name => "illegal fn syntax: duplicate parameter '" ++ name ++ "'"
  | .badDefine => "illegal def syntax: expected (def name form)"
  | .shortBranch => "illegal if syntax: expected a condition and a then-form"
  | .longBranch => "illegal if syntax: too many forms"

/-- The wording of a fault in the settings. -/
def SettingFault.message : SettingFault → String
  | .notInteger name raw => name ++ " must be an integer, got " ++ Text.quoted raw
  | .notPositive name n => name ++ " must be positive, got " ++ toString n

namespace Fault

/-- The sort of a fault.  A wording that shows a host's thing may be impossible to write, and then
that is the fault. -/
def kind : Fault → FaultKind
  | .lex _ _ => .lexical
  | .read cause => cause.kind
  | .form _ => .form
  | .cannotEvaluate _ => .evaluation
  | .unbound _ => .unbound
  | .argumentCount _ _ => .arity
  | .tooFewArguments _ => .arity
  | .notNumber _ _ => .type
  | .hexOperand _ => .type
  | .notCallable _ => .notCallable
  | .overflow _ => .overflow
  | .tooDeep _ => .depth
  | .stackSpent => .stack
  | .noRoom => .depth
  | .nativeFailed _ _ => .native
  | .raised kind _ => kind
  | .unspeakable kind _ _ => kind
  | .notValue d => if d.inspectable then .badType else .badValue
  | .badKey d => if d.inspectable then .badType else .badValue
  | .unusableKey _ => .badType
  | .notProcedure _ => .badType
  | .unorderedLevel => .badType
  | .globalExit => .misuse
  | .tooLargeForReal => .magnitude
  | .unreadableInteger _ => .badValue
  | .unwritableInteger => .badValue
  | .noElement => .index
  | .setting _ => .badValue
  | .undecodable _ => .encoding
  | .nullInPath => .badValue

/-- The line that a lexical fault names. -/
def line? : Fault → Option Int
  | .lex line _ => some line
  | _ => none

/-- The complaint about an integer with too many digits to be written. -/
def tooManyDigits : String :=
  "Exceeds the limit (4300 digits) for integer string conversion; " ++
    "use sys.set_int_max_str_digits() to increase the limit"

/-- The wording of a fault. -/
def message : Fault → String
  | .lex line cause => "line " ++ toString line ++ ": " ++ cause.message
  | .read cause => cause.message
  | .form cause => cause.message
  | .cannotEvaluate d => "cannot evaluate " ++ d.inspect
  | .unbound name => "unknown symbol '" ++ name ++ "'"
  | .argumentCount expected got =>
    "function expects " ++ toString expected ++ " argument(s), got " ++ toString got
  | .tooFewArguments .sub => "`-` takes min. one argument of type int or real"
  | .tooFewArguments .hex => "hex takes only one argument"
  | .tooFewArguments b => "`" ++ b.name ++ "` takes min. one argument"
  | .notNumber b kind =>
    "`" ++ b.name ++ "` takes arguments of type int or real, got " ++ kind.name
  | .hexOperand kind => "hex only takes int as argument, got " ++ kind.name
  | .notCallable kind => "cannot call a value of type " ++ kind.name
  | .overflow n => "integer overflow: " ++ toString n ++ " does not fit in 64 bits"
  | .tooDeep limit => "maximum evaluation depth exceeded (" ++ toString limit ++ ")"
  | .stackSpent => "maximum recursion depth exceeded"
  | .noRoom => "maximum evaluation depth exceeded"
  | .nativeFailed name text => "native function '" ++ name ++ "' failed: " ++ text
  | .raised _ text => text
  | .unspeakable _ _ text => text
  | .notValue d => if d.inspectable then "not a yial value: " ++ d.inspect else tooManyDigits
  | .badKey d =>
    if d.inspectable then "map keys must be names, got " ++ d.inspect else tooManyDigits
  | .unusableKey d => "unhashable type: '" ++ d.className ++ "'"
  | .notProcedure d => "'" ++ d.className ++ "' object is not callable"
  | .unorderedLevel => "'<' not supported between instances of 'list' and 'int'"
  | .globalExit => "cannot exit the global scope"
  | .tooLargeForReal => "int too large to convert to float"
  | .unreadableInteger digits =>
    "Exceeds the limit (4300 digits) for integer string conversion: value has " ++
      toString digits ++
      " digits; use sys.set_int_max_str_digits() to increase the limit"
  | .unwritableInteger => tooManyDigits
  | .noElement => "list index out of range"
  | .setting cause => cause.message
  | .undecodable m => m.message
  | .nullInPath => "embedded null byte"

/-- Can the fault be put into words? -/
def isSpoken : Fault → Bool
  | .unspeakable _ _ _ => false
  | _ => true

/-- The words for a fault, or the fault that the attempt to find them comes to. -/
def wording : Fault → Except Fault String
  | .unspeakable _ instead text => .error (.raised instead text)
  | f => .ok f.message

/-- The fault as it leaves a native: a program's fault passes, any other is reported by the native's
name.  The report needs words for it. -/
def within (name : String) (f : Fault) : Fault :=
  if f.kind.isProgram then f
  else
    match f.wording with
    | .ok text => .nativeFailed name text
    | .error instead => instead

/-- The fault as an interpreter reports it: that the stack is spent is a fault of the program. -/
def reported : Fault → Fault
  | .stackSpent => .noRoom
  | f => f

theorem wording_of_isSpoken {f : Fault} (h : f.isSpoken = true) : f.wording = .ok f.message := by
  cases f <;> first | rfl | cases h

theorem within_of_isSpoken {f : Fault} (h : f.isSpoken = true) (name : String) :
    f.within name = if f.kind.isProgram then f else .nativeFailed name f.message := by
  rw [within, wording_of_isSpoken h]

theorem isProgram_within {f : Fault} (h : f.isSpoken = true) (name : String) :
    (f.within name).kind.isProgram = true := by
  rw [within_of_isSpoken h]
  split
  · assumption
  · rfl

theorem isProgram_reported {f : Fault} (h : f.kind.isProgram = true) :
    f.reported.kind.isProgram = true := by
  cases f with
  | stackSpent => cases h
  | _ => exact h

theorem isSpoken_within {f : Fault} (h : f.isSpoken = true) (name : String) :
    (f.within name).isSpoken = true := by
  rw [within_of_isSpoken h]
  split
  · exact h
  · rfl

end Fault

end DynLisp
