import DynLisp.Decimal.Integer

/-!
# The command line

The words of a command line are first sorted: a word is plain, the divider `--`, or an option with
whatever is attached to it.  Long options may be shortened as long as they stay unique, short ones
may be joined.  Then the options act from left to right, the first plain word is the script, and
words for which there is no use are complained about at the end.
-/

namespace DynLisp

namespace Options

/-- What an option does. -/
inductive Flag where
  | help
  | maxDepth
  | verbose
  | version
deriving DecidableEq, Repr

/-- The name of an option in messages. -/
def Flag.name : Flag → String
  | .help => "-h/--help"
  | .maxDepth => "--max-depth"
  | .verbose => "-v/--verbose"
  | .version => "--version"

/-- All spellings of options. -/
def spellings : List (String × Flag) :=
  [("-h", .help), ("--help", .help), ("--max-depth", .maxDepth), ("-v", .verbose),
    ("--verbose", .verbose), ("--version", .version)]

/-- A way to understand a word as an option, with the text attached to it. -/
structure Match where
  spelling : String
  flag : Flag
  attached : Option (List Char)
deriving Repr

/-- A word of the command line. -/
inductive Word where
  | plain (text : String)
  | divider
  | option (text : String) (found : Match)
  | unknown (text : String)
deriving Repr

/-- A command line that cannot be used, or that asks for nothing to be run. -/
inductive Stop where
  | help
  | version
  | complaint (text : String)
  /-- the level turned out to be nothing that can be compared with a number -/
  | unorderedLevel
deriving DecidableEq, Repr

/-- Splits a word at its first equals sign. -/
def splitEquals (cs : List Char) : List Char × Option (List Char) :=
  match cs.dropWhile (· != '=') with
  | [] => (cs, none)
  | _ :: rest => (cs.takeWhile (· != '='), some rest)

/-- The options that a word with two dashes may be short for. -/
def longMatches (cs : List Char) : List Match :=
  let (stem, attached) := splitEquals cs
  spellings.filterMap fun (spelling, flag) =>
    if stem.isPrefixOf spelling.toList then some ⟨spelling, flag, attached⟩ else none

/-- The options that a word with one dash may be. -/
def shortMatches (cs : List Char) : List Match :=
  spellings.filterMap fun (spelling, flag) =>
    if spelling.toList = cs.take 2 then some ⟨spelling, flag, some (cs.drop 2)⟩
    else if cs.isPrefixOf spelling.toList then some ⟨spelling, flag, none⟩
    else none

/-- A non-empty run of decimal digits. -/
def allDigits (cs : List Char) : Bool :=
  !cs.isEmpty && cs.all fun c => (Text.digitValue? c).isSome

/-- Does a word look like a negative number?  A newline at its end does not matter. -/
def isNegativeNumber : List Char → Bool
  | '-' :: rest =>
    let body := if rest.getLast? = some '\n' then rest.dropLast else rest
    allDigits body ||
      match body.dropWhile fun c => (Text.digitValue? c).isSome with
      | '.' :: fraction => allDigits fraction
      | _ => false
  | _ => false

/-- The words of messages: the spellings that a word may be short for. -/
def ambiguity (text : String) (found : List Match) : Stop :=
  .complaint ("ambiguous option: " ++ text ++ " could match " ++
    String.intercalate ", " (found.map (·.spelling)))

/-- Sorts a word that starts with a dash and is no spelling of an option. -/
def sortDashed (text : String) : Except Stop Word :=
  let cs := text.toList
  let exact := match splitEquals cs with
    | (stem, some attached) =>
      (Assoc.find? spellings (String.ofList stem)).map fun flag =>
        (⟨String.ofList stem, flag, some attached⟩ : Match)
    | (_, none) => none
  match exact with
  | some found => .ok (.option text found)
  | none =>
    match if cs.take 2 = ['-', '-'] then longMatches cs else shortMatches cs with
    | [found] => .ok (.option text found)
    | [] =>
      if isNegativeNumber cs || cs.contains ' ' then .ok (.plain text) else .ok (.unknown text)
    | found => .error (ambiguity text found)

/-- Sorts a word that stands before any divider. -/
def sortWord (text : String) : Except Stop Word :=
  match text.toList with
  | '-' :: rest =>
    match Assoc.find? spellings text with
    | some flag => .ok (.option text ⟨text, flag, none⟩)
    | none => if rest.isEmpty then .ok (.plain text) else sortDashed text
  | _ => .ok (.plain text)

/-- Sorts all words; after the divider every word is plain. -/
def sortWords : List String → Except Stop (List Word)
  | [] => .ok []
  | text :: rest =>
    if text = "--" then .ok (.divider :: rest.map .plain)
    else
      match sortWord text with
      | .error stop => .error stop
      | .ok word => (sortWords rest).map (word :: ·)

/-- What the command line asks for. -/
structure Request where
  script : Option String
  maxDepth : Option Int
  verbose : Bool
deriving DecidableEq, Repr

/-- The deepest level, as far as it has been named. -/
inductive Level where
  | unset
  | number (n : Int)
  /-- the divider stood in the level's place, and is dropped like any other -/
  | dropped
deriving DecidableEq, Repr

/-- How far the command line has been understood. -/
structure Progress where
  script : Option String
  level : Level
  verbose : Bool
  /-- has the place of the script been passed? -/
  placed : Bool
  /-- words without a use, the last one first -/
  extras : List String

/-- Nothing understood yet. -/
def Progress.start : Progress := ⟨none, .unset, false, false, []⟩

/-- One more word without a use. -/
def Progress.extra (p : Progress) (text : String) : Progress :=
  { p with extras := text :: p.extras }

/-- The complaint about what is attached to an option that takes nothing. -/
def ignored (flag : Flag) (text : List Char) : Stop :=
  .complaint ("argument " ++ flag.name ++ ": ignored explicit argument " ++
    Text.quoted (String.ofList text))

/-- Short options joined to a first one, in order.  Each character must be an option of its own; if
one is not, the option before it has something attached that it does not take. -/
def joined (flag : Flag) : List Char → Except Stop (List Flag)
  | [] => .error (ignored flag [])
  | c :: rest =>
    match Assoc.find? spellings (String.ofList ['-', c]), rest with
    | none, _ => .error (ignored flag (c :: rest))
    | some next, [] => .ok [flag, next]
    | some next, _ :: _ => (joined next rest).map (flag :: ·)

/-- Options that take nothing act in order. -/
def act (p : Progress) : List Flag → Except Stop Progress
  | [] => .ok p
  | .help :: _ => .error .help
  | .version :: _ => .error .version
  | .verbose :: rest => act { p with verbose := true } rest
  | .maxDepth :: rest => act p rest

/-- The deepest level from a word. -/
def setDepth (p : Progress) (text : String) : Except Stop Progress :=
  if text = "--" then .ok { p with level := .dropped }
  else
    match Decimal.integer? text with
    | some n => .ok { p with level := .number n }
    | none => .error (.complaint ("argument --max-depth: invalid int value: " ++ Text.quoted text))

/-- An option that takes nothing, with what is attached to it. -/
def actFlag (p : Progress) (found : Match) : Except Stop Progress :=
  match found.attached with
  | none => act p [found.flag]
  | some text =>
    if found.spelling.toList.take 2 = ['-', '-'] then .error (ignored found.flag text)
    else
      match joined found.flag text with
      | .error stop => .error stop
      | .ok flags => act p flags

/-- The complaint about a missing level. -/
def missingDepth : Stop := .complaint "argument --max-depth: expected one argument"

/-- A plain word is the script if none has been named yet. -/
def takePlain (p : Progress) (text : String) : Progress :=
  if p.placed then p.extra text
  else { p with placed := true, script := some text }

/-- Words after the divider, which had a use if the script was still to come. -/
def takeRest (p : Progress) : List Word → Progress
  | [] => p
  | .plain text :: rest => takeRest (takePlain p text) rest
  | _ :: rest => takeRest p rest

/-- Understands words from left to right; `follows` tells whether the word before was the script. -/
def takeWords (follows : Bool) (p : Progress) : List Word → Except Stop Progress
  | [] => .ok p
  | .plain text :: rest => takeWords (!p.placed) (takePlain p text) rest
  | .divider :: rest =>
    if p.placed && !follows then .ok (takeRest (p.extra "--") rest)
    else .ok (takeRest (if rest.isEmpty then { p with placed := true } else p) rest)
  | .unknown text :: rest => takeWords false (p.extra text) rest
  | .option _ found :: rest =>
    if found.flag = .maxDepth then
      match found.attached, rest with
      | some text, rest =>
        match setDepth p (String.ofList text) with
        | .error stop => .error stop
        | .ok p => takeWords false p rest
      | none, .plain text :: rest =>
        match setDepth p text with
        | .error stop => .error stop
        | .ok p => takeWords false p rest
      | none, _ => .error missingDepth
    else
      match actFlag p found with
      | .error stop => .error stop
      | .ok p => takeWords false p rest

/-- Understands a command line. -/
def parse (args : List String) : Except Stop Request := do
  let words ← sortWords args
  let p ← takeWords false .start words
  if !p.extras.isEmpty then
    throw (.complaint ("unrecognized arguments: " ++ String.intercalate " " p.extras.reverse))
  match p.level with
  | .unset => return ⟨p.script, none, p.verbose⟩
  | .number n =>
    if n < 1 then throw (.complaint "--max-depth must be positive")
    else return ⟨p.script, some n, p.verbose⟩
  | .dropped => throw .unorderedLevel

/-- The short description of the command line. -/
def usage : String := "usage: yial [-h] [--max-depth MAX_DEPTH] [-v] [--version] [script]\n"

/-- The long description of the command line. -/
def helpText : String := usage ++ "
yial - a small Lisp-family scripting language

positional arguments:
  script                script file to execute

options:
  -h, --help            show this help message and exit
  --max-depth MAX_DEPTH
                        maximum evaluation depth (default:
                        $YIAL_MAX_EVAL_DEPTH or 10000)
  -v, --verbose         enable debug logging
  --version             show program's version number and exit

Examples:
  yial script.yl              # Run a script
  yial                        # Interactive mode
  yial -v script.yl           # Run with debug logging
        \n"

/-- The version of the program. -/
def versionText : String := "yial 0.3.0\n"

end Options

end DynLisp
