import DynLisp.Console.Settings
import DynLisp.Session

/-!
# The interactive loop

Every line is evaluated by itself.  Its values are shown in order, each with its number; a fault of
the program is reported and the loop goes on.  A fault of the host ends it, and so does a fault that
cannot be reported.
-/

namespace DynLisp

/-- What has been written to the two channels. -/
structure Screen where
  out : String
  err : String
deriving Repr

namespace Screen

/-- Nothing written. -/
def empty : Screen := ⟨"", ""⟩

/-- Writes on after what another screen holds. -/
def append (s t : Screen) : Screen := ⟨s.out ++ t.out, s.err ++ t.err⟩

/-- A text on the first channel. -/
def ofOut (text : String) : Screen := ⟨text, ""⟩

/-- A text on the second channel. -/
def ofErr (text : String) : Screen := ⟨"", text⟩

end Screen

/-- How a run ended, and all it wrote: an exit code, or the host's fault that stopped it. -/
structure Completion where
  exit : Except Fault Nat
  screen : Screen

/-- The report of a fault, if there are words for it. -/
def Fault.report (f : Fault) : Except Fault String :=
  f.wording.map fun text => "Error: " ++ text ++ "\n"

/-- The end of a run that writes something, reports a fault and exits with a code. -/
def Completion.reporting (f : Fault) (code : Nat) (written : String) : Completion :=
  match f.report with
  | .ok text => ⟨.ok code, ⟨written, text⟩⟩
  | .error instead => ⟨.error instead, .ofOut written⟩

/-- What there is to read, and whether it is typed at a terminal. -/
structure Input where
  text : String
  terminal : Bool
deriving Repr

namespace Input

/-- The lines of a text, each with its newline; the last may lack it. -/
def linesOf (text : List Char) : List (List Char) :=
  match text with
  | [] => []
  | c :: rest =>
    match linesOf rest with
    | [] => [[c]]
    | line :: more => if c = '\n' then ['\n'] :: line :: more else (c :: line) :: more

/-- A line as a terminal gives it: it ends with a newline whether or not one was typed. -/
def completed (line : List Char) : List Char :=
  if line.getLast? = some '\n' then line else line ++ ['\n']

/-- The lines to be answered. -/
def lines (i : Input) : List String :=
  (linesOf i.text.toList).map fun line =>
    String.ofList (if i.terminal then completed line else line)

end Input

namespace Repl

/-- What came of one line. -/
structure Response where
  /-- did the line succeed? -/
  success : Except Fault Bool
  screen : Screen
  session : Session

/-- The lines that show values, numbered from `index`, up to the first that has no text. -/
def results (index : Nat) : List Datum → String × Option Fault
  | [] => ("", none)
  | d :: rest =>
    match d.source with
    | .error f => ("", some f)
    | .ok text =>
      let (more, failure) := results (index + 1) rest
      ("$" ++ toString index ++ " = " ++ text ++ "\n" ++ more, failure)

/-- Evaluates one line and shows its values. -/
def respond (s : Session) (line : String) : Response :=
  let o := s.evalSource line
  match o.result with
  | .ok values =>
    let (text, failure) := results 0 values
    let success := match failure with
      | none => .ok true
      | some f => .error f
    ⟨success, .ofOut (o.written ++ text), o.session⟩
  | .error f =>
    if f.kind.isProgram then
      match f.report with
      | .ok text => ⟨.ok false, ⟨o.written, text⟩, o.session⟩
      | .error instead => ⟨.error instead, .ofOut o.written, o.session⟩
    else ⟨.error f, .ofOut o.written, o.session⟩

/-- Answers the lines in turn, with a prompt before each and one more at the end. -/
def loop (prompt : String) (s : Session) : List String → Completion
  | [] => ⟨.ok 0, .ofOut (prompt ++ "\nBye!\n")⟩
  | line :: rest =>
    let r := respond s line
    let shown := (Screen.ofOut prompt).append r.screen
    match r.success with
    | .error f => ⟨.error f, shown⟩
    | .ok _ =>
      let later := loop prompt r.session rest
      ⟨later.exit, shown.append later.screen⟩

/-- The first line of the interactive loop. -/
def banner : String := "yial: REPL (Ctrl+D to exit)\n"

/-- The interactive loop on a given input. -/
def run (vars : Settings.Variables) (s : Session) (input : Input) : Completion :=
  let c := loop (Settings.prompt vars) s input.lines
  ⟨c.exit, (Screen.ofOut banner).append c.screen⟩

end Repl

end DynLisp
