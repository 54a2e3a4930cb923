import DynLisp.Console.Disk
import DynLisp.Console.Options
import DynLisp.Console.Repl

/-!
# The command

With a script the command runs it, and its exit code is 1 if the program faults.  Without one it is
interactive.  Everything that the outside decides is an argument here: the variables, the input, and
what reading a file gives.
-/

namespace DynLisp

namespace Command

/-- What the command does once its words and settings are understood. -/
structure Plan where
  session : Session
  script : Option String
  /-- what has been reported so far -/
  screen : Screen
  verbose : Bool

/-- A note for those who asked for them. -/
def note (verbose : Bool) (text : String) : Screen :=
  .ofErr (if verbose then "DEBUG yial.interpreter: " ++ text ++ "\n" else "")

/-- The stack that a limit on levels asks for, as it is reported. -/
def stackSize (limit : Int) : Int := min (limit * 5 + 1000) 1000000

/-- The end of a run that stops before it starts. -/
def stopped : Options.Stop → Completion
  | .help => ⟨.ok 0, .ofOut Options.helpText⟩
  | .version => ⟨.ok 0, .ofOut Options.versionText⟩
  | .unorderedLevel => ⟨.error .unorderedLevel, .empty⟩
  | .complaint text => ⟨.ok 2, .ofErr (Options.usage ++ "yial: error: " ++ text ++ "\n")⟩

/-- Understands the words and settings. -/
def plan (args : List String) (vars : Settings.Variables) : Except Completion Plan :=
  match Options.parse args with
  | .error stop => .error (stopped stop)
  | .ok request =>
    match request.maxDepth.map Except.ok |>.getD (Settings.maxDepth vars) with
    | .error f => .error (.reporting f 2 "")
    | .ok limit =>
      let screen :=
        note request.verbose ("raising recursion limit to " ++ toString (stackSize limit))
      .ok ⟨.start limit, request.script.filter (!·.isEmpty), screen, request.verbose⟩

/-- Runs the text of a script. -/
def runText (s : Session) (text : String) : Completion :=
  let o := s.evalSource text
  match o.result with
  | .ok _ => ⟨.ok 0, .ofOut o.written⟩
  | .error f =>
    if f.kind.isProgram then .reporting f 1 o.written else ⟨.error f, .ofOut o.written⟩

/-- Runs a script whose bytes, or the lack of them, are given. -/
def runBytes (s : Session) (name : String) : Except Disk.Refusal (List UInt8) → Completion
  | .error refusal =>
    ⟨.ok 1, .ofErr ("Error: cannot read " ++ name ++ ": " ++ refusal.text ++ "\n")⟩
  | .ok bytes =>
    match Utf8.decode bytes with
    | .error m => ⟨.error (.undecodable m), .empty⟩
    | .ok cs => runText s (String.ofList (Text.unifyNewlines cs))

/-- Runs a script. -/
def runScript (p : Plan) (name : String)
    (readFile : Disk.Path → Except Disk.Refusal (List UInt8)) : Completion :=
  let path := Disk.Path.ofString name
  let screen := p.screen.append (note p.verbose ("evaluating " ++ path.text))
  let c : Completion :=
    if name.toList.contains '\x00' then ⟨.error .nullInPath, .empty⟩
    else runBytes p.session name (readFile path)
  ⟨c.exit, screen.append c.screen⟩

/-- The whole command. -/
def run (args : List String) (vars : Settings.Variables)
    (readFile : Disk.Path → Except Disk.Refusal (List UInt8)) (input : Input) : Completion :=
  match plan args vars with
  | .error c => c
  | .ok p =>
    match p.script with
    | some name => runScript p name readFile
    | none =>
      let c := Repl.run vars p.session input
      ⟨c.exit, p.screen.append c.screen⟩

end Command

end DynLisp
