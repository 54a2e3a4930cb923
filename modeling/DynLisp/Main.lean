import DynLisp.Console.Command

/-!
# The program

Reads the command line, the variables and the files, and hands everything else to `Command`.  The
interactive loop answers each line as it comes.
-/

namespace DynLisp

namespace Program

/-- Shows what a run has written. -/
def display (s : Screen) : IO Unit := do
  let out ← IO.getStdout
  out.putStr s.out
  out.flush
  (← IO.getStderr).putStr s.err

/-- The variables that settings are taken from. -/
def readVariables : IO Settings.Variables := do
  let mut vars := []
  for name in ["YIAL_MAX_EVAL_DEPTH", "YIAL_PROMPT"] do
    if let some value ← IO.getEnv name then
      vars := vars ++ [(name, value)]
  return vars

/-- Reads a file. -/
def readFile (path : Disk.Path) : IO (Except Disk.Refusal (List UInt8)) := do
  try
    return .ok (← IO.FS.readBinFile path.text).toList
  catch e =>
    match e with
    | .noFileOrDirectory .. => return .error .missing
    | .inappropriateType .. => return .error .isDirectory
    | _ => return .error .notDirectory

/-- Ends the program, or lets the host's fault out. -/
def finish (c : Completion) : IO UInt32 := do
  display c.screen
  match c.exit with
  | .ok code => return code.toUInt32
  | .error f => throw (IO.userError f.message)

/-- Answers line after line until the input ends. -/
partial def interact (prompt : String) (s : Session) : IO UInt32 := do
  display (.ofOut prompt)
  let input ← IO.getStdin
  let line ← input.getLine
  if line.isEmpty then
    display (.ofOut "\nBye!\n")
    return 0
  let line := if ← input.isTty then String.ofList (Input.completed line.toList) else line
  let r := Repl.respond s line
  display r.screen
  match r.success with
  | .ok _ => interact prompt r.session
  | .error f => throw (IO.userError f.message)

end Program

end DynLisp

open DynLisp in
/-- Runs a script or the interactive loop. -/
def main (args : List String) : IO UInt32 := do
  let vars ← Program.readVariables
  match Command.plan args vars with
  | .error c => Program.finish c
  | .ok p =>
    match p.script with
    | some name =>
      let content ← Program.readFile (Disk.Path.ofString name)
      Program.finish (Command.runScript p name fun _ => content)
    | none =>
      Program.display (p.screen.append (.ofOut Repl.banner))
      Program.interact (Settings.prompt vars) p.session
