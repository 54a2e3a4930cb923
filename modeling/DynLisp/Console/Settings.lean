import DynLisp.Decimal.Integer

/-!
# Settings

What the environment variables decide: the deepest level of evaluation and the prompt.
-/

namespace DynLisp

namespace Settings

/-- Environment variables. -/
abbrev Variables := Assoc String

/-- A positive integer from a variable; the default stands for a variable that is unset or empty. -/
def positive (vars : Variables) (name : String) (default : Int) : Except Fault Int :=
  match Assoc.find? vars name with
  | none => .ok default
  | some raw =>
    if raw.isEmpty then .ok default
    else
      match Decimal.integer? (String.ofList (Text.trimBlanks raw.toList)) with
      | none => .error (.setting (.notInteger name raw))
      | some n => if n < 1 then .error (.setting (.notPositive name n)) else .ok n

/-- The deepest level when nothing is set. -/
def defaultDepth : Int := 10000

/-- The deepest level of evaluation. -/
def maxDepth (vars : Variables) : Except Fault Int :=
  positive vars "YIAL_MAX_EVAL_DEPTH" defaultDepth

/-- The prompt of the interactive loop. -/
def prompt (vars : Variables) : String :=
  (Assoc.find? vars "YIAL_PROMPT").getD ">_ "

end Settings

end DynLisp
