import DynLisp.Proofs.Evaluation.Balance
import DynLisp.Proofs.Reader.Join

/-!
# Texts run one after another

Forms are evaluated as they are read, and a fault of reading is met only after the forms before it
have run.  So a text that follows another one on a line of its own behaves as if it were run after
it: nothing in it shows unless all of the first text has run, and then it runs in the state that the
first text has left.
-/

namespace DynLisp

theorem Eval.each_append (go : Datum → Eval Datum) (forms rest : List Datum) :
    each go (forms ++ rest) = do
      let first ← each go forms
      let second ← each go rest
      return first ++ second := by
  induction forms with
  | nil => simp [each]
  | cons form forms ih => simp [each, ih]

/-! ## Forms that have been read -/

/-- Evaluates forms one after another, as they are read. -/
def evalForms (natives : Natives) (forms : List Datum) : Eval (List Datum) := fun w =>
  Eval.each (Eval.fresh (evaluate natives w.env.room)) forms w

/-- Where all forms have run, the fault that ended reading is met. -/
def thenMeet (failure : Option Fault) :
    EStateM.Result Fault World (List Datum) → EStateM.Result Fault World (List Datum)
  | .ok values u =>
    match failure with
    | none => .ok values u
    | some f => .error f u
  | .error f u => .error f u

theorem evalSource_eq_thenMeet (natives : Natives) (text : String) (w : World) :
    evalSource natives text w =
      thenMeet (read text).failure (evalForms natives (read text).forms w) := by
  rw [evalSource, Eval.source, Eval.reading, Eval.bind_apply, evalForms]
  cases Eval.each _ (read text).forms w with
  | error f u => rfl
  | ok values u => cases (read text).failure <;> rfl

/-- The forms that come later are evaluated in the state that the others leave, and with as much
room. -/
theorem evalForms_append (natives : Natives) (forms rest : List Datum) (w : World) :
    evalForms natives (forms ++ rest) w =
      match evalForms natives forms w with
      | .error f u => .error f u
      | .ok first u =>
        match evalForms natives rest u with
        | .error f v => .error f v
        | .ok second v => .ok (first ++ second) v := by
  have kept := Eval.moves_each (Eval.keeps_fresh (keeps_evaluate natives w.env.room)) forms w
  rw [evalForms, evalForms, Eval.each_append, Eval.bind_apply]
  unfold Eval.final at kept
  cases hfirst : Eval.each (Eval.fresh (evaluate natives w.env.room)) forms w with
  | error f u => rfl
  | ok first u =>
    rw [hfirst] at kept
    have hroom : u.env.room = w.env.room := Environment.room_congr kept.limit kept.level
    simp only
    rw [Eval.bind_apply, evalForms, hroom]
    cases Eval.each _ rest u <;> rfl

/-! ## Faults further down -/

/-- The same fault, met `k` lines further down: a lexical fault names another line, and no other
fault shows where it was met. -/
inductive Fault.MovedBy (k : Int) : Fault → Fault → Prop where
  | lexical (line : Int) (cause : LexFault) : MovedBy k (.lex line cause) (.lex (line + k) cause)
  | other {f f' : Fault} (line : f.line? = none) (line' : f'.line? = none) (kind : f'.kind = f.kind)
    (message : f'.message = f.message) : MovedBy k f f'

theorem Fault.movedBy_moved (k : Int) (f : Fault) : f.MovedBy k (f.moved k) := by
  cases f with
  | lex line cause => exact .lexical line cause
  | read cause => cases cause <;> exact .other rfl rfl rfl rfl
  | _ => exact .other rfl rfl rfl rfl

/-! ## Joined texts -/

/-- What comes of a text that is followed, `k` lines further down, by the text `b`; given what comes
of it alone. -/
inductive Composes (natives : Natives) (k : Int) (b : String) :
    EStateM.Result Fault World (List Datum) → EStateM.Result Fault World (List Datum) → Prop where
  /-- the first text fails, and the second is of no account -/
  | failed (f : Fault) (u : World) : Composes natives k b (.error f u) (.error f u)
  | finished {first second : List Datum} {u v : World} (h : evalSource natives b u = .ok second v) :
    Composes natives k b (.ok first u) (.ok (first ++ second) v)
  /-- a form of the second text fails -/
  | faulted {first : List Datum} {u v : World} {f : Fault} (h : evalSource natives b u = .error f v)
    (hforms : evalForms natives (read b).forms u = .error f v) :
    Composes natives k b (.ok first u) (.error f v)
  /-- all forms of the second text have run where it cannot be read any further -/
  | unread {first values : List Datum} {u v : World} {f f' : Fault}
    (h : evalSource natives b u = .error f v)
    (hforms : evalForms natives (read b).forms u = .ok values v) (hread : (read b).failure = some f)
    (hf : f.MovedBy k f') : Composes natives k b (.ok first u) (.error f' v)

/-- A text that can be read, and another one on the lines below it, run as the one text and then, if
it has not failed, the other.  Only a fault in reading the other text can tell how far down it
stands. -/
theorem evalSource_join {a : String} (ha : (read a).failure = none) (natives : Natives) (b : String)
    (w : World) :
    Composes natives (newlines a + 1 : Nat) b (evalSource natives a w)
      (evalSource natives (a ++ "\n" ++ b) w) := by
  rw [evalSource_eq_thenMeet natives a, ha, evalSource_eq_thenMeet natives (a ++ "\n" ++ b),
    read_join ha]
  change Composes natives _ b _ (thenMeet ((read b).failure.map _)
    (evalForms natives ((read a).forms ++ (read b).forms) w))
  rw [evalForms_append]
  cases evalForms natives (read a).forms w with
  | error f u => exact .failed f u
  | ok first u =>
    dsimp only
    have second := evalSource_eq_thenMeet natives b u
    cases hforms : evalForms natives (read b).forms u with
    | error f v =>
      rw [hforms] at second
      exact .faulted second hforms
    | ok values v =>
      rw [hforms] at second
      cases hread : (read b).failure with
      | none =>
        rw [hread] at second
        exact .finished second
      | some f =>
        rw [hread] at second
        exact .unread second hforms hread (f.movedBy_moved _)

/-- The first text spans two lines and ends in a comment; the second ends inside quotes, on its
first line. -/
theorem evalSource_join_unterminated :
    (read "\"p\nq\" ; last").failure = none ∧
    (read "\"r\" \"").failure.bind Fault.line? = some 1 ∧
    (read ("\"p\nq\" ; last" ++ "\n" ++ "\"r\" \"")).failure.bind Fault.line? = some 3 ∧
    Composes (Session.nativesOf []) 2 "\"r\" \""
      (evalSource (Session.nativesOf []) "\"p\nq\" ; last" ⟨.empty (some 5), "", 1, .nil⟩)
      (evalSource (Session.nativesOf []) ("\"p\nq\" ; last" ++ "\n" ++ "\"r\" \"")
        ⟨.empty (some 5), "", 1, .nil⟩) := by
  have complete : (read "\"p\nq\" ; last").failure = none :=
    Option.isNone_iff_eq_none.mp (by decide +kernel)
  refine ⟨complete, by decide +kernel, by decide +kernel, ?_⟩
  exact evalSource_join complete (Session.nativesOf []) _ _

end DynLisp
