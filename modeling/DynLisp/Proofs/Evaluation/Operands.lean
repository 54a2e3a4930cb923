import Mathlib.Data.Set.Insert
import DynLisp.Proofs.Evaluation.Visibility

/-!
# Operands evaluated in the function's own scope

A function evaluates its operands in the scope that it has just opened, and binds each parameter
before it evaluates the next operand.  Since scope is dynamic, the parameters that are bound already
can be seen by all code that runs for the later operands.  They are not seen if no such code
mentions them, and then it makes no difference whether all operands are evaluated first, where the
call stands (`applyFn_eq_applyToValues`).

The half-built scope is carried along as a scope on top of a state (`World.under`).  An evaluation
that does not see it runs as it does without it, and leaves it in place.
-/

namespace DynLisp

namespace Eval

/-- Binds names to values in the innermost scope. -/
def bindValues : List String → List Datum → Eval Unit
  | name :: names, value :: values => do
    define name value
    bindValues names values
  | _, _ => pure ()

/-- Applies a function to the values of its operands: these are evaluated where the call stands, and
only then a scope is opened in which the parameters are bound to them. -/
def applyToValues (go : Datum → Eval Datum) (params : List String) (forms operands : List Datum) :
    Eval Datum :=
  if operands.length = params.length then do
    let values ← each go operands
    framed do
      bindValues params values
      body go .nil forms
  else throw (.argumentCount params.length operands.length)

end Eval

/-! ## Global scopes that stay the same -/

/-- A coupling of states that also have one and the same global scope. -/
def Coupling.sharing {D : Discipline} (K : Coupling D) : Coupling D where
  natives := K.natives
  natives' := K.natives'
  rel w w' := K.rel w w' ∧ w.env.globals = w'.env.globals
  ahead := K.ahead
  lookup h hc := K.lookup h.1 hc
  defineGlobal h ht hd := ⟨K.defineGlobal h.1 ht hd, congrArg (Assoc.insert · _ _) h.2⟩
  enter h := ⟨K.enter h.1, h.2⟩
  define h hi hi' hd := by
    refine ⟨K.define h.1 hi hi' hd, ?_⟩
    show (Environment.define _ _ _).globals = (Environment.define _ _ _).globals
    rw [Environment.define_globals hi, Environment.define_globals hi']
    exact h.2
  leave hw hu hk hk' := ⟨K.leave hw.1 hu.1 hk hk', hu.2⟩
  descend := by
    intro w w' h
    have same : ∀ {e f : Environment}, e.descend = .ok f → f.globals = e.globals := by
      intro e f he
      obtain ⟨limit, -, -, hd⟩ | ⟨-, hd⟩ := e.descend_cases <;> rw [hd] at he <;> cases he
      rfl
    rcases K.descend h.1 with hf | ⟨e, e', he, he', hr⟩ | hK
    · exact .inl hf
    · exact .inr (.inl ⟨e, e', he, he', hr, (same he).trans (h.2.trans (same he').symm)⟩)
    · exact .inr (.inr hK)
  ascend hw hu he he' hk hk' := ⟨K.ascend hw.1 hu.1 he he' hk hk', hu.2⟩
  say text h := ⟨K.say text h.1, h.2⟩
  keep memory h := ⟨K.keep memory h.1, h.2⟩
  next n h := ⟨K.next n h.1, h.2⟩
  next_eq h := K.next_eq h.1
  written_eq h := K.written_eq h.1
  host_eq h := K.host_eq h.1
  reply h ha := K.reply h.1 ha

/-! ## A scope that is not seen -/

/-- The state with one more scope on top. -/
def World.under (scope : Scope) (w : World) : World :=
  { w with env := { w.env with inner := scope :: w.env.inner } }

/-- The scope binds none of the names. -/
def Scope.Misses (S : Set String) (scope : Scope) : Prop :=
  ∀ name ∈ S, Assoc.find? scope name = none

theorem Scope.Misses.insert {S : Set String} {scope : Scope} (h : Scope.Misses S scope)
    {name : String} (hn : name ∉ S) (d : Datum) : Scope.Misses S (Assoc.insert scope name d) := by
  intro other ho
  have hne : other ≠ name := by rintro rfl; exact hn ho
  rw [Assoc.find?_insert_of_ne _ _ hne]
  exact h other ho

theorem World.under_agreesOn {S : Set String} {scope : Scope} (hs : Scope.Misses S scope)
    {w : World} (hw : w.env.ClosedOn S) : (w.under scope).AgreesOn S w := by
  have locals : ∀ name ∈ S, (w.under scope).env.local? name = w.env.local? name := by
    intro name hn
    simp [World.under, Environment.local?, hs name hn]
  have closed : (w.under scope).env.ClosedOn S := by
    refine List.forall_mem_cons.mpr ⟨fun name hn d hd => ?_, hw⟩
    rw [hs name hn] at hd
    cases hd
  exact ⟨⟨rfl, rfl, fun _ _ => rfl, locals⟩, closed, hw, rfl, rfl, rfl⟩

/-- Two evaluations that start with and without the scope, and come to the same global scope, differ
in nothing else. -/
theorem World.eq_under {scope : Scope} {w u u' : World} (hk : Keeps 0 (w.under scope) u)
    (hk' : Keeps 0 w u') (hg : u.env.globals = u'.env.globals) (hw : u.written = u'.written)
    (hn : u.next = u'.next) (hh : u.host = u'.host) : u = u'.under scope := by
  have henv : u.env = (u'.under scope).env := by
    rw [hk.env_eq, hg]
    show _ = { u'.env with inner := scope :: u'.env.inner }
    rw [hk'.env_eq]
    rfl
  obtain ⟨env, written, next, host⟩ := u
  obtain rfl : env = (u'.under scope).env := henv
  obtain rfl : written = u'.written := hw
  obtain rfl : next = u'.next := hn
  obtain rfl : host = u'.host := hh
  rfl

namespace Eval

/-- Two runs that end alike, the first with one more scope on top; what they leave behind is closed
on the names. -/
inductive EndUnder (S : Set String) (scope : Scope) :
    EStateM.Result Fault World Datum → EStateM.Result Fault World Datum → Prop where
  | value (v : Datum) {u : World} (hu : u.env.ClosedOn S) :
      EndUnder S scope (.ok v (u.under scope)) (.ok v u)
  | fault (f : Fault) (u : World) : EndUnder S scope (.error f (u.under scope)) (.error f u)

section Operands

variable {hosted : List HostProcedure} (hh : ∀ p ∈ hosted, HostProcedure.Local p) {S : Set String}
include hh

/-- Code that does not see the scope on top runs as without it. -/
theorem evaluate_under {scope : Scope} (hs : Scope.Misses S scope) {d : Datum}
    (hd : d.MentionsOnly S) {w : World} (hw : w.env.ClosedOn S) (room : Nat) :
    EndUnder S scope (evaluate (Session.nativesOf hosted) room d (w.under scope))
      (evaluate (Session.nativesOf hosted) room d w) := by
  have h := (steps_evaluate (Coupling.agreeing S hh).sharing id trivial room).couples d hd
    (w.under scope) w ⟨World.under_agreesOn hs hw, rfl⟩
  change Coupling.Outcome _ _ _ (evaluate (Session.nativesOf hosted) room d (w.under scope))
    (evaluate (Session.nativesOf hosted) room d w) at h
  have hk := keeps_evaluate (Session.nativesOf hosted) room d (w.under scope)
  have hk' := keeps_evaluate (Session.nativesOf hosted) room d w
  unfold final at hk hk'
  generalize evaluate (Session.nativesOf hosted) room d (w.under scope) = r,
    evaluate (Session.nativesOf hosted) room d w = r' at h hk hk'
  cases h with
  | @value v u u' _ hu =>
    obtain ⟨hu, hg⟩ := hu
    obtain rfl : u = u'.under scope := World.eq_under hk hk' hg hu.written hu.next hu.host
    exact .value v hu.closed'
  | @fault f u u' _ hu =>
    obtain ⟨hu, hg⟩ := hu
    obtain rfl : u = u'.under scope := World.eq_under hk hk' hg hu.written hu.next hu.host
    exact .fault f u'
  | ahead hK => exact hK.elim

omit hh in
theorem define_under (name : String) (d : Datum) (scope : Scope) (w : World) :
    define name d (w.under scope) = .ok () (w.under (Assoc.insert scope name d)) := rfl

/-- How binding the operands one by one compares with evaluating them all: it comes to the state in
which their values remain to be bound, or it meets the same fault with some of them bound. -/
inductive BindsUnder (scope : Scope) (names : List String) :
    EStateM.Result Fault World Unit → EStateM.Result Fault World (List Datum) → Prop where
  | values (values : List Datum) (u : World) :
    BindsUnder scope names (bindValues names values (u.under scope)) (.ok values u)
  | fault (f : Fault) (u : World) (other : Scope) :
    BindsUnder scope names (.error f (u.under other)) (.error f u)

theorem bindAll_under (room : Nat) {names : List String} {operands : List Datum}
    (hl : operands.length = names.length) (hn : ∀ name ∈ names, name ∉ S)
    (ho : ∀ d ∈ operands, d.MentionsOnly S) {scope : Scope} (hs : Scope.Misses S scope) {w : World}
    (hw : w.env.ClosedOn S) :
    BindsUnder scope names
      (bindAll (evaluate (Session.nativesOf hosted) room) names operands (w.under scope))
      (each (evaluate (Session.nativesOf hosted) room) operands w) := by
  induction operands generalizing names scope w with
  | nil =>
    obtain rfl : names = [] := List.eq_nil_of_length_eq_zero hl.symm
    exact .values [] w
  | cons operand operands ih =>
    obtain ⟨name, names, rfl⟩ := List.exists_cons_of_length_eq_add_one hl.symm
    obtain ⟨hname, hnames⟩ := List.forall_mem_cons.mp hn
    obtain ⟨hoperand, hoperands⟩ := List.forall_mem_cons.mp ho
    have h := evaluate_under hh hs hoperand hw room
    rw [bindAll, each, bind_apply, bind_apply]
    generalize evaluate (Session.nativesOf hosted) room operand (w.under scope) = r,
      evaluate (Session.nativesOf hosted) room operand w = r' at h
    cases h with
    | fault f u => exact .fault f u scope
    | @value v u hu =>
      have hrest := ih (by simpa using hl) hnames hoperands (hs.insert hname v) hu
      simp only [bind_apply, define_under]
      generalize bindAll (evaluate (Session.nativesOf hosted) room) names operands
        (u.under (Assoc.insert scope name v)) = r,
        each (evaluate (Session.nativesOf hosted) room) operands u = r' at hrest
      cases hrest with
      | values values u' =>
        have : bindValues (name :: names) (v :: values) (u'.under scope) =
            bindValues names values (u'.under (Assoc.insert scope name v)) := by
          rw [bindValues, bind_apply, define_under]
        rw [← this]
        exact .values (v :: values) u'
      | fault f u' other => exact .fault f u' other

end Operands

end Eval

/-- Operands that mention no parameter, and reach no code that does, might as well be evaluated
where the call stands, before the function opens its scope.  The result, the fault, what is written
and the state at the end are the same. -/
theorem applyFn_eq_applyToValues {hosted : List HostProcedure}
    (hh : ∀ p ∈ hosted, HostProcedure.Local p) {S : Set String} {params : List String}
    (hp : ∀ name ∈ params, name ∉ S) {operands : List Datum} (ho : ∀ d ∈ operands, d.MentionsOnly S)
    {w : World} (hw : w.env.ClosedOn S) (room : Nat) (forms : List Datum) :
    Eval.applyFn (evaluate (Session.nativesOf hosted) room) params forms operands w =
      Eval.applyToValues (evaluate (Session.nativesOf hosted) room) params forms operands w := by
  unfold Eval.applyFn Eval.applyToValues
  by_cases hl : operands.length = params.length
  · rw [if_pos hl, if_pos hl, Eval.bind_apply]
    have nothing : Scope.Misses S [] := fun _ _ => rfl
    have h := Eval.bindAll_under hh room hl hp ho nothing hw
    have opened : ({ w with env := w.env.enter } : World) = w.under [] := rfl
    rw [Eval.framed, opened, Eval.bind_apply]
    generalize
      Eval.bindAll (evaluate (Session.nativesOf hosted) room) params operands (w.under []) = r,
      Eval.each (evaluate (Session.nativesOf hosted) room) operands w = r' at h
    cases h with
    | values values u =>
      show _ = Eval.framed _ u
      rw [Eval.framed, Eval.bind_apply]
      rfl
    -- the scope is closed again, whatever had been bound in it
    | fault f u other => rfl
  · rw [if_neg hl, if_neg hl]

/-- A function `g` that reads `a`. -/
def reading : World :=
  ⟨⟨[], [("g", .fn 0 [] [.symbol "a"]), ("a", .int 5), ("x", .int 7)], some 50, 0⟩, "", 3, .nil⟩

/-- Two operands that call a function which reads `a`, for the parameters `x` and `y`. -/
theorem applyFn_eq_applyToValues_pair :
    (∀ p ∈ [Stock.first], HostProcedure.Local p) ∧
    (∀ name ∈ ["x", "y"], name ∉ ({"g", "a"} : Set String)) ∧
    (∀ d ∈ [Datum.call 1 [.symbol "g"], .call 2 [.symbol "g"]], d.MentionsOnly {"g", "a"}) ∧
    reading.env.ClosedOn {"g", "a"} ∧
    Eval.applyFn (evaluate (Session.nativesOf [Stock.first]) 9) ["x", "y"]
      [.symbol "y", .symbol "x"] [.call 1 [.symbol "g"], .call 2 [.symbol "g"]] reading =
    Eval.applyToValues (evaluate (Session.nativesOf [Stock.first]) 9) ["x", "y"]
      [.symbol "y", .symbol "x"] [.call 1 [.symbol "g"], .call 2 [.symbol "g"]] reading := by
  have hh : ∀ p ∈ [Stock.first], HostProcedure.Local p :=
    List.forall_mem_singleton.mpr Stock.local_first
  have hp : ∀ name ∈ ["x", "y"], name ∉ ({"g", "a"} : Set String) := by simp
  have read (place : Nat) : (Datum.call place [.symbol "g"]).MentionsOnly {"g", "a"} :=
    Datum.mentionsOnly_call (List.forall_mem_singleton.mpr (Datum.mentionsOnly_symbol (.inl rfl)))
  have ho : ∀ d ∈ [Datum.call 1 [.symbol "g"], .call 2 [.symbol "g"]], d.MentionsOnly {"g", "a"} :=
    List.forall_mem_cons.mpr ⟨read 1, List.forall_mem_singleton.mpr (read 2)⟩
  have fn : (Datum.fn 0 [] [.symbol "a"]).BodiesMentionOnly {"g", "a"} :=
    Datum.bodiesSatisfy_fn
      (List.forall_mem_singleton.mpr (Datum.mentionsOnly_symbol (.inr rfl))) 0 []
  have int (n : Int) : (Datum.int n).BodiesMentionOnly {"g", "a"} :=
    Datum.bodiesSatisfy_of_isLiteral rfl
  have hw : reading.env.ClosedOn {"g", "a"} := by
    refine .of_forall (List.forall_mem_singleton.mpr ?_)
    simp only [reading, List.forall_mem_cons]
    exact ⟨fn, int 5, int 7, List.forall_mem_nil _⟩
  exact ⟨hh, hp, ho, hw, applyFn_eq_applyToValues hh hp ho hw 9 [.symbol "y", .symbol "x"]⟩

end DynLisp
