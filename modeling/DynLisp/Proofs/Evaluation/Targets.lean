import Mathlib.Data.Set.Insert
import DynLisp.Proofs.Evaluation.Visibility

/-!
# What evaluation can bind

Only `def` binds a name globally, and which names it can bind is written in the code: a call of
`def` has its target as its first operand.  The code at hand is the form itself and the bodies of
the functions that the environment holds.  Evaluation makes no other code out of it, so the targets
that occur there bound what this evaluation can change, and what any later run of the same code can
(`evaluation_binds_targets`).

Parameters are bound too, but in a scope of their own, which the global one does not feel.
-/

namespace DynLisp

/-! ## Targets -/

namespace Datum

/-- The names that are targets of calls of `def` in a form. -/
def targets (d : Datum) : Set String :=
  {name | ∃ place rest,
    Occurs (.call place (.symbol SpecialForm.define.name :: .symbol name :: rest)) d}

/-- The names that are targets in the bodies of the functions in a value. -/
def bodyTargets (d : Datum) : Set String :=
  {name | ∃ place params body, d.Reaches (.fn place params body) ∧
    ∃ form ∈ body, name ∈ form.targets}

/-- A call has the targets of its items, and one more if it is a call of `def`. -/
theorem mem_targets_call_iff {place : Nat} {items : List Datum} {name : String} :
    name ∈ (Datum.call place items).targets ↔
      (∃ rest, items = .symbol SpecialForm.define.name :: .symbol name :: rest) ∨
      ∃ d ∈ items, name ∈ d.targets := by
  constructor
  · rintro ⟨place', rest, ho⟩
    cases ho with
    | refl => exact .inl ⟨rest, rfl⟩
    | call hd ho => exact .inr ⟨_, hd, place', rest, ho⟩
  · rintro (⟨rest, rfl⟩ | ⟨d, hd, place', rest, ho⟩)
    · exact ⟨place, rest, .refl⟩
    · exact ⟨place', rest, .call hd ho⟩

theorem targets_symbol (name : String) : (Datum.symbol name).targets = ∅ := by
  refine Set.eq_empty_of_forall_notMem ?_
  rintro target ⟨place, rest, ho⟩
  cases ho

theorem bodyTargets_subset_iff {d : Datum} {D : Set String} :
    d.bodyTargets ⊆ D ↔ d.BodiesSatisfy (·.targets ⊆ D) := by
  constructor
  · intro h place params body hr form hform name hname
    exact h ⟨place, params, body, hr, form, hform, hname⟩
  · rintro h name ⟨place, params, body, hr, form, hform, hname⟩
    exact h place params body hr form hform hname

/-- A call that has been given a place had the same symbols in front before. -/
theorem exists_call_of_settle {d : Datum} {next place : Nat} {head name : String}
    {rest : List Datum}
    (h : (d.settle next).1 = .call place (.symbol head :: .symbol name :: rest)) :
    ∃ place' rest', d = .call place' (.symbol head :: .symbol name :: rest') := by
  cases d with
  | call place' items =>
    rw [settle, call.injEq] at h
    obtain ⟨-, h⟩ := h
    rcases items with _ | ⟨first, _ | ⟨second, rest'⟩⟩ <;> simp only [settleAll, List.cons.injEq,
      reduceCtorEq] at h
    · exact h.2.elim
    · obtain ⟨hfirst, hsecond, -⟩ := h
      rw [eq_symbol_of_settle hfirst, eq_symbol_of_settle hsecond]
      exact ⟨place', rest', rfl⟩
  | listForm | mapForm =>
    rw [settle] at h
    cases h
  | _ => cases h

theorem targets_settle (d : Datum) (next : Nat) : (d.settle next).1.targets ⊆ d.targets := by
  rintro name ⟨place, rest, ho⟩
  obtain ⟨e, n, he, hn⟩ := exists_occurs_of_settle ho
  obtain ⟨place', rest', rfl⟩ := exists_call_of_settle hn.symm
  exact ⟨place', rest', he⟩

end Datum

/-- The names that are targets in the functions of an environment. -/
def Environment.targets (e : Environment) : Set String :=
  {name | ∃ scope ∈ e.scopes, ∃ other d, Assoc.find? scope other = some d ∧ name ∈ d.bodyTargets}

theorem Environment.targets_subset_iff {e : Environment} {D : Set String} :
    e.targets ⊆ D ↔ e.BindsOnly Set.univ (Datum.BodiesSatisfy (·.targets ⊆ D)) := by
  constructor
  · intro h scope hs other _ d hd
    exact Datum.bodyTargets_subset_iff.mp fun name hn => h ⟨scope, hs, other, d, hd, hn⟩
  · rintro h name ⟨scope, hs, other, d, hd, hn⟩
    exact Datum.bodyTargets_subset_iff.mpr (h scope hs other trivial d hd) hn

/-! ## Bindings made anew -/

/-- The later scope is the earlier one with some of the names bound in it, one after another. -/
def Scope.Rebinds (D : Set String) (before after : Scope) : Prop :=
  ∃ es : List (String × Datum), (∀ e ∈ es, e.1 ∈ D) ∧
    after = es.foldl (fun m e => Assoc.insert m e.1 e.2) before

namespace Scope.Rebinds

variable {D : Set String} {before after later : Scope}

theorem refl (D : Set String) (scope : Scope) : Scope.Rebinds D scope scope :=
  ⟨[], List.forall_mem_nil _, rfl⟩

theorem trans (h : Scope.Rebinds D before after) (h' : Scope.Rebinds D after later) :
    Scope.Rebinds D before later := by
  obtain ⟨es, hes, rfl⟩ := h
  obtain ⟨es', hes', rfl⟩ := h'
  exact ⟨es ++ es', List.forall_mem_append.mpr ⟨hes, hes'⟩, by rw [List.foldl_append]⟩

theorem insert (h : Scope.Rebinds D before after) {name : String} (hn : name ∈ D) (d : Datum) :
    Scope.Rebinds D before (Assoc.insert after name d) :=
  h.trans ⟨[(name, d)], List.forall_mem_singleton.mpr hn, rfl⟩

theorem find?_eq (h : Scope.Rebinds D before after) {name : String} (hn : name ∉ D) :
    Assoc.find? after name = Assoc.find? before name := by
  obtain ⟨es, hes, rfl⟩ := h
  induction es generalizing before with
  | nil => rfl
  | cons e es ih =>
    obtain ⟨he, hes⟩ := List.forall_mem_cons.mp hes
    have hne : name ≠ e.1 := by rintro rfl; exact hn he
    rw [List.foldl_cons, ih hes, Assoc.find?_insert_of_ne _ _ hne]

theorem eq_of_empty (h : Scope.Rebinds ∅ before after) : after = before := by
  obtain ⟨es, hes, rfl⟩ := h
  cases es with
  | nil => rfl
  | cons e es => exact (hes e List.mem_cons_self).elim

end Scope.Rebinds

/-! ## Evaluation -/

/-- Forms whose targets are among the names, and values that hold no other forms. -/
def Discipline.targeting (D : Set String) : Discipline where
  code d := d.targets ⊆ D
  value := Datum.BodiesSatisfy (·.targets ⊆ D)
  target name := name ∈ D
  fault _ := True
  raised _ := True
  code_call := by
    intro place items d h hd name hn
    exact h (Datum.mem_targets_call_iff.mpr (.inr ⟨d, hd, hn⟩))
  code_listForm := by
    rintro items d h hd name ⟨place, rest, ho⟩
    exact h ⟨place, rest, .listForm hd ho⟩
  code_mapForm := by
    rintro es e h he name ⟨place, rest, ho⟩
    exact h ⟨place, rest, .mapForm he ho⟩
  code_settle next h := (Datum.targets_settle _ next).trans h
  code_body h hd := h _ _ _ (.refl _) _ hd
  target_define h := h ⟨_, _, .refl⟩
  value_literal _ hl := Datum.bodiesSatisfy_of_isLiteral hl
  value_bool _ := Datum.bodiesSatisfy_of_isLiteral rfl
  value_nil := Datum.bodiesSatisfy_of_isLiteral rfl
  value_list := Datum.bodiesSatisfy_list
  value_map := Datum.bodiesSatisfy_map
  value_fn place params h := Datum.bodiesSatisfy_fn h place params
  value_real _ _ := Datum.bodiesSatisfy_of_isLiteral rfl
  fault_program _ _ := trivial
  fault_notValue _ _ := trivial
  fault_within _ _ := trivial
  fault_reported _ := trivial
  raised_of_fault _ := trivial
  raised_of_isSpoken _ := trivial

/-- The state holds no other targets than the names, and its global scope is `before` with some of
them bound anew. -/
structure World.Within (D : Set String) (before : Scope) (w : World) : Prop where
  binds : w.env.BindsOnly Set.univ (Datum.BodiesSatisfy (·.targets ⊆ D))
  globals : Scope.Rebinds D before w.env.globals

/-- A state in which only the names can have been bound goes with itself. -/
def Coupling.targeting {hosted : List HostProcedure}
    (hh : ∀ p ∈ hosted, HostProcedure.MakesNoFunctions p) (D : Set String) (before : Scope) :
    Coupling (.targeting D) where
  natives := Session.nativesOf hosted
  natives' := Session.nativesOf hosted
  rel w w' := w = w' ∧ w.Within D before
  ahead := False
  lookup := by
    rintro w _ name ⟨rfl, hw⟩ -
    exact ⟨rfl, fun d => hw.binds.lookup trivial⟩
  defineGlobal := by
    rintro w _ name d ⟨rfl, hw⟩ hn hd
    exact ⟨rfl, hw.binds.defineGlobal hd name, hw.globals.insert hn d⟩
  enter := by
    rintro w _ ⟨rfl, hw⟩
    exact ⟨rfl, hw.binds.enter, hw.globals⟩
  define := by
    rintro w _ name d ⟨rfl, hw⟩ hi - hd
    refine ⟨rfl, hw.binds.define hi hd name, ?_⟩
    -- a parameter is bound in an inner scope, so its name need not be a target
    show Scope.Rebinds D before (w.env.define name d).globals
    rw [Environment.define_globals hi]
    exact hw.globals
  leave := by
    rintro w _ u _ - ⟨rfl, hu⟩ - -
    exact ⟨rfl, hu.binds.leave, hu.globals⟩
  descend := by
    rintro w _ ⟨rfl, hw⟩
    obtain ⟨limit, -, -, hd⟩ | ⟨-, hd⟩ := w.env.descend_cases
    · exact .inl ⟨_, hd, hd⟩
    · exact .inr (.inl ⟨_, _, hd, hd, rfl, hw.binds, hw.globals⟩)
  ascend := by
    rintro w _ u _ _ _ - ⟨rfl, hu⟩ - - - -
    exact ⟨rfl, hu.binds, hu.globals⟩
  say := by
    rintro w _ text ⟨rfl, hw⟩
    exact ⟨rfl, hw.binds, hw.globals⟩
  keep := by
    rintro w _ memory ⟨rfl, hw⟩
    exact ⟨rfl, hw.binds, hw.globals⟩
  next := by
    rintro w _ next ⟨rfl, hw⟩
    exact ⟨rfl, hw.binds, hw.globals⟩
  next_eq := by
    rintro w _ ⟨rfl, -⟩
    rfl
  written_eq := by
    rintro w _ ⟨rfl, -⟩
    rfl
  host_eq := by
    rintro w _ ⟨rfl, -⟩
    rfl
  reply := by
    rintro w _ procedure args ⟨rfl, -⟩ hargs
    exact ⟨rfl, (Session.makesNoFunctions_nativesOf hh procedure _ args).fits (fun _ hd => hd)
      (fun _ => trivial) hargs⟩

/-- Code to be run: a form, or a value that is applied to operands. -/
inductive Task where
  | form (d : Datum)
  | application (f : Datum) (operands : List Datum)

namespace Task

/-- The names that are targets in a task. -/
def targets : Task → Set String
  | .form d => d.targets
  | .application f operands => f.bodyTargets ∪ {name | ∃ d ∈ operands, name ∈ d.targets}

/-- Carries out a task. -/
def run (natives : Natives) (room : Nat) : Task → Eval Datum
  | .form d => evaluate natives room d
  | .application f operands => Eval.apply natives (evaluate natives room) f operands

/-- The state after some tasks, whether or not they fail. -/
def runAll (natives : Natives) (room : Nat) (tasks : List Task) (w : World) : World :=
  tasks.foldl (fun w task => Eval.final (task.run natives room) w) w

end Task

/-- How a run ends that can bind only the names: the global scope differs in nothing else, and all
code that is left, also in the value, has its targets among the names. -/
structure Eval.BindsWithin (D : Set String) (w : World) (r : EStateM.Result Fault World Datum) :
    Prop where
  globals : Scope.Rebinds D w.env.globals (stateOf r).env.globals
  env : (stateOf r).env.targets ⊆ D
  value : ∀ v u, r = .ok v u → v.bodyTargets ⊆ D

section Tasks

variable {hosted : List HostProcedure} (hh : ∀ p ∈ hosted, HostProcedure.MakesNoFunctions p)
    {D : Set String}
include hh

theorem Task.couples_run (before : Scope) {task : Task} (ht : task.targets ⊆ D) (room : Nat) :
    Eval.Couples (.targeting hh D before) (Datum.BodiesSatisfy (·.targets ⊆ D)) (fun _ => True)
      (task.run (Session.nativesOf hosted) room) (task.run (Session.nativesOf hosted) room) := by
  have steps := steps_evaluate (.targeting hh D before) id trivial room
  cases task with
  | form d => exact steps.couples d ht
  | application f operands =>
    obtain ⟨hf, hoperands⟩ := Set.union_subset_iff.mp ht
    exact Eval.couples_apply steps (Datum.bodyTargets_subset_iff.mp hf) fun d hd name hn =>
      hoperands ⟨d, hd, hn⟩

theorem Task.bindsWithin_run {task : Task} (ht : task.targets ⊆ D) {w : World}
    (hw : w.env.targets ⊆ D) (room : Nat) :
    Eval.BindsWithin D w (task.run (Session.nativesOf hosted) room w) := by
  have h := Task.couples_run hh w.env.globals ht room w w
    ⟨rfl, Environment.targets_subset_iff.mp hw, .refl D _⟩
  generalize task.run (Session.nativesOf hosted) room w = r at h
  -- the state was coupled with itself, so the two outcomes are one and the same
  cases r with
  | ok v u =>
    cases h with
    | value hv hu =>
      refine ⟨hu.2.globals, Environment.targets_subset_iff.mpr hu.2.binds, ?_⟩
      rintro _ _ ⟨⟩
      exact Datum.bodyTargets_subset_iff.mpr hv
  | error f u =>
    cases h with
    | fault _ hu => exact ⟨hu.2.globals, Environment.targets_subset_iff.mpr hu.2.binds, nofun⟩
    | ahead hK => exact hK.elim

/-- What the tasks leave behind is again such that no further task can bind other names. -/
theorem Task.rebinds_runAll (room : Nat) {tasks : List Task} (ht : ∀ task ∈ tasks, task.targets ⊆ D)
    {w : World} (hw : w.env.targets ⊆ D) :
    Scope.Rebinds D w.env.globals (runAll (Session.nativesOf hosted) room tasks w).env.globals := by
  induction tasks generalizing w with
  | nil => exact .refl D _
  | cons task tasks ih =>
    obtain ⟨hfirst, hrest⟩ := List.forall_mem_cons.mp ht
    have hstep := Task.bindsWithin_run hh hfirst hw room
    exact hstep.globals.trans (ih hrest hstep.env)

end Tasks

/-- The targets in a form and in the functions of the environment bound what evaluating the form can
bind globally, however it ends.  They bound the code that is left afterwards too, so the same holds
of every later run of it. -/
theorem evaluation_binds_targets {hosted : List HostProcedure}
    (hh : ∀ p ∈ hosted, HostProcedure.MakesNoFunctions p) (room : Nat) (d : Datum) (w : World) :
    (∀ name ∉ d.targets ∪ w.env.targets,
      Assoc.find? (Eval.final (evaluate (Session.nativesOf hosted) room d) w).env.globals name =
        Assoc.find? w.env.globals name) ∧
    (Eval.final (evaluate (Session.nativesOf hosted) room d) w).env.targets ⊆
      d.targets ∪ w.env.targets ∧
    (∀ v u, evaluate (Session.nativesOf hosted) room d w = .ok v u →
      v.bodyTargets ⊆ d.targets ∪ w.env.targets) ∧
    (∀ tasks : List Task, (∀ task ∈ tasks, task.targets ⊆ d.targets ∪ w.env.targets) →
      ∀ name ∉ d.targets ∪ w.env.targets,
        Assoc.find? (Task.runAll (Session.nativesOf hosted) room tasks
          (Eval.final (evaluate (Session.nativesOf hosted) room d) w)).env.globals name =
        Assoc.find? w.env.globals name) ∧
    (d.targets ∪ w.env.targets = ∅ →
      (Eval.final (evaluate (Session.nativesOf hosted) room d) w).env = w.env) := by
  have own : (Task.form d).targets ⊆ d.targets ∪ w.env.targets := Set.subset_union_left
  have h :
      Eval.BindsWithin (d.targets ∪ w.env.targets) w
        (evaluate (Session.nativesOf hosted) room d w) :=
    Task.bindsWithin_run hh own Set.subset_union_right room
  refine ⟨fun name hn => h.globals.find?_eq hn, h.env, h.value, fun tasks ht name hn => ?_,
    fun hnone => ?_⟩
  · exact (h.globals.trans (Task.rebinds_runAll hh room ht h.env)).find?_eq hn
  · have hglobals := h.globals
    rw [hnone] at hglobals
    rw [(keeps_evaluate (Session.nativesOf hosted) room d w).env_eq]
    exact congrArg (fun scope => { w.env with globals := scope }) hglobals.eq_of_empty

/-- A function that binds `x` leaves `y` alone. -/
theorem evaluation_binds_targets_function :
    (∀ p ∈ [Stock.first], HostProcedure.MakesNoFunctions p) ∧
    "y" ∉ (Datum.call 1 [.symbol "f"]).targets ∪ Environment.targets
      ⟨[], [("f", .fn 0 [] [.call 2 [.symbol "def", .symbol "x", .symbol "y"]]), ("y", .int 5)],
        some 50, 0⟩ ∧
    Assoc.find? (Eval.final (evaluate (Session.nativesOf [Stock.first]) 9 (.call 1 [.symbol "f"]))
      ⟨⟨[], [("f", .fn 0 [] [.call 2 [.symbol "def", .symbol "x", .symbol "y"]]), ("y", .int 5)],
        some 50, 0⟩, "", 3, .nil⟩).env.globals "y" = some (.int 5) := by
  have hh : ∀ p ∈ [Stock.first], HostProcedure.MakesNoFunctions p :=
    List.forall_mem_singleton.mpr Stock.local_first.gives
  have body : (Datum.call 2 [.symbol "def", .symbol "x", .symbol "y"]).targets ⊆ {"x"} := by
    intro name hn
    simpa [Datum.mem_targets_call_iff, Datum.targets_symbol, SpecialForm.name, eq_comm] using hn
  have hn : "y" ∉ (Datum.call 1 [.symbol "f"]).targets ∪ Environment.targets
      ⟨[], [("f", .fn 0 [] [.call 2 [.symbol "def", .symbol "x", .symbol "y"]]), ("y", .int 5)],
        some 50, 0⟩ := by
    rintro (hy | hy)
    · simp [Datum.mem_targets_call_iff, Datum.targets_symbol] at hy
    · have only :
          Environment.targets ⟨[],
            [("f", .fn 0 [] [.call 2 [.symbol "def", .symbol "x", .symbol "y"]]),
          ("y", .int 5)], some 50, 0⟩ ⊆ {"x"} := by
        refine Environment.targets_subset_iff.mpr fun scope hs other _ d hd => ?_
        rw [List.mem_singleton.mp hs] at hd
        have := Assoc.mem_of_find?_eq_some hd
        simp only [List.mem_cons, Prod.mk.injEq, List.not_mem_nil, or_false] at this
        rcases this with ⟨-, rfl⟩ | ⟨-, rfl⟩
        · exact Datum.bodiesSatisfy_fn (List.forall_mem_singleton.mpr body) 0 []
        · exact Datum.bodiesSatisfy_of_isLiteral rfl
      exact absurd (only hy) (by decide)
  exact ⟨hh, hn, (evaluation_binds_targets hh 9 _ _).1 "y" hn⟩

end DynLisp
