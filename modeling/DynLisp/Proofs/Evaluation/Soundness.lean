import DynLisp.Proofs.Evaluation.Termination
import DynLisp.Proofs.Reader.Forms

/-!
# Soundness of evaluation

From an environment of values, a form evaluates to a value or to a fault of the program, and all
that is bound afterwards are values again.  Natives are the border to the host: whatever they return
is admitted first, and whatever they fail with is turned into a fault of the program.

Failures of the host get through at two places, shown in the last section.  A fault is turned into
words on its way out of a native, so the words must exist; and only an interpreter turns a spent
stack into a fault of the program, so a bare evaluation that has no limit can end with it.
Otherwise only the bodies of the functions that natives return are taken on trust
(`HostProcedure.Safe`).
-/

namespace DynLisp

/-! ## Environments of values -/

/-- Everything that is bound is a value. -/
structure Environment.Sound (e : Environment) : Prop where
  inner : ∀ scope ∈ e.inner, ∀ b ∈ scope, b.2.IsValue
  globals : ∀ b ∈ e.globals, b.2.IsValue

namespace Environment.Sound

variable {e : Environment} {name : String} {d : Datum}

theorem lookup (h : e.Sound) (hd : e.lookup name = .ok d) : d.IsValue := by
  unfold Environment.lookup at hd
  split at hd
  next value hv =>
    cases hd
    rw [lookup?_eq_findSome?, List.findSome?_eq_some_iff] at hv
    obtain ⟨before, scope, after, hs, hf, -⟩ := hv
    have hb := Assoc.mem_of_find?_eq_some hf
    have hs : scope ∈ e.scopes := by rw [hs]; simp
    obtain hs | hs := List.mem_append.mp hs
    · exact h.inner scope hs _ hb
    · rw [List.mem_singleton.mp hs] at hb
      exact h.globals _ hb
  next => cases hd

theorem defineGlobal (h : e.Sound) (hd : d.IsValue) : (e.defineGlobal name d).Sound :=
  ⟨h.inner, Assoc.forall_mem_insert h.globals hd⟩

theorem define (h : e.Sound) (hd : d.IsValue) : (e.define name d).Sound := by
  unfold Environment.define
  split
  next => exact ⟨h.inner, Assoc.forall_mem_insert h.globals hd⟩
  next scope rest hi =>
    obtain ⟨hscope, hrest⟩ := List.forall_mem_cons.mp (hi ▸ h.inner)
    exact ⟨List.forall_mem_cons.mpr ⟨Assoc.forall_mem_insert hscope hd, hrest⟩, h.globals⟩

theorem enter (h : e.Sound) : e.enter.Sound :=
  ⟨List.forall_mem_cons.mpr ⟨List.forall_mem_nil _, h.inner⟩, h.globals⟩

theorem leave (h : e.Sound) : e.leave.Sound :=
  ⟨fun scope hs => h.inner scope (List.mem_of_mem_tail hs), h.globals⟩

end Environment.Sound

/-- Forms of the reader, values of the language and faults of the program.  Natives may raise all
that has words. -/
def Discipline.sound : Discipline where
  code := Datum.IsForm
  value := Datum.IsValue
  target _ := True
  fault f := f.kind.isProgram = true ∧ f.isSpoken = true
  raised f := f.isSpoken = true
  code_call := by
    rintro _ _ d ⟨⟩ hd
    exact ‹∀ d ∈ _, d.IsForm› d hd
  code_listForm := by
    rintro _ d ⟨⟩ hd
    exact ‹∀ d ∈ _, d.IsForm› d hd
  code_mapForm := by
    rintro _ e ⟨⟩ he
    exact ‹∀ e ∈ _, e.2.IsForm› e he
  code_settle next h := h.settle next
  code_body := by
    rintro _ _ _ d ⟨⟩ hd
    exact ‹∀ d ∈ _, d.IsForm› d hd
  target_define _ := trivial
  value_literal := by
    intro d hd hl
    cases hd with
    | str text => exact .str text
    | int h => exact .int h
    | real x mark => exact .real x mark
    | bool b => exact .bool b
    | nil => exact .nil
    | _ => cases hl
  value_bool := .bool
  value_nil := .nil
  value_list := .list
  value_map := .map
  value_fn _ _ := .fn
  value_real other _ := .real _ other
  fault_program h hs := ⟨h, hs⟩
  fault_notValue h hk := absurd hk h.kind?_ne_none
  fault_within name h := ⟨Fault.isProgram_within h name, Fault.isSpoken_within h name⟩
  fault_reported := by
    intro f hf
    cases f with
    | stackSpent => exact ⟨rfl, rfl⟩
    | _ => exact hf
  raised_of_fault h := h.2
  raised_of_isSpoken h := h

/-! ## Natives -/

/-- The functions in what is returned have bodies of forms, provided that the results of the source
texts run on the way are values. -/
def Reply.Sound : Reply → Prop
  | .give d => d.FunctionsOfForms
  | .fail _ => True
  | .say _ next => next.Sound
  | .consult next => ∀ memory, (next memory).Sound
  | .keep _ next => next.Sound
  | .run _ next =>
    (∀ values, (∀ v ∈ values, v.IsValue) → (next (.ok values)).Sound) ∧
    ∀ f, (next (.error f)).Sound

/-- Called with values, the procedure returns no function whose body is not made of forms. -/
def HostProcedure.Sound (p : HostProcedure) : Prop :=
  ∀ sight args, (∀ d ∈ args, d.IsValue) → (p sight args).Sound

theorem Reply.Sound.fits {r : Reply} (h : r.Sound) (hr : r.Speaks) : r.Fits .sound False := by
  induction r with
  | give d =>
    intro v hv
    unfold Eval.admitted at hv
    split at hv
    · cases hv
      exact .nil
    · exact Datum.isValue_of_accept hv h
  | fail f => exact hr
  | say text next ih => exact ih h hr
  | consult next ih => exact fun memory => ih memory (h memory) (hr memory)
  | keep memory next ih => exact ih h hr
  | run text next ih =>
    exact ⟨isForm_of_read text, fun values hv => ih _ (h.1 values hv) (hr.1 values),
      fun f hf => ih _ (h.2 f) (hr.2 f hf), False.elim⟩

theorem Datum.functionsOfForms_of_isLiteral {d : Datum} (h : d.isLiteral = true) :
    d.FunctionsOfForms := by
  intro place params body hr
  cases hr <;> cases h

theorem Reply.Gives.sound {r : Reply} (h : r.Gives (·.isLiteral = true)) : r.Sound := by
  induction r with
  | give d => exact Datum.functionsOfForms_of_isLiteral h
  | fail f => trivial
  | say text next ih => exact ih h
  | consult next ih => exact fun memory => ih memory (h memory)
  | keep memory next ih => exact ih h
  | run text next ih => exact h.elim

/-- What a sound evaluation asks of the procedures that it calls. -/
structure HostProcedure.Safe (p : HostProcedure) : Prop where
  sound : HostProcedure.Sound p
  speaks : HostProcedure.Speaks p

theorem Session.safe_nativesOf {hosted : List HostProcedure}
    (hh : ∀ p ∈ hosted, HostProcedure.Safe p) (procedure : Procedure) :
    HostProcedure.Safe (nativesOf hosted procedure) := by
  have builtin (b : Builtin) : HostProcedure.Safe fun _ args => b.reply args :=
    ⟨fun _ args _ => (b.gives_reply args).sound, fun _ args => b.speaks_reply args⟩
  refine nativesOf_induction builtin hh ⟨?_, fun _ _ => trivial⟩ procedure
  intro sight args _ place params body hr
  cases hr

/-! ## Evaluation -/

/-- A state whose environment holds values only goes with itself. -/
def Coupling.sound {hosted : List HostProcedure} (hh : ∀ p ∈ hosted, HostProcedure.Safe p) :
    Coupling .sound where
  natives := Session.nativesOf hosted
  natives' := Session.nativesOf hosted
  rel w w' := w = w' ∧ w.env.Sound
  ahead := False
  lookup := by
    rintro w _ name ⟨rfl, hw⟩ -
    exact ⟨rfl, fun d => hw.lookup⟩
  defineGlobal := by
    rintro w _ name d ⟨rfl, hw⟩ - hd
    exact ⟨rfl, hw.defineGlobal hd⟩
  enter := by
    rintro w _ ⟨rfl, hw⟩
    exact ⟨rfl, hw.enter⟩
  define := by
    rintro w _ name d ⟨rfl, hw⟩ - - hd
    exact ⟨rfl, hw.define hd⟩
  leave := by
    rintro w _ u _ - ⟨rfl, hu⟩ - -
    exact ⟨rfl, hu.leave⟩
  descend := by
    rintro w _ ⟨rfl, hw⟩
    obtain ⟨limit, -, -, hd⟩ | ⟨-, hd⟩ := w.env.descend_cases
    · exact .inl ⟨_, hd, hd⟩
    · exact .inr (.inl ⟨_, _, hd, hd, rfl, hw.inner, hw.globals⟩)
  ascend := by
    rintro w _ u _ _ _ - ⟨rfl, hu⟩ - - - -
    exact ⟨rfl, hu.inner, hu.globals⟩
  say := by
    rintro w _ text ⟨rfl, hw⟩
    exact ⟨rfl, hw⟩
  keep := by
    rintro w _ memory ⟨rfl, hw⟩
    exact ⟨rfl, hw⟩
  next := by
    rintro w _ next ⟨rfl, hw⟩
    exact ⟨rfl, hw⟩
  next_eq := by
    rintro w _ ⟨rfl, -⟩
    rfl
  written_eq := by
    rintro w _ ⟨rfl, -⟩
    rfl
  host_eq := by
    rintro w _ ⟨rfl, -⟩
    rfl
  reply := by
    rintro w _ procedure args ⟨rfl, -⟩ ha
    have safe := Session.safe_nativesOf hh procedure
    exact ⟨rfl, (safe.sound _ _ ha).fits (safe.speaks _ _)⟩

/-- What a sound evaluation ends with: a value or one of the faults, and an environment of
values. -/
def Eval.SoundEnd (E : Fault → Prop) : EStateM.Result Fault World Datum → Prop
  | .ok v u => v.IsValue ∧ u.env.Sound
  | .error f u => E f ∧ u.env.Sound

theorem Eval.SoundEnd.mono {E E' : Fault → Prop} {r : EStateM.Result Fault World Datum}
    (h : SoundEnd E r) (hE : ∀ f, E f → E' f) : SoundEnd E' r := by
  cases r with
  | ok v u => exact h
  | error f u => exact ⟨hE f h.1, h.2⟩

theorem Eval.SoundEnd.interpreted {act : Eval Datum} {w : World}
    (h : SoundEnd (·.kind.isProgram = true) (act w)) :
    SoundEnd (·.kind.isProgram = true) (interpreted act w) := by
  unfold Eval.interpreted mapFault
  generalize act w = r at h
  cases r with
  | ok v u => exact h
  | error f u => exact ⟨Fault.isProgram_reported h.1, h.2⟩

theorem soundEnd_reportedRounds {hosted : List HostProcedure}
    (hh : ∀ p ∈ hosted, HostProcedure.Safe p) {d : Datum} (hd : d.IsForm) {w : World}
    (hw : w.env.Sound) (n : Nat) :
    Eval.SoundEnd (·.kind.isProgram = true) (reportedRounds (Session.nativesOf hosted) n d w) := by
  have h := couples_rounds (f := .noRoom) (Coupling.sound hh) ⟨rfl, rfl⟩ False.elim
    (.inl (rfl : n = n)) hd w w
    ⟨rfl, hw⟩
  change Coupling.Outcome _ _ _ (reportedRounds (Session.nativesOf hosted) n d w)
    (reportedRounds (Session.nativesOf hosted) n d w) at h
  generalize reportedRounds (Session.nativesOf hosted) n d w = r at h
  -- the state was coupled with itself, so the two outcomes are one and the same
  cases r with
  | ok v u =>
    cases h with
    | value hv hu => exact ⟨hv, hu.2⟩
  | error f u =>
    cases h with
    | fault hf hu => exact ⟨hf.1, hu.2⟩
    | ahead hK => exact hK.elim

/-- Where the stack is spent, nothing else goes wrong. -/
theorem Eval.SoundEnd.of_reported {r r' : EStateM.Result Fault World Datum} {s : Sight}
    (h : AlikeEnd True s r r') (hr : SoundEnd (·.kind.isProgram = true) r') :
    SoundEnd (fun f => f.kind.isProgram = true ∨ f = .stackSpent) r := by
  cases h with
  | value v _ => exact hr
  | fault f _ => exact ⟨.inl hr.1, hr.2⟩
  | spent _ _ => exact ⟨.inr rfl, hr.2⟩

/-- A form comes to a value or to a fault of the program, and the environment is left with values
only.  Without a limit it may come to the end of the stack too; an interpreter makes a fault of the
program of this. -/
theorem evaluate_sound (hosted : List HostProcedure) (hh : ∀ p ∈ hosted, HostProcedure.Safe p)
    {d : Datum} (hd : d.IsForm) {w : World} (hw : w.env.Sound) :
    Eval.SoundEnd (fun f => f.kind.isProgram = true ∨ w.env.limit = none ∧ f = .stackSpent)
      (evalForm (Session.nativesOf hosted) d w) ∧
    Eval.SoundEnd (·.kind.isProgram = true) (interpret (Session.nativesOf hosted) d w) := by
  have hsound := soundEnd_reportedRounds hh hd hw w.env.room
  constructor
  · cases hl : w.env.limit with
    | none =>
      have halike := alike_reportedRounds (Session.nativesOf hosted) w.env.room w.sight d w rfl
      exact (Eval.SoundEnd.of_reported halike hsound).mono fun f hf => hf.imp_right fun hspent =>
        ⟨rfl, hspent⟩
    | some limit =>
      rw [evalForm_eq_rounds _ hl fun _ => throw .noRoom]
      exact hsound.mono fun f hf => .inl hf
  · rw [interpret_eq_rounds]
    exact hsound.interpreted

/-- A native that returns a list with a host's array in it. -/
theorem evaluate_sound_array :
    (∀ p ∈ [Stock.constant (.list [.array 1 []])], HostProcedure.Safe p) ∧
    (Datum.call 1 [.symbol "f"]).IsForm ∧
    Environment.Sound ⟨[], [("f", .native "f" (.hosted 0))], some 1000, 0⟩ ∧
    Eval.SoundEnd (·.kind.isProgram = true)
      (interpret (Session.nativesOf [Stock.constant (.list [.array 1 []])]) (.call 1 [.symbol "f"])
        ⟨⟨[], [("f", .native "f" (.hosted 0))], some 1000, 0⟩, "", 2, .nil⟩) := by
  have hh : ∀ p ∈ [Stock.constant (.list [.array 1 []])], HostProcedure.Safe p := by
    intro p hp
    rw [List.mem_singleton.mp hp]
    refine ⟨fun sight args _ place params body hr => ?_, fun _ _ => trivial⟩
    obtain _ | ⟨hd, hr⟩ := hr
    rw [List.mem_singleton.mp hd] at hr
    cases hr
  have hd : (Datum.call 1 [.symbol "f"]).IsForm :=
    .call fun d hd => List.mem_singleton.mp hd ▸ .symbol "f"
  have hw : Environment.Sound ⟨[], [("f", .native "f" (.hosted 0))], some 1000, 0⟩ :=
    ⟨List.forall_mem_nil _, fun b hb => List.mem_singleton.mp hb ▸ .native "f" (.hosted 0)⟩
  exact ⟨hh, hd, hw, (evaluate_sound _ hh hd hw).2⟩

/-! ## What is let out -/

/-- Raises something whose content is an integer with too many digits to be written. -/
def unwritable : HostProcedure := Stock.failure (.unspeakable .misuse .badValue Fault.tooManyDigits)

/-- The native `boom` raises what cannot be written, and the function `f` calls itself. -/
def leaking (limit : Option Int) : World :=
  ⟨⟨[], [("boom", .native "boom" (.hosted 0)), ("f", .fn 0 [] [.call 1 [.symbol "f"]])], limit, 0⟩,
    "", 2, .nil⟩

theorem sound_leaking (limit : Option Int) : (leaking limit).env.Sound := by
  have hbody : ∀ d ∈ [Datum.call 1 [.symbol "f"]], d.IsForm :=
    List.forall_mem_singleton.mpr (.call (List.forall_mem_singleton.mpr (.symbol "f")))
  refine ⟨List.forall_mem_nil _, List.forall_mem_cons.mpr ⟨.native "boom" (.hosted 0), ?_⟩⟩
  exact List.forall_mem_singleton.mpr (.fn hbody)

/-- From environments of values, two calls that come to a failure of the host: under a limit to the
failure to write what a native has raised, and without one to the end of the stack. -/
theorem evaluation_lets_out :
    (leaking (some 1000)).env.Sound ∧ (leaking none).env.Sound ∧
    (∃ u, evalForm (Session.nativesOf [unwritable]) (.call 1 [.symbol "boom"])
      (leaking (some 1000)) =
      .error (.raised .badValue Fault.tooManyDigits) u) ∧
    (∃ u, evalForm (Session.nativesOf [unwritable]) (.call 1 [.symbol "f"]) (leaking none) =
      .error .stackSpent u) ∧
    FaultKind.badValue.isProgram = false ∧ Fault.stackSpent.kind.isProgram = false := by
  refine ⟨sound_leaking _, sound_leaking _, ⟨leaking (some 1000), rfl⟩, ?_, rfl, rfl⟩
  have hself : ∃ u, rounds (Session.nativesOf [unwritable]) (fun _ => throw .stackSpent) freeRoom
      (.call 1 [.symbol "f"]) (leaking none) = .error .stackSpent u :=
    rounds_self_call _ (by decide) .stackSpent freeRoom rfl rfl
  rwa [← evaluate_eq_rounds] at hself

end DynLisp
