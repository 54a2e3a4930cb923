import DynLisp.Proofs.Assoc
import DynLisp.Proofs.Evaluation.Balance
import DynLisp.Proofs.Native.Builtin
import DynLisp.Proofs.Native.Wording
import DynLisp.Proofs.Reader.Faults

/-!
# Two evaluations side by side

A `Discipline` is a condition on forms and one on values that evaluation never breaks: the parts of
a form satisfy the first, what is made from them the second.  A `Coupling` relates the states of two
evaluations of the same form; it has one field for each thing that evaluation does to a state, which
says that the relation survives it.

The main result is `couples_rounds`: the two evaluations come to the same value or the same fault,
and to related states.  A coupling may allow the first evaluation to be cut short by the limit on
levels while the second goes on; all that is said then is that the second writes at least what the
first one wrote.

A property of single evaluations is a coupling of a state with itself.
-/

namespace DynLisp

theorem Datum.special?_eq_some_iff {d : Datum} {s : SpecialForm} :
    d.special? = some s ↔ d = .symbol s.name := by
  constructor
  · intro h
    cases d with
    | symbol name =>
      have := List.find?_some h
      rw [beq_iff_eq] at this
      rw [this]
    | _ => cases h
  · rintro rfl
    cases s <;> rfl

/-- Conditions on forms, on values, on the names that are bound globally and on faults, such that
evaluation does not lead out of them.  Natives may raise other faults than leave them. -/
structure Discipline where
  code : Datum → Prop
  value : Datum → Prop
  target : String → Prop
  fault : Fault → Prop
  raised : Fault → Prop
  code_call : ∀ {place items d}, code (.call place items) → d ∈ items → code d
  code_listForm : ∀ {items d}, code (.listForm items) → d ∈ items → code d
  code_mapForm : ∀ {es e}, code (.mapForm es) → e ∈ es → code e.2
  code_settle : ∀ {d} next, code d → code (d.settle next).1
  code_body : ∀ {place params forms d}, value (.fn place params forms) → d ∈ forms → code d
  target_define : ∀ {place name rest},
    code (.call place (.symbol SpecialForm.define.name :: .symbol name :: rest)) → target name
  value_literal : ∀ {d}, code d → d.isLiteral = true → value d
  value_bool : ∀ b, value (.bool b)
  value_nil : value .nil
  value_list : ∀ {items}, (∀ d ∈ items, value d) → value (.list items)
  value_map : ∀ {m : Assoc Datum}, (∀ e ∈ m, value e.2) → value (.map m)
  value_fn : ∀ {forms} place params, (∀ d ∈ forms, code d) → value (.fn place params forms)
  value_real : ∀ {x mark} other, value (.real x mark) → value (.real x other)
  fault_program : ∀ {f}, f.kind.isProgram = true → f.isSpoken = true → fault f
  fault_notValue : ∀ {d}, value d → d.kind? = none → fault (.notValue d)
  fault_within : ∀ {f} name, raised f → fault (f.within name)
  fault_reported : ∀ {f}, fault f → fault f.reported
  raised_of_fault : ∀ {f}, fault f → raised f
  raised_of_isSpoken : ∀ {f}, f.isSpoken = true → raised f

/-- What a native may do under a discipline: whatever of its result is admitted is a value, the
source texts that it runs hold only code, and it raises what may be raised.  If `ahead` holds, a
fault of the limit on levels is passed on as it is. -/
def Reply.Fits (D : Discipline) (ahead : Prop) : Reply → Prop
  | .give d => ∀ v, Eval.admitted d = .ok v → D.value v
  | .fail f => D.raised f
  | .say _ next => next.Fits D ahead
  | .consult next => ∀ memory, (next memory).Fits D ahead
  | .keep _ next => next.Fits D ahead
  | .run text next =>
    (∀ d ∈ (read text).forms, D.code d) ∧
    (∀ values, (∀ v ∈ values, D.value v) → (next (.ok values)).Fits D ahead) ∧
    (∀ f, D.raised f → (next (.error f)).Fits D ahead) ∧
    (ahead → ∀ f : Fault, f.kind = .depth → next (.error f) = .fail f)

/-- What a native sees of a state. -/
def World.sight (w : World) : Sight := ⟨w.env.depth, w.env.level, w.env.limit⟩

/-- A relation between the states of two evaluations. -/
structure Coupling (D : Discipline) where
  natives : Natives
  natives' : Natives
  rel : World → World → Prop
  /-- may the first evaluation be cut short by the limit on levels? -/
  ahead : Prop
  lookup : ∀ {w w' name}, rel w w' → D.code (.symbol name) →
    w.env.lookup name = w'.env.lookup name ∧ ∀ d, w.env.lookup name = .ok d → D.value d
  defineGlobal : ∀ {w w' name d}, rel w w' → D.target name → D.value d →
    rel { w with env := w.env.defineGlobal name d } { w' with env := w'.env.defineGlobal name d }
  enter : ∀ {w w'}, rel w w' → rel { w with env := w.env.enter } { w' with env := w'.env.enter }
  define : ∀ {w w' name d}, rel w w' → w.env.inner ≠ [] → w'.env.inner ≠ [] → D.value d →
    rel { w with env := w.env.define name d } { w' with env := w'.env.define name d }
  leave : ∀ {w w' u u'}, rel w w' → rel u u' → Keeps 1 { w with env := w.env.enter } u →
    Keeps 1 { w' with env := w'.env.enter } u' →
    rel { u with env := u.env.leave } { u' with env := u'.env.leave }
  descend : ∀ {w w'}, rel w w' →
    (∃ f, w.env.descend = .error f ∧ w'.env.descend = .error f) ∨
    (∃ e e', w.env.descend = .ok e ∧ w'.env.descend = .ok e' ∧
      rel { w with env := e } { w' with env := e' }) ∨
    (ahead ∧ ∃ f, w.env.descend = .error f)
  ascend : ∀ {w w' u u' e e'}, rel w w' → rel u u' → w.env.descend = .ok e →
    w'.env.descend = .ok e' → Keeps 0 { w with env := e } u → Keeps 0 { w' with env := e' } u' →
    rel { u with env := u.env.ascend } { u' with env := u'.env.ascend }
  say : ∀ {w w'} text, rel w w' →
    rel { w with written := w.written ++ text } { w' with written := w'.written ++ text }
  keep : ∀ {w w'} memory, rel w w' → rel { w with host := memory } { w' with host := memory }
  next : ∀ {w w'} next, rel w w' → rel { w with next := next } { w' with next := next }
  next_eq : ∀ {w w'}, rel w w' → w.next = w'.next
  written_eq : ∀ {w w'}, rel w w' → w.written = w'.written
  host_eq : ∀ {w w'}, rel w w' → w.host = w'.host
  reply : ∀ {w w' procedure args}, rel w w' → (∀ d ∈ args, D.value d) →
    natives procedure w.sight args = natives' procedure w'.sight args ∧
    (natives procedure w.sight args).Fits D ahead

/-- How the ends of two runs belong together: both have the same result or the same fault, or the
first has run into the limit and the second has written what the first one had. -/
inductive Coupling.Outcome {D : Discipline} (K : Coupling D) {α : Type} (Q : α → Prop)
    (E : Fault → Prop) : EStateM.Result Fault World α → EStateM.Result Fault World α → Prop where
  | value {a : α} {u u' : World} (ha : Q a) (hu : K.rel u u') : Outcome K Q E (.ok a u) (.ok a u')
  | fault {f : Fault} {u u' : World} (hf : E f) (hu : K.rel u u') :
    Outcome K Q E (.error f u) (.error f u')
  | ahead {f : Fault} {u : World} {r : EStateM.Result Fault World α} (hK : K.ahead)
    (hf : f.kind = .depth) (hu : Later u (Eval.stateOf r)) : Outcome K Q E (.error f u) r

theorem Environment.define_inner_ne_nil {e : Environment} {name : String} {d : Datum}
    (h : e.inner ≠ []) : (e.define name d).inner ≠ [] := by
  unfold Environment.define
  split
  · contradiction
  · exact List.cons_ne_nil _ _

theorem Fault.reported_of_depth {f : Fault} (hf : f.kind = .depth) : f.reported = f := by
  cases f <;> first | rfl | cases hf

theorem Fault.within_of_depth {f : Fault} (hf : f.kind = .depth) (name : String) :
    f.within name = f := by
  simp [Fault.within, hf, FaultKind.isProgram]

namespace Eval

theorem spoken_admitted (d : Datum) : Spoken (admitted d) := by
  unfold admitted
  split
  · exact spoken_ok _
  · exact d.spoken_accept

variable {D : Discipline} {K : Coupling D} {α β : Type}

/-- Run from related states, two actions come to ends that belong together. -/
def Couples (K : Coupling D) (Q : α → Prop) (E : Fault → Prop) (act act' : Eval α) : Prop :=
  ∀ w w', K.rel w w' → K.Outcome Q E (act w) (act' w')

/-! ## Rules for `Couples` -/

section Rules

variable {Q : α → Prop} {P : β → Prop} {E : Fault → Prop}

theorem couples_pure {a : α} (ha : Q a) : Couples K Q E (pure a) (pure a) := fun _ _ hw =>
  .value ha hw

theorem couples_throw {f : Fault} (hf : E f) : Couples K Q E (throw f) (throw f) := fun _ _ hw =>
  .fault hf hw

theorem couples_ofExcept {x : Except Fault α} (hQ : ∀ a, x = .ok a → Q a)
    (hE : ∀ f, x = .error f → E f) : Couples K Q E (ofExcept x) (ofExcept x) := by
  cases x with
  | ok a => exact couples_pure (hQ a rfl)
  | error f => exact couples_throw (hE f rfl)

theorem Couples.weaken {act act' : Eval α} {Q' : α → Prop} {E' : Fault → Prop}
    (h : Couples K Q E act act') (hQ : ∀ a, Q a → Q' a) (hE : ∀ f, E f → E' f) :
    Couples K Q' E' act act' := by
  intro w w' hw
  have h := h w w' hw
  generalize act w = r, act' w' = r' at h
  cases h with
  | value ha hu => exact .value (hQ _ ha) hu
  | fault hf hu => exact .fault (hE _ hf) hu
  | ahead hK hf hu => exact .ahead hK hf hu

/-- If the first action is cut short, the second run goes on alone; it only adds to what has been
written. -/
theorem outcome_bind {act act' : Eval α} {k k' : α → Eval β} {w w' : World}
    (h : K.Outcome Q E (act w) (act' w')) (hl : ∀ a, Moves Later (k' a))
    (hk : ∀ a u u', Q a → K.rel u u' → act w = .ok a u → act' w' = .ok a u' →
      K.Outcome P E (k a u) (k' a u')) :
    K.Outcome P E ((act >>= k) w) ((act' >>= k') w') := by
  rw [bind_apply, bind_apply]
  generalize act w = r, act' w' = r' at h hk
  cases h with
  | value ha hu => exact hk _ _ _ ha hu rfl rfl
  | fault hf hu => exact .fault hf hu
  | ahead hK hf hu =>
    refine .ahead hK hf ?_
    cases r' with
    | ok a u' => exact hu.trans (hl a u')
    | error f' u' => exact hu

theorem Couples.bind {act act' : Eval α} {k k' : α → Eval β} (h : Couples K Q E act act')
    (hl : ∀ a, Moves Later (k' a)) (hk : ∀ a, Q a → Couples K P E (k a) (k' a)) :
    Couples K P E (act >>= k) (act' >>= k') := fun w w' hw =>
  outcome_bind (h w w' hw) hl fun a u u' ha hu _ _ => hk a ha u u' hu

theorem Couples.map {act act' : Eval α} {g : α → β} (h : Couples K Q E act act')
    (hg : ∀ a, Q a → P (g a)) :
    Couples K P E (act >>= fun a => pure (g a)) (act' >>= fun a => pure (g a)) :=
  h.bind (fun _ => moves_pure _) fun a ha => couples_pure (hg a ha)

theorem Couples.ite {c : Prop} [Decidable c] {act act' other other' : Eval α}
    (h : Couples K Q E act act') (ho : Couples K Q E other other') :
    Couples K Q E (if c then act else other) (if c then act' else other') := by
  split
  · exact h
  · exact ho

/-- Two actions that go on with an outcome.  One that was cut short must be given up. -/
theorem Couples.attempt_bind {act act' : Eval α} {k k' : Except Fault α → Eval β}
    {E' : Fault → Prop} (h : Couples K Q E' act act') (hl : ∀ outcome, Moves Later (k' outcome))
    (hok : ∀ a, Q a → Couples K P E (k (.ok a)) (k' (.ok a)))
    (herror : ∀ f, E' f → Couples K P E (k (.error f)) (k' (.error f)))
    (hahead : K.ahead → ∀ f : Fault, f.kind = .depth → k (.error f) = throw f) :
    Couples K P E (attempt act >>= k) (attempt act' >>= k') := by
  intro w w' hw
  have h := h w w' hw
  rw [bind_apply, bind_apply, attempt, attempt]
  generalize act w = r, act' w' = r' at h
  cases h with
  | value ha hu => exact hok _ ha _ _ hu
  | fault hf hu => exact herror _ hf _ _ hu
  | @ahead f u _ hK hf hu =>
    simp only [hahead hK f hf]
    refine .ahead hK hf ?_
    cases r' with
    | ok a u' => exact hu.trans (hl (.ok a) u')
    | error f' u' => exact hu.trans (hl (.error f') u')

theorem Couples.mapFault {act act' : Eval α} {g : Fault → Fault} {E' : Fault → Prop}
    (h : Couples K Q E act act') (hg : ∀ f, E f → E' (g f))
    (hdepth : ∀ f : Fault, f.kind = .depth → g f = f) :
    Couples K Q E' (mapFault g act) (mapFault g act') := by
  intro w w' hw
  have h := h w w' hw
  unfold Eval.mapFault
  generalize act w = r, act' w' = r' at h
  cases h with
  | value ha hu => exact .value ha hu
  | fault hf hu => exact .fault (hg _ hf) hu
  | ahead hK hf hu =>
    simp only [hdepth _ hf]
    refine .ahead hK hf ?_
    cases r' <;> exact hu

/-- Both evaluations go one level deeper, unless the limit stops them. -/
theorem Couples.nested {act act' : Eval α} (h : Couples K Q D.fault act act')
    (hleft : Moves (Keeps 0) act) (hright : Moves (Keeps 0) act') :
    Couples K Q D.fault (nested act) (nested act') := by
  intro w w' hw
  have depth : ∀ f, w.env.descend = .error f → f.kind = .depth ∧ f.isSpoken = true := by
    intro f hf
    obtain ⟨limit, -, -, hd⟩ | ⟨-, hd⟩ := w.env.descend_cases
    · rw [hd] at hf
      cases hf
      exact ⟨rfl, rfl⟩
    · rw [hd] at hf
      cases hf
  obtain ⟨f, hf, hf'⟩ | ⟨e, e', he, he', hd⟩ | ⟨hK, f, hf⟩ := K.descend hw
  · simp only [Eval.nested, hf, hf']
    obtain ⟨kind, spoken⟩ := depth f hf
    exact .fault (D.fault_program (by rw [kind]; rfl) spoken) hw
  · have h := h _ _ hd
    have hl := hleft { w with env := e }
    have hr := hright { w' with env := e' }
    simp only [Eval.nested, he, he']
    unfold final at hl hr
    generalize act { w with env := e } = r, act' { w' with env := e' } = r' at h hl hr
    cases h with
    | value ha hu => exact .value ha (K.ascend hw hu he he' hl hr)
    | fault hf hu => exact .fault hf (K.ascend hw hu he he' hl hr)
    | ahead hK hf hu =>
      refine .ahead hK hf ?_
      cases r' <;> exact hu
  · have hg := (hright.nested w').written
    simp only [Eval.nested, hf]
    refine .ahead hK (depth f hf).1 ?_
    obtain ⟨text, ht⟩ := hg
    exact ⟨text, by rw [K.written_eq hw]; exact ht⟩

/-- Both evaluations run in a scope of their own, which is closed again. -/
theorem Couples.framed {act act' : Eval α} (hleft : Moves (Keeps 1) act)
    (hright : Moves (Keeps 1) act')
    (h : ∀ w w', K.rel w w' → w.env.inner ≠ [] → w'.env.inner ≠ [] →
      K.Outcome Q E (act w) (act' w')) : Couples K Q E (framed act) (framed act') := by
  intro w w' hw
  have h := h _ _ (K.enter hw) (List.cons_ne_nil _ _) (List.cons_ne_nil _ _)
  have hl := hleft { w with env := w.env.enter }
  have hr := hright { w' with env := w'.env.enter }
  unfold Eval.framed
  unfold final at hl hr
  generalize act { w with env := w.env.enter } = r, act' { w' with env := w'.env.enter } = r'
    at h hl hr
  cases h with
  | value ha hu => exact .value ha (K.leave hw hu hl hr)
  | fault hf hu => exact .fault hf (K.leave hw hu hl hr)
  | ahead hK hf hu =>
    refine .ahead hK hf ?_
    cases r' <;> exact hu

end Rules

/-! ## Actions that are not made of others -/

section Basic

variable {E : Fault → Prop}

theorem couples_lookup {name : String} (hc : D.code (.symbol name)) :
    Couples K D.value D.fault (lookup name) (lookup name) := by
  intro w w' hw
  obtain ⟨he, hv⟩ := K.lookup hw hc
  have unbound : ∀ f, w.env.lookup name = .error f → D.fault f := by
    intro f hf
    unfold Environment.lookup at hf
    split at hf
    · cases hf
    · cases hf
      exact D.fault_program rfl rfl
  unfold lookup
  rw [← he]
  cases hr : w.env.lookup name with
  | ok d => exact .value (hv d hr) hw
  | error f => exact .fault (unbound f hr) hw

theorem couples_defineGlobal {name : String} {d : Datum} (ht : D.target name) (hd : D.value d) :
    Couples K (fun _ => True) E (defineGlobal name d) (defineGlobal name d) := fun _ _ hw =>
  .value trivial (K.defineGlobal hw ht hd)

theorem couples_say (text : String) : Couples K (fun _ => True) E (say text) (say text) :=
  fun _ _ hw => .value trivial (K.say text hw)

theorem couples_consult : Couples K (fun _ => True) E consult consult := by
  intro w w' hw
  unfold consult
  rw [← K.host_eq hw]
  exact .value trivial hw

theorem couples_keep (memory : Datum) : Couples K (fun _ => True) E (keep memory) (keep memory) :=
  fun _ _ hw => .value trivial (K.keep memory hw)

theorem couples_settle {d : Datum} (hd : D.code d) : Couples K D.code E (settle d) (settle d) := by
  intro w w' hw
  unfold settle
  rw [← K.next_eq hw]
  exact .value (D.code_settle _ hd) (K.next _ hw)

theorem couples_mint {d : Datum} (hd : D.value d) : Couples K D.value E (mint d) (mint d) := by
  intro w w' hw
  unfold mint
  split
  · rw [← K.next_eq hw]
    split
    · exact .value (D.value_real _ hd) (K.next _ hw)
    · exact .value hd hw
  · exact .value hd hw

/-- The truth of a value can be asked for; only what is no value has none. -/
theorem couples_truthy {d : Datum} (hd : D.value d) :
    Couples K (fun _ => True) D.fault (ofExcept d.truthy) (ofExcept d.truthy) := by
  refine couples_ofExcept (fun _ _ => trivial) fun f hf => ?_
  cases hk : d.kind? with
  | some kind =>
    cases d <;> simp_all [Datum.truthy, Datum.kindOf, bind, Except.bind, pure, Except.pure]
  | none =>
    simp only [Datum.truthy, Datum.kindOf, hk, bind, Except.bind, Except.error.injEq] at hf
    rw [← hf]
    exact D.fault_notValue hd hk

end Basic

/-! ## Functions -/

theorem paramNames_cases (params : List Datum) (seen : List String) :
    (∃ names, paramNames seen params = .ok names) ∨
    (∃ cause, paramNames seen params = .error (.form cause)) := by
  induction params generalizing seen with
  | nil => exact .inl ⟨[], rfl⟩
  | cons d rest ih =>
    cases d with
    | symbol name =>
      rw [paramNames]
      split
      · exact .inr ⟨_, rfl⟩
      · obtain ⟨names, hn⟩ | ⟨cause, hn⟩ := ih (name :: seen)
        · exact .inl ⟨name :: names, by rw [hn]; rfl⟩
        · exact .inr ⟨cause, by rw [hn]; rfl⟩
    | _ => exact .inr ⟨_, rfl⟩

/-- A function has the forms after its parameter list as its body. -/
theorem lambda_cases (place : Nat) (operands : List Datum) :
    (∃ names, lambda place operands = .ok (.fn place names operands.tail)) ∨
    (∃ cause, lambda place operands = .error (.form cause)) := by
  have named (params forms : List Datum) :
      (∃ names, ((paramNames [] params).map fun names => Datum.fn place names forms) =
        .ok (.fn place names forms)) ∨
      (∃ cause, ((paramNames [] params).map fun names => Datum.fn place names forms) =
        .error (.form cause)) := by
    obtain ⟨names, hn⟩ | ⟨cause, hn⟩ := paramNames_cases params []
    · exact .inl ⟨names, by rw [hn]; rfl⟩
    · exact .inr ⟨cause, by rw [hn]; rfl⟩
  unfold lambda
  split
  · exact named _ _
  · exact named _ _
  · exact .inr ⟨_, rfl⟩

/-! ## Evaluation -/

/-- Two ways to evaluate forms that the coupling relates. -/
structure Steps (K : Coupling D) (go go' : Datum → Eval Datum) : Prop where
  left : ∀ d, Moves (Keeps 0) (go d)
  right : ∀ d, Moves (Keeps 0) (go' d)
  couples : ∀ d, D.code d → Couples K D.value D.fault (go d) (go' d)

theorem Moves.later {n : Nat} {act : Eval α} (h : Moves (Keeps n) act) : Moves Later act :=
  h.mono fun _ _ => Keeps.written

section Evaluation

variable {go go' : Datum → Eval Datum} (h : Steps K go go')
include h

theorem Steps.later (d : Datum) : Moves Later (go' d) := (h.right d).later

theorem couples_each : ∀ forms, (∀ d ∈ forms, D.code d) →
    Couples K (fun values => ∀ v ∈ values, D.value v) D.fault (each go forms) (each go' forms)
  | [], _ => couples_pure (by simp)
  | form :: rest, hc => by
    obtain ⟨hform, hrest⟩ := List.forall_mem_cons.mp hc
    refine (h.couples form hform).bind
      (fun _ => (moves_each h.later rest).bind fun _ => moves_pure _) fun value hv => ?_
    exact (couples_each rest hrest).map fun values hvs => List.forall_mem_cons.mpr ⟨hv, hvs⟩

theorem couples_entries : ∀ es : List (String × Datum), (∀ e ∈ es, D.code e.2) →
    Couples K (fun values => ∀ e ∈ values, D.value e.2) D.fault (entries go es) (entries go' es)
  | [], _ => couples_pure (by simp)
  | (key, form) :: rest, hc => by
    obtain ⟨hform, hrest⟩ := List.forall_mem_cons.mp hc
    refine (h.couples form hform).bind
      (fun _ => (moves_entries h.later rest).bind fun _ => moves_pure _) fun value hv => ?_
    exact (couples_entries rest hrest).map fun values hvs => List.forall_mem_cons.mpr ⟨hv, hvs⟩

theorem couples_body : ∀ {result : Datum} forms, D.value result → (∀ d ∈ forms, D.code d) →
    Couples K D.value D.fault (body go result forms) (body go' result forms)
  | _, [], hv, _ => couples_pure hv
  | _, form :: rest, _, hc => by
    obtain ⟨hform, hrest⟩ := List.forall_mem_cons.mp hc
    exact (h.couples form hform).bind (fun value => moves_body h.later value rest)
      fun value hv => couples_body rest hv hrest

/-- The value of a form decides how to go on. -/
theorem couples_test {condition : Datum} (hc : D.code condition) {Q : α → Prop}
    {yes yes' no no' : Eval α} (hyes : Couples K Q D.fault yes yes')
    (hno : Couples K Q D.fault no no') (lyes : Moves Later yes') (lno : Moves Later no') :
    Couples K Q D.fault (do let value ← go condition; if ← ofExcept value.truthy then yes else no)
      (do let value ← go' condition; if ← ofExcept value.truthy then yes' else no') := by
  have later : ∀ b : Bool, Moves Later (if b then yes' else no') := fun b => lyes.ite lno
  refine (h.couples condition hc).bind (fun _ => (moves_ofExcept _).bind later) fun value hv => ?_
  exact (couples_truthy hv).bind later fun b _ => hyes.ite hno

theorem couples_allOf : ∀ forms, (∀ d ∈ forms, D.code d) →
    Couples K (fun _ => True) D.fault (allOf go forms) (allOf go' forms)
  | [], _ => couples_pure trivial
  | form :: rest, hc => by
    obtain ⟨hform, hrest⟩ := List.forall_mem_cons.mp hc
    exact couples_test h hform (couples_allOf rest hrest) (couples_pure trivial)
      (moves_allOf h.later rest) (moves_pure _)

theorem couples_anyOf : ∀ forms, (∀ d ∈ forms, D.code d) →
    Couples K (fun _ => True) D.fault (anyOf go forms) (anyOf go' forms)
  | [], _ => couples_pure trivial
  | form :: rest, hc => by
    obtain ⟨hform, hrest⟩ := List.forall_mem_cons.mp hc
    exact couples_test h hform (couples_pure trivial) (couples_anyOf rest hrest) (moves_pure _)
      (moves_anyOf h.later rest)

theorem couples_branch {condition yes : Datum} {no : Option Datum} (hc : D.code condition)
    (hy : D.code yes) (hn : ∀ d ∈ no, D.code d) :
    Couples K D.value D.fault (branch go condition yes no) (branch go' condition yes no) := by
  cases no with
  | none =>
    exact couples_test h hc (h.couples yes hy) (couples_pure D.value_nil) (h.later yes)
      (moves_pure _)
  | some form =>
    exact couples_test h hc (h.couples yes hy) (h.couples form (hn form rfl)) (h.later yes)
      (h.later form)

/-- Parameters are bound in a scope of their own, so the two global scopes are left alone. -/
theorem outcome_bindAll : ∀ names operands, (∀ d ∈ operands, D.code d) →
    ∀ w w', K.rel w w' → w.env.inner ≠ [] → w'.env.inner ≠ [] →
    K.Outcome (fun _ => True) D.fault (bindAll go names operands w) (bindAll go' names operands w')
  | [], _, _ => fun _ _ hw _ _ => .value trivial hw
  | _ :: _, [], _ => fun _ _ hw _ _ => .value trivial hw
  | name :: names, operand :: operands, hc => by
    intro w w' hw hi hi'
    obtain ⟨hoperand, hrest⟩ := List.forall_mem_cons.mp hc
    have keeps' : ∀ d, Moves (Keeps 1) (go' d) := fun d =>
      (h.right d).mono fun _ _ => Keeps.mono (Nat.zero_le 1)
    refine outcome_bind (h.couples operand hoperand w w' hw)
      (fun value => ((keeps_define name value).bind fun _ =>
        moves_bindAll keeps' keeps_define names operands).later) ?_
    intro value u u' hv hu he he'
    have hl : u.env.inner = w.env.inner := by
      have := (h.left operand w).inner
      rwa [final, he] at this
    have hr : u'.env.inner = w'.env.inner := by
      have := (h.right operand w').inner
      rwa [final, he'] at this
    rw [← hl] at hi
    rw [← hr] at hi'
    exact outcome_bindAll names operands hrest _ _ (K.define hu hi hi' hv)
      (Environment.define_inner_ne_nil hi) (Environment.define_inner_ne_nil hi')

theorem Steps.fresh : Steps K (fresh go) (fresh go') := by
  refine ⟨keeps_fresh h.left, keeps_fresh h.right, fun d hd => ?_⟩
  refine (couples_settle hd).bind (fun form => (h.later form).mapFault _) fun form hform => ?_
  exact (h.couples form hform).mapFault (fun _ => D.fault_reported) fun _ => Fault.reported_of_depth

theorem couples_reading {r : Reading} (hr : ∀ d ∈ r.forms, D.code d)
    (hf : ∀ f, r.failure = some f → D.raised f) :
    Couples K (fun values => ∀ v ∈ values, D.value v) D.raised (reading go r) (reading go' r) := by
  have forms := couples_each h.fresh r.forms hr
  refine (forms.weaken (fun _ hv => hv) fun _ => D.raised_of_fault).bind ?_ ?_
  · intro values
    cases r.failure with
    | none => exact moves_pure _
    | some f => exact moves_throw f
  · intro values hv
    cases hfailure : r.failure with
    | none => exact couples_pure hv
    | some f => exact couples_throw (hf f hfailure)

theorem couples_source (text : String) (hforms : ∀ d ∈ (read text).forms, D.code d) :
    Couples K (fun values => ∀ v ∈ values, D.value v) D.raised (source go text)
      (source go' text) :=
  couples_reading h hforms fun _ hf => D.raised_of_isSpoken (isSpoken_of_read hf)

theorem couples_reply (r : Reply) (hr : r.Fits D K.ahead) :
    Couples K (fun d => ∀ v, admitted d = .ok v → D.value v) D.raised (reply go r)
      (reply go' r) := by
  induction r with
  | give d => exact couples_pure hr
  | fail f => exact couples_throw hr
  | say text next ih =>
    exact (couples_say text).bind (fun _ => (keeps_reply h.right next).later) fun _ _ => ih hr
  | consult next ih =>
    exact couples_consult.bind (fun memory => (keeps_reply h.right (next memory)).later)
      fun memory _ => ih memory (hr memory)
  | keep memory next ih =>
    exact (couples_keep memory).bind (fun _ => (keeps_reply h.right next).later) fun _ _ => ih hr
  | run text next ih =>
    obtain ⟨hforms, hok, herror, hahead⟩ := hr
    refine (couples_source h text hforms).attempt_bind
      (fun outcome => (keeps_reply h.right (next outcome)).later)
      (fun values hv => ih (.ok values) (hok values hv))
      (fun f hf => ih (.error f) (herror f hf)) ?_
    intro hK f hf
    rw [hahead hK f hf]
    rfl

theorem couples_applyNative (name : String) (procedure : Procedure) {operands : List Datum}
    (hc : ∀ d ∈ operands, D.code d) :
    Couples K D.value D.fault (applyNative K.natives go name procedure operands)
      (applyNative K.natives' go' name procedure operands) := by
  have answers (r : Reply) : Moves Later (do
      let result ← contained name (do let d ← reply go' r; accepted d)
      mint result) :=
    ((((keeps_reply h.right r).bind moves_accepted).mapFault _).bind keeps_mint).later
  refine (couples_each h operands hc).bind (fun args => moves_sight.bind fun seen => answers _)
    fun args hargs w w' hw => ?_
  -- the two natives see different states, and answer alike
  obtain ⟨he, hfits⟩ := @K.reply w w' procedure args hw hargs
  change K.Outcome D.value D.fault
    ((contained name (reply go (K.natives procedure w.sight args) >>= accepted) >>= mint) w)
    ((contained name (reply go' (K.natives' procedure w'.sight args) >>= accepted) >>= mint) w')
  rw [← he]
  have admits : Couples K D.value D.raised
      (reply go (K.natives procedure w.sight args) >>= accepted)
      (reply go' (K.natives procedure w.sight args) >>= accepted) := by
    refine (couples_reply h _ hfits).bind moves_accepted fun d hd => ?_
    rw [accepted_eq_ofExcept]
    exact couples_ofExcept hd fun f hf => D.raised_of_isSpoken (spoken_admitted d f hf)
  have contains :=
    admits.mapFault (fun _ => D.fault_within name) fun _ hf => Fault.within_of_depth hf name
  exact contains.bind (fun _ => keeps_mint (n := 0) _ |>.later)
    (fun d hd => couples_mint hd) w w' hw

theorem couples_applyFn (params : List String) {forms operands : List Datum}
    (hf : ∀ d ∈ forms, D.code d) (hc : ∀ d ∈ operands, D.code d) :
    Couples K D.value D.fault (applyFn go params forms operands)
      (applyFn go' params forms operands) := by
  have keeps : ∀ {go : Datum → Eval Datum}, (∀ d, Moves (Keeps 0) (go d)) →
      Moves (Keeps 1) (bindAll go params operands >>= fun _ => body go .nil forms) := by
    intro go hgo
    have hgo' : ∀ d, Moves (Keeps 1) (go d) := fun d =>
      (hgo d).mono fun _ _ => Keeps.mono (Nat.zero_le 1)
    exact (moves_bindAll hgo' keeps_define params operands).bind fun _ =>
      moves_body hgo' .nil forms
  refine Couples.ite ?_ (couples_throw (D.fault_program rfl rfl))
  refine Couples.framed (keeps h.left) (keeps h.right) fun w w' hw hi hi' => ?_
  exact outcome_bind (outcome_bindAll h params operands hc w w' hw hi hi')
    (fun _ => moves_body h.later .nil forms)
    fun _ u u' _ hu _ _ => couples_body h forms D.value_nil hf u u' hu

theorem couples_apply {f : Datum} {operands : List Datum} (hf : D.value f)
    (hc : ∀ d ∈ operands, D.code d) :
    Couples K D.value D.fault (apply K.natives go f operands)
      (apply K.natives' go' f operands) := by
  cases f with
  | native name procedure => exact couples_applyNative h name procedure hc
  | fn place params forms =>
    exact couples_applyFn h params (fun d hd => D.code_body hf hd) hc
  | str | int | real | bool | nil | list | map | table =>
    exact couples_throw (D.fault_program rfl rfl)
  | _ => exact couples_throw (D.fault_notValue hf rfl)

omit h in
theorem couples_lambda {place : Nat} {operands : List Datum} (hc : ∀ d ∈ operands, D.code d) :
    Couples K D.value D.fault (ofExcept (lambda place operands))
      (ofExcept (lambda place operands)) := by
  obtain ⟨names, hl⟩ | ⟨cause, hl⟩ := lambda_cases place operands
  · rw [hl]
    exact couples_pure (D.value_fn place names fun d hd => hc d (List.mem_of_mem_tail hd))
  · rw [hl]
    exact couples_throw (D.fault_program rfl rfl)

theorem couples_special {place : Nat} {s : SpecialForm} {operands : List Datum}
    (hc : D.code (.call place (.symbol s.name :: operands))) :
    Couples K D.value D.fault (special go place s operands) (special go' place s operands) := by
  have code : ∀ d ∈ operands, D.code d := fun d hd => D.code_call hc (List.mem_cons_of_mem _ hd)
  have form (cause : FormFault) : Couples K D.value D.fault (throw (.form cause))
      (throw (.form cause)) := couples_throw (D.fault_program rfl rfl)
  unfold special
  split
  next => exact couples_lambda code
  next name d =>
    refine (h.couples d (code d (by simp))).bind
      (fun v => (keeps_defineGlobal (n := 0) name v).later.bind fun _ => moves_pure _)
      fun v hv => ?_
    exact (couples_defineGlobal (D.target_define hc) hv).map fun _ _ => hv
  next => exact form .badDefine
  next condition yes =>
    exact couples_branch h (code condition (by simp)) (code yes (by simp)) (by simp)
  next condition yes no =>
    exact couples_branch h (code condition (by simp)) (code yes (by simp))
      (by simpa using code no (by simp))
  next => exact form .shortBranch
  next => exact form .shortBranch
  next => exact form .longBranch
  next => exact (couples_allOf h _ code).map fun b _ => D.value_bool b
  next => exact (couples_anyOf h _ code).map fun b _ => D.value_bool b

theorem couples_call {place : Nat} {items : List Datum} (hc : D.code (.call place items)) :
    Couples K D.value D.fault (call K.natives go place items)
      (call K.natives' go' place items) := by
  cases items with
  | nil => exact couples_throw (D.fault_program rfl rfl)
  | cons head operands =>
    rw [call, call]
    split
    next s hs =>
      rw [Datum.special?_eq_some_iff] at hs
      subst hs
      exact couples_special h hc
    next hs =>
      have code : ∀ d ∈ operands, D.code d := fun d hd => D.code_call hc (List.mem_cons_of_mem _ hd)
      exact (h.couples head (D.code_call hc (by simp))).bind
        (fun f => (keeps_apply h.right K.natives' f operands).later) fun f hf =>
          couples_apply h hf code

theorem couples_form {d : Datum} (hc : D.code d) :
    Couples K D.value D.fault (form K.natives go d) (form K.natives' go' d) := by
  cases d with
  | symbol name => exact couples_lookup hc
  | call place items => exact couples_call h hc
  | listForm items =>
    exact (couples_each h items fun d hd => D.code_listForm hc hd).map fun _ hvs => D.value_list hvs
  | mapForm es =>
    exact (couples_entries h es fun e he => D.code_mapForm hc he).map fun _ hvs =>
      D.value_map (Assoc.forall_mem_ofList hvs)
  | str | int | real | bool | nil => exact couples_pure (D.value_literal hc rfl)
  | _ => exact couples_throw (D.fault_program rfl rfl)

end Evaluation

end Eval

/-- Evaluations of one form from related states come to the same end, as long as the first is not
cut short.  What is left over when the rounds are done comes to a fault. -/
theorem couples_rounds {D : Discipline} (K : Coupling D) {f : Fault} (hf : D.fault f)
    (hdepth : K.ahead → f.kind = .depth) {n n' : Nat} (hn : n = n' ∨ K.ahead ∧ n ≤ n') {d : Datum}
    (hc : D.code d) :
    Eval.Couples K D.value D.fault (rounds K.natives (fun _ => throw f) n d)
      (rounds K.natives' (fun _ => throw f) n' d) := by
  have keeps (natives : Natives) := keeps_rounds natives fun _ => Eval.moves_throw f
  induction n generalizing n' d with
  | zero =>
    obtain rfl | ⟨hK, -⟩ := hn
    · exact Eval.couples_throw hf
    · -- the first evaluation ends here, and the second only adds to what both have written
      intro w w' hw
      obtain ⟨text, ht⟩ := (keeps K.natives' n' d w').written
      exact .ahead hK (hdepth hK) ⟨text, by rw [K.written_eq hw]; exact ht⟩
  | succ n ih =>
    obtain ⟨n', rfl⟩ : ∃ m, n' = m + 1 := ⟨n' - 1, by omega⟩
    have steps : Eval.Steps K (rounds K.natives (fun _ => throw f) n)
        (rounds K.natives' (fun _ => throw f) n') :=
      ⟨keeps _ _, keeps _ _, fun d hd =>
        ih (hn.imp (fun h => by omega) fun h => ⟨h.1, by omega⟩) hd⟩
    exact (Eval.couples_form steps hc).nested (Eval.keeps_form steps.left _ d)
      (Eval.keeps_form steps.right _ d)

theorem steps_rounds {D : Discipline} (K : Coupling D) {f : Fault} (hf : D.fault f)
    (hdepth : K.ahead → f.kind = .depth) {n n' : Nat} (hn : n = n' ∨ K.ahead ∧ n ≤ n') :
    Eval.Steps K (rounds K.natives (fun _ => throw f) n)
      (rounds K.natives' (fun _ => throw f) n') :=
  ⟨keeps_rounds _ (fun _ => Eval.moves_throw f) _, keeps_rounds _ (fun _ => Eval.moves_throw f) _,
    fun _ hd => couples_rounds K hf hdepth hn hd⟩

/-- Where neither evaluation is cut short, they have the same room. -/
theorem steps_evaluate {D : Discipline} (K : Coupling D) (hK : ¬ K.ahead)
    (hspent : D.fault .stackSpent) (room : Nat) :
    Eval.Steps K (evaluate K.natives room) (evaluate K.natives' room) := by
  rw [evaluate_eq_rounds, evaluate_eq_rounds]
  exact steps_rounds K hspent (fun h => absurd h hK) (.inl rfl)

end DynLisp
