import Mathlib.Order.Defs.Unbundled
import DynLisp.Session

/-!
# Balance of evaluation

However an evaluation ends, with a value or with a fault, the level of evaluation and the scopes
above the global one are as they were, and the global scope has kept its names in their places, with
new names after them.

`Moves R act` says that every run of `act` takes a state to one that is related to it by `R`.  The
rules for it follow the shape of actions; they are used at `Keeps n`, which leaves open what happens
to the `n` innermost scopes.  A function binds its parameters in a scope of its own, so its operands
and its body keep all scopes but one (`Keeps 1`), and closing that scope makes `Keeps 0` of it.
-/

namespace DynLisp

namespace Eval

variable {α β : Type}

/-- The state that comes with a result or a fault. -/
def stateOf : EStateM.Result Fault World α → World
  | .ok _ u => u
  | .error _ u => u

/-- The state in which an action ends. -/
def final (act : Eval α) (w : World) : World := stateOf (act w)

/-- Every run of the action takes a state to a related one. -/
def Moves (R : World → World → Prop) (act : Eval α) : Prop :=
  ∀ w, R w (final act w)

theorem bind_apply (act : Eval α) (k : α → Eval β) (w : World) :
    (act >>= k) w = match act w with
      | .ok a u => k a u
      | .error f u => .error f u := by
  simp only [bind, EStateM.bind]
  cases act w <;> rfl

/-- What a host hands over is nil if it is nothing at all, and must be admitted otherwise. -/
def admitted (d : Datum) : Except Fault Datum :=
  match d with
  | .absent => .ok .nil
  | d => d.accept

theorem accepted_eq_ofExcept (d : Datum) : accepted d = ofExcept (admitted d) := by
  cases d <;> rfl

/-! ## Rules for `Moves` -/

section Rules

variable {R : World → World → Prop}

/-- An action that wraps another one and ends where that one ends. -/
theorem Moves.of_final_eq {act : Eval α} {outer : Eval β} (h : Moves R act)
    (he : ∀ w, final outer w = final act w) : Moves R outer := by
  intro w
  rw [he]
  exact h w

theorem Moves.mapFault {act : Eval α} (h : Moves R act) (g : Fault → Fault) :
    Moves R (mapFault g act) := by
  refine h.of_final_eq fun w => ?_
  cases hr : act w <;> simp only [final, stateOf, Eval.mapFault, hr]

theorem Moves.attempt {act : Eval α} (h : Moves R act) : Moves R (attempt act) := by
  refine h.of_final_eq fun w => ?_
  cases hr : act w <;> simp only [final, stateOf, Eval.attempt, hr]

theorem Moves.ite {c : Prop} [Decidable c] {act other : Eval α} (h : Moves R act)
    (ho : Moves R other) : Moves R (if c then act else other) := by
  split
  · exact h
  · exact ho

variable [IsPreorder World R]

theorem moves_pure (a : α) : Moves R (pure a) := fun w => refl_of R w

theorem moves_throw (f : Fault) : Moves R (throw f : Eval α) := fun w => refl_of R w

theorem moves_ofExcept (x : Except Fault α) : Moves R (ofExcept x) := by
  intro w
  cases x <;> exact refl_of R w

theorem moves_accepted (d : Datum) : Moves R (accepted d) := by
  rw [accepted_eq_ofExcept]
  exact moves_ofExcept _

theorem moves_lookup (name : String) : Moves R (lookup name) := fun w =>
  moves_ofExcept (w.env.lookup name) w

theorem moves_sight : Moves R sight := fun w => refl_of R w

theorem moves_consult : Moves R consult := fun w => refl_of R w

theorem Moves.bind {act : Eval α} {k : α → Eval β} (h : Moves R act) (hk : ∀ a, Moves R (k a)) :
    Moves R (act >>= k) := by
  intro w
  have hw := h w
  unfold final at hw ⊢
  rw [bind_apply]
  cases hr : act w with
  | ok a u =>
    rw [hr] at hw
    exact trans_of R hw (hk a u)
  | error f u =>
    rw [hr] at hw
    exact hw

variable {go : Datum → Eval Datum} (hgo : ∀ d, Moves R (go d))
include hgo

theorem moves_each : ∀ forms, Moves R (each go forms)
  | [] => moves_pure _
  | form :: rest => (hgo form).bind fun _ => (moves_each rest).bind fun _ => moves_pure _

theorem moves_entries : ∀ es, Moves R (entries go es)
  | [] => moves_pure _
  | (_, form) :: rest => (hgo form).bind fun _ => (moves_entries rest).bind fun _ => moves_pure _

theorem moves_body : ∀ result forms, Moves R (body go result forms)
  | _, [] => moves_pure _
  | _, form :: rest => (hgo form).bind fun value => moves_body value rest

theorem moves_allOf : ∀ forms, Moves R (allOf go forms)
  | [] => moves_pure _
  | form :: rest =>
    (hgo form).bind fun _ => (moves_ofExcept _).bind fun _ => (moves_allOf rest).ite (moves_pure _)

theorem moves_anyOf : ∀ forms, Moves R (anyOf go forms)
  | [] => moves_pure _
  | form :: rest =>
    (hgo form).bind fun _ => (moves_ofExcept _).bind fun _ => (moves_pure _).ite (moves_anyOf rest)

theorem moves_branch (condition yes : Datum) (no : Option Datum) :
    Moves R (branch go condition yes no) := by
  refine (hgo condition).bind fun _ => (moves_ofExcept _).bind fun _ => (hgo yes).ite ?_
  cases no with
  | none => exact moves_pure _
  | some form => exact hgo form

theorem moves_bindAll (hdefine : ∀ name value, Moves R (define name value)) :
    ∀ names operands, Moves R (bindAll go names operands)
  | [], _ => moves_pure _
  | _ :: _, [] => moves_pure _
  | name :: names, operand :: operands =>
    (hgo operand).bind fun value =>
      (hdefine name value).bind fun _ => moves_bindAll hdefine names operands

end Rules

end Eval

/-! ## What every evaluation keeps -/

/-- What had been written is still there, and more may follow it. -/
def Later (w u : World) : Prop := ∃ text, u.written = w.written ++ text

theorem Later.refl (w : World) : Later w w := ⟨"", by simp⟩

theorem Later.trans {u v w : World} (h : Later u v) (h' : Later v w) : Later u w := by
  obtain ⟨first, hfirst⟩ := h
  obtain ⟨second, hsecond⟩ := h'
  exact ⟨first ++ second, by rw [hsecond, hfirst, String.append_assoc]⟩

instance : IsPreorder World Later where
  refl := Later.refl
  trans _ _ _ := Later.trans

/-- The later state differs from the earlier one at most in the `n` innermost scopes, in bindings of
the global scope and in what has been written since.  Names of the global scope stay in place. -/
structure Keeps (n : Nat) (w u : World) : Prop where
  level : u.env.level = w.env.level
  limit : u.env.limit = w.env.limit
  inner : u.env.inner.drop n = w.env.inner.drop n
  names : Assoc.names w.env.globals <+: Assoc.names u.env.globals
  written : Later w u

namespace Keeps

theorem refl (n : Nat) (w : World) : Keeps n w w :=
  ⟨rfl, rfl, rfl, List.prefix_rfl, Later.refl w⟩

theorem trans {n : Nat} {u v w : World} (h : Keeps n u v) (h' : Keeps n v w) : Keeps n u w :=
  ⟨h'.level.trans h.level, h'.limit.trans h.limit, h'.inner.trans h.inner,
    h.names.trans h'.names, h.written.trans h'.written⟩

instance (n : Nat) : IsPreorder World (Keeps n) where
  refl := Keeps.refl n
  trans _ _ _ := Keeps.trans

theorem mono {n m : Nat} (hnm : n ≤ m) {w u : World} (h : Keeps n w u) : Keeps m w u := by
  refine ⟨h.level, h.limit, ?_, h.names, h.written⟩
  obtain ⟨k, rfl⟩ := Nat.exists_eq_add_of_le hnm
  rw [← List.drop_drop, ← List.drop_drop, h.inner]

end Keeps

theorem names_prefix_names_insert {α : Type} (m : Assoc α) (name : String) (value : α) :
    Assoc.names m <+: Assoc.names (Assoc.insert m name value) := by
  rw [Assoc.names_insert]
  split
  · exact List.prefix_rfl
  · exact List.prefix_append _ _

/-- The level goes up by one, unless it has reached the limit. -/
theorem Environment.descend_cases (e : Environment) :
    (∃ limit, e.limit = some limit ∧ limit ≤ e.level ∧ e.descend = .error (.tooDeep limit)) ∨
    ((∀ limit, e.limit = some limit → e.level < limit) ∧
      e.descend = .ok { e with level := e.level + 1 }) := by
  unfold Environment.descend
  cases hl : e.limit with
  | none => exact .inr ⟨by simp, rfl⟩
  | some limit =>
    by_cases h : limit ≤ e.level
    · exact .inl ⟨limit, rfl, h, by simp [h]⟩
    · exact .inr ⟨by simpa using h, by simp [h]⟩

/-- The state one level deeper. -/
def World.deeper (w : World) : World := { w with env := { w.env with level := w.env.level + 1 } }

theorem World.ascend_deeper (w : World) : { w.deeper with env := w.deeper.env.ascend } = w := rfl

theorem Environment.define_counters (e : Environment) (name : String) (value : Datum) :
    (e.define name value).limit = e.limit ∧ (e.define name value).level = e.level := by
  unfold Environment.define
  cases e.inner <;> exact ⟨rfl, rfl⟩

namespace Eval

variable {α : Type} {n : Nat}

theorem Moves.mono {R S : World → World → Prop} {act : Eval α} (h : Moves R act)
    (hRS : ∀ w u, R w u → S w u) : Moves S act := fun w => hRS _ _ (h w)

/-- A step of the counter of places and marks changes nothing else. -/
theorem keeps_next (w : World) (next : Nat) : Keeps n w { w with next := next } :=
  ⟨rfl, rfl, rfl, List.prefix_rfl, Later.refl w⟩

theorem keeps_settle (form : Datum) : Moves (Keeps n) (settle form) := fun w => keeps_next w _

theorem keeps_say (text : String) : Moves (Keeps n) (say text) := fun _ =>
  ⟨rfl, rfl, rfl, List.prefix_rfl, text, rfl⟩

theorem keeps_keep (memory : Datum) : Moves (Keeps n) (keep memory) := fun w =>
  ⟨rfl, rfl, rfl, List.prefix_rfl, Later.refl w⟩

theorem keeps_mint (d : Datum) : Moves (Keeps n) (mint d) := by
  intro w
  have h : ∃ next, final (mint d) w = { w with next := next } := by
    unfold final mint
    split
    next x =>
      split
      · exact ⟨w.next + 1, rfl⟩
      · exact ⟨w.next, rfl⟩
    next => exact ⟨w.next, rfl⟩
  obtain ⟨next, h⟩ := h
  rw [h]
  exact keeps_next w next

theorem keeps_defineGlobal (name : String) (value : Datum) :
    Moves (Keeps n) (defineGlobal name value) := fun w =>
  ⟨rfl, rfl, rfl, names_prefix_names_insert _ _ _, Later.refl w⟩

/-- A binding in the innermost scope is a change of that scope or, if there is no other, of the
global one. -/
theorem keeps_define (name : String) (value : Datum) : Moves (Keeps 1) (define name value) := by
  intro w
  change Keeps 1 w { w with env := w.env.define name value }
  unfold Environment.define
  split
  case h_1 hi =>
    exact ⟨rfl, rfl, rfl, names_prefix_names_insert _ _ _, Later.refl w⟩
  case h_2 scope rest hi =>
    exact ⟨rfl, rfl, by simp [hi], List.prefix_rfl, Later.refl w⟩

theorem nested_eq_ok {act : Eval α} {w u : World} {e : Environment} {a : α}
    (hd : w.env.descend = .ok e) (h : act { w with env := e } = .ok a u) :
    nested act w = .ok a { u with env := u.env.ascend } := by
  simp only [nested, hd, h]

theorem nested_eq_error {act : Eval α} {w u : World} {e : Environment} {f : Fault}
    (hd : w.env.descend = .ok e) (h : act { w with env := e } = .error f u) :
    nested act w = .error f { u with env := u.env.ascend } := by
  simp only [nested, hd, h]

theorem Moves.nested {act : Eval α} (h : Moves (Keeps n) act) : Moves (Keeps n) (nested act) := by
  intro w
  obtain ⟨limit, -, -, hd⟩ | ⟨-, hd⟩ := w.env.descend_cases
  · simp only [final, stateOf, Eval.nested, hd]
    exact Keeps.refl n w
  · let w' : World := { w with env := { w.env with level := w.env.level + 1 } }
    have hw := h w'
    have he : final (Eval.nested act) w =
        { final act w' with env := (final act w').env.ascend } := by
      cases hr : act w' <;> simp only [final, stateOf, Eval.nested, hd, hr, w']
    rw [he]
    refine ⟨?_, hw.limit, hw.inner, hw.names, hw.written⟩
    change (final act w').env.level - 1 = w.env.level
    rw [hw.level]
    rfl

theorem Moves.framed {act : Eval α} (h : Moves (Keeps 1) act) : Moves (Keeps 0) (framed act) := by
  intro w
  have hw := h { w with env := w.env.enter }
  have he : final (Eval.framed act) w =
      { final act { w with env := w.env.enter } with
        env := (final act { w with env := w.env.enter }).env.leave } := by
    cases hr : act { w with env := w.env.enter } <;> simp only [final, stateOf, Eval.framed, hr]
  rw [he]
  refine ⟨hw.level, hw.limit, ?_, hw.names, hw.written⟩
  simpa [Environment.leave, Environment.enter] using hw.inner

section Evaluation

variable {go : Datum → Eval Datum} (hgo : ∀ d, Moves (Keeps 0) (go d))
include hgo

theorem keeps_fresh (d : Datum) : Moves (Keeps 0) (fresh go d) :=
  (keeps_settle d).bind fun form => (hgo form).mapFault _

theorem keeps_reading (r : Reading) : Moves (Keeps 0) (reading go r) := by
  refine (moves_each (keeps_fresh hgo) r.forms).bind fun values => ?_
  cases r.failure with
  | none => exact moves_pure _
  | some f => exact moves_throw f

theorem keeps_source (text : String) : Moves (Keeps 0) (source go text) :=
  keeps_reading hgo (read text)

theorem keeps_reply (r : Reply) : Moves (Keeps 0) (reply go r) := by
  induction r with
  | give d => exact moves_pure d
  | fail f => exact moves_throw f
  | say text next ih => exact (keeps_say text).bind fun _ => ih
  | consult next ih => exact moves_consult.bind fun memory => ih memory
  | keep memory next ih => exact (keeps_keep memory).bind fun _ => ih
  | run text next ih => exact (keeps_source hgo text).attempt.bind fun outcome => ih outcome

theorem keeps_applyNative (natives : Natives) (name : String) (procedure : Procedure)
    (operands : List Datum) : Moves (Keeps 0) (applyNative natives go name procedure operands) := by
  refine (moves_each hgo operands).bind fun args => moves_sight.bind fun seen => ?_
  refine Moves.bind ?_ keeps_mint
  exact ((keeps_reply hgo (natives procedure seen args)).bind moves_accepted).mapFault _

theorem keeps_applyFn (params : List String) (forms operands : List Datum) :
    Moves (Keeps 0) (applyFn go params forms operands) := by
  have hgo' : ∀ d, Moves (Keeps 1) (go d) := fun d =>
    (hgo d).mono fun _ _ => Keeps.mono (Nat.zero_le 1)
  refine Moves.ite ?_ (moves_throw _)
  exact ((moves_bindAll hgo' keeps_define params operands).bind fun _ =>
    moves_body hgo' .nil forms).framed

theorem keeps_apply (natives : Natives) (f : Datum) (operands : List Datum) :
    Moves (Keeps 0) (apply natives go f operands) := by
  cases f with
  | native name procedure => exact keeps_applyNative hgo natives name procedure operands
  | fn place params forms => exact keeps_applyFn hgo params forms operands
  | _ => exact moves_throw _

theorem keeps_special (place : Nat) (s : SpecialForm) (operands : List Datum) :
    Moves (Keeps 0) (special go place s operands) := by
  unfold special
  split
  next => exact moves_ofExcept _
  next name form =>
    exact (hgo form).bind fun value => (keeps_defineGlobal name value).bind fun _ => moves_pure _
  next => exact moves_throw _
  next condition yes => exact moves_branch hgo condition yes none
  next condition yes no => exact moves_branch hgo condition yes (some no)
  next => exact moves_throw _
  next => exact moves_throw _
  next => exact moves_throw _
  next => exact (moves_allOf hgo _).bind fun _ => moves_pure _
  next => exact (moves_anyOf hgo _).bind fun _ => moves_pure _

theorem keeps_call (natives : Natives) (place : Nat) (items : List Datum) :
    Moves (Keeps 0) (call natives go place items) := by
  cases items with
  | nil => exact moves_throw _
  | cons head operands =>
    rw [call]
    split
    · exact keeps_special hgo place _ operands
    · exact (hgo head).bind fun f => keeps_apply hgo natives f operands

theorem keeps_form (natives : Natives) (d : Datum) : Moves (Keeps 0) (form natives go d) := by
  cases d with
  | symbol name => exact moves_lookup name
  | call place items => exact keeps_call hgo natives place items
  | listForm items => exact (moves_each hgo items).bind fun _ => moves_pure _
  | mapForm es => exact (moves_entries hgo es).bind fun _ => moves_pure _
  | str | int | real | bool | nil => exact moves_pure _
  | _ => exact moves_throw _

end Evaluation

end Eval

/-! ## Rounds -/

/-- Evaluates a form down to `n` levels, and what is nested deeper by `rest`. -/
def rounds (natives : Natives) (rest : Datum → Eval Datum) : Nat → Datum → Eval Datum
  | 0, d => rest d
  | n + 1, d => Eval.nested (Eval.form natives (rounds natives rest n) d)

theorem evaluate_eq_rounds (natives : Natives) (room : Nat) :
    evaluate natives room = rounds natives (fun _ => throw .stackSpent) room := by
  induction room with
  | zero => rfl
  | succ room ih =>
    funext d
    rw [evaluate, rounds, ih]

theorem keeps_rounds (natives : Natives) {rest : Datum → Eval Datum}
    (hrest : ∀ d, Eval.Moves (Keeps 0) (rest d)) (n : Nat) (d : Datum) :
    Eval.Moves (Keeps 0) (rounds natives rest n d) := by
  induction n generalizing d with
  | zero => exact hrest d
  | succ n ih => exact (Eval.keeps_form ih natives d).nested

/-- Every evaluation is balanced, whatever the natives do. -/
theorem keeps_evaluate (natives : Natives) (room : Nat) (d : Datum) :
    Eval.Moves (Keeps 0) (evaluate natives room d) := by
  rw [evaluate_eq_rounds]
  exact keeps_rounds natives (fun _ => Eval.moves_throw _) room d

theorem Environment.room_congr {e e' : Environment} (hlimit : e.limit = e'.limit)
    (hlevel : e.level = e'.level) : e.room = e'.room := by
  unfold room levelsLeft
  rw [hlimit, hlevel]

theorem keeps_evalSource (natives : Natives) (text : String) :
    Eval.Moves (Keeps 0) (evalSource natives text) := fun w =>
  Eval.keeps_source (keeps_evaluate natives w.env.room) text w

/-! ## Environments and sessions -/

/-- What becomes of an environment: the level and the scopes above the global one stay, and the
names of the global scope come first, in their order, among those it has later. -/
structure Environment.Balanced (before after : Environment) : Prop where
  level : after.level = before.level
  depth : after.depth = before.depth
  inner : after.inner = before.inner
  names : Assoc.names before.globals <+: Assoc.names after.globals

theorem Keeps.balanced {w u : World} (h : Keeps 0 w u) : Environment.Balanced w.env u.env := by
  have hi : u.env.inner = w.env.inner := h.inner
  exact ⟨h.level, by rw [Environment.depth, Environment.depth, hi], hi, h.names⟩

/-- An evaluation leaves the environment as it was, but for the global scope. -/
theorem Keeps.env_eq {w u : World} (h : Keeps 0 w u) :
    u.env = { w.env with globals := u.env.globals } := by
  obtain ⟨⟨inner, globals, limit, level⟩, written, next, host⟩ := u
  have hinner : inner = w.env.inner := h.inner
  have hlimit : limit = w.env.limit := h.limit
  have hlevel : level = w.env.level := h.level
  rw [hinner, hlimit, hlevel]

namespace Session

/-- The session after some source texts, whether or not they fail. -/
def after (s : Session) (texts : List String) : Session :=
  texts.foldl (fun s text => (s.evalSource text).session) s

/-- A new session with procedures of the host. -/
def equipped (limit : Int) (procedures : List (String × HostProcedure)) : Session :=
  procedures.foldl (fun s p => (s.register p.1 p.2).2) (start limit)

/-- Only the global scope is open and no evaluation is under way. -/
def AtRest (s : Session) : Prop :=
  s.world.env.inner = [] ∧ s.world.env.level = 0

/-- What came of an action, by its end. -/
def ended {α : Type} (s : Session) : EStateM.Result Fault World α → Outcome α
  | .ok a w => ⟨.ok a, w.written, { s with world := { w with written := "" } }⟩
  | .error f w => ⟨.error f, w.written, { s with world := { w with written := "" } }⟩

theorem run_eq_ended {α : Type} (s : Session) (act : Natives → Eval α) :
    s.run act = s.ended (act s.natives { s.world with written := "" }) := by
  unfold run
  cases act s.natives { s.world with written := "" } <;> rfl

theorem ended_env {α : Type} (s : Session) (r : EStateM.Result Fault World α) :
    (s.ended r).session.world.env = (Eval.stateOf r).env := by
  cases r <;> rfl

theorem AtRest.evalSource {s : Session} (h : AtRest s) (text : String) :
    AtRest (s.evalSource text).session := by
  have hk := keeps_evalSource s.natives text { s.world with written := "" }
  unfold AtRest
  rw [Session.evalSource, run_eq_ended, ended_env]
  exact ⟨hk.inner.trans h.1, hk.level.trans h.2⟩

theorem AtRest.after {s : Session} (h : AtRest s) (texts : List String) :
    AtRest (s.after texts) := by
  induction texts generalizing s with
  | nil => exact h
  | cons text texts ih => exact ih (h.evalSource text)

theorem atRest_equipped (limit : Int) (procedures : List (String × HostProcedure)) :
    AtRest (equipped limit procedures) := by
  have step : ∀ (s : Session), AtRest s →
      AtRest (procedures.foldl (fun s p => (s.register p.1 p.2).2) s) := by
    induction procedures with
    | nil => exact fun _ h => h
    | cons p procedures ih => exact fun s h => ih _ h
  exact step _ ⟨rfl, rfl⟩

end Session

/-- Evaluation is balanced, with whatever room, natives and form, and from whatever state; so a
session that has run any source texts has only its global scope open and is at level zero. -/
theorem evaluation_balanced :
    (∀ (natives : Natives) (room : Nat) (d : Datum) (w : World),
      Environment.Balanced w.env (Eval.final (evaluate natives room d) w).env) ∧
    (∀ (limit : Int) (procedures : List (String × HostProcedure)) (texts : List String),
      ((Session.equipped limit procedures).after texts).world.env.depth = 1 ∧
      ((Session.equipped limit procedures).after texts).world.env.level = 0) := by
  refine ⟨fun natives room d w => (keeps_evaluate natives room d w).balanced, ?_⟩
  intro limit procedures texts
  obtain ⟨hi, hl⟩ := (Session.atRest_equipped limit procedures).after texts
  exact ⟨by rw [Environment.depth, hi]; rfl, hl⟩

end DynLisp
