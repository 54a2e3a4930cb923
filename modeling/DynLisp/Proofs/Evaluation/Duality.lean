import Mathlib.Data.List.Forall2
import DynLisp.Proofs.Evaluation.Limit

/-!
# De Morgan's laws for forms with effects

`(or (if e false true) ..)` comes to the opposite of `(and e ..)`, and the other way round.  The
operands may be any code, so more is to be said than that the answers are opposite: both evaluations
go through the same operands, with the same effects, and meet the same fault.

On the one side every operand is evaluated one level deeper.  An evaluation that starts one level
deeper does the same, unless it meets the limit (`Coupling.deeper`); this is what sets the two sides
apart, and nothing else does, provided that natives do not see the level.
-/

namespace DynLisp

/-! ## One level deeper -/

theorem Environment.define_level (e : Environment) (name : String) (d : Datum) (level : Nat) :
    { e with level := level }.define name d = { e.define name d with level := level } := by
  unfold Environment.define
  cases e.inner <;> rfl

theorem Environment.level_of_descend {e e' : Environment} (h : e.descend = .ok e') :
    e'.level = e.level + 1 := by
  obtain ⟨limit, -, -, hd⟩ | ⟨-, hd⟩ := e.descend_cases
  · rw [hd] at h
    cases h
  · rw [hd] at h
    cases h
    rfl

/-- A state goes with the same state one level deeper, in which the limit may be met. -/
def Coupling.deeper (natives : Natives) (hb : ∀ p, HostProcedure.Blind (natives p))
    (hn : ∀ p, HostProcedure.Forwards (natives p)) : Coupling .any where
  natives := natives
  natives' := natives
  rel w w' := w = w'.deeper
  ahead := True
  lookup := by
    rintro _ w name rfl -
    exact ⟨rfl, fun _ _ => trivial⟩
  defineGlobal := by
    rintro _ w name d rfl - -
    rfl
  enter := by
    rintro _ w rfl
    rfl
  define := by
    rintro _ w name d rfl - - -
    change ({ w with env := { w.env with level := w.env.level + 1 }.define name d } : World) = _
    rw [w.env.define_level, World.deeper, (w.env.define_counters name d).2]
  leave := by
    rintro _ w _ u rfl rfl - -
    rfl
  descend := by
    rintro _ w rfl
    obtain ⟨limit, -, -, hd⟩ | ⟨hl, hd⟩ := w.deeper.env.descend_cases
    · exact .inr (.inr ⟨trivial, _, hd⟩)
    · obtain ⟨limit, hlimit, hle, -⟩ | ⟨-, hd'⟩ := w.env.descend_cases
      · have : (w.env.level : Int) + 1 < limit := hl limit hlimit
        omega
      · exact .inr (.inl ⟨_, _, hd, hd', rfl⟩)
  ascend := by
    rintro _ w _ u _ e rfl rfl - he - hk
    have hlevel : u.env.level - 1 + 1 = u.env.level := by
      rw [hk.level, Environment.level_of_descend he]
      rfl
    rw [u.ascend_deeper, World.deeper, Environment.ascend, hlevel]
  say := by
    rintro _ w text rfl
    rfl
  keep := by
    rintro _ w memory rfl
    rfl
  next := by
    rintro _ w next rfl
    rfl
  next_eq := by
    rintro _ w rfl
    rfl
  written_eq := by
    rintro _ w rfl
    rfl
  host_eq := by
    rintro _ w rfl
    rfl
  reply := by
    rintro _ w procedure args rfl -
    exact ⟨hb procedure _ _ args, (hn _ _ _).fits⟩

namespace Eval

/-! ## Searching for an operand -/

/-- The truth of what a form evaluates to. -/
def truthOf (go : Datum → Eval Datum) (d : Datum) : Eval Bool := do
  let value ← go d
  ofExcept value.truthy

/-- Is there a form whose truth is `stop`?  The answer is `stop` if there is, and evaluation ends
there. -/
def search (go : Datum → Eval Datum) (stop : Bool) : List Datum → Eval Bool
  | [] => pure !stop
  | form :: rest => do
    let b ← truthOf go form
    if b = stop then pure stop else search go stop rest

theorem allOf_eq_search (go : Datum → Eval Datum) (forms : List Datum) :
    allOf go forms = search go false forms := by
  induction forms with
  | nil => rfl
  | cons form rest ih =>
    rw [allOf, search, truthOf, bind_assoc, ih]
    refine bind_congr fun value => bind_congr fun b => ?_
    cases b <;> rfl

theorem anyOf_eq_search (go : Datum → Eval Datum) (forms : List Datum) :
    anyOf go forms = search go true forms := by
  induction forms with
  | nil => rfl
  | cons form rest ih => rw [anyOf, search, truthOf, bind_assoc, ih]

/-! ## Opposite answers -/

/-- How the ends of two runs that answer a question belong together: the answers are opposite, or
the faults are the same, and so are the states; or the first run has met the limit. -/
inductive Opposed {α : Type} (answer : Bool → α) :
    EStateM.Result Fault World α → EStateM.Result Fault World α → Prop where
  | truth (b : Bool) (u : World) : Opposed answer (.ok (answer !b) u) (.ok (answer b) u)
  | fault (f : Fault) (u : World) : Opposed answer (.error f u) (.error f u)
  | limit {f : Fault} (hf : f.kind = .depth) (u : World) (r : EStateM.Result Fault World α) :
      Opposed answer (.error f u) r

/-- If the truths of the operands are opposite, so are the answers of the two searches, which end at
the same operand. -/
theorem opposed_search {go go' : Datum → Eval Datum} {forms negations : List Datum}
    (h : List.Forall₂ (fun d n => ∀ w, Opposed id (truthOf go n w) (truthOf go' d w))
      forms negations) (stop : Bool) (w : World) :
    Opposed id (search go (!stop) negations w) (search go' stop forms w) := by
  induction h generalizing w with
  | nil =>
    exact .truth (!stop) w
  | @cons d n forms negations hd _ ih =>
    rw [search, search, bind_apply, bind_apply]
    have hends := hd w
    generalize truthOf go n w = r, truthOf go' d w = r' at hends
    cases hends with
    | fault f u => exact .fault f u
    | limit hf u _ => exact .limit hf u _
    | truth b u =>
      dsimp only [id]
      by_cases hb : b = stop
      · rw [if_pos hb, if_pos (congrArg (!·) hb)]
        exact .truth stop u
      · rw [if_neg hb, if_neg (mt Bool.not_inj hb)]
        exact ih u

theorem Opposed.map {α : Type} {answer : Bool → α} {act act' : Eval Bool} {w : World}
    (h : Opposed id (act w) (act' w)) :
    Opposed answer ((act >>= fun b => pure (answer b)) w)
      ((act' >>= fun b => pure (answer b)) w) := by
  rw [bind_apply, bind_apply]
  generalize act w = r, act' w = r' at h
  cases h with
  | truth b u => exact .truth b u
  | fault f u => exact .fault f u
  | limit hf u _ => exact .limit hf u _

theorem opposed_nested {α : Type} {answer : Bool → α} {act act' : Eval α}
    (h : ∀ w, Opposed answer (act w) (act' w)) (w : World) :
    Opposed answer (nested act w) (nested act' w) := by
  unfold nested
  cases w.env.descend with
  | error f => exact .fault f w
  | ok e =>
    have hends := h { w with env := e }
    dsimp only
    generalize act { w with env := e } = r, act' { w with env := e } = r' at hends
    cases hends with
    | truth b u => exact .truth b _
    | fault f u => exact .fault f _
    | limit hf u _ => exact .limit hf _ _

/-! ## Short-circuit forms and negations -/

/-- The form that searches its operands for the given truth. -/
def searching (stop : Bool) : SpecialForm := bif stop then .anyOf else .allOf

theorem special_searching (go : Datum → Eval Datum) (place : Nat) (stop : Bool)
    (operands : List Datum) :
    special go place (searching stop) operands = search go stop operands >>=
      fun b => pure (.bool b) := by
  cases stop with
  | false => rw [← allOf_eq_search]; rfl
  | true => rw [← anyOf_eq_search]; rfl

theorem form_special (natives : Natives) (go : Datum → Eval Datum) (place : Nat) (s : SpecialForm)
    (operands : List Datum) :
    form natives go (.call place (.symbol s.name :: operands)) = special go place s operands := by
  rw [form, call, Datum.special?_eq_some_iff.mpr rfl]

/-- A truth value stands for itself wherever there is a level left. -/
theorem reportedRounds_bool (natives : Natives) (room : Nat) (b : Bool) (w : World) :
    reportedRounds natives room (.bool b) w = .ok (.bool b) w ∨
    ∃ f : Fault, f.kind = .depth ∧ reportedRounds natives room (.bool b) w = .error f w := by
  cases room with
  | zero => exact .inr ⟨.noRoom, rfl, rfl⟩
  | succ room =>
    obtain ⟨limit, -, -, hd⟩ | ⟨-, hd⟩ := w.env.descend_cases
    · refine .inr ⟨.tooDeep limit, rfl, ?_⟩
      simp only [rounds, nested, hd]
    · refine .inl ?_
      simp only [rounds, nested, hd]
      rfl

theorem branch_eq_truthOf (go : Datum → Eval Datum) (d : Datum) :
    branch go d (.bool false) (some (.bool true)) = truthOf go d >>= fun b => go (.bool !b) := by
  rw [branch, truthOf, bind_assoc]
  refine bind_congr fun value => bind_congr fun b => ?_
  cases b <;> rfl

end Eval

/-- The negation of a form, `(if d false true)`. -/
def Datum.negated (place : Nat) (d : Datum) : Datum :=
  .call place [.symbol SpecialForm.branch.name, d, .bool false, .bool true]

namespace Eval

section Negation

variable {natives : Natives} (hb : ∀ p, HostProcedure.Blind (natives p))
  (hn : ∀ p, HostProcedure.Forwards (natives p))

include hb hn

/-- The truth of a form one level deeper. -/
theorem couples_truthOf (room : Nat) (d : Datum) :
    Couples (.deeper natives hb hn) (fun _ => True) (fun _ => True)
      (truthOf (reportedRounds natives room) d)
      (truthOf (reportedRounds natives (room + 1)) d) := by
  have hsteps :
      Steps (.deeper natives hb hn) (reportedRounds natives room)
        (reportedRounds natives (room + 1)) :=
    steps_rounds (.deeper natives hb hn) trivial (fun _ => rfl) (.inr ⟨trivial, Nat.le_succ room⟩)
  exact (hsteps.couples d trivial).bind (fun _ => moves_ofExcept _) fun value _ =>
    couples_truthy trivial

theorem couples_bool (room : Nat) (b : Bool) :
    Couples (.deeper natives hb hn) (fun _ => True) (fun _ => True)
      (reportedRounds natives room (.bool b)) (pure (.bool b)) := by
  rintro _ w rfl
  obtain h | ⟨f, hf, h⟩ := reportedRounds_bool natives room b w.deeper
  · rw [h]
    exact .value trivial rfl
  · rw [h]
    exact .ahead trivial hf (.refl w)

/-- An action that does the same one level deeper is not changed by nesting it, unless it meets the
limit then. -/
theorem nested_eq_or_limit {α : Type} {Q : α → Prop} {E : Fault → Prop} {act act' : Eval α}
    (h : Couples (.deeper natives hb hn) Q E act act') (w : World) :
    nested act w = act' w ∨ ∃ f u, f.kind = .depth ∧ nested act w = .error f u := by
  obtain ⟨limit, -, -, hd⟩ | ⟨-, hd⟩ := w.env.descend_cases
  · refine .inr ⟨.tooDeep limit, w, rfl, ?_⟩
    simp only [nested, hd]
  · have hends := h { w with env := { w.env with level := w.env.level + 1 } } w rfl
    simp only [nested, hd]
    generalize act { w with env := { w.env with level := w.env.level + 1 } } = r,
      act' w = r' at hends
    cases hends with
    | value _ hu =>
      subst hu
      exact .inl rfl
    | fault _ hu =>
      subst hu
      exact .inl rfl
    | ahead _ hf _ => exact .inr ⟨_, _, hf, rfl⟩

/-- The truth of a negation is the opposite.  Its operand is evaluated one level deeper than the
form itself would be. -/
theorem opposed_negated (room place : Nat) (d : Datum) (w : World) :
    Opposed id (truthOf (reportedRounds natives room) (d.negated place) w)
      (truthOf (reportedRounds natives room) d w) := by
  cases room with
  | zero => exact .limit rfl w _
  | succ room =>
    have hform : reportedRounds natives (room + 1) (d.negated place) =
        nested (truthOf (reportedRounds natives room) d >>=
          fun b => reportedRounds natives room (.bool !b)) := by
      rw [reportedRounds, rounds, Datum.negated, form_special, special, branch_eq_truthOf]
    have hbranch :=
      (couples_truthOf hb hn room d).bind (fun _ => moves_pure _) fun b _ =>
        couples_bool hb hn room !b
    rw [truthOf, hform, bind_apply]
    obtain h | ⟨f, u, hf, h⟩ := nested_eq_or_limit hb hn hbranch w
    · rw [h, bind_apply]
      cases truthOf (reportedRounds natives (room + 1)) d w with
      | ok b u => exact .truth b u
      | error f u => exact .fault f u
    · rw [h]
      exact .limit hf u _

/-- Both sides are nested in the same way, so the limit on the form as a whole is the same. -/
theorem opposed_searching {forms negations : List Datum}
    (hneg : List.Forall₂ (fun d n => ∃ place, n = d.negated place) forms negations) (stop : Bool)
    (room place place' : Nat) (w : World) :
    Opposed .bool
      (reportedRounds natives room (.call place (.symbol (searching !stop).name :: negations)) w)
      (reportedRounds natives room (.call place' (.symbol (searching stop).name :: forms)) w) := by
  cases room with
  | zero => exact .limit rfl w _
  | succ room =>
    rw [reportedRounds, rounds, rounds, form_special, form_special, special_searching,
      special_searching]
    refine opposed_nested (fun w => (opposed_search (hneg.imp ?_) stop w).map) w
    rintro d _ ⟨place, rfl⟩ w
    exact opposed_negated hb hn room place d w

omit hb hn in
theorem Opposed.interpreted {α : Type} {answer : Bool → α} {act act' : Eval α} {w : World}
    (h : Opposed answer (act w) (act' w)) :
    Opposed answer (interpreted act w) (interpreted act' w) := by
  unfold Eval.interpreted mapFault
  generalize act w = r, act' w = r' at h
  cases h with
  | truth b u => exact .truth b u
  | fault f u => exact .fault f.reported u
  | limit hf u _ =>
    rw [← Fault.reported_of_depth hf] at hf
    exact .limit hf u _

end Negation

end Eval

namespace Session

/-- Both outcomes are truth values, and opposite ones, or both are the same fault; and nothing else
differs. -/
structure Outcome.Opposite (o o' : Outcome Datum) : Prop where
  truth : ∀ b, o.result = .ok (.bool b) ↔ o'.result = .ok (.bool !b)
  fault : ∀ f, o.result = .error f ↔ o'.result = .error f
  decided : (∃ b, o.result = .ok (.bool b)) ∨ ∃ f, o.result = .error f
  written : o.written = o'.written
  session : o.session = o'.session

theorem opposite_ended (s : Session) {r r' : EStateM.Result Fault World Datum}
    (h : Eval.Opposed .bool r r') (hr : ¬ (s.ended r).MeetsLimit) :
    (s.ended r).Opposite (s.ended r') := by
  cases h with
  | truth b u =>
    exact ⟨fun c => by cases b <;> cases c <;> simp [ended], fun f => by simp [ended],
      .inl ⟨!b, rfl⟩, rfl, rfl⟩
  | fault f u => exact ⟨fun c => by simp [ended], fun f => Iff.rfl, .inr ⟨f, rfl⟩, rfl, rfl⟩
  | limit hf u _ => exact absurd ⟨_, rfl, hf⟩ hr

end Session

/-- De Morgan's laws: unless it meets the limit, a search through negated operands comes to the
opposite of the search for the opposite, or to its fault, with the same effects. -/
theorem shortCircuit_dual (s : Session)
    (hs : ∀ p ∈ s.hosted, HostProcedure.Blind p ∧ HostProcedure.Forwards p)
    {forms negations : List Datum}
    (hneg : List.Forall₂ (fun d n => ∃ place, n = d.negated place) forms negations)
      (place place' : Nat) :
    (¬ (s.evalForm (.call place (.symbol "or" :: negations))).MeetsLimit →
      (s.evalForm (.call place (.symbol "or" :: negations))).Opposite
        (s.evalForm (.call place' (.symbol "and" :: forms)))) ∧
    (¬ (s.evalForm (.call place (.symbol "and" :: negations))).MeetsLimit →
      (s.evalForm (.call place (.symbol "and" :: negations))).Opposite
        (s.evalForm (.call place' (.symbol "or" :: forms)))) := by
  have hends := Eval.opposed_searching (Session.blind_nativesOf fun p hp => (hs p hp).1)
    (Session.forwards_natives fun p hp => (hs p hp).2) hneg
  simp only [Session.evalForm, Session.run_eq_ended, interpret_eq_rounds]
  exact ⟨s.opposite_ended (hends false _ place place' _).interpreted,
    s.opposite_ended (hends true _ place place' _).interpreted⟩

/-- Two operands that bind `or` and `if`, and a third that is not reached. -/
def rebinding : List Datum :=
  [.call 1 [.symbol "def", .symbol "or", .int 1], .call 2 [.symbol "def", .symbol "if", .int 0],
    .symbol "missing"]

theorem shortCircuit_dual_rebinding :
    (∀ p ∈ (Session.start 10).hosted, HostProcedure.Blind p ∧ HostProcedure.Forwards p) ∧
    List.Forall₂ (fun d n => ∃ place, n = d.negated place) rebinding
      (rebinding.map (Datum.negated 3)) ∧
    ¬ ((Session.start 10).evalForm
      (.call 4 (.symbol "or" :: rebinding.map (Datum.negated 3)))).MeetsLimit ∧
    ((Session.start 10).evalForm
      (.call 4 (.symbol "or" :: rebinding.map (Datum.negated 3)))).Opposite
      ((Session.start 10).evalForm (.call 5 (.symbol "and" :: rebinding))) := by
  have hs : ∀ p ∈ (Session.start 10).hosted, HostProcedure.Blind p ∧ HostProcedure.Forwards p := by
    intro p hp
    obtain rfl | rfl : p = Stock.count ∨ p = Stock.list := by
      simpa [Session.start, Session.ofEnvironment, Session.stock] using hp
    · exact ⟨fun _ _ _ => rfl, fun _ _ => trivial⟩
    · exact ⟨fun _ _ _ => rfl, fun _ _ => trivial⟩
  have hneg :
      List.Forall₂ (fun d n => ∃ place, n = d.negated place) rebinding
        (rebinding.map (Datum.negated 3)) :=
    List.forall₂_map_right_iff.mpr (List.forall₂_same.mpr fun _ _ => ⟨3, rfl⟩)
  have hends :
      ((Session.start 10).evalForm
        (.call 4 (.symbol "or" :: rebinding.map (Datum.negated 3)))).result.isOk = true := by
    decide +kernel
  have hlimit :
      ¬ ((Session.start 10).evalForm
        (.call 4 (.symbol "or" :: rebinding.map (Datum.negated 3)))).MeetsLimit := by
    rintro ⟨f, hf, -⟩
    rw [hf] at hends
    cases hends
  exact ⟨hs, hneg, hlimit, (shortCircuit_dual (Session.start 10) hs hneg 4 5).1 hlimit⟩

end DynLisp
