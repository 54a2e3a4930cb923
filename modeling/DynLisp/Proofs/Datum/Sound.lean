import DynLisp.Datum.Place
import DynLisp.Datum.Value

/-!
# Sound forms and values

`IsForm` describes what a reader makes and `IsValue` what a program works with, both at every depth
and with all integers in range.  The functions among the values have forms as their bodies.

Admission is the way from a host's data to values.  It looks through lists and maps but not into
functions, so what it admits is a value if every function that the datum reaches has a body of
forms.
-/

namespace DynLisp

namespace Datum

/-- A form as a reader makes it. -/
inductive IsForm : Datum → Prop where
  | str (text : String) : IsForm (.str text)
  | int {n : Int} (h : inRange n = true) : IsForm (.int n)
  | real (x : Float) (mark : Nat) : IsForm (.real x mark)
  | bool (b : Bool) : IsForm (.bool b)
  | nil : IsForm .nil
  | symbol (name : String) : IsForm (.symbol name)
  | call {place : Nat} {items : List Datum} (h : ∀ d ∈ items, IsForm d) : IsForm (.call place items)
  | listForm {items : List Datum} (h : ∀ d ∈ items, IsForm d) : IsForm (.listForm items)
  | mapForm {entries : List (String × Datum)} (h : ∀ e ∈ entries, IsForm e.2) :
    IsForm (.mapForm entries)

/-- A value of the language. -/
inductive IsValue : Datum → Prop where
  | str (text : String) : IsValue (.str text)
  | int {n : Int} (h : inRange n = true) : IsValue (.int n)
  | real (x : Float) (mark : Nat) : IsValue (.real x mark)
  | bool (b : Bool) : IsValue (.bool b)
  | nil : IsValue .nil
  | list {items : List Datum} (h : ∀ d ∈ items, IsValue d) : IsValue (.list items)
  | map {entries : List (String × Datum)} (h : ∀ e ∈ entries, IsValue e.2) : IsValue (.map entries)
  | fn {place : Nat} {params : List String} {body : List Datum} (h : ∀ d ∈ body, IsForm d) :
    IsValue (.fn place params body)
  | native (name : String) (procedure : Procedure) : IsValue (.native name procedure)

theorem IsValue.kind?_ne_none {d : Datum} (h : d.IsValue) : d.kind? ≠ none := by
  cases h <;> simp [kind?]

/-! ## Places -/

theorem mem_settleAll {next : Nat} {items : List Datum} {d : Datum}
    (h : d ∈ (settleAll next items).1) : ∃ e ∈ items, ∃ n, d = (settle n e).1 := by
  induction items generalizing next with
  | nil => cases h
  | cons e rest ih =>
    rw [settleAll, List.mem_cons] at h
    obtain rfl | h := h
    · exact ⟨e, List.mem_cons_self, next, rfl⟩
    · obtain ⟨e', he', n, rfl⟩ := ih h
      exact ⟨e', List.mem_cons_of_mem _ he', n, rfl⟩

theorem mem_settleEntries {next : Nat} {entries : List (String × Datum)} {b : String × Datum}
    (h : b ∈ (settleEntries next entries).1) : ∃ e ∈ entries, ∃ n, b.2 = (settle n e.2).1 := by
  induction entries generalizing next with
  | nil => cases h
  | cons e rest ih =>
    rw [settleEntries, List.mem_cons] at h
    obtain rfl | h := h
    · exact ⟨e, List.mem_cons_self, next, rfl⟩
    · obtain ⟨e', he', n, hb⟩ := ih h
      exact ⟨e', List.mem_cons_of_mem _ he', n, hb⟩

theorem IsForm.settle {d : Datum} (h : d.IsForm) (next : Nat) : (d.settle next).1.IsForm := by
  induction h generalizing next with
  | str text => exact .str text
  | int h => exact .int h
  | real x mark => exact .real x mark
  | bool b => exact .bool b
  | nil => exact .nil
  | symbol name => exact .symbol name
  | call _ ih =>
    refine .call fun d hd => ?_
    obtain ⟨e, he, n, rfl⟩ := mem_settleAll hd
    exact ih e he n
  | listForm _ ih =>
    refine .listForm fun d hd => ?_
    obtain ⟨e, he, n, rfl⟩ := mem_settleAll hd
    exact ih e he n
  | mapForm _ ih =>
    refine .mapForm fun b hb => ?_
    obtain ⟨e, he, n, hb⟩ := mem_settleEntries hb
    rw [hb]
    exact ih e he n

/-! ## Admission -/

/-- The data that are found in a datum by going through lists and maps. -/
inductive Reaches : Datum → Datum → Prop where
  | refl (d : Datum) : Reaches d d
  | list {items : List Datum} {d e : Datum} (hd : d ∈ items) (h : Reaches d e) :
    Reaches (.list items) e
  | map {entries : List (String × Datum)} {b : String × Datum} {e : Datum} (hb : b ∈ entries)
    (h : Reaches b.2 e) : Reaches (.map entries) e

/-- All functions in the datum have bodies of forms. -/
def FunctionsOfForms (d : Datum) : Prop :=
  ∀ place params body, d.Reaches (.fn place params body) → ∀ form ∈ body, form.IsForm

theorem exists_of_map_eq_ok {α β : Type} {x : Except Fault α} {g : α → β} {b : β}
    (h : x.map g = .ok b) : ∃ a, x = .ok a ∧ g a = b := by
  cases x with
  | error f => cases h
  | ok a => exact ⟨a, rfl, by cases h; rfl⟩

theorem checkInt_eq_ok {n m : Int} (h : checkInt n = .ok m) : m = n ∧ inRange n = true := by
  unfold checkInt at h
  split at h
  · cases h
    exact ⟨rfl, ‹_›⟩
  · split at h <;> cases h

theorem mem_of_acceptAll {items values : List Datum} (h : acceptAll items = .ok values) {v : Datum}
    (hv : v ∈ values) : ∃ d ∈ items, d.accept = .ok v := by
  induction items generalizing values with
  | nil =>
    cases h
    cases hv
  | cons d rest ih =>
    rw [acceptAll] at h
    split at h
    · cases h
    next first hfirst =>
      split at h
      · cases h
      next others hothers =>
        cases h
        obtain rfl | hv := List.mem_cons.mp hv
        · exact ⟨d, List.mem_cons_self, hfirst⟩
        · obtain ⟨d', hd', h'⟩ := ih hothers hv
          exact ⟨d', List.mem_cons_of_mem _ hd', h'⟩

theorem mem_of_acceptEntries {entries values : List (String × Datum)}
    (h : acceptEntries entries = .ok values) {v : String × Datum} (hv : v ∈ values) :
    ∃ e ∈ entries, e.2.accept = .ok v.2 := by
  induction entries generalizing values with
  | nil =>
    cases h
    cases hv
  | cons e rest ih =>
    rw [acceptEntries] at h
    split at h
    · cases h
    next first hfirst =>
      split at h
      · cases h
      next others hothers =>
        cases h
        obtain rfl | hv := List.mem_cons.mp hv
        · exact ⟨e, List.mem_cons_self, hfirst⟩
        · obtain ⟨e', he', h'⟩ := ih hothers hv
          exact ⟨e', List.mem_cons_of_mem _ he', h'⟩

/-- What admission lets through is a value. -/
theorem isValue_of_accept : ∀ {d v : Datum}, d.accept = .ok v → d.FunctionsOfForms → v.IsValue
  | .int n, v, h, _ => by
    rw [accept] at h
    obtain ⟨m, hm, rfl⟩ := exists_of_map_eq_ok h
    obtain ⟨rfl, hr⟩ := checkInt_eq_ok hm
    exact .int hr
  | .list items, v, h, hf => by
    rw [accept] at h
    obtain ⟨values, hvalues, rfl⟩ := exists_of_map_eq_ok h
    refine .list fun v hv => ?_
    obtain ⟨d, hd, hdv⟩ := mem_of_acceptAll hvalues hv
    have : sizeOf d < sizeOf items := List.sizeOf_lt_of_mem hd
    exact isValue_of_accept hdv fun place params body hr => hf place params body (.list hd hr)
  | .map entries, v, h, hf => by
    rw [accept] at h
    obtain ⟨values, hvalues, rfl⟩ := exists_of_map_eq_ok h
    refine .map fun v hv => ?_
    obtain ⟨⟨key, d⟩, hd, hdv⟩ := mem_of_acceptEntries hvalues hv
    have : sizeOf (key, d) < sizeOf entries := List.sizeOf_lt_of_mem hd
    exact isValue_of_accept hdv fun place params body hr => hf place params body (.map hd hr)
  -- a function is let through as it is, so here the condition on bodies is needed
  | .fn place params body, v, h, hf => by
    cases h
    exact .fn (hf place params body (.refl _))
  | .str text, _, rfl, _ => .str text
  | .real x mark, _, rfl, _ => .real x mark
  | .bool b, _, rfl, _ => .bool b
  | .nil, _, rfl, _ => .nil
  | .native name procedure, _, rfl, _ => .native name procedure
termination_by d => sizeOf d
decreasing_by all_goals simp_all; omega

end Datum

end DynLisp
