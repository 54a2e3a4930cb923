import Mathlib.Data.Set.Defs
import DynLisp.Proofs.Datum.Sound
import DynLisp.Proofs.Native.Builtin

/-!
# The code in forms and values

A form mentions the symbols that occur in it, at any depth.  A value holds code only in the bodies
of the functions that it reaches.  Admission changes nothing in what it lets through, so a native
that makes no functions brings no code with it.
-/

namespace DynLisp

namespace Datum

/-- A form occurs in another, at any depth. -/
inductive Occurs (e : Datum) : Datum → Prop where
  | refl : Occurs e e
  | call {place : Nat} {items : List Datum} {d : Datum} (hd : d ∈ items) (h : Occurs e d) :
    Occurs e (.call place items)
  | listForm {items : List Datum} {d : Datum} (hd : d ∈ items) (h : Occurs e d) :
    Occurs e (.listForm items)
  | mapForm {entries : List (String × Datum)} {b : String × Datum} (hb : b ∈ entries)
    (h : Occurs e b.2) : Occurs e (.mapForm entries)

/-- Every symbol in the form is one of the names. -/
def MentionsOnly (S : Set String) (d : Datum) : Prop :=
  ∀ name, Occurs (.symbol name) d → name ∈ S

theorem mentionsOnly_symbol {S : Set String} {name : String} (h : name ∈ S) :
    (symbol name).MentionsOnly S := by
  intro other ho
  cases ho
  exact h

theorem mentionsOnly_call {S : Set String} {place : Nat} {items : List Datum}
    (h : ∀ d ∈ items, d.MentionsOnly S) : (call place items).MentionsOnly S := by
  intro name ho
  cases ho with
  | call hd ho => exact h _ hd name ho

/-- Every form in the body of a function in the value satisfies a condition. -/
def BodiesSatisfy (P : Datum → Prop) (d : Datum) : Prop :=
  ∀ place params body, d.Reaches (.fn place params body) → ∀ form ∈ body, P form

/-- Every symbol in the body of a function in the value is one of the names. -/
def BodiesMentionOnly (S : Set String) (d : Datum) : Prop := d.BodiesSatisfy (·.MentionsOnly S)

/-! ## Places -/

/-- What occurs in a form that has been given places is something that occurred in the form
before. -/
theorem exists_occurs_of_settle : ∀ {d e : Datum} {next : Nat}, Occurs e (d.settle next).1 →
    ∃ e' n, Occurs e' d ∧ e = (e'.settle n).1
  | .call place items, e, next, h => by
    rw [settle] at h
    cases h with
    | refl => exact ⟨.call place items, next, .refl, by rw [settle]⟩
    | call hd h =>
      obtain ⟨d, hitem, n, rfl⟩ := mem_settleAll hd
      have : sizeOf d < sizeOf items := List.sizeOf_lt_of_mem hitem
      obtain ⟨e', m, he, rfl⟩ := exists_occurs_of_settle h
      exact ⟨e', m, .call hitem he, rfl⟩
  | .listForm items, e, next, h => by
    rw [settle] at h
    cases h with
    | refl => exact ⟨.listForm items, next, .refl, by rw [settle]⟩
    | listForm hd h =>
      obtain ⟨d, hitem, n, rfl⟩ := mem_settleAll hd
      have : sizeOf d < sizeOf items := List.sizeOf_lt_of_mem hitem
      obtain ⟨e', m, he, rfl⟩ := exists_occurs_of_settle h
      exact ⟨e', m, .listForm hitem he, rfl⟩
  | .mapForm entries, e, next, h => by
    rw [settle] at h
    cases h with
    | refl => exact ⟨.mapForm entries, next, .refl, by rw [settle]⟩
    | mapForm hb h =>
      obtain ⟨⟨key, d⟩, hentry, n, hn⟩ := mem_settleEntries hb
      rw [hn] at h
      have : sizeOf (key, d) < sizeOf entries := List.sizeOf_lt_of_mem hentry
      obtain ⟨e', m, he, rfl⟩ := exists_occurs_of_settle h
      exact ⟨e', m, .mapForm hentry he, rfl⟩
  | .str _, _, next, .refl | .int _, _, next, .refl | .real _ _, _, next, .refl
  | .bool _, _, next, .refl | .nil, _, next, .refl | .list _, _, next, .refl
  | .map _, _, next, .refl | .fn _ _ _, _, next, .refl | .native _ _, _, next, .refl
  | .symbol _, _, next, .refl | .absent, _, next, .refl | .array _ _, _, next, .refl
  | .record _ _, _, next, .refl | .table _ _, _, next, .refl | .quoted _ _, _, next, .refl =>
    ⟨_, next, .refl, rfl⟩
termination_by d => sizeOf d
decreasing_by all_goals simp_all; omega

theorem eq_symbol_of_settle {d : Datum} {next : Nat} {name : String}
    (h : (d.settle next).1 = .symbol name) : d = .symbol name := by
  cases d with
  | call | listForm | mapForm =>
    rw [settle] at h
    cases h
  | _ => exact h

/-- Places are no part of what a form mentions. -/
theorem MentionsOnly.settle {S : Set String} {d : Datum} (h : d.MentionsOnly S) (next : Nat) :
    (d.settle next).1.MentionsOnly S := by
  intro name hname
  obtain ⟨e, n, he, hn⟩ := exists_occurs_of_settle hname
  rw [eq_symbol_of_settle hn.symm] at he
  exact h name he

/-! ## Functions in values -/

section Values

variable {P : Datum → Prop}

theorem bodiesSatisfy_list {items : List Datum} (h : ∀ d ∈ items, d.BodiesSatisfy P) :
    (Datum.list items).BodiesSatisfy P := by
  intro place params body hr
  cases hr with
  | list hd hr => exact h _ hd place params body hr

theorem bodiesSatisfy_map {entries : List (String × Datum)}
    (h : ∀ e ∈ entries, e.2.BodiesSatisfy P) : (Datum.map entries).BodiesSatisfy P := by
  intro place params body hr
  cases hr with
  | map hb hr => exact h _ hb place params body hr

theorem bodiesSatisfy_fn {body : List Datum} (h : ∀ d ∈ body, P d) (place : Nat)
    (params : List String) : (Datum.fn place params body).BodiesSatisfy P := by
  intro place' params' body' hr
  cases hr
  exact h

theorem not_reaches_of_isLiteral {d : Datum} (h : d.isLiteral = true) (place : Nat)
    (params : List String) (body : List Datum) : ¬ d.Reaches (.fn place params body) := by
  intro hr
  cases hr <;> cases h

theorem bodiesSatisfy_of_isLiteral {d : Datum} (h : d.isLiteral = true) : d.BodiesSatisfy P :=
  fun place params body hr => absurd hr (not_reaches_of_isLiteral h place params body)

end Values

/-! ## Admission -/

mutual

/-- What is admitted is what was handed over. -/
theorem eq_of_accept : ∀ {d v : Datum}, d.accept = .ok v → v = d
  | .int n, v, h => by
    rw [accept] at h
    obtain ⟨m, hm, rfl⟩ := exists_of_map_eq_ok h
    rw [(checkInt_eq_ok hm).1]
  | .list items, v, h => by
    rw [accept] at h
    obtain ⟨values, hvalues, rfl⟩ := exists_of_map_eq_ok h
    rw [eq_of_acceptAll hvalues]
  | .map entries, v, h => by
    rw [accept] at h
    obtain ⟨values, hvalues, rfl⟩ := exists_of_map_eq_ok h
    rw [eq_of_acceptEntries hvalues]
  | .str _, _, rfl | .real _ _, _, rfl | .bool _, _, rfl | .nil, _, rfl | .fn _ _ _, _, rfl
  | .native _ _, _, rfl => rfl

theorem eq_of_acceptAll :
    ∀ {items values : List Datum}, acceptAll items = .ok values → values = items
  | [], _, rfl => rfl
  | d :: rest, values, h => by
    rw [acceptAll] at h
    split at h
    · cases h
    next first hfirst =>
      split at h
      · cases h
      next others hothers =>
        cases h
        rw [eq_of_accept hfirst, eq_of_acceptAll hothers]

theorem eq_of_acceptEntries : ∀ {entries values : List (String × Datum)},
    acceptEntries entries = .ok values → values = entries
  | [], _, rfl => rfl
  | (key, d) :: rest, values, h => by
    rw [acceptEntries] at h
    split at h
    · cases h
    next first hfirst =>
      split at h
      · cases h
      next others hothers =>
        cases h
        rw [eq_of_accept hfirst, eq_of_acceptEntries hothers]

end

/-- Every function in the value is in one of the arguments. -/
def FunctionsFrom (args : List Datum) (d : Datum) : Prop :=
  ∀ place params body, d.Reaches (.fn place params body) →
    ∃ arg ∈ args, arg.Reaches (.fn place params body)

theorem FunctionsFrom.bodiesSatisfy {P : Datum → Prop} {args : List Datum} {d : Datum}
    (h : d.FunctionsFrom args) (hargs : ∀ arg ∈ args, arg.BodiesSatisfy P) : d.BodiesSatisfy P := by
  intro place params body hr
  obtain ⟨arg, harg, hr⟩ := h place params body hr
  exact hargs arg harg place params body hr

theorem functionsFrom_of_isLiteral {d : Datum} (h : d.isLiteral = true) (args : List Datum) :
    d.FunctionsFrom args := fun place params body hr =>
  absurd hr (not_reaches_of_isLiteral h place params body)

end Datum

/-! ## Natives -/

theorem Reply.Gives.mono {P Q : Datum → Prop} {r : Reply} (h : r.Gives P) (hPQ : ∀ d, P d → Q d) :
    r.Gives Q := by
  induction r with
  | give d => exact hPQ d h
  | fail f => trivial
  | say text next ih => exact ih h
  | consult next ih => exact fun memory => ih memory (h memory)
  | keep memory next ih => exact ih h
  | run text next ih => exact h.elim

/-- The procedure runs no source text, and it returns no function that is not in one of its
arguments. -/
def HostProcedure.MakesNoFunctions (p : HostProcedure) : Prop :=
  ∀ sight args, (p sight args).Gives (Datum.FunctionsFrom args)

/-- The procedure depends on nothing but its arguments and what the host remembers, and it returns
no function that is not in one of its arguments. -/
structure HostProcedure.Local (p : HostProcedure) : Prop where
  blind : HostProcedure.Blind p
  gives : HostProcedure.MakesNoFunctions p

theorem Stock.local_first : HostProcedure.Local Stock.first := by
  refine ⟨fun _ _ _ => rfl, fun sight args => ?_⟩
  cases args with
  | nil => trivial
  | cons d rest => exact fun place params body hr => ⟨d, List.mem_cons_self, hr⟩

theorem Session.makesNoFunctions_nativesOf {hosted : List HostProcedure}
    (hh : ∀ p ∈ hosted, HostProcedure.MakesNoFunctions p) (procedure : Procedure) :
    HostProcedure.MakesNoFunctions (nativesOf hosted procedure) := by
  have builtin (b : Builtin) : HostProcedure.MakesNoFunctions fun _ args => b.reply args :=
    fun _ args => (b.gives_reply args).mono fun _ hd => Datum.functionsFrom_of_isLiteral hd args
  refine nativesOf_induction builtin hh ?_ procedure
  intro sight args place params body hr
  cases hr

theorem Session.local_nativesOf {hosted : List HostProcedure}
    (hh : ∀ p ∈ hosted, HostProcedure.Local p) (procedure : Procedure) :
    HostProcedure.Local (nativesOf hosted procedure) :=
  ⟨blind_nativesOf (fun p hp => (hh p hp).blind) procedure,
    makesNoFunctions_nativesOf (fun p hp => (hh p hp).gives) procedure⟩

end DynLisp
