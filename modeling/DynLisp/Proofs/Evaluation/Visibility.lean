import DynLisp.Proofs.Datum.Code
import DynLisp.Proofs.Evaluation.Coupling

/-!
# What evaluation sees of an environment

A form can look up only the names that it mentions, and those that the functions behind these names
mention.  Of each such name it sees the global binding and the innermost one above it.  Two
environments that agree on a set of names in this sense cannot be told apart by code that keeps to
the set, however many scopes they have and whatever else is bound in them.
-/

namespace DynLisp

namespace Environment

/-- The innermost binding of a name above the global scope. -/
def local? (e : Environment) (name : String) : Option Datum :=
  e.inner.findSome? fun scope => Assoc.find? scope name

/-- At the same level and under the same limit, the names have the same global and the same
innermost bindings. -/
structure AgreesOn (S : Set String) (e e' : Environment) : Prop where
  level : e.level = e'.level
  limit : e.limit = e'.limit
  globals : ∀ name ∈ S, Assoc.find? e.globals name = Assoc.find? e'.globals name
  inner : ∀ name ∈ S, e.local? name = e'.local? name

/-- What is bound to one of the names, in any scope, satisfies a condition. -/
def BindsOnly (N : Set String) (P : Datum → Prop) (e : Environment) : Prop :=
  ∀ scope ∈ e.scopes, ∀ name ∈ N, ∀ d, Assoc.find? scope name = some d → P d

/-- What is bound to one of the names, in any scope, holds only code that keeps to them. -/
def ClosedOn (S : Set String) (e : Environment) : Prop := e.BindsOnly S (Datum.BodiesMentionOnly S)

theorem local?_define {e : Environment} (hi : e.inner ≠ []) (name other : String) (d : Datum) :
    (e.define name d).local? other = if other = name then some d else e.local? other := by
  cases h : e.inner with
  | nil => contradiction
  | cons scope rest =>
    simp only [local?, define, h, List.findSome?_cons, Assoc.find?_insert]
    by_cases ho : other = name <;> simp only [ho, if_true, if_false]

theorem define_of_inner_ne {e : Environment} (hi : e.inner ≠ []) (name : String) (d : Datum) :
    ∃ scope rest, e.inner = scope :: rest ∧
      e.define name d = { e with inner := Assoc.insert scope name d :: rest } := by
  cases h : e.inner with
  | nil => contradiction
  | cons scope rest => exact ⟨scope, rest, rfl, by simp only [define, h]⟩

theorem define_globals {e : Environment} (hi : e.inner ≠ []) (name : String) (d : Datum) :
    (e.define name d).globals = e.globals := by
  obtain ⟨scope, rest, -, he⟩ := define_of_inner_ne hi name d
  rw [he]

section Agreement

variable {S : Set String} {e e' : Environment}

theorem AgreesOn.lookup (h : e.AgreesOn S e') {name : String} (hn : name ∈ S) :
    e.lookup name = e'.lookup name := by
  have hinner : (e.inner.findSome? fun scope => Assoc.find? scope name) =
      e'.inner.findSome? fun scope => Assoc.find? scope name := h.inner name hn
  have hlookup : e.lookup? name = e'.lookup? name := by
    unfold lookup?
    rw [hinner, h.globals name hn]
  unfold Environment.lookup
  rw [hlookup]

theorem AgreesOn.defineGlobal (h : e.AgreesOn S e') (name : String) (d : Datum) :
    (e.defineGlobal name d).AgreesOn S (e'.defineGlobal name d) := by
  refine ⟨h.level, h.limit, fun other ho => ?_, h.inner⟩
  change Assoc.find? (Assoc.insert e.globals name d) other =
    Assoc.find? (Assoc.insert e'.globals name d) other
  rw [Assoc.find?_insert, Assoc.find?_insert, h.globals other ho]

theorem AgreesOn.define (h : e.AgreesOn S e') (hi : e.inner ≠ []) (hi' : e'.inner ≠ [])
    (name : String) (d : Datum) : (e.define name d).AgreesOn S (e'.define name d) := by
  have locals : ∀ other ∈ S, (e.define name d).local? other = (e'.define name d).local? other := by
    intro other ho
    rw [local?_define hi, local?_define hi', h.inner other ho]
  obtain ⟨scope, rest, -, hd⟩ := define_of_inner_ne hi name d
  obtain ⟨scope', rest', -, hd'⟩ := define_of_inner_ne hi' name d
  rw [hd, hd'] at locals ⊢
  exact ⟨h.level, h.limit, h.globals, locals⟩

theorem AgreesOn.enter (h : e.AgreesOn S e') : e.enter.AgreesOn S e'.enter :=
  ⟨h.level, h.limit, h.globals, h.inner⟩

/-- Both environments let evaluation go one level deeper, or neither does. -/
theorem AgreesOn.descend_cases (h : e.AgreesOn S e') :
    (∃ f, e.descend = .error f ∧ e'.descend = .error f) ∨
    (e.descend = .ok { e with level := e.level + 1 } ∧
      e'.descend = .ok { e' with level := e'.level + 1 }) := by
  have hlevel := h.level
  have hlimit := h.limit
  obtain ⟨limit, hl, hle, hd⟩ | ⟨hl, hd⟩ := Environment.descend_cases e
  · obtain ⟨limit', hl', hle', hd'⟩ | ⟨hl', hd'⟩ := Environment.descend_cases e'
    · have : limit = limit' := Option.some.inj (hl.symm.trans (hlimit.trans hl'))
      exact .inl ⟨.tooDeep limit, hd, by rw [hd', this]⟩
    · have := hl' limit (hlimit.symm.trans hl)
      omega
  · obtain ⟨limit', hl', hle', hd'⟩ | ⟨hl', hd'⟩ := Environment.descend_cases e'
    · have := hl limit' (hlimit.trans hl')
      omega
    · exact .inr ⟨hd, hd'⟩

end Agreement

section Bindings

variable {N : Set String} {P : Datum → Prop} {e : Environment} {d : Datum}

theorem find?_insert_of_forall {scope : Scope}
    (h : ∀ name ∈ N, ∀ d, Assoc.find? scope name = some d → P d) (hd : P d) (name : String) :
    ∀ other ∈ N, ∀ value, Assoc.find? (Assoc.insert scope name d) other = some value → P value := by
  intro other ho value hv
  rw [Assoc.find?_insert] at hv
  split at hv
  · cases hv
    exact hd
  · exact h other ho value hv

theorem BindsOnly.lookup (h : e.BindsOnly N P) {name : String} (hn : name ∈ N)
    (hd : e.lookup name = .ok d) : P d := by
  unfold Environment.lookup at hd
  split at hd
  next value hv =>
    cases hd
    rw [lookup?_eq_findSome?, List.findSome?_eq_some_iff] at hv
    obtain ⟨before, scope, after, hs, hf, -⟩ := hv
    exact h scope (by rw [hs]; simp) name hn d hf
  next => cases hd

theorem BindsOnly.defineGlobal (h : e.BindsOnly N P) (hd : P d) (name : String) :
    (e.defineGlobal name d).BindsOnly N P := by
  obtain ⟨hinner, hglobals⟩ := List.forall_mem_append.mp h
  have hinsert := find?_insert_of_forall (List.forall_mem_singleton.mp hglobals) hd name
  exact List.forall_mem_append.mpr ⟨hinner, List.forall_mem_singleton.mpr hinsert⟩

theorem BindsOnly.define (h : e.BindsOnly N P) (hi : e.inner ≠ []) (hd : P d) (name : String) :
    (e.define name d).BindsOnly N P := by
  obtain ⟨scope, rest, hs, he⟩ := define_of_inner_ne hi name d
  have hscopes : e.scopes = scope :: (rest ++ [e.globals]) := by rw [scopes, hs, List.cons_append]
  rw [BindsOnly, hscopes] at h
  obtain ⟨hscope, hrest⟩ := List.forall_mem_cons.mp h
  rw [he]
  exact List.forall_mem_cons.mpr ⟨find?_insert_of_forall hscope hd name, hrest⟩

theorem BindsOnly.enter (h : e.BindsOnly N P) : e.enter.BindsOnly N P := by
  have nothing : ∀ name ∈ N, ∀ d, Assoc.find? ([] : Scope) name = some d → P d :=
    fun _ _ _ hd => nomatch hd
  exact List.forall_mem_cons.mpr ⟨nothing, h⟩

theorem BindsOnly.leave (h : e.BindsOnly N P) : e.leave.BindsOnly N P := by
  obtain ⟨hinner, hglobals⟩ := List.forall_mem_append.mp h
  exact List.forall_mem_append.mpr
    ⟨fun scope hs => hinner scope (List.mem_of_mem_tail hs), hglobals⟩

theorem ClosedOn.of_forall {S : Set String}
    (h : ∀ scope ∈ e.scopes, ∀ b ∈ scope, b.2.BodiesMentionOnly S) : e.ClosedOn S :=
  fun scope hs _ _ _ hf => h scope hs _ (Assoc.mem_of_find?_eq_some hf)

end Bindings

end Environment

/-- The states agree on the names and hold only code that keeps to them; and the same has been
written and is remembered. -/
structure World.AgreesOn (S : Set String) (w w' : World) : Prop where
  env : w.env.AgreesOn S w'.env
  closed : w.env.ClosedOn S
  closed' : w'.env.ClosedOn S
  written : w.written = w'.written
  next : w.next = w'.next
  host : w.host = w'.host

/-- Forms that mention only the names, and values that hold no other forms. -/
def Discipline.within (S : Set String) : Discipline where
  code := Datum.MentionsOnly S
  value := Datum.BodiesMentionOnly S
  target _ := True
  fault _ := True
  raised _ := True
  code_call h hd name hn := h name (.call hd hn)
  code_listForm h hd name hn := h name (.listForm hd hn)
  code_mapForm h he name hn := h name (.mapForm he hn)
  code_settle next h := h.settle next
  code_body h hd := h _ _ _ (.refl _) _ hd
  target_define _ := trivial
  value_literal _ hl := Datum.bodiesSatisfy_of_isLiteral hl
  value_bool _ := Datum.bodiesSatisfy_of_isLiteral rfl
  value_nil := Datum.bodiesSatisfy_of_isLiteral rfl
  value_list := Datum.bodiesSatisfy_list
  value_map := Datum.bodiesSatisfy_map
  value_fn place params h := Datum.bodiesSatisfy_fn h place params
  value_real _ _ := Datum.bodiesSatisfy_of_isLiteral rfl
  fault_program _ _ := trivial
  fault_notValue _ _ := trivial
  fault_within _ _ := trivial
  fault_reported _ := trivial
  raised_of_fault _ := trivial
  raised_of_isSpoken _ := trivial

/-- A native that makes no functions brings no code with it that its arguments did not hold. -/
theorem Reply.Gives.fits {D : Discipline} (hD : ∀ d : Datum, d.BodiesSatisfy D.code → D.value d)
    (hraised : ∀ f, D.raised f) {args : List Datum} {r : Reply}
    (h : r.Gives (Datum.FunctionsFrom args)) (hargs : ∀ d ∈ args, d.BodiesSatisfy D.code) :
    r.Fits D False := by
  induction r with
  | give d =>
    intro v hv
    unfold Eval.admitted at hv
    split at hv
    · cases hv
      exact hD _ (Datum.bodiesSatisfy_of_isLiteral rfl)
    · rw [Datum.eq_of_accept hv]
      exact hD _ (h.bodiesSatisfy hargs)
  | fail f => exact hraised f
  | say text next ih => exact ih h
  | consult next ih => exact fun memory => ih memory (h memory)
  | keep memory next ih => exact ih h
  | run text next ih => exact h.elim

/-- States that agree on the names stay so, step by step. -/
def Coupling.agreeing (S : Set String) {hosted : List HostProcedure}
    (hh : ∀ p ∈ hosted, HostProcedure.Local p) : Coupling (.within S) where
  natives := Session.nativesOf hosted
  natives' := Session.nativesOf hosted
  rel := World.AgreesOn S
  ahead := False
  lookup := by
    intro w w' name h hc
    have hn : name ∈ S := hc name .refl
    exact ⟨h.env.lookup hn, fun d hd => h.closed.lookup hn hd⟩
  defineGlobal := by
    intro w w' name d h _ hd
    exact ⟨h.env.defineGlobal name d, h.closed.defineGlobal hd name, h.closed'.defineGlobal hd name,
      h.written, h.next, h.host⟩
  enter := by
    intro w w' h
    exact ⟨h.env.enter, h.closed.enter, h.closed'.enter, h.written, h.next, h.host⟩
  define := by
    intro w w' name d h hi hi' hd
    exact ⟨h.env.define hi hi' name d, h.closed.define hi hd name, h.closed'.define hi' hd name,
      h.written, h.next, h.host⟩
  leave := by
    intro w w' u u' hw hu hk hk'
    -- the scopes that are left are those that were there before, so their names still agree
    have hi : u.env.inner.tail = w.env.inner := by
      rw [← List.drop_one]
      exact hk.inner
    have hi' : u'.env.inner.tail = w'.env.inner := by
      rw [← List.drop_one]
      exact hk'.inner
    have locals : ∀ name ∈ S, u.env.leave.local? name = u'.env.leave.local? name := by
      intro name hn
      have := hw.env.inner name hn
      unfold Environment.local? at this ⊢
      rwa [Environment.leave, Environment.leave, hi, hi']
    exact ⟨⟨hu.env.level, hu.env.limit, hu.env.globals, locals⟩, hu.closed.leave, hu.closed'.leave,
      hu.written, hu.next, hu.host⟩
  descend := by
    intro w w' h
    obtain ⟨f, hd, hd'⟩ | ⟨hd, hd'⟩ := h.env.descend_cases
    · exact .inl ⟨f, hd, hd'⟩
    · refine .inr (.inl ⟨_, _, hd, hd', ?_⟩)
      exact ⟨⟨congrArg (· + 1) h.env.level, h.env.limit, h.env.globals, h.env.inner⟩,
        h.closed, h.closed', h.written, h.next, h.host⟩
  ascend := by
    intro w w' u u' e e' _ hu _ _ _ _
    refine ⟨⟨?_, hu.env.limit, hu.env.globals, hu.env.inner⟩, hu.closed, hu.closed', hu.written,
      hu.next, hu.host⟩
    exact congrArg (· - 1) hu.env.level
  say := by
    intro w w' text h
    exact ⟨h.env, h.closed, h.closed', congrArg (· ++ text) h.written, h.next, h.host⟩
  keep := by
    intro w w' memory h
    exact ⟨h.env, h.closed, h.closed', h.written, h.next, rfl⟩
  next := by
    intro w w' next h
    exact ⟨h.env, h.closed, h.closed', h.written, rfl, h.host⟩
  next_eq h := h.next
  written_eq h := h.written
  host_eq h := h.host
  reply := by
    intro w w' procedure args _ hargs
    have hp := Session.local_nativesOf hh procedure
    exact ⟨hp.blind _ _ args, (hp.gives _ args).fits (fun _ hd => hd) (fun _ => trivial) hargs⟩

/-- Two evaluations that end alike: with the same value or the same fault, in states that agree on
the names. -/
inductive Eval.EndAlike (S : Set String) :
    EStateM.Result Fault World Datum → EStateM.Result Fault World Datum → Prop where
  | value {v : Datum} {u u' : World} (h : u.AgreesOn S u') : EndAlike S (.ok v u) (.ok v u')
  | fault {f : Fault} {u u' : World} (h : u.AgreesOn S u') : EndAlike S (.error f u) (.error f u')

/-- A form that mentions only some names cannot tell apart states that agree on them. -/
theorem evalForm_agreesOn {hosted : List HostProcedure} (hh : ∀ p ∈ hosted, HostProcedure.Local p)
    {S : Set String} {d : Datum} (hd : d.MentionsOnly S) {w w' : World} (h : w.AgreesOn S w') :
    Eval.EndAlike S (evalForm (Session.nativesOf hosted) d w)
      (evalForm (Session.nativesOf hosted) d w') := by
  have hroom : w.env.room = w'.env.room := Environment.room_congr h.env.limit h.env.level
  have hends := (steps_evaluate (Coupling.agreeing S hh) id trivial w.env.room).couples d hd w w' h
  change Coupling.Outcome _ _ _ (evaluate (Session.nativesOf hosted) w.env.room d w)
    (evaluate (Session.nativesOf hosted) w.env.room d w') at hends
  unfold evalForm
  rw [← hroom]
  generalize evaluate (Session.nativesOf hosted) w.env.room d w = r,
    evaluate (Session.nativesOf hosted) w.env.room d w' = r' at hends
  cases hends with
  | value _ hu => exact .value hu
  | fault _ hu => exact .fault hu
  | ahead hK => exact hK.elim

/-- The names `f` and `x`. -/
def fAndX : Set String := {name | name = "f" ∨ name = "x"}

/-- The function `f` reads `x`, which is bound in one scope. -/
def oneScope : World :=
  ⟨⟨[[("x", .int 1)]], [("f", .fn 0 [] [.symbol "x"])], some 50, 0⟩, "", 2, .nil⟩

/-- The same below two other scopes, and with other names bound too. -/
def threeScopes : World :=
  ⟨⟨[[("y", .int 5)], [("x", .int 1)], [("x", .int 7)]],
    [("z", .nil), ("f", .fn 0 [] [.symbol "x"])], some 50, 0⟩, "", 2, .nil⟩

theorem agreesOn_scopes : World.AgreesOn fAndX oneScope threeScopes := by
  have fn : (Datum.fn 0 [] [.symbol "x"]).BodiesMentionOnly fAndX :=
    Datum.bodiesSatisfy_fn
      (List.forall_mem_singleton.mpr (Datum.mentionsOnly_symbol (.inr rfl))) 0 []
  have int (n : Int) : (Datum.int n).BodiesMentionOnly fAndX := Datum.bodiesSatisfy_of_isLiteral rfl
  have nil : Datum.nil.BodiesMentionOnly fAndX := Datum.bodiesSatisfy_of_isLiteral rfl
  refine ⟨⟨rfl, rfl, ?_, ?_⟩, .of_forall ?_, .of_forall ?_, rfl, rfl, rfl⟩
  · rintro name (rfl | rfl) <;> rfl
  · rintro name (rfl | rfl) <;> rfl
  · simp [oneScope, Environment.scopes, int, fn]
  · simp only [threeScopes, Environment.scopes, List.cons_append, List.nil_append,
      List.forall_mem_cons]
    simp [int, nil, fn]

theorem evalForm_agreesOn_scopes :
    (∀ p ∈ [Stock.first], HostProcedure.Local p) ∧
    (Datum.call 1 [.symbol "f"]).MentionsOnly fAndX ∧
    World.AgreesOn fAndX oneScope threeScopes ∧
    Eval.EndAlike fAndX
      (evalForm (Session.nativesOf [Stock.first]) (.call 1 [.symbol "f"]) oneScope)
      (evalForm (Session.nativesOf [Stock.first]) (.call 1 [.symbol "f"]) threeScopes) := by
  have hh : ∀ p ∈ [Stock.first], HostProcedure.Local p :=
    List.forall_mem_singleton.mpr Stock.local_first
  have hd : (Datum.call 1 [.symbol "f"]).MentionsOnly fAndX :=
    Datum.mentionsOnly_call (List.forall_mem_singleton.mpr (Datum.mentionsOnly_symbol (.inl rfl)))
  exact ⟨hh, hd, agreesOn_scopes, evalForm_agreesOn hh hd agreesOn_scopes⟩

end DynLisp
