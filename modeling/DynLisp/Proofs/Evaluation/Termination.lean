import DynLisp.Proofs.Evaluation.Coupling

/-!
# Evaluation under a limit ends

Nothing in a form bounds how long its evaluation takes, since a function may call itself through its
name.  What bounds it is the level: each evaluation of a form inside another one is a level deeper,
and under a limit there are only so many levels.

`rounds` evaluates that many levels and leaves what is nested deeper to something else.  Evaluation
ends if, after enough rounds, nothing is left to leave over: then it does not matter what that
something else is.  That needs one fact, `alike_form`: what a form does depends on the evaluation of
its parts only at the same level and in at most one scope more, and on natives only as they are
called there.  The same fact bounds the number of scopes in which natives are called.
-/

namespace DynLisp

/-- What is seen one level deeper. -/
def Sight.deeper (s : Sight) : Sight := { s with level := s.level + 1 }

/-- What is seen in one scope more. -/
def Sight.framed (s : Sight) : Sight := { s with depth := s.depth + 1 }

theorem Keeps.sight_eq {w u : World} (h : Keeps 0 w u) : u.sight = w.sight := by
  have hi : u.env.inner = w.env.inner := h.inner
  rw [World.sight, World.sight, Environment.depth, Environment.depth, hi, h.level, h.limit]

theorem World.sight_ascend {w u : World} (h : u.sight = w.sight.deeper) :
    { u with env := u.env.ascend }.sight = w.sight := by
  obtain ⟨hdepth, hlevel, hlimit⟩ := Sight.mk.inj h
  change Sight.mk u.env.depth (u.env.level - 1) u.env.limit = _
  rw [hdepth, hlevel, hlimit]
  rfl

theorem World.sight_leave {w u : World} (h : u.sight = w.sight.framed) :
    { u with env := u.env.leave }.sight = w.sight := by
  obtain ⟨hdepth, hlevel, hlimit⟩ := Sight.mk.inj h
  have hinner : u.env.inner.length = w.env.inner.length + 1 := Nat.succ.inj hdepth
  change Sight.mk (u.env.inner.tail.length + 1) u.env.level u.env.limit = _
  rw [List.length_tail, hinner, hlevel, hlimit, Nat.add_sub_cancel]
  rfl

namespace Eval

variable {α β : Type} {sight : Sight}

/-- How two runs that do the same end: with the same result or fault, in the same state, where a
native would see the given counters.  If `loose` holds, the second may report that the stack is
spent where the first only meets it. -/
inductive AlikeEnd (loose : Prop) (sight : Sight) :
    EStateM.Result Fault World α → EStateM.Result Fault World α → Prop where
  | value (a : α) {u : World} (hu : u.sight = sight) : AlikeEnd loose sight (.ok a u) (.ok a u)
  | fault (f : Fault) {u : World} (hu : u.sight = sight) :
    AlikeEnd loose sight (.error f u) (.error f u)
  | spent (h : loose) {u : World} (hu : u.sight = sight) :
    AlikeEnd loose sight (.error .stackSpent u) (.error .noRoom u)

/-- Wherever a native would see the given counters, the actions do the same and leave them as they
are. -/
def AlikeAt (loose : Prop) (sight : Sight) (act act' : Eval α) : Prop :=
  ∀ w : World, w.sight = sight → AlikeEnd loose sight (act w) (act' w)

variable {loose : Prop}

theorem AlikeEnd.eq {r r' : EStateM.Result Fault World α} (h : AlikeEnd False sight r r') :
    r = r' := by
  cases h with
  | value | fault => rfl
  | spent h => exact h.elim

/-! ## Rules for `AlikeAt` -/

theorem AlikeAt.of_keeps {act : Eval α} (h : Moves (Keeps 0) act) :
    AlikeAt loose sight act act := by
  intro w hw
  have hu := (h w).sight_eq.trans hw
  unfold final at hu
  generalize act w = r at hu
  cases r with
  | ok a u => exact .value a hu
  | error f u => exact .fault f hu

theorem AlikeAt.bind {act act' : Eval α} {k k' : α → Eval β} (h : AlikeAt loose sight act act')
    (hk : ∀ a, AlikeAt loose sight (k a) (k' a)) :
    AlikeAt loose sight (act >>= k) (act' >>= k') := by
  intro w hw
  have hends := h w hw
  rw [bind_apply, bind_apply]
  generalize act w = r, act' w = r' at hends
  cases hends with
  | value a hu => exact hk a _ hu
  | fault f hu => exact .fault f hu
  | spent h hu => exact .spent h hu

theorem AlikeAt.map {act act' : Eval α} (h : AlikeAt loose sight act act') (g : α → β) :
    AlikeAt loose sight (act >>= fun a => pure (g a)) (act' >>= fun a => pure (g a)) :=
  h.bind fun _ => .of_keeps (moves_pure _)

theorem AlikeAt.ite {c : Prop} [Decidable c] {act act' other other' : Eval α}
    (h : AlikeAt loose sight act act') (ho : AlikeAt loose sight other other') :
    AlikeAt loose sight (if c then act else other) (if c then act' else other') := by
  split
  · exact h
  · exact ho

theorem AlikeAt.attempt {act act' : Eval α} (h : AlikeAt False sight act act') :
    AlikeAt loose sight (attempt act) (attempt act') := by
  intro w hw
  have hends := h w hw
  unfold Eval.attempt
  generalize act w = r, act' w = r' at hends
  cases hends with
  | value a hu => exact .value (Except.ok a) hu
  | fault f hu => exact .value (Except.error f) hu
  | spent h => exact h.elim

theorem AlikeAt.contained {act act' : Eval α} (h : AlikeAt False sight act act') (name : String) :
    AlikeAt loose sight (contained name act) (contained name act') := by
  intro w hw
  have hends := h w hw
  unfold Eval.contained Eval.mapFault
  generalize act w = r, act' w = r' at hends
  cases hends with
  | value a hu => exact .value a hu
  | fault f hu => exact .fault (f.within name) hu
  | spent h => exact h.elim

/-- An interpreter reports a spent stack either way. -/
theorem AlikeAt.interpreted {act act' : Eval α} (h : AlikeAt loose sight act act') :
    AlikeAt False sight (interpreted act) (interpreted act') := by
  intro w hw
  have hends := h w hw
  unfold Eval.interpreted Eval.mapFault
  generalize act w = r, act' w = r' at hends
  cases hends with
  | value a hu => exact .value a hu
  | fault f hu => exact .fault f.reported hu
  | spent _ hu => exact .fault .noRoom hu

/-- One level deeper, if the limit allows it. -/
theorem AlikeAt.nested {act act' : Eval α}
    (h : (∀ limit, sight.limit = some limit → sight.level < limit) →
      AlikeAt loose sight.deeper act act') :
    AlikeAt loose sight (nested act) (nested act') := by
  rintro w rfl
  obtain ⟨limit, -, -, hd⟩ | ⟨hl, hd⟩ := w.env.descend_cases
  · simp only [Eval.nested, hd]
    exact .fault _ rfl
  · have hends := h hl { w with env := { w.env with level := w.env.level + 1 } } rfl
    simp only [Eval.nested, hd]
    generalize act _ = r, act' _ = r' at hends
    cases hends with
    | value a hu => exact .value a (World.sight_ascend hu)
    | fault f hu => exact .fault f (World.sight_ascend hu)
    | spent h hu => exact .spent h (World.sight_ascend hu)

/-- In one scope more. -/
theorem AlikeAt.framed {act act' : Eval α} (h : AlikeAt loose sight.framed act act') :
    AlikeAt loose sight (framed act) (framed act') := by
  rintro w rfl
  have hends := h { w with env := w.env.enter } rfl
  unfold Eval.framed
  generalize act _ = r, act' _ = r' at hends
  cases hends with
  | value a hu => exact .value a (World.sight_leave hu)
  | fault f hu => exact .fault f (World.sight_leave hu)
  | spent h hu => exact .spent h (World.sight_leave hu)

theorem alike_define (name : String) (d : Datum) :
    AlikeAt loose sight (define name d) (define name d) := by
  rintro w rfl
  refine .value () ?_
  unfold Environment.define
  cases hi : w.env.inner with
  | nil => simp [World.sight, Environment.depth, hi]
  | cons scope rest => simp [World.sight, Environment.depth, hi]

/-! ## Evaluation -/

section Evaluation

variable {go go' : Datum → Eval Datum} (hgo : ∀ d, AlikeAt loose sight (go d) (go' d))
include hgo

theorem alike_each : ∀ forms, AlikeAt loose sight (each go forms) (each go' forms)
  | [] => .of_keeps (moves_pure _)
  | form :: rest => (hgo form).bind fun value => (alike_each rest).map (value :: ·)

theorem alike_entries : ∀ es, AlikeAt loose sight (entries go es) (entries go' es)
  | [] => .of_keeps (moves_pure _)
  | (key, form) :: rest => (hgo form).bind fun value => (alike_entries rest).map ((key, value) :: ·)

theorem alike_body :
    ∀ result forms, AlikeAt loose sight (body go result forms) (body go' result forms)
  | _, [] => .of_keeps (moves_pure _)
  | _, form :: rest => (hgo form).bind fun value => alike_body value rest

theorem alike_bindAll : ∀ names operands,
    AlikeAt loose sight (bindAll go names operands) (bindAll go' names operands)
  | [], _ => .of_keeps (moves_pure _)
  | _ :: _, [] => .of_keeps (moves_pure _)
  | name :: names, operand :: operands =>
    (hgo operand).bind fun value =>
      (alike_define name value).bind fun _ => alike_bindAll names operands

/-- The value of a form decides how to go on. -/
theorem alike_test (condition : Datum) {yes yes' no no' : Eval α}
    (hyes : AlikeAt loose sight yes yes') (hno : AlikeAt loose sight no no') :
    AlikeAt loose sight (do let value ← go condition; if ← ofExcept value.truthy then yes else no)
      (do let value ← go' condition; if ← ofExcept value.truthy then yes' else no') :=
  (hgo condition).bind fun _ => (AlikeAt.of_keeps (moves_ofExcept _)).bind fun _ => hyes.ite hno

theorem alike_allOf : ∀ forms, AlikeAt loose sight (allOf go forms) (allOf go' forms)
  | [] => .of_keeps (moves_pure _)
  | form :: rest => alike_test hgo form (alike_allOf rest) (.of_keeps (moves_pure _))

theorem alike_anyOf : ∀ forms, AlikeAt loose sight (anyOf go forms) (anyOf go' forms)
  | [] => .of_keeps (moves_pure _)
  | form :: rest => alike_test hgo form (.of_keeps (moves_pure _)) (alike_anyOf rest)

theorem alike_branch (condition yes : Datum) (no : Option Datum) :
    AlikeAt loose sight (branch go condition yes no) (branch go' condition yes no) := by
  cases no with
  | none => exact alike_test hgo condition (hgo yes) (.of_keeps (moves_pure _))
  | some form => exact alike_test hgo condition (hgo yes) (hgo form)

theorem alike_fresh (d : Datum) : AlikeAt False sight (fresh go d) (fresh go' d) :=
  (AlikeAt.of_keeps (keeps_settle d)).bind fun form => (hgo form).interpreted

theorem alike_source (text : String) : AlikeAt False sight (source go text) (source go' text) := by
  refine (alike_each (alike_fresh hgo) (read text).forms).bind fun values => ?_
  cases (read text).failure with
  | none => exact .of_keeps (moves_pure _)
  | some f => exact .of_keeps (moves_throw f)

theorem alike_reply (r : Reply) : AlikeAt False sight (reply go r) (reply go' r) := by
  induction r with
  | give d => exact .of_keeps (moves_pure d)
  | fail f => exact .of_keeps (moves_throw f)
  | say text next ih => exact (AlikeAt.of_keeps (keeps_say text)).bind fun _ => ih
  | consult next ih => exact (AlikeAt.of_keeps moves_consult).bind fun memory => ih memory
  | keep memory next ih => exact (AlikeAt.of_keeps (keeps_keep memory)).bind fun _ => ih
  | run text next ih => exact (alike_source hgo text).attempt.bind fun outcome => ih outcome

/-- A native is called at the level of the form that calls it, in no more scopes. -/
theorem alike_applyNative {natives natives' : Natives}
    (hn : ∀ p args, natives p sight args = natives' p sight args) (name : String)
    (procedure : Procedure) (operands : List Datum) :
    AlikeAt loose sight (applyNative natives go name procedure operands)
      (applyNative natives' go' name procedure operands) := by
  refine (alike_each hgo operands).bind fun args => ?_
  have replies : AlikeAt False sight (reply go (natives procedure sight args) >>= accepted)
      (reply go' (natives procedure sight args) >>= accepted) :=
    (alike_reply hgo _).bind fun _ => .of_keeps (moves_accepted _)
  have answers : AlikeAt loose sight
      (contained name (reply go (natives procedure sight args) >>= accepted) >>= mint)
      (contained name (reply go' (natives procedure sight args) >>= accepted) >>= mint) :=
    (replies.contained name).bind fun _ => .of_keeps (keeps_mint _)
  -- what the native sees is what the state shows at this point
  rintro w rfl
  have hends := answers w rfl
  nth_rewrite 2 [hn] at hends
  exact hends

variable (hframed : ∀ d, AlikeAt loose sight.framed (go d) (go' d))
include hframed

omit hgo in
theorem alike_applyFn (params : List String) (forms operands : List Datum) :
    AlikeAt loose sight (applyFn go params forms operands) (applyFn go' params forms operands) := by
  refine AlikeAt.ite ?_ (.of_keeps (moves_throw _))
  exact ((alike_bindAll hframed params operands).bind fun _ => alike_body hframed .nil forms).framed

variable {natives natives' : Natives} (hn : ∀ p args, natives p sight args = natives' p sight args)
include hn

theorem alike_apply (f : Datum) (operands : List Datum) :
    AlikeAt loose sight (apply natives go f operands) (apply natives' go' f operands) := by
  cases f with
  | native name procedure => exact alike_applyNative hgo hn name procedure operands
  | fn place params forms => exact alike_applyFn hframed params forms operands
  | _ => exact .of_keeps (moves_throw _)

omit hframed hn in
theorem alike_special (place : Nat) (s : SpecialForm) (operands : List Datum) :
    AlikeAt loose sight (special go place s operands) (special go' place s operands) := by
  unfold special
  split
  next => exact .of_keeps (moves_ofExcept _)
  next name form =>
    exact (hgo form).bind fun value => (AlikeAt.of_keeps (keeps_defineGlobal name value)).map
      fun _ => value
  next => exact .of_keeps (moves_throw _)
  next condition yes => exact alike_branch hgo condition yes none
  next condition yes no => exact alike_branch hgo condition yes (some no)
  next => exact .of_keeps (moves_throw _)
  next => exact .of_keeps (moves_throw _)
  next => exact .of_keeps (moves_throw _)
  next => exact (alike_allOf hgo _).map Datum.bool
  next => exact (alike_anyOf hgo _).map Datum.bool

theorem alike_call (place : Nat) (items : List Datum) :
    AlikeAt loose sight (call natives go place items) (call natives' go' place items) := by
  cases items with
  | nil => exact .of_keeps (moves_throw _)
  | cons head operands =>
    rw [call, call]
    split
    · exact alike_special hgo place _ operands
    · exact (hgo head).bind fun f => alike_apply hgo hframed hn f operands

/-- What a form does depends on the evaluation of its parts at the same level only, in the same
scopes or in one more, and on natives only as they are called from there. -/
theorem alike_form (d : Datum) : AlikeAt loose sight (form natives go d) (form natives' go' d) := by
  cases d with
  | symbol name => exact .of_keeps (moves_lookup name)
  | call place items => exact alike_call hgo hframed hn place items
  | listForm items => exact (alike_each hgo items).map Datum.list
  | mapForm es => exact (alike_entries hgo es).map fun values => Datum.map (Assoc.ofList values)
  | str | int | real | bool | nil => exact .of_keeps (moves_pure _)
  | _ => exact .of_keeps (moves_throw _)

end Evaluation

end Eval

/-! ## Under a limit -/

/-- Under a limit the levels run out before the rounds do. -/
theorem alike_rounds {limit : Int} {natives natives' : Natives} {rest rest' : Datum → Eval Datum}
    {Site Call : Sight → Prop}
    (hsite : ∀ s, Site s → s.level < limit →
      Call s.deeper ∧ Site s.deeper ∧ Site s.deeper.framed)
    (hn : ∀ p s args, Call s → natives p s args = natives' p s args)
    {n : Nat} {s : Sight} (hs : Site s) (hlimit : s.limit = some limit)
    (hroom : (limit - s.level).toNat < n) (d : Datum) :
    Eval.AlikeAt False s (rounds natives rest n d) (rounds natives' rest' n d) := by
  induction n generalizing s d with
  | zero => omega
  | succ n ih =>
    refine Eval.AlikeAt.nested fun hl => ?_
    have hlevel : s.level < limit := hl limit hlimit
    obtain ⟨hcall, hsame, hmore⟩ := hsite s hs hlevel
    have hroom' : (limit - (s.level + 1 : Nat)).toNat < n := by omega
    exact Eval.alike_form (fun d => ih hsame hlimit hroom' d) (fun d => ih hmore hlimit hroom' d)
      (fun p args => hn p _ args hcall) d

/-- Under a limit it does not matter what would be done with what is left over, since nothing is. -/
theorem alike_evaluate (natives : Natives) {limit : Int} {w : World} (hw : w.env.limit = some limit)
    (rest : Datum → Eval Datum) (d : Datum) :
    Eval.AlikeAt False w.sight (evaluate natives w.env.room d)
      (rounds natives rest w.env.room d) := by
  have hroom : (limit - w.sight.level).toNat < w.env.room := by
    rw [Environment.room_of_some hw]
    exact Nat.lt_succ_self _
  rw [evaluate_eq_rounds]
  exact @alike_rounds limit natives natives _ _ (fun _ => True) (fun _ => True)
    (fun _ _ _ => ⟨trivial, trivial, trivial⟩) (fun _ _ _ _ => rfl) _ _ trivial hw hroom d

theorem evalForm_eq_rounds (natives : Natives) {limit : Int} {w : World}
    (hw : w.env.limit = some limit) (rest : Datum → Eval Datum) (d : Datum) :
    evalForm natives d w = rounds natives rest w.env.room d w :=
  (alike_evaluate natives hw rest d w rfl).eq

/-- The evaluation of a form comes to an end: after some rounds there is nothing left to do, so that
it does not matter what would be done with it. -/
def Ends (natives : Natives) (d : Datum) (w : World) (r : EStateM.Result Fault World Datum) :
    Prop :=
  ∃ n, ∀ rest, rounds natives rest n d w = r

theorem ends_of_limit (natives : Natives) {limit : Int} {w : World} (hw : w.env.limit = some limit)
    (d : Datum) : Ends natives d w (evalForm natives d w) :=
  ⟨w.env.room, fun rest => (evalForm_eq_rounds natives hw rest d).symm⟩

/-! ## For an interpreter -/

/-- Evaluates a form down to `n` levels, and reports what is nested deeper. -/
abbrev reportedRounds (natives : Natives) : Nat → Datum → Eval Datum :=
  rounds natives fun _ => throw .noRoom

theorem alike_reportedRounds (natives : Natives) (n : Nat) (s : Sight) (d : Datum) :
    Eval.AlikeAt True s (evaluate natives n d) (reportedRounds natives n d) := by
  induction n generalizing s d with
  | zero => exact fun _ hw => .spent trivial hw
  | succ n ih => exact .nested fun _ => Eval.alike_form (ih _) (ih _) (fun _ _ => rfl) d

/-- An interpreter does not tell a spent stack from a fault of the program. -/
theorem interpret_eq_rounds (natives : Natives) (d : Datum) (w : World) :
    interpret natives d w = Eval.interpreted (reportedRounds natives w.env.room d) w :=
  ((alike_reportedRounds natives w.env.room w.sight d).interpreted w rfl).eq

theorem evalSource_eq_rounds (natives : Natives) (text : String) (w : World) :
    evalSource natives text w = Eval.source (reportedRounds natives w.env.room) text w :=
  (Eval.alike_source (alike_reportedRounds natives w.env.room w.sight) text w rfl).eq

/-! ## Without a limit -/

theorem Eval.framed_eq_error {α : Type} {act : Eval α} {w u : World} {f : Fault}
    (h : act { w with env := w.env.enter } = .error f u) :
    framed act w = .error f { u with env := u.env.leave } := by
  simp only [framed, h]

theorem Environment.descend_of_unlimited {e : Environment} (h : e.limit = none) :
    e.descend = .ok { e with level := e.level + 1 } := by
  simp only [Environment.descend, h]

theorem rounds_symbol_of_unlimited (natives : Natives) (rest : Datum → Eval Datum) (n : Nat)
    {name : String} {d : Datum} {w : World} (hl : w.env.limit = none)
    (hd : w.env.lookup name = .ok d) :
    rounds natives rest (n + 1) (.symbol name) w = .ok d w := by
  have lookup : Eval.form natives (rounds natives rest n) (.symbol name) w.deeper =
      .ok d w.deeper := by
    change Eval.ofExcept (w.env.lookup name) w.deeper = _
    rw [hd]
    rfl
  exact Eval.nested_eq_ok (Environment.descend_of_unlimited hl) lookup

/-- A call that leads to itself goes through any number of levels. -/
theorem rounds_self_call (natives : Natives) {name : String} {place origin : Nat}
    (hname : (Datum.symbol name).special? = none) (f : Fault) (n : Nat) {w : World}
    (hl : w.env.limit = none)
    (hf : w.env.lookup name = .ok (.fn origin [] [.call place [.symbol name]])) :
    ∃ u, rounds natives (fun _ => throw f) n (.call place [.symbol name]) w = .error f u := by
  induction n generalizing w with
  | zero => exact ⟨w, rfl⟩
  | succ n ih =>
    let go := rounds natives (fun _ => throw f) n
    have call : ∃ u, Eval.form natives go (.call place [.symbol name]) w.deeper = .error f u := by
      rw [Eval.form, Eval.call, hname]
      cases n with
      | zero => exact ⟨w.deeper, rfl⟩
      | succ m =>
        -- the name means the function, and the function runs the call in a scope of its own
        let inside : World := { w.deeper with env := w.deeper.env.enter }
        obtain ⟨u, hu⟩ : ∃ u, go (.call place [.symbol name]) inside = .error f u := ih hl hf
        have head : go (.symbol name) w.deeper =
            .ok (.fn origin [] [.call place [.symbol name]]) w.deeper :=
          rounds_symbol_of_unlimited natives _ m hl hf
        refine ⟨{ u with env := u.env.leave }, ?_⟩
        simp only
        rw [Eval.bind_apply, head]
        refine Eval.framed_eq_error ?_
        change (go (.call place [.symbol name]) >>= fun value => Eval.body go value []) inside = _
        rw [Eval.bind_apply, hu]
    obtain ⟨u, hu⟩ := call
    exact ⟨_, Eval.nested_eq_error (Environment.descend_of_unlimited hl) hu⟩

/-- A call that leads to itself does not end unless a limit ends it. -/
theorem not_ends_of_unlimited (natives : Natives) {name : String} {place origin : Nat}
    (hname : (Datum.symbol name).special? = none) {w : World} (hl : w.env.limit = none)
    (hf : w.env.lookup name = .ok (.fn origin [] [.call place [.symbol name]]))
    (r : EStateM.Result Fault World Datum) : ¬ Ends natives (.call place [.symbol name]) w r := by
  rintro ⟨n, hn⟩
  obtain ⟨u, hu⟩ := rounds_self_call natives hname .noRoom n hl hf
  obtain ⟨u', hu'⟩ := rounds_self_call natives hname .noElement n hl hf
  rw [hn] at hu hu'
  rw [hu] at hu'
  cases hu'

/-! ## Where natives are called -/

/-- At least one level of evaluation, no more levels than the limit allows, and no more scopes than
levels. -/
def Sight.Within (limit : Int) (s : Sight) : Prop :=
  1 ≤ s.level ∧ s.level ≤ limit ∧ s.depth ≤ s.level

instance (limit : Int) (s : Sight) : Decidable (s.Within limit) :=
  inferInstanceAs (Decidable (_ ∧ _ ∧ _))

/-- Natives that are watched: one that is called outside the bounds raises an alarm instead. -/
def Natives.watched (limit : Int) (natives alarm : Natives) : Natives := fun p sight args =>
  if sight.Within limit then natives p sight args else alarm p sight args

theorem alike_watched (limit : Int) (natives alarm : Natives) {room : Nat} {s : Sight}
    (hs : s.depth ≤ s.level + 1) (hlimit : s.limit = some limit)
    (hroom : (limit - s.level).toNat < room) (d : Datum) :
    Eval.AlikeAt False s (evaluate (Natives.watched limit natives alarm) room d)
      (evaluate natives room d) := by
  rw [evaluate_eq_rounds, evaluate_eq_rounds]
  refine @alike_rounds limit _ _ _ _ (fun s => s.depth ≤ s.level + 1)
    (Sight.Within limit) ?_ ?_ _ _ hs
    hlimit hroom d
  · intro s hs hl
    refine ⟨⟨?_, ?_, ?_⟩, ?_, ?_⟩ <;> simp only [Sight.deeper, Sight.framed] <;> omega
  · intro p s args hs
    exact if_pos hs

/-- Under a limit every evaluation ends.  Started where only the global scope is open and nothing is
under way, it calls natives only within the bounds of the limit: an alarm would never be raised,
whatever it did. -/
theorem evaluation_ends_within_limit (natives : Natives) {limit : Int} {w : World}
    (hw : w.env.limit = some limit) :
    (∀ d, Ends natives d w (evalForm natives d w)) ∧
    (w.env.depth = 1 → w.env.level = 0 → ∀ alarm,
      (∀ d, evalForm (Natives.watched limit natives alarm) d w = evalForm natives d w) ∧
      ∀ text, evalSource (Natives.watched limit natives alarm) text w =
        evalSource natives text w) := by
  refine ⟨ends_of_limit natives hw, fun hdepth hlevel alarm => ?_⟩
  have hsight : w.sight.depth ≤ w.sight.level + 1 := by
    simp only [World.sight]
    omega
  have hroom : (limit - w.sight.level).toNat < w.env.room := by
    rw [Environment.room_of_some hw]
    exact Nat.lt_succ_self _
  have halike := alike_watched limit natives alarm hsight hw hroom
  exact ⟨fun d => (halike d w rfl).eq, fun text => (Eval.alike_source halike text w rfl).eq⟩

/-- A native that runs itself again, one that counts its calls, and a function that calls itself. -/
def restless : World :=
  ⟨⟨[], [("again", .native "again" (.hosted 0)), ("count", .native "count" (.hosted 1)),
    ("f", .fn 0 [] [.call 1 [.symbol "count"], .call 2 [.symbol "f"]])], some 20, 0⟩, "", 3, .nil⟩

theorem evaluation_ends_within_limit_again :
    restless.env.limit = some 20 ∧ restless.env.depth = 1 ∧ restless.env.level = 0 ∧
    Ends (Session.nativesOf [Stock.script "(again)", Stock.counter])
      (.call 2 [.symbol "f"]) restless
      (evalForm (Session.nativesOf [Stock.script "(again)", Stock.counter]) (.call 2 [.symbol "f"])
        restless) ∧
    ∀ alarm,
      evalSource
        (Natives.watched 20 (Session.nativesOf [Stock.script "(again)", Stock.counter]) alarm)
        "(again) (f)" restless =
      evalSource (Session.nativesOf [Stock.script "(again)", Stock.counter])
        "(again) (f)" restless :=
  ⟨rfl, rfl, rfl, (evaluation_ends_within_limit _ rfl).1 _, fun alarm =>
    ((evaluation_ends_within_limit _ rfl).2 rfl rfl alarm).2 _⟩

end DynLisp
