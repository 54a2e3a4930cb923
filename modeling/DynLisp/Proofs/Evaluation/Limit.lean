import DynLisp.Proofs.Evaluation.Termination

/-!
# Raising the limit on levels

A session that may go deeper does the same as before, except where it would have met its limit.  Two
evaluations that differ only in their limits run side by side until the first meets its limit; up to
there they have written the same, and the second goes on from there.

Natives could tell the two apart: one can look the limit up, and one that runs source text can catch
the fault.  `IgnoresLimit` and `Forwards` ask that they do neither; without them the statement
fails, as the last section shows.
-/

namespace DynLisp

/-- The procedure does not look the limit on levels up. -/
def HostProcedure.IgnoresLimit (p : HostProcedure) : Prop :=
  ∀ (sight : Sight) limit args, p { sight with limit := limit } args = p sight args

/-- A fault of the limit on levels, met in a source text that the native runs, ends the native
too. -/
def Reply.Forwards : Reply → Prop
  | .give _ => True
  | .fail _ => True
  | .say _ next => next.Forwards
  | .consult next => ∀ memory, (next memory).Forwards
  | .keep _ next => next.Forwards
  | .run _ next =>
    (∀ outcome, (next outcome).Forwards) ∧
    ∀ f : Fault, f.kind = .depth → next (.error f) = .fail f

/-- The procedure passes on faults of the limit on levels, whatever it is called with. -/
def HostProcedure.Forwards (p : HostProcedure) : Prop :=
  ∀ sight args, (p sight args).Forwards

theorem Reply.Gives.forwards {P : Datum → Prop} {r : Reply} (h : r.Gives P) : r.Forwards := by
  induction r with
  | give d => trivial
  | fail f => trivial
  | say text next ih => exact ih h
  | consult next ih => exact fun memory => ih memory (h memory)
  | keep memory next ih => exact ih h
  | run text next ih => exact h.elim

theorem Session.ignoresLimit_natives {s : Session}
    (hs : ∀ p ∈ s.hosted, HostProcedure.IgnoresLimit p) (procedure : Procedure) :
    HostProcedure.IgnoresLimit (s.natives procedure) :=
  nativesOf_induction (fun _ _ _ _ => rfl) hs (fun _ _ _ => rfl) procedure

theorem Session.forwards_natives {s : Session} (hs : ∀ p ∈ s.hosted, HostProcedure.Forwards p)
    (procedure : Procedure) : HostProcedure.Forwards (s.natives procedure) :=
  nativesOf_induction (fun b _ args => (b.gives_reply args).forwards) hs
    (fun _ _ => trivial) procedure

theorem Stock.forwards_script (source : String) : HostProcedure.Forwards (Stock.script source) := by
  refine fun _ _ => ⟨fun outcome => ?_, fun f _ => rfl⟩
  cases outcome with
  | error f => trivial
  | ok values =>
    simp only [Stock.last]
    split <;> trivial

/-- All forms, all values and all faults. -/
def Discipline.any : Discipline where
  code _ := True
  value _ := True
  target _ := True
  fault _ := True
  raised _ := True
  code_call _ _ := trivial
  code_listForm _ _ := trivial
  code_mapForm _ _ := trivial
  code_settle _ _ := trivial
  code_body _ _ := trivial
  target_define _ := trivial
  value_literal _ _ := trivial
  value_bool _ := trivial
  value_nil := trivial
  value_list _ := trivial
  value_map _ := trivial
  value_fn _ _ _ := trivial
  value_real _ _ := trivial
  fault_program _ _ := trivial
  fault_notValue _ _ := trivial
  fault_within _ _ := trivial
  fault_reported _ := trivial
  raised_of_fault _ := trivial
  raised_of_isSpoken _ := trivial

theorem Reply.Forwards.fits {r : Reply} (h : r.Forwards) : r.Fits .any True := by
  induction r with
  | give d => exact fun _ _ => trivial
  | fail f => trivial
  | say text next ih => exact ih h
  | consult next ih => exact fun memory => ih memory (h memory)
  | keep memory next ih => exact ih h
  | run text next ih =>
    exact ⟨fun _ _ => trivial, fun values _ => ih _ (h.1 _), fun f _ => ih _ (h.1 _), fun _ => h.2⟩

/-- The state under another limit. -/
def World.withLimit (w : World) (limit : Int) : World :=
  { w with env := { w.env with limit := some limit } }

theorem Environment.define_limit (e : Environment) (name : String) (d : Datum)
    (limit : Option Int) :
    { e with limit := limit }.define name d = { e.define name d with limit := limit } := by
  unfold Environment.define
  cases e.inner <;> rfl

theorem Environment.descend_eq_ok {e : Environment} {limit : Int} (h : e.limit = some limit)
    (hl : e.level < limit) : e.descend = .ok { e with level := e.level + 1 } := by
  simp only [Environment.descend, h]
  exact if_neg (Int.not_le.mpr hl)

theorem Environment.descend_eq_error {e : Environment} {limit : Int} (h : e.limit = some limit)
    (hl : limit ≤ e.level) : e.descend = .error (.tooDeep limit) := by
  simp only [Environment.descend, h]
  exact if_pos hl

/-- A state under a limit goes with the same state under a higher one. -/
def Coupling.raised (natives : Natives) (hi : ∀ p, HostProcedure.IgnoresLimit (natives p))
    (hn : ∀ p, HostProcedure.Forwards (natives p)) {low high : Int} (h : low ≤ high) :
    Coupling .any where
  natives := natives
  natives' := natives
  rel w w' := w.env.limit = some low ∧ w' = w.withLimit high
  ahead := True
  lookup := by
    rintro w _ name ⟨-, rfl⟩ -
    exact ⟨rfl, fun _ _ => trivial⟩
  defineGlobal := by
    rintro w _ name d ⟨hl, rfl⟩ - -
    exact ⟨hl, rfl⟩
  enter := by
    rintro w _ ⟨hl, rfl⟩
    exact ⟨hl, rfl⟩
  define := by
    rintro w _ name d ⟨hl, rfl⟩ - - -
    refine ⟨?_, ?_⟩
    · change (w.env.define name d).limit = some low
      rw [show w.env = { w.env with limit := some low } by rw [← hl], w.env.define_limit]
    · change ({ w with env := { w.env with limit := some high }.define name d } : World) = _
      rw [w.env.define_limit]
      rfl
  leave := by
    rintro w _ u _ - ⟨hl, rfl⟩ - -
    exact ⟨hl, rfl⟩
  descend := by
    rintro w _ ⟨hl, rfl⟩
    by_cases hd : low ≤ w.env.level
    · exact .inr (.inr ⟨trivial, _, Environment.descend_eq_error hl hd⟩)
    · have hlow : w.env.level < low := Int.not_le.mp hd
      exact .inr (.inl ⟨_, _, Environment.descend_eq_ok hl hlow,
        Environment.descend_eq_ok rfl (Int.lt_of_lt_of_le hlow h), hl, rfl⟩)
  ascend := by
    rintro w _ u _ _ _ - ⟨hl, rfl⟩ - - - -
    exact ⟨hl, rfl⟩
  say := by
    rintro w _ text ⟨hl, rfl⟩
    exact ⟨hl, rfl⟩
  keep := by
    rintro w _ memory ⟨hl, rfl⟩
    exact ⟨hl, rfl⟩
  next := by
    rintro w _ next ⟨hl, rfl⟩
    exact ⟨hl, rfl⟩
  next_eq := by
    rintro w _ ⟨-, rfl⟩
    rfl
  written_eq := by
    rintro w _ ⟨-, rfl⟩
    rfl
  host_eq := by
    rintro w _ ⟨-, rfl⟩
    rfl
  reply := by
    rintro w _ procedure args ⟨-, rfl⟩ -
    exact ⟨(hi procedure w.sight (some high) args).symm, (hn _ _ _).fits⟩

theorem World.room_le_room {w : World} {low high : Int} (hw : w.env.limit = some low)
    (h : low ≤ high) : w.env.room ≤ (w.withLimit high).env.room := by
  rw [Environment.room_of_some hw, Environment.room_of_some (e := (w.withLimit high).env) rfl]
  change _ ≤ (high - w.env.level).toNat + 1
  omega

namespace Session

/-- The session under another limit. -/
def withLimit (s : Session) (limit : Int) : Session := { s with world := s.world.withLimit limit }

/-- Has the action met the limit on levels? -/
def Outcome.MeetsLimit {α : Type} (o : Outcome α) : Prop :=
  ∃ f, o.result = .error f ∧ f.kind = .depth

/-- The outcome of an action under a limit, and that of the same action under the limit `high`.
They are alike; only where the first has met its limit, all that is known of the second is that it
has written as much. -/
structure Outcome.Raised {α : Type} (high : Int) (o o' : Outcome α) : Prop where
  result : ¬ o.MeetsLimit → o'.result = o.result
  written : ¬ o.MeetsLimit → o'.written = o.written
  session : ¬ o.MeetsLimit → o'.session = o.session.withLimit high
  writes : o.MeetsLimit → ∃ more, o'.written = o.written ++ more

theorem raised_run (s : Session) {α : Type} {Q : α → Prop} {E : Fault → Prop} {low high : Int}
    (h : low ≤ high) (hi : ∀ p, HostProcedure.IgnoresLimit (s.natives p))
    (hn : ∀ p, HostProcedure.Forwards (s.natives p)) {act : Natives → Eval α}
    (hact : Eval.Couples (.raised s.natives hi hn h) Q E (act s.natives) (act s.natives)) :
    ((s.withLimit low).run act).Raised high ((s.withLimit high).run act) := by
  have hw := hact { s.world.withLimit low with written := "" }
    { s.world.withLimit high with written := "" } ⟨rfl, rfl⟩
  rw [run_eq_ended, run_eq_ended]
  change Outcome.Raised high (ended _ (act s.natives { s.world.withLimit low with written := "" }))
    (ended _ (act s.natives { s.world.withLimit high with written := "" }))
  generalize act s.natives { s.world.withLimit low with written := "" } = r,
    act s.natives { s.world.withLimit high with written := "" } = r' at hw
  cases hw with
  | @value a u u' ha hu =>
    obtain ⟨-, rfl⟩ := hu
    exact ⟨fun _ => rfl, fun _ => rfl, fun _ => rfl,
      fun _ => ⟨"", by simp [ended, World.withLimit]⟩⟩
  | @fault f u u' hf hu =>
    obtain ⟨-, rfl⟩ := hu
    exact ⟨fun _ => rfl, fun _ => rfl, fun _ => rfl,
      fun _ => ⟨"", by simp [ended, World.withLimit]⟩⟩
  | @ahead f u r hK hf hu =>
    -- only the first run has met its limit, so nothing but the writing is to be compared
    have meets : (ended (s.withLimit low) (.error f u : EStateM.Result Fault World α)).MeetsLimit :=
      ⟨f, rfl, hf⟩
    have written : (ended (s.withLimit high) r').written = (Eval.stateOf r').written := by
      cases r' <;> rfl
    refine ⟨fun h => absurd meets h, fun h => absurd meets h, fun h => absurd meets h, fun _ => ?_⟩
    rw [written]
    exact hu

end Session

/-- If natives do not look the limit up and pass its fault on, a session under a higher limit comes
to the same results, writes the same and ends in the same state, unless it would have met the lower
limit; what it had written up to there it writes in any case. -/
theorem evaluation_raised_of_le (s : Session)
    (hs : ∀ p ∈ s.hosted, HostProcedure.IgnoresLimit p ∧ HostProcedure.Forwards p)
    {low high : Int} (h : low ≤ high) :
    (∀ text, ((s.withLimit low).evalSource text).Raised high ((s.withLimit high).evalSource text)) ∧
    (∀ form, ((s.withLimit low).evalForm form).Raised high ((s.withLimit high).evalForm form)) := by
  have hi := Session.ignoresLimit_natives fun p hp => (hs p hp).1
  have hn := Session.forwards_natives fun p hp => (hs p hp).2
  -- the state at the start decides how much room each of the two runs is given
  have steps : ∀ w : World, w.env.limit = some low →
      Eval.Steps (.raised s.natives hi hn h) (reportedRounds s.natives w.env.room)
        (reportedRounds s.natives (w.withLimit high).env.room) := fun w hw =>
    steps_rounds (.raised s.natives hi hn h) trivial (fun _ => rfl)
      (.inr ⟨trivial, World.room_le_room hw h⟩)
  constructor
  · intro text
    refine s.raised_run (Q := fun _ => True) (E := fun _ => True) h hi hn ?_
    rintro w _ ⟨hw, rfl⟩
    have hsource := Eval.couples_source (steps w hw) text fun _ _ => trivial
    rw [evalSource_eq_rounds, evalSource_eq_rounds]
    exact hsource.weaken (fun _ _ => trivial) (fun _ _ => trivial) _ _ ⟨hw, rfl⟩
  · intro form
    refine s.raised_run (Q := fun _ => True) (E := fun _ => True) h hi hn ?_
    rintro w _ ⟨hw, rfl⟩
    have hform := (steps w hw).couples form trivial
    rw [interpret_eq_rounds, interpret_eq_rounds]
    exact hform.mapFault (fun _ _ => trivial) (fun _ => Fault.reported_of_depth) _ _ ⟨hw, rfl⟩

/-- A native that runs itself again meets every limit, and writes more under a higher one. -/
theorem evaluation_raised_again :
    (∀ p ∈ (Session.equipped 3 [("again", Stock.script "(echo 1) (again)")]).hosted,
      HostProcedure.IgnoresLimit p ∧ HostProcedure.Forwards p) ∧
    (3 : Int) ≤ 50 ∧
    (((Session.equipped 3 [("again", Stock.script "(echo 1) (again)")]).withLimit 3).evalSource
      "(again)").Raised 50
      (((Session.equipped 3 [("again", Stock.script "(echo 1) (again)")]).withLimit 50).evalSource
        "(again)") := by
  have hs : ∀ p ∈ (Session.equipped 3 [("again", Stock.script "(echo 1) (again)")]).hosted,
      HostProcedure.IgnoresLimit p ∧ HostProcedure.Forwards p := by
    intro p hp
    obtain rfl | rfl | rfl : p = Stock.count ∨ p = Stock.list ∨
        p = Stock.script "(echo 1) (again)" := by
      simpa [Session.equipped, Session.register, Session.start, Session.ofEnvironment,
        Session.stock, Session.bindNative, Session.withEnvironment] using hp
    · exact ⟨fun _ _ _ => rfl, fun _ _ => trivial⟩
    · exact ⟨fun _ _ _ => rfl, fun _ _ => trivial⟩
    · exact ⟨fun _ _ _ => rfl, Stock.forwards_script _⟩
  exact ⟨hs, by decide, (evaluation_raised_of_le _ hs (by decide)).1 _⟩

/-! ## Natives that can tell -/

/-- A session with a native that catches the fault of the limit, and with one that looks the limit
up. -/
def telling : Session :=
  Session.equipped 3 [("probe", Stock.rescue "(+ 1 (+ 1 (+ 1 1)))" (.str "too deep")),
    ("limit", Stock.limit)]

/-- Does the action come to a result that passes a test? -/
def Session.Outcome.comesTo {α : Type} (o : Outcome α) (test : α → Bool) : Bool :=
  match o.result with
  | .ok a => test a
  | .error _ => false

theorem Session.Outcome.not_raised {α : Type} {high : Int} {o o' : Outcome α} {test : α → Bool}
    (ho : o.comesTo test = true) (ho' : o'.comesTo test = false) : ¬ o.Raised high o' := by
  intro h
  have hends : ¬ o.MeetsLimit := by
    rintro ⟨f, hf, -⟩
    simp [comesTo, hf] at ho
  rw [comesTo, h.result hends] at ho'
  rw [comesTo, ho'] at ho
  cases ho

/-- Under either limit the two natives come to values, and those are not the same. -/
theorem evaluation_told_by_natives :
    ((telling.withLimit 3).evalSource "(probe)").comesTo (· matches [.str "too deep"]) = true ∧
    ((telling.withLimit 50).evalSource "(probe)").comesTo (· matches [.int 4]) = true ∧
    ¬ ((telling.withLimit 3).evalSource "(probe)").Raised 50
      ((telling.withLimit 50).evalSource "(probe)") ∧
    ((telling.withLimit 3).evalSource "(limit)").comesTo (· matches [.int 3]) = true ∧
    ((telling.withLimit 50).evalSource "(limit)").comesTo (· matches [.int 50]) = true ∧
    ¬ ((telling.withLimit 3).evalSource "(limit)").Raised 50
      ((telling.withLimit 50).evalSource "(limit)") := by
  have caught : ((telling.withLimit 3).evalSource "(probe)").comesTo
      (· matches [.str "too deep"]) = true := by
    decide +kernel
  have shown :
      ((telling.withLimit 3).evalSource "(limit)").comesTo (· matches [.int 3]) = true := by
    decide +kernel
  refine ⟨caught, by decide +kernel, Session.Outcome.not_raised caught (by decide +kernel), shown,
    by decide +kernel, Session.Outcome.not_raised shown (by decide +kernel)⟩

end DynLisp
