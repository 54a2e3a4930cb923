import DynLisp.Environment.Command
import DynLisp.Proofs.Evaluation.Balance

/-!
# Brackets of an environment

Some operations of an environment come in pairs: entering and leaving a scope, and opening and
closing a block.  Where they are properly nested, what stands between two brackets of a scope
changes nothing outside it but the global scope, and that only as it was told to
(`environment_brackets`).

An operation may fail, and those that follow are run all the same.  A failed look-up changes
nothing, and a level that is refused opens nothing; whether a level is refused depends on the run,
so proper nesting is a property of the log of a run.
-/

namespace DynLisp

namespace Environment

/-! ## Runs -/

namespace Bench

/-- The state that comes with a result or a fault. -/
def stateOf {α : Type} : EStateM.Result Fault Bench α → Bench
  | .ok _ b => b
  | .error _ b => b

/-- The state after an operation, whether or not it fails. -/
def next (b : Bench) (c : Command) : Bench := stateOf (c.run b)

/-- The answer of an operation, or its fault. -/
def outcome (b : Bench) (c : Command) : Except Fault Answer :=
  match c.run b with
  | .ok a _ => .ok a
  | .error f _ => .error f

/-- The state after operations, whichever of them fail. -/
def after (b : Bench) (cs : List Command) : Bench := cs.foldl next b

end Bench

/-- An operation that was run, with what came of it. -/
structure Event where
  command : Command
  outcome : Except Fault Answer

/-- All operations of a run with what came of them. -/
def Bench.log : Bench → List Command → List Event
  | _, [] => []
  | b, c :: cs => ⟨c, b.outcome c⟩ :: (b.next c).log cs

/-! ## Proper nesting -/

/-- What is opened and closed again. -/
inductive Bracket where
  | scope
  | block
deriving DecidableEq, Repr

namespace Event

/-- What an operation has opened.  A level that is refused is not open. -/
def opens (e : Event) : Option Bracket :=
  match e.command, e.outcome with
  | .enter, _ => some .scope
  | .openFrame, _ => some .block
  | .openLevel, .ok _ => some .block
  | _, _ => none

/-- What an operation is meant to close. -/
def closes (e : Event) : Option Bracket :=
  match e.command with
  | .exit => some .scope
  | .close => some .block
  | .abort => some .block
  | _ => none

theorem opens_of_closes {e : Event} {k : Bracket} (h : e.closes = some k) : e.opens = none := by
  obtain ⟨command, outcome⟩ := e
  cases command with
  | exit | close | abort => rfl
  | _ => cases h

end Event

/-- Everything that is opened is closed again, in the reverse order. -/
inductive Nested : List Event → Prop where
  | nil : Nested []
  | plain {e : Event} {es : List Event} (ho : e.opens = none) (hc : e.closes = none)
      (h : Nested es) : Nested (e :: es)
  | pair {o c : Event} {body es : List Event} {k : Bracket} (ho : o.opens = some k)
      (hc : c.closes = some k)
    (hbody : Nested body) (h : Nested es) : Nested (o :: (body ++ c :: es))

/-- The binding that an operation makes in the global scope, wherever it is run. -/
def Command.global? : Command → Option (String × Datum)
  | .defineGlobal name value => some (name, value)
  | _ => none

/-- A global scope after the bindings that operations make there, one after another. -/
def globalsAfter (globals : Scope) (cs : List Command) : Scope :=
  (cs.filterMap Command.global?).foldl (fun m e => Assoc.insert m e.1 e.2) globals

theorem globalsAfter_append (globals : Scope) (cs ds : List Command) :
    globalsAfter globals (cs ++ ds) = globalsAfter (globalsAfter globals cs) ds := by
  rw [globalsAfter, List.filterMap_append, List.foldl_append]
  rfl

theorem globalsAfter_cons {c : Command} (h : c.global? = none) (globals : Scope)
    (cs : List Command) : globalsAfter globals (c :: cs) = globalsAfter globals cs := by
  rw [globalsAfter, List.filterMap_cons_none h]
  rfl

/-- Brackets bind nothing globally. -/
theorem Event.global?_of_opens {e : Event} {k : Bracket} (h : e.opens = some k) :
    e.command.global? = none := by
  obtain ⟨command, outcome⟩ := e
  cases command with
  | defineGlobal name value => cases h
  | _ => rfl

theorem Event.global?_of_closes {e : Event} {k : Bracket} (h : e.closes = some k) :
    e.command.global? = none := by
  obtain ⟨command, outcome⟩ := e
  cases command with
  | defineGlobal name value => cases h
  | _ => rfl

namespace Bench

theorem after_append (b : Bench) (cs ds : List Command) :
    b.after (cs ++ ds) = (b.after cs).after ds :=
  List.foldl_append

/-- A log that falls into two parts is that of two runs, one after the other. -/
theorem exists_of_log_eq_append {b : Bench} {cs : List Command} {es fs : List Event}
    (h : b.log cs = es ++ fs) :
    ∃ first second, cs = first ++ second ∧ b.log first = es ∧ (b.after first).log second = fs := by
  induction es generalizing b cs with
  | nil => exact ⟨[], cs, rfl, rfl, h⟩
  | cons e es ih =>
    cases cs with
    | nil => cases h
    | cons c cs =>
      obtain ⟨rfl, htail⟩ := List.cons.inj h
      obtain ⟨first, second, rfl, hfirst, hsecond⟩ := ih htail
      exact ⟨c :: first, second, rfl, congrArg (_ :: ·) hfirst, hsecond⟩

end Bench

/-! ## What an operation does -/

/-- What an operation comes to, and the state it leaves. -/
inductive Effect (b : Bench) : Event → Bench → Prop where
  | enter : Effect b ⟨.enter, .ok .done⟩ ⟨b.env.enter, b.blocks⟩
  | exit (h : b.env.inner ≠ []) : Effect b ⟨.exit, .ok .done⟩ ⟨b.env.leave, b.blocks⟩
  | globalExit (h : b.env.inner = []) : Effect b ⟨.exit, .error .globalExit⟩ b
  | define (name : String) (value : Datum) :
    Effect b ⟨.define name value, .ok .done⟩ ⟨b.env.define name value, b.blocks⟩
  | defineGlobal (name : String) (value : Datum) :
    Effect b ⟨.defineGlobal name value, .ok .done⟩ ⟨b.env.defineGlobal name value, b.blocks⟩
  | lookup (name : String) : Effect b ⟨.lookup name, (b.env.lookup name).map .value⟩ b
  | contains (name : String) : Effect b ⟨.contains name, .ok (.truth (b.env.contains name))⟩ b
  | openLevel (h : ∀ limit, b.env.limit = some limit → b.env.level < limit) :
    Effect b ⟨.openLevel, .ok (.count (b.env.level + 1))⟩
      ⟨{ b.env with level := b.env.level + 1 }, .level :: b.blocks⟩
  | refused {limit : Int} (hl : b.env.limit = some limit) (h : limit ≤ b.env.level) :
    Effect b ⟨.openLevel, .error (.tooDeep limit)⟩ b
  | openFrame : Effect b ⟨.openFrame, .ok (.count 0)⟩ ⟨b.env.enter, .frame :: b.blocks⟩
  | endLevel {e : Event} {rest : List Block} (he : e.closes = some .block)
      (h : b.blocks = .level :: rest) :
    Effect b e ⟨b.env.ascend, rest⟩
  | endFrame {e : Event} {rest : List Block} (he : e.closes = some .block)
      (h : b.blocks = .frame :: rest)
    (hi : b.env.inner ≠ []) : Effect b e ⟨b.env.leave, rest⟩
  /-- The scope of the frame has been left already, and it was the last one above the global
  scope. -/
  | lostFrame {e : Event} {rest : List Block} (he : e.closes = some .block)
      (h : b.blocks = .frame :: rest)
    (hi : b.env.inner = []) : Effect b e ⟨b.env, rest⟩
  | noBlock {e : Event} (he : e.closes = some .block) (h : b.blocks = []) : Effect b e b

theorem exit_of_ne {e : Environment} (h : e.inner ≠ []) : e.exit = .ok e.leave := by
  rw [Environment.exit, if_neg]
  rwa [List.isEmpty_iff]

theorem exit_of_nil {e : Environment} (h : e.inner = []) : e.exit = .error .globalExit := by
  rw [Environment.exit, if_pos]
  rw [h, List.isEmpty_nil]

namespace Bench

theorem next_exit {b : Bench} (h : b.env.inner ≠ []) : b.next .exit = ⟨b.env.leave, b.blocks⟩ := by
  simp only [next, Command.run, exit_of_ne h]
  rfl

/-- An operation that closes a block leaves the state in which the block has ended, whatever it
answers then. -/
theorem next_of_closes (b : Bench) {c : Command} {outcome : Except Fault Answer}
    (h : Event.closes ⟨c, outcome⟩ = some .block) : b.next c = stateOf (endBlock b) := by
  have answered (a : Answer) :
      stateOf ((endBlock >>= fun _ => pure a) b) = stateOf (endBlock b) := by
    simp only [bind, EStateM.bind]
    cases endBlock b <;> rfl
  cases c with
  | close => exact answered .done
  | abort => exact answered (.truth false)
  | _ => cases h

theorem endBlock_level {b : Bench} {rest : List Block} (h : b.blocks = .level :: rest) :
    stateOf (endBlock b) = ⟨b.env.ascend, rest⟩ := by
  simp only [endBlock, h]
  rfl

theorem endBlock_frame {b : Bench} {rest : List Block} (h : b.blocks = .frame :: rest)
    (hi : b.env.inner ≠ []) : stateOf (endBlock b) = ⟨b.env.leave, rest⟩ := by
  simp only [endBlock, h, exit_of_ne hi]
  rfl

theorem effect_endBlock (b : Bench) {e : Event} (he : e.closes = some .block) :
    Effect b e (stateOf (endBlock b)) := by
  cases hb : b.blocks with
  | nil =>
    simp only [endBlock, hb]
    exact .noBlock he hb
  | cons block rest =>
    cases block with
    | level =>
      rw [endBlock_level hb]
      exact .endLevel he hb
    | frame =>
      by_cases hi : b.env.inner = []
      · simp only [endBlock, hb, exit_of_nil hi]
        exact .lostFrame he hb hi
      · rw [endBlock_frame hb hi]
        exact .endFrame he hb hi

theorem outcome_lookup (b : Bench) (name : String) :
    b.outcome (.lookup name) = (b.env.lookup name).map .value := by
  simp only [outcome, Command.run]
  cases b.env.lookup name <;> rfl

theorem effect (b : Bench) (c : Command) : Effect b ⟨c, b.outcome c⟩ (b.next c) := by
  cases c with
  | enter => exact .enter
  | exit =>
    by_cases hi : b.env.inner = []
    · simp only [outcome, next, Command.run, exit_of_nil hi]
      exact .globalExit hi
    · simp only [outcome, next, Command.run, exit_of_ne hi]
      exact .exit hi
  | define name value => exact .define name value
  | defineGlobal name value => exact .defineGlobal name value
  | lookup name =>
    have hnext : b.next (.lookup name) = b := by
      simp only [next, Command.run]
      cases b.env.lookup name <;> rfl
    rw [outcome_lookup, hnext]
    exact .lookup name
  | contains name => exact .contains name
  | openLevel =>
    obtain ⟨limit, hl, hle, hd⟩ | ⟨hl, hd⟩ := b.env.descend_cases
    · simp only [outcome, next, Command.run, hd]
      exact .refused hl hle
    · simp only [outcome, next, Command.run, hd]
      exact .openLevel hl
  | openFrame => exact .openFrame
  | close =>
    rw [@next_of_closes b .close (.ok .done) rfl]
    exact effect_endBlock b rfl
  | abort =>
    rw [@next_of_closes b .abort (.ok .done) rfl]
    exact effect_endBlock b rfl

end Bench

/-! ## Properly nested operations -/

/-- The later state differs from the earlier one in the innermost scope, which is not the global
one, and has the given global scope. -/
structure Bench.Kept (b : Bench) (globals : Scope) (u : Bench) : Prop where
  inner_ne : u.env.inner ≠ []
  tail : u.env.inner.tail = b.env.inner.tail
  globals : u.env.globals = globals
  limit : u.env.limit = b.env.limit
  level : u.env.level = b.env.level
  blocks : u.blocks = b.blocks

namespace Bench

variable {b u v : Bench}

theorem kept_self (h : b.env.inner ≠ []) : b.Kept b.env.globals b := ⟨h, rfl, rfl, rfl, rfl, rfl⟩

theorem Kept.trans {globals globals' : Scope} (h : b.Kept globals v) (h' : v.Kept globals' u) :
    b.Kept globals' u :=
  ⟨h'.inner_ne, h'.tail.trans h.tail, h'.globals, h'.limit.trans h.limit, h'.level.trans h.level,
    h'.blocks.trans h.blocks⟩

theorem kept_define (h : b.env.inner ≠ []) (name : String) (value : Datum) :
    b.Kept b.env.globals ⟨b.env.define name value, b.blocks⟩ := by
  unfold Environment.define
  cases hi : b.env.inner with
  | nil => contradiction
  | cons scope rest => exact ⟨List.cons_ne_nil _ _, by rw [hi]; rfl, rfl, rfl, rfl, rfl⟩

/-- An operation that is no bracket. -/
theorem kept_next (h : b.env.inner ≠ []) {c : Command} (ho : Event.opens ⟨c, b.outcome c⟩ = none)
    (hc : Event.closes ⟨c, b.outcome c⟩ = none) :
    b.Kept (globalsAfter b.env.globals [c]) (b.next c) := by
  have heffect := b.effect c
  generalize b.outcome c = outcome, b.next c = u at ho hc heffect
  cases heffect with
  | enter => cases ho
  | exit => cases hc
  | globalExit => cases hc
  | define name value => exact kept_define h name value
  | defineGlobal name value => exact ⟨h, rfl, rfl, rfl, rfl, rfl⟩
  | lookup name => exact kept_self h
  | contains name => exact kept_self h
  | openLevel => cases ho
  | refused => exact kept_self h
  | openFrame => cases ho
  | endLevel he | endFrame he | lostFrame he | noBlock he =>
    rw [he] at hc
    cases hc

/-- The states between an opening bracket and what follows it. -/
inductive Opened (b : Bench) : Bracket → Bench → Prop where
  | scope : Opened b .scope ⟨b.env.enter, b.blocks⟩
  | frame : Opened b .block ⟨b.env.enter, .frame :: b.blocks⟩
  | level : Opened b .block ⟨{ b.env with level := b.env.level + 1 }, .level :: b.blocks⟩

theorem opened_next {o : Command} {k : Bracket} (ho : Event.opens ⟨o, b.outcome o⟩ = some k) :
    b.Opened k (b.next o) := by
  have heffect := b.effect o
  generalize b.outcome o = outcome, b.next o = u at ho heffect
  cases heffect with
  | enter =>
    cases ho
    exact .scope
  | openLevel h =>
    cases ho
    exact .level
  | openFrame =>
    cases ho
    exact .frame
  | endLevel he | endFrame he | lostFrame he | noBlock he =>
    rw [Event.opens_of_closes he] at ho
    cases ho
  | _ => cases ho

theorem Opened.globals {k : Bracket} (h : b.Opened k v) : v.env.globals = b.env.globals := by
  cases h <;> rfl

theorem Opened.inner_ne {k : Bracket} (h : b.Opened k v) (hb : b.env.inner ≠ []) :
    v.env.inner ≠ [] := by
  cases h with
  | scope | frame => exact List.cons_ne_nil _ _
  | level => exact hb

/-- Leaving a scope undoes entering it, but for the global scope. -/
theorem leave_of_kept {e : Environment} {blocks : List Block} {globals : Scope}
    (h : Kept ⟨e.enter, blocks⟩ globals u) : u.env.leave = { e with globals := globals } := by
  obtain ⟨⟨inner, globals', limit, level⟩, blocks'⟩ := u
  obtain ⟨-, htail, hglobals, hlimit, hlevel, -⟩ := h
  dsimp only at htail hglobals hlimit hlevel
  rw [Environment.leave, htail, hglobals, hlimit, hlevel]
  rfl

theorem kept_globals (h : b.env.inner ≠ []) (globals : Scope) :
    b.Kept globals ⟨{ b.env with globals := globals }, b.blocks⟩ :=
  ⟨h, rfl, rfl, rfl, rfl, rfl⟩

/-- A bracket is closed after operations that keep what is outside it. -/
theorem Opened.kept {k : Bracket} {globals : Scope} {c : Command} (h : b.Opened k v)
    (hb : b.env.inner ≠ []) (hu : v.Kept globals u) (hc : Event.closes ⟨c, u.outcome c⟩ = some k) :
    b.Kept globals (u.next c) := by
  cases h with
  | scope =>
    obtain rfl : c = .exit := by
      cases c with
      | exit => rfl
      | _ => cases hc
    rw [next_exit hu.inner_ne, leave_of_kept hu, hu.blocks]
    exact kept_globals hb globals
  | frame =>
    rw [u.next_of_closes hc, endBlock_frame hu.blocks hu.inner_ne, leave_of_kept hu]
    exact kept_globals hb globals
  | level =>
    rw [u.next_of_closes hc, endBlock_level hu.blocks]
    refine ⟨hu.inner_ne, hu.tail, hu.globals, hu.limit, ?_, rfl⟩
    change u.env.level - 1 = b.env.level
    rw [hu.level]
    rfl

end Bench

/-- Properly nested operations above the global scope keep everything but the innermost scope, and
bind globally what they are told to. -/
theorem Nested.kept {es : List Event} (h : Nested es) {b : Bench} {cs : List Command}
    (hlog : b.log cs = es) (hb : b.env.inner ≠ []) :
    b.Kept (globalsAfter b.env.globals cs) (b.after cs) := by
  induction h generalizing b cs with
  | nil =>
    cases cs with
    | nil => exact Bench.kept_self hb
    | cons c cs => cases hlog
  | plain ho hc h ih =>
    cases cs with
    | nil => cases hlog
    | cons c cs =>
      obtain ⟨rfl, htail⟩ := List.cons.inj hlog
      have hstep := Bench.kept_next hb ho hc
      have hrest := ih htail hstep.inner_ne
      rw [hstep.globals, ← globalsAfter_append] at hrest
      exact hstep.trans hrest
  | @pair o c body es k ho hc hbody h ihbody ih =>
    cases cs with
    | nil => cases hlog
    | cons first cs =>
      obtain ⟨rfl, htail⟩ := List.cons.inj hlog
      obtain ⟨inside, rest, rfl, hinside, hrest⟩ := Bench.exists_of_log_eq_append htail
      cases rest with
      | nil => cases hrest
      | cons last rest =>
        obtain ⟨rfl, hafter⟩ := List.cons.inj hrest
        have hopened := Bench.opened_next ho
        have hbetween := ihbody hinside (hopened.inner_ne hb)
        have hclosed := hopened.kept hb hbetween hc
        have houtside := ih hafter hclosed.inner_ne
        have hglobals : globalsAfter b.env.globals (first :: (inside ++ last :: rest)) =
            globalsAfter (globalsAfter (b.next first).env.globals inside) rest := by
          rw [globalsAfter_cons (Event.global?_of_opens ho), globalsAfter_append,
            globalsAfter_cons (Event.global?_of_closes hc), hopened.globals]
        have hrun : b.after (first :: (inside ++ last :: rest)) =
            (((b.next first).after inside).next last).after rest := Bench.after_append _ _ _
        rw [hclosed.globals] at houtside
        rw [hglobals, hrun]
        exact hclosed.trans houtside

/-- Between entering a scope and leaving it again. -/
theorem Nested.restores {b : Bench} {cs : List Command} (h : Nested ((b.next .enter).log cs)) :
    ((b.next .enter).after cs).outcome .exit = .ok .done ∧
    b.after (.enter :: (cs ++ [.exit])) =
      ⟨{ b.env with globals := globalsAfter b.env.globals cs }, b.blocks⟩ := by
  have hkept := h.kept rfl (List.cons_ne_nil _ _)
  have hrun : b.after (.enter :: (cs ++ [.exit])) = ((b.next .enter).after cs).next .exit :=
    Bench.after_append _ _ _
  constructor
  · simp only [Bench.outcome, Command.run, exit_of_ne hkept.inner_ne]
  · rw [hrun, Bench.next_exit hkept.inner_ne, Bench.leave_of_kept hkept, hkept.blocks]
    rfl

/-! ## Operations in any order -/

/-- What holds throughout a run from an environment in which no block is open. -/
structure Bench.Counted (start : Environment) (b : Bench) : Prop where
  limit : b.env.limit = start.limit
  level : b.env.level = start.level + b.blocks.count .level
  bounded : ∀ limit, start.limit = some limit → start.level ≤ limit → b.env.level ≤ limit

namespace Bench

variable {start : Environment} {b : Bench}

theorem counted_ofEnvironment (start : Environment) : Counted start (ofEnvironment start) :=
  ⟨rfl, rfl, fun _ _ h => h⟩

theorem Counted.next (h : Counted start b) (c : Command) : Counted start (b.next c) := by
  have heffect := b.effect c
  generalize b.outcome c = outcome, b.next c = u at heffect
  cases heffect with
  | enter | exit | globalExit | defineGlobal | lookup | contains | refused | noBlock =>
    exact ⟨h.limit, h.level, h.bounded⟩
  | define name value =>
    obtain ⟨hlimit, hlevel⟩ := b.env.define_counters name value
    refine ⟨hlimit.trans h.limit, hlevel.trans h.level, ?_⟩
    rw [hlevel]
    exact h.bounded
  | openLevel hl =>
    refine ⟨h.limit, ?_, fun limit hlimit _ => ?_⟩
    · rw [List.count_cons_self, h.level]
      rfl
    · have := hl limit (h.limit.trans hlimit)
      push_cast
      omega
  | openFrame =>
    refine ⟨h.limit, ?_, h.bounded⟩
    rw [List.count_cons_of_ne (by decide)]
    exact h.level
  | @endLevel _ rest he hb =>
    have hcount := h.level
    rw [hb, List.count_cons_self] at hcount
    have hlevel : b.env.ascend.level = start.level + rest.count .level := by
      rw [Environment.ascend, hcount]
      rfl
    refine ⟨h.limit, hlevel, fun limit hlimit hstart => ?_⟩
    have hbounded := h.bounded limit hlimit hstart
    have hless : b.env.ascend.level ≤ b.env.level := Nat.sub_le _ _
    exact Int.le_trans (Int.ofNat_le.mpr hless) hbounded
  | endFrame he hb | lostFrame he hb =>
    have hcount := h.level
    rw [hb, List.count_cons_of_ne (by decide)] at hcount
    exact ⟨h.limit, hcount, h.bounded⟩

theorem Counted.after (h : Counted start b) (cs : List Command) : Counted start (b.after cs) := by
  induction cs generalizing b with
  | nil => exact h
  | cons c cs ih => exact ih (h.next c)

end Bench

/-- A name is contained if and only if looking it up finds something. -/
theorem contains_iff_lookup (e : Environment) (name : String) :
    e.contains name = true ↔ ∃ d, e.lookup name = .ok d := by
  have hsome : e.contains name = (e.lookup? name).isSome := by
    rw [contains, lookup?_eq_findSome?, List.isSome_findSome?]
  rw [hsome, lookup]
  cases e.lookup? name <;> simp

/-- Only the global scope is left. -/
theorem inner_eq_nil_of_depth {e : Environment} (h : e.depth = 1) : e.inner = [] :=
  List.length_eq_zero_iff.mp (Nat.succ.inj h)

theorem exit_at_global {b : Bench} (h : b.env.depth = 1) :
    Command.exit.run b = .error .globalExit b := by
  simp only [Command.run, exit_of_nil (inner_eq_nil_of_depth h)]

/-- A frame whose scope is gone cannot be closed properly, and then nothing but the frame is given
up. -/
theorem close_at_global {b : Bench} (h : b.env.depth = 1) {rest : List Block}
    (hb : b.blocks = .frame :: rest) {c : Command} (hc : c = .close ∨ c = .abort) :
    c.run b = .error .globalExit ⟨b.env, rest⟩ := by
  have hend : Bench.endBlock b = .error .globalExit ⟨b.env, rest⟩ := by
    simp only [Bench.endBlock, hb, exit_of_nil (inner_eq_nil_of_depth h)]
  rcases hc with rfl | rfl <;> simp only [Command.run, bind, EStateM.bind, hend]

/-- Properly nested operations between entering a scope and leaving it restore everything, except
that the global scope has the bindings that were made there, in order.  Whatever the order of
operations, there is always a scope, the global scope cannot be left, the level counts the open
levels and stays within the limit if it was, and a name is contained exactly if it can be looked
up. -/
theorem environment_brackets :
    (∀ (b : Bench) (cs : List Command), Nested ((b.next .enter).log cs) →
      ((b.next .enter).after cs).outcome .exit = .ok .done ∧
      b.after (.enter :: (cs ++ [.exit])) =
        ⟨{ b.env with globals := globalsAfter b.env.globals cs }, b.blocks⟩) ∧
    ∀ (start : Environment) (cs : List Command) (b : Bench),
      b = (Bench.ofEnvironment start).after cs →
      b.env.scopes ≠ [] ∧
      (b.env.depth = 1 → Command.exit.run b = .error .globalExit b ∧
        ∀ rest, b.blocks = .frame :: rest → ∀ c : Command, c = .close ∨ c = .abort →
          c.run b = .error .globalExit ⟨b.env, rest⟩) ∧
      b.env.level = start.level + b.blocks.count .level ∧
      b.env.limit = start.limit ∧
      (∀ limit, start.limit = some limit → start.level ≤ limit → b.env.level ≤ limit) ∧
      ∀ name, b.outcome (.contains name) = .ok (.truth true) ↔
        ∃ d, b.outcome (.lookup name) = .ok (.value d) := by
  refine ⟨fun b cs h => h.restores, ?_⟩
  rintro start cs b rfl
  have hcounted := (Bench.counted_ofEnvironment start).after cs
  refine ⟨?_, ?_, hcounted.level, hcounted.limit, hcounted.bounded, ?_⟩
  · exact List.append_ne_nil_of_right_ne_nil _ (List.cons_ne_nil _ _)
  · intro hdepth
    exact ⟨exit_at_global hdepth, fun rest hb c hc => close_at_global hdepth hb hc⟩
  · intro name
    generalize (Bench.ofEnvironment start).after cs = b
    have hcontains :
        b.outcome (.contains name) = .ok (.truth true) ↔ b.env.contains name = true := by
      simp [Bench.outcome, Command.run]
    rw [hcontains, contains_iff_lookup, Bench.outcome_lookup]
    cases b.env.lookup name <;> simp [Except.map]

/-- A level inside which another one is refused and a look-up fails, so that a fault closes it; then
a frame with a global binding, and a scope in it. -/
def interrupted : List Command :=
  [.define "x" (.int 2), .openLevel, .openLevel, .lookup "y", .abort, .openFrame,
    .defineGlobal "y" (.int 3), .enter, .define "x" (.int 4), .exit, .close]

/-- The global `x` is not touched, since `define` binds in the scope that was entered. -/
theorem environment_brackets_interrupted :
    Nested (((Bench.ofEnvironment ⟨[], [("x", .int 1)], some 1, 0⟩).next .enter).log interrupted) ∧
    (Bench.ofEnvironment ⟨[], [("x", .int 1)], some 1, 0⟩).after
      (.enter :: (interrupted ++ [.exit])) =
      ⟨⟨[], [("x", .int 1), ("y", .int 3)], some 1, 0⟩, []⟩ := by
  have level : Nested [⟨.openLevel, .error (.tooDeep 1)⟩, ⟨.lookup "y", .error (.unbound "y")⟩] :=
    .plain rfl rfl (.plain rfl rfl .nil)
  have scope :
      Nested (⟨.enter, .ok .done⟩ ::
        ([⟨.define "x" (.int 4), .ok .done⟩] ++ [⟨.exit, .ok .done⟩])) :=
    .pair rfl rfl (.plain rfl rfl .nil) .nil
  have frame :
      Nested (⟨.openFrame, .ok (.count 0)⟩ :: (⟨.defineGlobal "y" (.int 3), .ok .done⟩ :: _ ++
      [⟨.close, .ok .done⟩])) := .pair rfl rfl (.plain rfl rfl scope) .nil
  have nested :
      Nested
        (((Bench.ofEnvironment ⟨[], [("x", .int 1)], some 1, 0⟩).next .enter).log interrupted) :=
    .plain rfl rfl (@Nested.pair _ ⟨.abort, .ok (.truth false)⟩ _ _ .block rfl rfl level frame)
  exact ⟨nested, (environment_brackets.1 _ _ nested).2⟩

end Environment

end DynLisp
