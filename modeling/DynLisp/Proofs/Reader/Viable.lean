import DynLisp.Proofs.Reader.Grammar

/-!
# Beginnings of token sequences

After some tokens the reader stands in a state, or it has met a token that cannot stand where it
stands (`Gauge.progress`).  A state can always be completed: every bracket that is open can be
closed, and a map that waits for a form can be given one, which takes no room for brackets.  A fault
is final, whatever tokens follow.

So tokens end too early exactly if more tokens could make them acceptable.
-/

namespace DynLisp

/-- Several more forms in front. -/
def Reading.prepend (forms : List Datum) (r : Reading) : Reading := ⟨forms ++ r.forms, r.failure⟩

/-- What has become of some tokens: the forms that are complete, and the state after them or the
fault they met. -/
inductive Progress where
  | standing (forms : List Datum) (state : ReadState)
  | stuck (forms : List Datum) (cause : ReadFault)

namespace Progress

def cons (d : Datum) : Progress → Progress
  | .standing forms s => .standing (d :: forms) s
  | .stuck forms cause => .stuck (d :: forms) cause

/-- Reads on from where the tokens so far have led. -/
def resume (g : Gauge) (failure : Option Fault) (ts : List Token) : Progress → Reading
  | .standing forms s => (g.readFrom failure s ts).prepend forms
  | .stuck forms cause => ⟨forms, some (.read cause)⟩

theorem resume_cons (g : Gauge) (failure : Option Fault) (ts : List Token) (d : Datum)
    (p : Progress) : (p.cons d).resume g failure ts = (p.resume g failure ts).cons d := by
  cases p <;> rfl

theorem eq_standing_of_cons_eq {d : Datum} {p : Progress} {forms : List Datum} {s : ReadState}
    (h : p.cons d = .standing forms s) : ∃ rest, forms = d :: rest ∧ p = .standing rest s := by
  cases p with
  | standing rest s' =>
    cases h
    exact ⟨rest, rfl, rfl⟩
  | stuck rest cause => cases h

theorem eq_stuck_of_cons_eq {d : Datum} {p : Progress} {forms : List Datum} {cause : ReadFault}
    (h : p.cons d = .stuck forms cause) : ∃ rest, p = .stuck rest cause := by
  cases p with
  | standing rest s => cases h
  | stuck rest cause' =>
    cases h
    exact ⟨rest, rfl⟩

end Progress

namespace Gauge

variable {g : Gauge}

/-- What becomes of some tokens, from a state. -/
def progress (g : Gauge) : ReadState → List Token → Progress
  | s, [] => .standing [] s
  | s, t :: ts =>
    match g.step s t with
    | .shift s' => g.progress s' ts
    | .complete d => (g.progress (.ready []) ts).cons d
    | .reject cause _ => .stuck [] cause

/-- Reading is reading on from where the first tokens lead. -/
theorem readFrom_append (g : Gauge) (failure : Option Fault) (s : ReadState)
    (ts rest : List Token) :
    g.readFrom failure s (ts ++ rest) = (g.progress s ts).resume g failure rest := by
  induction ts generalizing s with
  | nil => rfl
  | cons t ts ih =>
    rw [List.cons_append, readFrom_cons, progress]
    cases g.step s t with
    | shift s' => exact ih s'
    | complete d => rw [readOn, ih, Progress.resume_cons]
    | reject cause kept => rfl

theorem readFrom_eq_resume (g : Gauge) (failure : Option Fault) (s : ReadState) (ts : List Token) :
    g.readFrom failure s ts = (g.progress s ts).resume g failure [] := by
  have h := readFrom_append g failure s ts []
  rwa [List.append_nil] at h

/-! ## Faults are final -/

theorem fill_ne_reject (d : Datum) (holes : List Hole) (cause : ReadFault) (kept : Bool) :
    fill d holes ≠ .reject cause kept := by
  unfold fill
  split <;> nofun

theorem start_ne_endOfInput (g : Gauge) (holes : List Hole) (t : Token) (kept : Bool) :
    g.start holes t ≠ .reject .endOfInput kept := by
  have pushed (hole : Hole) : g.push hole holes ≠ .reject .endOfInput kept := by
    unfold push
    split <;> nofun
  unfold start
  split
  case h_1 | h_2 | h_3 | h_4 | h_5 => exact fill_ne_reject _ _ _ _
  case h_6 =>
    split
    · exact fill_ne_reject _ _ _ _
    · nofun
  case h_7 | h_8 => exact pushed _
  case h_9 => nofun

/-- That the tokens end is no reason to refuse one of them. -/
theorem step_ne_endOfInput (g : Gauge) (s : ReadState) (t : Token) (kept : Bool) :
    g.step s t ≠ .reject .endOfInput kept := by
  have started := fun holes => g.start_ne_endOfInput holes t kept
  unfold step
  split
  case h_1 =>
    split
    · exact fill_ne_reject _ _ _ _
    · exact started _
  case h_2 =>
    split
    case h_1 => exact fill_ne_reject _ _ _ _
    case h_2 | h_3 | h_4 | h_5 => nofun
    case h_6 => exact started _
  case h_3 => exact started _
  case h_4 =>
    split
    · exact fill_ne_reject _ _ _ _
    · nofun
  case h_5 =>
    split
    case h_1 => exact fill_ne_reject _ _ _ _
    case h_2 | h_3 => nofun
  case h_6 => split <;> nofun

theorem cause_ne_endOfInput {s : ReadState} {ts : List Token} {forms : List Datum}
    {cause : ReadFault} (h : g.progress s ts = .stuck forms cause) : cause ≠ .endOfInput := by
  induction ts generalizing s forms with
  | nil => cases h
  | cons t ts ih =>
    rw [progress] at h
    cases hstep : g.step s t with
    | shift s' =>
      rw [hstep] at h
      exact ih h
    | complete d =>
      rw [hstep] at h
      obtain ⟨rest, hrest⟩ := Progress.eq_stuck_of_cons_eq h
      exact ih hrest
    | reject cause' kept =>
      rw [hstep] at h
      cases h
      rintro rfl
      exact g.step_ne_endOfInput s t kept hstep

/-! ## States can be completed -/

end Gauge

namespace Token

def closeParen : Token := ⟨.closeParen, .str ")", 1⟩

def closeBrace : Token := ⟨.closeBrace, .str "\x7d", 1⟩

def colon : Token := ⟨.colon, .str ":", 1⟩

def nil : Token := ⟨.nil, .absent, 1⟩

end Token

/-- The token that closes a bracket once it has been given a form. -/
def Hole.closer : Hole → Token
  | .call _ => .closeParen
  | .brace _ | .value _ _ => .closeBrace

/-- Tokens that complete what the reader has seen of a form. -/
def ReadState.completion : ReadState → List Token
  | .ready [] => []
  | .ready (.call _ :: holes) => .closeParen :: holes.map Hole.closer
  | .ready (.brace _ :: holes) => .closeBrace :: holes.map Hole.closer
  | .ready (.value _ _ :: holes) => .nil :: .closeBrace :: holes.map Hole.closer
  | .emptyMap holes => .closeBrace :: holes.map Hole.closer
  | .beforeKey _ holes => .closeBrace :: holes.map Hole.closer
  | .afterKey _ _ holes => .colon :: .nil :: .closeBrace :: holes.map Hole.closer

namespace Gauge

variable {g : Gauge}

/-- A form that fills the innermost hole lets all brackets be closed, from the inside out. -/
theorem readOn_closers (g : Gauge) (d : Datum) (holes : List Hole) :
    (g.readOn none (fill d holes) (holes.map Hole.closer)).failure = none := by
  induction holes generalizing d with
  | nil => rfl
  | cons hole holes ih =>
    rw [List.map_cons]
    cases hole with
    | call taken =>
      rw [fill, readOn_shift, Hole.closer, readFrom_of_takes (.closeCall rfl)]
      exact ih _
    | brace taken =>
      rw [fill, readOn_shift, Hole.closer, readFrom_of_takes (.closeList rfl)]
      exact ih _
    | value entries key =>
      rw [fill, readOn_shift, Hole.closer, readFrom_of_takes (.closeMap rfl)]
      exact ih _

theorem readFrom_completion (g : Gauge) (s : ReadState) :
    (g.readFrom none s s.completion).failure = none := by
  have atom : Token.nil.IsAtom .nil := .nil rfl
  cases s with
  | ready holes =>
    cases holes with
    | nil => rfl
    | cons hole holes =>
      cases hole with
      | call taken =>
        rw [ReadState.completion, readFrom_of_takes (.closeCall rfl)]
        exact g.readOn_closers _ holes
      | brace taken =>
        rw [ReadState.completion, readFrom_of_takes (.closeList rfl)]
        exact g.readOn_closers _ holes
      | value entries key =>
        rw [ReadState.completion, readFrom_of_takes (.atom atom)]
        exact g.readOn_closers _ (.value entries key :: holes)
  | emptyMap holes =>
    rw [ReadState.completion, readFrom_of_takes (.closeEmpty rfl)]
    exact g.readOn_closers _ holes
  | beforeKey entries holes =>
    rw [ReadState.completion, readFrom_of_takes (.closeMap rfl)]
    exact g.readOn_closers _ holes
  | afterKey entries key holes =>
    rw [ReadState.completion, readFrom_of_takes (.colon rfl), readOn_shift,
      readFrom_of_takes (.atom atom)]
    exact g.readOn_closers _ (.value entries key :: holes)

/-! ## Tokens that make no form -/

theorem fill_ne_ready_nil (d : Datum) (holes : List Hole) : fill d holes ≠ .shift (.ready []) := by
  unfold fill
  split <;> nofun

/-- Nothing but the end of a form leads back to where no bracket is open. -/
theorem step_ne_ready_nil (g : Gauge) (s : ReadState) (t : Token) :
    g.step s t ≠ .shift (.ready []) := by
  obtain h | ⟨cause, kept, h⟩ := g.takes_or_reject s t
  · generalize g.step s t = v at h
    cases h with
    | atom | closeCall | closeList | closeEmpty | closeMap => exact fill_ne_ready_nil _ _
    | openParen | openBrace | noEntry | firstColon | key | colon => nofun
  · rw [h]
    nofun

/-- Some tokens have been taken without completing a form, so a form is open. -/
theorem eq_nil_of_progress {s : ReadState} {ts : List Token}
    (h : g.progress s ts = .standing [] (.ready [])) : s = .ready [] ∧ ts = [] := by
  induction ts generalizing s with
  | nil =>
    cases h
    exact ⟨rfl, rfl⟩
  | cons t ts ih =>
    rw [progress] at h
    cases hstep : g.step s t with
    | shift s' =>
      rw [hstep] at h
      obtain ⟨rfl, -⟩ := ih h
      exact absurd hstep (g.step_ne_ready_nil s t)
    | complete d =>
      rw [hstep] at h
      obtain ⟨rest, hrest, -⟩ := Progress.eq_standing_of_cons_eq h
      cases hrest
    | reject cause kept =>
      rw [hstep] at h
      cases h

/-- Where a form is open, the tokens may not end. -/
theorem finish_eq_endOfInput {s : ReadState} (h : s ≠ .ready []) :
    s.finish none = ⟨[], some (.read .endOfInput)⟩ := by
  unfold ReadState.finish
  split
  · contradiction
  · rfl

/-- Tokens that are read without a fault leave no bracket open. -/
theorem progress_of_readFrom {s : ReadState} {ts : List Token} {forms : List Datum}
    (h : g.readFrom none s ts = ⟨forms, none⟩) : g.progress s ts = .standing forms (.ready []) := by
  rw [readFrom_eq_resume] at h
  cases hp : g.progress s ts with
  | stuck forms' cause =>
    rw [hp] at h
    cases h
  | standing forms' s' =>
    rw [hp] at h
    have hs : s' = .ready [] := by
      by_contra hne
      rw [Progress.resume, readFrom, finish_eq_endOfInput hne] at h
      cases h
    subst hs
    have hforms : forms' ++ [] = forms := congrArg Reading.forms h
    rw [List.append_nil] at hforms
    rw [hforms]

end Gauge

/-! ## Token sequences -/

/-- The forms of a token sequence, with the fault that ended reading if there was one. -/
def readTokens (limit : Int) (ts : List Token) : Reading :=
  (Stream.ofLexed ⟨ts, none⟩ limit).readAll

theorem readTokens_append (limit : Int) (ts rest : List Token) :
    readTokens limit (ts ++ rest) =
      (Gauge.progress ⟨limit, 0⟩ (.ready []) ts).resume ⟨limit, 0⟩ none rest :=
  Gauge.readFrom_append ⟨limit, 0⟩ none (.ready []) ts rest

theorem readTokens_eq_resume (limit : Int) (ts : List Token) :
    readTokens limit ts = (Gauge.progress ⟨limit, 0⟩ (.ready []) ts).resume ⟨limit, 0⟩ none [] :=
  Gauge.readFrom_eq_resume ⟨limit, 0⟩ none (.ready []) ts

/-- Tokens that a fault has ended may be followed by anything; they stay what they are. -/
theorem readTokens_append_of_fault {limit : Int} {ts : List Token} {f : Fault}
    (h : (readTokens limit ts).failure = some f) (hf : f ≠ .read .endOfInput) (rest : List Token) :
    readTokens limit (ts ++ rest) = readTokens limit ts := by
  rw [readTokens_append]
  rw [readTokens_eq_resume] at h ⊢
  cases hp : Gauge.progress ⟨limit, 0⟩ (.ready []) ts with
  | stuck forms cause => rfl
  | standing forms s =>
    rw [hp] at h
    change (s.finish none).failure = some f at h
    unfold ReadState.finish at h
    split at h
    · cases h
    · cases h
      exact absurd rfl hf

/-- Tokens that end too early can be continued to a sequence of forms. -/
theorem exists_continuation {limit : Int} {ts : List Token}
    (h : (readTokens limit ts).failure = some (.read .endOfInput)) :
    ∃ rest, rest ≠ [] ∧ (readTokens limit (ts ++ rest)).failure = none := by
  rw [readTokens_eq_resume] at h
  cases hp : Gauge.progress ⟨limit, 0⟩ (.ready []) ts with
  | stuck forms cause =>
    rw [hp] at h
    cases h
    exact absurd rfl (Gauge.cause_ne_endOfInput hp)
  | standing forms s =>
    have complete : (readTokens limit (ts ++ s.completion)).failure = none := by
      rw [readTokens_append, hp]
      exact Gauge.readFrom_completion ⟨limit, 0⟩ s
    refine ⟨s.completion, ?_, complete⟩
    intro hnil
    rw [hnil, List.append_nil, readTokens_eq_resume, h] at complete
    cases complete

theorem progress_of_derives {limit : Int} {parts : List Part}
    (h : ∀ p ∈ parts, Derives limit p.tokens p.form) :
    Gauge.progress ⟨limit, 0⟩ (.ready []) (parts.flatMap Part.tokens) =
      .standing (parts.map Part.form) (.ready []) := by
  have hlimit : limit = limit - 0 := (Int.sub_zero limit).symm
  rw [hlimit] at h
  exact Gauge.progress_of_readFrom (Gauge.readFrom_of_derives (g := ⟨limit, 0⟩) h)

/-- A form that is cut short is not complete, and nothing else is complete before the cut. -/
theorem readTokens_of_cut {limit : Int} {u v : List Token} {d : Datum}
    (h : Derives limit (u ++ v) d) (hu : u ≠ []) (hv : v ≠ []) :
    readTokens limit u = ⟨[], some (.read .endOfInput)⟩ := by
  have whole : Gauge.readFrom ⟨limit, 0⟩ none (.ready []) (u ++ v) = ⟨[d], none⟩ := by
    have hp := @progress_of_derives limit [⟨u ++ v, d⟩] (List.forall_mem_singleton.mpr h)
    rw [List.flatMap_singleton] at hp
    rw [Gauge.readFrom_eq_resume, hp]
    rfl
  rw [Gauge.readFrom_append] at whole
  rw [readTokens_eq_resume]
  cases hp : Gauge.progress ⟨limit, 0⟩ (.ready []) u with
  | stuck forms cause =>
    rw [hp] at whole
    cases whole
  | standing forms s =>
    rw [hp] at whole
    have hforms : forms ++ (Gauge.readFrom ⟨limit, 0⟩ none s v).forms = [d] :=
      congrArg Reading.forms whole
    have hrest : Gauge.readFrom ⟨limit, 0⟩ none s v =
        ⟨(Gauge.readFrom ⟨limit, 0⟩ none s v).forms, none⟩ :=
      congrArg (Reading.mk _) (congrArg Reading.failure whole)
    cases forms with
    | nil =>
      have open_form : s ≠ .ready [] := by
        rintro rfl
        exact hu (Gauge.eq_nil_of_progress hp).2
      rw [Progress.resume, Gauge.readFrom, Gauge.finish_eq_endOfInput open_form]
      rfl
    | cons first forms =>
      -- the form would be complete at the cut, and no token could follow
      have none_left : (Gauge.readFrom ⟨limit, 0⟩ none s v).forms = [] := by
        rw [List.cons_append] at hforms
        exact (List.append_eq_nil_iff.mp (List.cons.inj hforms).2).2
      rw [none_left] at hrest
      exact absurd (Gauge.eq_nil_of_progress (Gauge.progress_of_readFrom hrest)).2 hv

/-- A sequence of tokens ends too early exactly if it can be continued to a sequence of forms; any
other fault it has stays, with the forms before it, however it is continued.  So forms, the last of
which is cut short, are all read but the last. -/
theorem readTokens_viable (limit : Int) :
    (∀ ts f, (readTokens limit ts).failure = some f →
      (f = .read .endOfInput ↔
        ∃ rest, rest ≠ [] ∧ (readTokens limit (ts ++ rest)).failure = none) ∧
      (f ≠ .read .endOfInput → ∀ rest, readTokens limit (ts ++ rest) = readTokens limit ts)) ∧
    (∀ (parts : List Part) (u v : List Token) (d : Datum),
      (∀ p ∈ parts, Derives limit p.tokens p.form) → Derives limit (u ++ v) d → u ≠ [] → v ≠ [] →
      readTokens limit (parts.flatMap Part.tokens ++ u) =
        ⟨parts.map Part.form, some (.read .endOfInput)⟩) := by
  refine ⟨fun ts f h => ⟨⟨?_, ?_⟩, readTokens_append_of_fault h⟩, ?_⟩
  · rintro rfl
    exact exists_continuation h
  · rintro ⟨rest, -, hrest⟩
    by_contra hf
    rw [readTokens_append_of_fault h hf, h] at hrest
    cases hrest
  · intro parts u v d hparts hd hu hv
    have cut : Gauge.readFrom ⟨limit, 0⟩ none (.ready []) u = _ := readTokens_of_cut hd hu hv
    rw [readTokens_append, progress_of_derives hparts, Progress.resume, cut]
    simp [Reading.prepend]

/-- With room for one bracket: a map that lacks its value can be completed, a map whose key is a
number cannot, and a list that is cut after its first item leaves only the form before it. -/
theorem readTokens_viable_brace :
    (readTokens 1 [⟨.openBrace, .str "\x7b", 1⟩, ⟨.symbol, .str "a", 1⟩, .colon]).failure =
      some (.read .endOfInput) ∧
    (∃ rest, rest ≠ [] ∧ (readTokens 1
      ([⟨.openBrace, .str "\x7b", 1⟩, ⟨.symbol, .str "a", 1⟩, .colon] ++ rest)).failure = none) ∧
    (readTokens 1 [⟨.openBrace, .str "\x7b", 1⟩, ⟨.int, .int 1, 1⟩, .colon]).failure =
      some (.read .keyNotSymbol) ∧
    (∀ rest, readTokens 1 ([⟨.openBrace, .str "\x7b", 1⟩, ⟨.int, .int 1, 1⟩, .colon] ++ rest) =
      readTokens 1 [⟨.openBrace, .str "\x7b", 1⟩, ⟨.int, .int 1, 1⟩, .colon]) ∧
    readTokens 1 ([.nil] ++ [⟨.openBrace, .str "\x7b", 1⟩, .nil]) =
      ⟨[.nil], some (.read .endOfInput)⟩ := by
  have atom (n : Int) : Derives n [.nil] .nil := .atom (.nil rfl)
  have list :
      Derives 1 ([⟨.openBrace, .str "\x7b", 1⟩, .nil] ++ [.closeBrace]) (.listForm [.nil]) :=
    @Derives.list 1 ⟨.openBrace, .str "\x7b", 1⟩ .closeBrace [⟨[.nil], .nil⟩] (by decide) rfl rfl
      (List.forall_mem_singleton.mpr (atom 0))
  refine ⟨rfl, ((readTokens_viable 1).1 _ _ rfl).1.mp rfl, rfl, ?_, ?_⟩
  · exact ((readTokens_viable 1).1 _ _ rfl).2 nofun
  · exact (readTokens_viable 1).2 [⟨[.nil], .nil⟩] _ _ _
      (List.forall_mem_singleton.mpr (atom 1)) list
      nofun nofun

end DynLisp
