import DynLisp.Proofs.Reader.Viable

/-!
# Reading on demand

A stream can be drained with no more than one token in hand: look whether there is a token, and if
so take one after the other until a form is complete (`Stream.drain`).  A fault of the supply is met
when a token too many is asked for.

What is read does not depend on the pace.  All tokens before the fault might as well have been made
first: the fault shows exactly if they leave the reader between two forms or in want of more tokens,
and never if one of them is refused.
-/

namespace DynLisp

/-! ## Form by form -/

namespace Gauge

variable {g : Gauge}

theorem length_scan {s : ReadState} {ts rest : List Token} {d : Datum}
    (h : g.scan s ts = .complete d rest) : rest.length < ts.length := by
  induction ts generalizing s with
  | nil => cases h
  | cons t ts ih =>
    rw [scan] at h
    rw [List.length_cons]
    split at h
    next s' _ => exact Nat.lt_succ_of_lt (ih h)
    next =>
      cases h
      exact Nat.lt_succ_self _
    next => cases h

theorem length_scan_reject {s : ReadState} {ts rest : List Token} {cause : ReadFault} {kept : Bool}
    (h : g.scan s ts = .reject cause kept rest) : rest.length < ts.length + kept.toNat := by
  induction ts generalizing s with
  | nil => cases h
  | cons t ts ih =>
    rw [scan] at h
    rw [List.length_cons]
    split at h
    next s' _ =>
      have := ih h
      omega
    next => cases h
    next =>
      cases h
      cases kept <;> simp

/-- Reads on after one scan for a form. -/
def readScan (g : Gauge) (failure : Option Fault) : Scan → Reading
  | .complete d rest => (g.readFrom failure (.ready []) rest).cons d
  | .reject cause _ _ => ⟨[], some (.read cause)⟩
  | .hungry => ⟨[], some (failure.getD (.read .endOfInput))⟩

/-- Where a form is open or a token is left, reading is one scan for a form and reading on after
it. -/
theorem readFrom_eq_readScan (failure : Option Fault) {s : ReadState} {ts : List Token}
    (h : s ≠ .ready [] ∨ ts ≠ []) : g.readFrom failure s ts = g.readScan failure (g.scan s ts) := by
  induction ts generalizing s with
  | nil =>
    have hs : s ≠ .ready [] := h.resolve_right (not_not.mpr rfl)
    rw [readFrom, scan]
    unfold ReadState.finish
    split
    · contradiction
    · rfl
  | cons t ts ih =>
    rw [readFrom_cons, scan]
    cases hstep : g.step s t with
    | shift s' =>
      have hs : s' ≠ .ready [] := by
        rintro rfl
        exact g.step_ne_ready_nil s t hstep
      exact ih (.inl hs)
    | complete d => rfl
    | reject cause kept => rfl

end Gauge

namespace Stream

variable {s u : Stream}

/-! ## What is left of a stream -/

@[simp] theorem unread_upTo (s : Stream) (seen : Nat) (rest : List Token) :
    (s.upTo seen rest).unread = rest :=
  List.take_append_drop _ rest

/-- Tokens are left out one after another as they are left out at once, as long as none of those
that have been looked at is to be looked at again. -/
theorem upTo_upTo {seen seen' : Nat} {rest rest' : List Token}
    (h : rest'.length + seen ≤ rest.length + seen') :
    (s.upTo seen rest).upTo seen' rest' = s.upTo seen' rest' := by
  have supplied : (s.upTo seen rest).supply.tokens.length =
      rest.length - max seen (rest.length - s.supply.tokens.length) := List.length_drop
  have same : max seen' (rest'.length - (s.upTo seen rest).supply.tokens.length) =
      max seen' (rest'.length - s.supply.tokens.length) := by
    rw [supplied]
    omega
  rw [upTo, same]
  rfl

/-- Once the buffer is used up, what is left is what is left of the supply. -/
theorem upTo_zero_of_le {rest : List Token} (h : rest.length ≤ s.supply.tokens.length) :
    s.upTo 0 rest = ⟨[], ⟨rest, s.supply.failure⟩, s.limit, s.nesting⟩ := by
  simp [upTo, Nat.sub_eq_zero_of_le h]

theorem upTo_zero_buffer (ts : List Token) :
    s.upTo 0 (ts ++ s.supply.tokens) = { s with buffer := ts } := by
  simp [upTo]

/-- A token that has been consumed after a look at it need not have been looked at. -/
theorem upTo_one_cons (t : Token) (ts : List Token) :
    s.upTo 1 (t :: ts) = { s.upTo 0 ts with buffer := t :: (s.upTo 0 ts).buffer } := by
  have ahead : max 1 ((t :: ts).length - s.supply.tokens.length) =
      max 0 (ts.length - s.supply.tokens.length) + 1 := by
    rw [List.length_cons]
    omega
  unfold upTo
  rw [ahead]
  rfl

/-! ## Token by token -/

theorem advance_of_unread_cons {t : Token} {ts : List Token} (h : s.unread = t :: ts) :
    advance s = .ok (some t) (s.upTo 0 ts) := by
  obtain ⟨buffer, ⟨tokens, failure⟩, limit, nesting⟩ := s
  cases buffer with
  | cons b bs =>
    obtain ⟨rfl, rfl⟩ := List.cons.inj (show b :: (bs ++ tokens) = t :: ts from h)
    exact congrArg _ (upTo_zero_buffer (s := ⟨b :: bs, ⟨tokens, failure⟩, limit, nesting⟩) bs).symm
  | nil =>
    obtain rfl : tokens = t :: ts := h
    have left := upTo_zero_of_le (s := ⟨[], ⟨t :: ts, failure⟩, limit, nesting⟩)
      (Nat.le_succ ts.length)
    exact congrArg _ left.symm

theorem peek_of_unread_cons {t : Token} {ts : List Token} (h : s.unread = t :: ts) :
    peek s = .ok (some t) (s.upTo 1 (t :: ts)) := by
  rw [upTo_one_cons]
  obtain ⟨buffer, ⟨tokens, failure⟩, limit, nesting⟩ := s
  cases buffer with
  | cons b bs =>
    obtain ⟨rfl, rfl⟩ := List.cons.inj (show b :: (bs ++ tokens) = t :: ts from h)
    rw [upTo_zero_buffer (s := ⟨b :: bs, ⟨tokens, failure⟩, limit, nesting⟩) bs]
    rfl
  | nil =>
    obtain rfl : tokens = t :: ts := h
    rw [upTo_zero_of_le (s := ⟨[], ⟨t :: ts, failure⟩, limit, nesting⟩) (Nat.le_succ ts.length)]
    rfl

theorem eq_of_unread_nil (h : s.unread = []) :
    s = ⟨[], ⟨[], s.supply.failure⟩, s.limit, s.nesting⟩ := by
  obtain ⟨buffer, ⟨tokens, failure⟩, limit, nesting⟩ := s
  obtain ⟨rfl, rfl⟩ := List.append_eq_nil_iff.mp h
  rfl

theorem unread_of_peek {t : Option Token} (h : peek s = .ok t u) : u.unread = s.unread := by
  cases hs : s.unread with
  | nil =>
    rw [eq_of_unread_nil hs] at h
    cases hf : s.supply.failure <;> rw [hf] at h <;> cases h
    rfl
  | cons t' ts =>
    rw [peek_of_unread_cons hs] at h
    cases h
    exact unread_upTo s 1 _

theorem expectMore_of_unread_cons {t : Token} {ts : List Token} (h : s.unread = t :: ts) :
    expectMore s = .ok t (s.upTo 0 ts) := by
  simp only [expectMore, bind, EStateM.bind, advance_of_unread_cons h]
  rfl

theorem expectMore_of_unread_nil (h : s.unread = []) :
    expectMore s = .error (s.supply.failure.getD (.read .endOfInput)) s.exhausted := by
  rw [eq_of_unread_nil h]
  cases s.supply.failure <;> rfl

theorem length_unread_expectMore {t : Token} (h : expectMore s = .ok t u) :
    u.unread.length < s.unread.length := by
  cases hs : s.unread with
  | nil =>
    rw [expectMore_of_unread_nil hs] at h
    cases h
  | cons t' ts =>
    rw [expectMore_of_unread_cons hs] at h
    cases h
    rw [unread_upTo]
    exact Nat.lt_succ_self ts.length

/-- Reading on is one token and then reading on after it, unless it ends there. -/
theorem resume_of_unread_cons {t : Token} {ts : List Token} (opened : Int) (start : ReadState)
    (h : s.unread = t :: ts) :
    resume opened start s =
      match Gauge.step ⟨s.limit, opened⟩ start t with
      | .shift state => resume opened state (s.upTo 0 ts)
      | .complete d => .ok d (s.upTo 0 ts)
      | .reject cause kept =>
        .error (.read cause) (s.upTo kept.toNat (if kept then t :: ts else ts)) := by
  rw [resume, h, Gauge.scan]
  cases Gauge.step ⟨s.limit, opened⟩ start t with
  | shift state =>
    have limited : (s.upTo 0 ts).limit = s.limit := rfl
    show _ = resume opened state (s.upTo 0 ts)
    rw [resume, unread_upTo, limited]
    dsimp only
    cases hscan : Gauge.scan ⟨s.limit, opened⟩ state ts with
    | complete d rest =>
      have shorter := Gauge.length_scan hscan
      dsimp only
      rw [upTo_upTo (by omega)]
    | reject cause kept rest =>
      have shorter := Gauge.length_scan_reject hscan
      dsimp only
      rw [upTo_upTo (by omega)]
    | hungry => rfl
  | complete d => rfl
  | reject cause kept => rfl

theorem resume_of_unread_nil (opened : Int) (start : ReadState) (h : s.unread = []) :
    resume opened start s =
      .error (s.supply.failure.getD (.read .endOfInput)) s.exhausted := by
  rw [resume, h, Gauge.scan]

/-- Reads on from a state, taking a token only when the ones before have not completed a form.  A
token that is refused may be put back. -/
def takeForm (opened : Int) (start : ReadState) (s : Stream) : EStateM.Result Fault Stream Datum :=
  match _h : expectMore s with
  | .error f u => .error f u
  | .ok t u =>
    match Gauge.step ⟨s.limit, opened⟩ start t with
    | .shift state => takeForm opened state u
    | .complete d => .ok d u
    | .reject cause kept =>
      .error (.read cause) (if kept then { u with buffer := t :: u.buffer } else u)
termination_by s.unread.length
decreasing_by exact length_unread_expectMore _h

/-- A form that is read in one go is the form that is read token by token. -/
theorem takeForm_eq_resume (opened : Int) (start : ReadState) (s : Stream) :
    takeForm opened start s = resume opened start s := by
  generalize hts : s.unread = ts
  induction ts generalizing start s with
  | nil =>
    rw [takeForm, resume_of_unread_nil _ _ hts, expectMore_of_unread_nil hts]
  | cons t ts ih =>
    rw [takeForm, resume_of_unread_cons _ _ hts, expectMore_of_unread_cons hts]
    dsimp only
    cases Gauge.step ⟨s.limit, opened⟩ start t with
    | shift state => exact ih state _ (unread_upTo s 0 ts)
    | complete d => rfl
    | reject cause kept =>
      cases kept with
      | true => exact congrArg _ (upTo_one_cons t ts).symm
      | false => rfl

theorem length_unread_takeForm {opened : Int} {start : ReadState} {d : Datum}
    (h : takeForm opened start s = .ok d u) : u.unread.length < s.unread.length := by
  rw [takeForm_eq_resume] at h
  unfold resume at h
  split at h
  next rest hscan =>
    cases h
    rw [unread_upTo]
    exact Gauge.length_scan hscan
  next => cases h
  next => cases h

/-- Reads form after form, as long as there is a token to look at. -/
def drain (s : Stream) : Reading :=
  match _hpeek : peek s with
  | .error f _ => ⟨[], some f⟩
  | .ok none _ => ⟨[], none⟩
  | .ok (some _) u =>
    match _hform : takeForm u.nesting (.ready []) u with
    | .error f _ => ⟨[], some f⟩
    | .ok d v => (drain v).cons d
termination_by s.unread.length
decreasing_by
  rw [← unread_of_peek _hpeek]
  exact length_unread_takeForm _hform

/-- Draining gives the forms that are read when all tokens are there, and meets the same fault. -/
theorem drain_eq_readAll (s : Stream) : s.drain = s.readAll := by
  -- every form takes at least one token, so what is left gets shorter
  generalize hn : s.unread.length = n
  induction n using Nat.strongRecOn generalizing s with
  | ind n ih =>
    rw [drain, readAll]
    cases hts : s.unread with
    | nil =>
      rw [eq_of_unread_nil hts]
      cases s.supply.failure <;> rfl
    | cons t ts =>
      rw [peek_of_unread_cons hts, Gauge.readFrom_eq_readScan _ (.inr (List.cons_ne_nil t ts))]
      dsimp only
      have limited : (s.upTo 1 (t :: ts)).limit = s.limit := rfl
      have opened : (s.upTo 1 (t :: ts)).nesting = s.nesting := rfl
      rw [takeForm_eq_resume, resume, unread_upTo, limited, opened]
      cases hscan : Gauge.scan ⟨s.limit, s.nesting⟩ (.ready []) (t :: ts) with
      | complete d rest =>
        have shorter : rest.length < n := by
          rw [← hn, hts]
          exact Gauge.length_scan hscan
        have later := ih _ shorter ((s.upTo 1 (t :: ts)).upTo 0 rest) (by rw [unread_upTo])
        rw [readAll, unread_upTo] at later
        exact congrArg (Reading.cons d) later
      | reject cause kept rest => rfl
      | hungry => rfl

end Stream

/-! ## The fault of the supply -/

/-- Either some token is refused, and then it does not matter how the supply ends, or all tokens are
taken, and then its fault is the next thing that is met. -/
theorem Gauge.readFrom_cases (g : Gauge) (s : ReadState) (ts : List Token) :
    (∃ forms f, f ≠ .read .endOfInput ∧ ∀ failure, g.readFrom failure s ts = ⟨forms, some f⟩) ∨
    ∃ forms, (g.readFrom none s ts = ⟨forms, none⟩ ∨
      g.readFrom none s ts = ⟨forms, some (.read .endOfInput)⟩) ∧
      ∀ e, g.readFrom (some e) s ts = ⟨forms, some e⟩ := by
  have resumed (failure : Option Fault) := g.readFrom_eq_resume failure s ts
  cases hp : g.progress s ts with
  | stuck forms cause =>
    have refused : Fault.read cause ≠ .read .endOfInput :=
      fun h => cause_ne_endOfInput hp (Fault.read.inj h)
    refine .inl ⟨forms, .read cause, refused, fun failure => ?_⟩
    rw [resumed, hp]
    rfl
  | standing forms state =>
    have finished (failure : Option Fault) :
        g.readFrom failure s ts = (state.finish failure).prepend forms := by
      rw [resumed, hp]
      rfl
    refine .inr ⟨forms, ?_, fun e => ?_⟩
    all_goals
      rw [finished, Reading.prepend]
      unfold ReadState.finish
      split <;> simp

/-- Forms that are read as the tokens come are those of all the tokens together.  If there is a
fault behind the tokens, it is met exactly where the tokens alone would end well or too early, and a
token that is refused hides it. -/
theorem read_lazily (source : String) :
    (Stream.ofLexed (lex source) maxNesting).drain = read source ∧
    (Stream.ofLexed ⟨(lex source).tokens, none⟩ maxNesting).drain =
      readTokens maxNesting (lex source).tokens ∧
    ((lex source).failure = none → read source = readTokens maxNesting (lex source).tokens) ∧
    ∀ e, (lex source).failure = some e →
      (read source).forms = (readTokens maxNesting (lex source).tokens).forms ∧
      ((readTokens maxNesting (lex source).tokens).failure = none ∨
        (readTokens maxNesting (lex source).tokens).failure = some (.read .endOfInput) →
        (read source).failure = some e) ∧
      ∀ f, (readTokens maxNesting (lex source).tokens).failure = some f → f ≠ .read .endOfInput →
        (read source).failure = some f := by
  have lazily : read source =
      Gauge.readFrom ⟨maxNesting, 0⟩ (lex source).failure (.ready []) (lex source).tokens := rfl
  have eagerly : readTokens maxNesting (lex source).tokens =
      Gauge.readFrom ⟨maxNesting, 0⟩ none (.ready []) (lex source).tokens := rfl
  refine ⟨Stream.drain_eq_readAll _, Stream.drain_eq_readAll _, fun h => ?_, fun e h => ?_⟩
  · rw [lazily, eagerly, h]
  · rw [lazily, eagerly, h]
    obtain ⟨forms, f, hf, hr⟩ | ⟨forms, hr | hr, he⟩ :=
      Gauge.readFrom_cases ⟨maxNesting, 0⟩ (.ready []) (lex source).tokens
    · rw [hr, hr]
      refine ⟨rfl, ?_, fun f' h _ => h⟩
      rintro (h | h)
      · cases h
      · exact absurd (Option.some.inj h) hf
    · rw [hr, he]
      exact ⟨rfl, fun _ => rfl, nofun⟩
    · rw [hr, he]
      refine ⟨rfl, fun _ => rfl, fun f h hf => ?_⟩
      cases h
      exact absurd rfl hf

/-- A text that ends within a string: the fault shows behind an open bracket, but not behind a
bracket that closes nothing. -/
theorem read_lazily_unterminated :
    (lex "(\"").failure = some (.lex 1 .unterminated) ∧
    (read "(\"").failure = some (.lex 1 .unterminated) ∧
    (lex ")\"").failure = some (.lex 1 .unterminated) ∧
    (read ")\"").failure = some (.read (.unexpected ⟨.closeParen, .str ")", 1⟩)) := by
  have opened : lex "(\"" = ⟨[⟨.openParen, .str "(", 1⟩], some (.lex 1 .unterminated)⟩ := by cbv
  have closed : lex ")\"" = ⟨[⟨.closeParen, .str ")", 1⟩], some (.lex 1 .unterminated)⟩ := by cbv
  have early : (readTokens maxNesting (lex "(\"").tokens).failure = some (.read .endOfInput) := by
    rw [opened]
    rfl
  have refused : (readTokens maxNesting (lex ")\"").tokens).failure =
      some (.read (.unexpected ⟨.closeParen, .str ")", 1⟩)) := by
    rw [closed]
    rfl
  have hopened := congrArg Lexed.failure opened
  have hclosed := congrArg Lexed.failure closed
  refine ⟨hopened, ?_, hclosed, ?_⟩
  · exact ((read_lazily "(\"").2.2.2 _ hopened).2.1 (.inr early)
  · refine ((read_lazily ")\"").2.2.2 _ hclosed).2.2 _ refused ?_
    intro h
    cases h

end DynLisp
