import DynLisp.Proofs.Reader.Lazy
import DynLisp.Reader.Descent

/-!
# Recursive descent reads what a stream reads

`Descent.form` is `Stream.form` and `Descent.collection` is `Stream.collection`, with the same
answer or fault and the same stream left behind.  A routine that waits for the end of a bracket is
the reader in a state with one hole, and a form inside that bracket is read as it would be on its
own with one more bracket open around it (`Stream.resume_ready`).
-/

namespace DynLisp

/-! ## Forms inside brackets -/

/-- What becomes of an open bracket when a form fills it. -/
def Hole.filled (d : Datum) : Hole → ReadState
  | .call taken => .ready [.call (d :: taken)]
  | .brace taken => .ready [.brace (d :: taken)]
  | .value entries key => .beforeKey (Assoc.insert entries key d) []

/-- The same state with one more bracket open around it. -/
def ReadState.under (hole : Hole) : ReadState → ReadState
  | .ready holes => .ready (holes ++ [hole])
  | .emptyMap holes => .emptyMap (holes ++ [hole])
  | .beforeKey entries holes => .beforeKey entries (holes ++ [hole])
  | .afterKey entries key holes => .afterKey entries key (holes ++ [hole])

/-- The same verdict with one more bracket open around it: a complete form fills that bracket. -/
def Verdict.under (hole : Hole) : Verdict → Verdict
  | .shift s => .shift (s.under hole)
  | .complete d => .shift (hole.filled d)
  | .reject cause kept => .reject cause kept

theorem fill_under (hole : Hole) (d : Datum) (holes : List Hole) :
    fill d (holes ++ [hole]) = (fill d holes).under hole := by
  cases holes with
  | nil => cases hole <;> rfl
  | cons inner holes => cases inner <;> rfl

namespace Gauge

/-- One more bracket is open. -/
def deeper (g : Gauge) : Gauge := ⟨g.limit, g.opened + 1⟩

/-- A token starts a form where the bracket is open, so it neither closes the bracket nor makes a
map of it. -/
def Starts (t : Token) (hole : Hole) : Prop :=
  ∀ g : Gauge, g.step (.ready [hole]) t = g.start [hole] t

variable (g : Gauge) (hole : Hole)

theorem push_under (inner : Hole) (holes : List Hole) :
    g.push inner (holes ++ [hole]) = (g.deeper.push inner holes).under hole := by
  have same : g.opened + ((holes ++ [hole]).length : Int) = g.opened + 1 + holes.length := by
    rw [List.length_append, List.length_singleton]
    omega
  unfold push
  rw [same]
  show _ = Verdict.under hole (if g.limit ≤ g.opened + 1 + holes.length then _ else _)
  by_cases h : g.limit ≤ g.opened + 1 + holes.length
  · rw [if_pos h, if_pos h]
    rfl
  · rw [if_neg h, if_neg h]
    rfl

theorem start_under (holes : List Hole) (t : Token) :
    g.start (holes ++ [hole]) t = (g.deeper.start holes t).under hole := by
  unfold start
  split
  case h_6 =>
    cases t.name? with
    | some name => exact fill_under hole _ holes
    | none => rfl
  case h_7 | h_8 => exact g.push_under hole _ holes
  case h_9 => rfl
  all_goals exact fill_under hole _ holes

/-- Inside a bracket a token does what it does without that bracket, unless it is the bracket's
own. -/
theorem step_under {s : ReadState} {t : Token} (h : s ≠ .ready [] ∨ Starts t hole) :
    g.step (s.under hole) t = (g.deeper.step s t).under hole := by
  cases s with
  | ready holes =>
    cases holes with
    | nil =>
      have hs : Starts t hole := h.resolve_left (not_not.mpr rfl)
      exact (hs g).trans (g.start_under hole [] t)
    | cons inner holes =>
      cases inner with
      | call taken =>
        by_cases hk : t.kind = .closeParen
        · simpa [step, ReadState.under, hk] using fill_under hole _ holes
        · simpa [step, ReadState.under, hk] using g.start_under hole (.call taken :: holes) t
      | brace taken =>
        simp only [step, ReadState.under, List.cons_append]
        split
        · exact fill_under hole _ holes
        · rfl
        · rfl
        · rfl
        · rfl
        · exact g.start_under hole (.brace _ :: holes) t
      | value entries key => exact g.start_under hole (.value entries key :: holes) t
  | emptyMap holes =>
    by_cases hk : t.kind = .closeBrace
    · simpa [step, ReadState.under, hk] using fill_under hole _ holes
    · simp [step, ReadState.under, Verdict.under, hk]
  | beforeKey entries holes =>
    simp only [step, ReadState.under]
    split
    · exact fill_under hole _ holes
    · rfl
    · rfl
  | afterKey entries key holes =>
    by_cases hk : t.kind = .colon
    · simp [step, ReadState.under, Verdict.under, hk]
    · simp [step, ReadState.under, Verdict.under, hk]

/-- What comes of a scan without a bracket, with that bracket around it. -/
def scanOut (g : Gauge) (hole : Hole) : Scan → Scan
  | .complete d rest => g.scan (hole.filled d) rest
  | .reject cause kept rest => .reject cause kept rest
  | .hungry => .hungry

theorem scan_under (s : ReadState) {ts : List Token}
    (h : s ≠ .ready [] ∨ ∀ t ∈ ts.head?, Starts t hole) :
    g.scan (s.under hole) ts = g.scanOut hole (g.deeper.scan s ts) := by
  induction ts generalizing s with
  | nil => rfl
  | cons t ts ih =>
    have hs : s ≠ .ready [] ∨ Starts t hole := h.imp_right fun hs => hs t rfl
    rw [scan, scan, g.step_under hole hs]
    cases hstep : g.deeper.step s t with
    | shift s' =>
      -- from here on a bracket of the form itself is open
      refine ih s' (.inl ?_)
      rintro rfl
      exact g.deeper.step_ne_ready_nil s t hstep
    | complete d => rfl
    | reject cause kept => rfl

end Gauge

namespace Stream

variable {s u : Stream} {α β : Type}

/-! ## Actions one after another -/

theorem bind_of_ok {act : Reader α} {k : α → Reader β} {a : α} (h : act s = .ok a u) :
    (act >>= k) s = k a u := by
  simp only [bind, EStateM.bind, h]

theorem bind_of_error {act : Reader α} {k : α → Reader β} {f : Fault} (h : act s = .error f u) :
    (act >>= k) s = .error f u := by
  simp only [bind, EStateM.bind, h]

/-- Two actions end alike if their first parts do, and what follows a success does. -/
theorem bind_congr_at {act act' : Reader α} {k k' : α → Reader β} (h : act s = act' s)
    (hk : ∀ a u, act' s = .ok a u → k a u = k' a u) : (act >>= k) s = (act' >>= k') s := by
  cases hr : act' s with
  | ok a u => rw [bind_of_ok (h.trans hr), bind_of_ok hr, hk a u hr]
  | error f u => rw [bind_of_error (h.trans hr), bind_of_error hr]

/-! ## Reading on -/

/-- A token that has been looked at is read like one that has not. -/
theorem resume_of_peek {t : Token} {ts : List Token} (opened : Int) (start : ReadState)
    (h : s.unread = t :: ts) :
    resume opened start (s.upTo 1 (t :: ts)) = resume opened start s := by
  have limited : (s.upTo 1 (t :: ts)).limit = s.limit := rfl
  rw [resume, resume, unread_upTo, limited, h]
  cases hscan : Gauge.scan ⟨s.limit, opened⟩ start (t :: ts) with
  | complete d rest =>
    have shorter := Gauge.length_scan hscan
    dsimp only
    rw [upTo_upTo (by omega)]
  | reject cause kept rest =>
    have shorter := Gauge.length_scan_reject hscan
    dsimp only
    rw [upTo_upTo (by omega)]
  | hungry => rfl

theorem nesting_resume {opened : Int} {start : ReadState} {d : Datum}
    (h : resume opened start s = .ok d u) : u.nesting = s.nesting := by
  unfold resume at h
  split at h
  next =>
    cases h
    rfl
  next => cases h
  next => cases h

theorem length_unread_resume {opened : Int} {start : ReadState} {d : Datum}
    (h : resume opened start s = .ok d u) : u.unread.length < s.unread.length :=
  length_unread_takeForm ((takeForm_eq_resume opened start s).trans h)

/-- A form inside a bracket is read with one more bracket open, and then reading goes on in that
bracket. -/
theorem resume_ready {opened : Int} {hole : Hole} (h : ∀ t ∈ s.unread.head?, Gauge.Starts t hole) :
    resume opened (.ready [hole]) s =
      (resume (opened + 1) (.ready []) >>= fun d => resume opened (hole.filled d)) s := by
  have scanned : Gauge.scan ⟨s.limit, opened⟩ (.ready [hole]) s.unread =
      Gauge.scanOut ⟨s.limit, opened⟩ hole (Gauge.scan ⟨s.limit, opened + 1⟩
        (.ready []) s.unread) :=
    Gauge.scan_under ⟨s.limit, opened⟩ hole (.ready []) (.inr h)
  rw [resume, scanned]
  cases hscan : Gauge.scan ⟨s.limit, opened + 1⟩ (.ready []) s.unread with
  | complete d rest =>
    have inner : resume (opened + 1) (.ready []) s = .ok d (s.upTo 0 rest) := by
      rw [resume, hscan]
    have limited : (s.upTo 0 rest).limit = s.limit := rfl
    rw [bind_of_ok inner, resume, unread_upTo, limited]
    dsimp only [Gauge.scanOut]
    cases hrest : Gauge.scan ⟨s.limit, opened⟩ (hole.filled d) rest with
    | complete d' rest' =>
      have shorter := Gauge.length_scan hrest
      dsimp only
      rw [upTo_upTo (by omega)]
    | reject cause kept rest' =>
      have shorter := Gauge.length_scan_reject hrest
      dsimp only
      rw [upTo_upTo (by omega)]
    | hungry => rfl
  | reject cause kept rest =>
    have inner : resume (opened + 1) (.ready []) s =
        .error (.read cause) (s.upTo kept.toNat rest) := by rw [resume, hscan]
    rw [bind_of_error inner]
    rfl
  | hungry =>
    have inner : resume (opened + 1) (.ready []) s =
        .error (s.supply.failure.getD (.read .endOfInput)) s.exhausted := by rw [resume, hscan]
    rw [bind_of_error inner]
    rfl

/-! ## What the routines are made of -/

theorem peekKind_of_unread_cons {t : Token} {ts : List Token} (h : s.unread = t :: ts) :
    peekKind s = .ok (some t.kind) (s.upTo 1 (t :: ts)) :=
  bind_of_ok (peek_of_unread_cons h)

/-- A token that has been looked at is consumed as if it had not been. -/
theorem advance_of_peek (s : Stream) (t : Token) (ts : List Token) (act : Reader α) :
    (do discard advance; act) (s.upTo 1 (t :: ts)) = act (s.upTo 0 ts) := by
  have taken : advance (s.upTo 1 (t :: ts)) = .ok (some t) (s.upTo 0 ts) := by
    rw [advance_of_unread_cons (unread_upTo s 1 (t :: ts)), upTo_upTo (by simp)]
  exact bind_of_ok (bind_of_ok taken)

/-- Where there is no token, looking for one ends like reading on, if what follows does. -/
theorem bind_peekKind_of_unread_nil {k : Option TokenKind → Reader Datum} {opened : Int}
    {start : ReadState} (h : s.unread = [])
    (hk : s.supply.failure = none → k none s = resume opened start s) :
    (peekKind >>= k) s = resume opened start s := by
  cases hf : s.supply.failure with
  | none =>
    have looked : peekKind s = .ok none s := by
      rw [eq_of_unread_nil h, hf]
      rfl
    rw [bind_of_ok looked, hk hf]
  | some f =>
    rw [resume_of_unread_nil opened start h, eq_of_unread_nil h, hf]
    rfl

theorem throw_of_unread_nil {opened : Int} {start : ReadState} (h : s.unread = [])
    (hf : s.supply.failure = none) :
    (throw (.read .endOfInput) : Reader Datum) s = resume opened start s := by
  rw [resume_of_unread_nil opened start h, eq_of_unread_nil h, hf]
  rfl

/-- Goes on after a token that has been taken. -/
def after (opened : Int) : Verdict → Reader Datum
  | .shift state => resume opened state
  | .complete d => return d
  | .reject cause _ => throw (.read cause)

/-- Where only one kind of token may stand, to check the next token for that kind is to read on. -/
theorem expect_eq_resume {opened : Int} {start : ReadState} {kind : TokenKind} {v : Verdict}
    {cause : ReadFault} {act : Reader Datum}
    (hstep :
    ∀ (g : Gauge) (t : Token), g.step start t = if t.kind = kind then v else .reject cause false)
    (hv : ∀ cause kept, v ≠ .reject cause kept)
    (hact : ∀ u : Stream, u.nesting = s.nesting → u.unread.length < s.unread.length →
      act u = after opened v u) :
    (do let t ← expectMore; if t.kind = kind then act else throw (Fault.read cause)) s =
      resume opened start s := by
  cases hts : s.unread with
  | nil => rw [bind_of_error (expectMore_of_unread_nil hts), resume_of_unread_nil _ _ hts]
  | cons t ts =>
    rw [bind_of_ok (expectMore_of_unread_cons hts), resume_of_unread_cons _ _ hts, hstep]
    by_cases hk : t.kind = kind
    · have shorter : (s.upTo 0 ts).unread.length < s.unread.length := by
        rw [unread_upTo, hts]
        exact Nat.lt_succ_self ts.length
      have ended := hact (s.upTo 0 ts) rfl shorter
      rw [if_pos hk, if_pos hk]
      cases v with
      | shift state => exact ended
      | complete d => exact ended
      | reject cause kept => exact absurd rfl (hv cause kept)
    · rw [if_neg hk, if_neg hk]
      rfl

/-- A bracket is no longer counted when its closing token is taken, which makes no difference. -/
theorem nested_bind_advance (act : Reader α) (k : α → β) :
    (do let a ← nested act; discard advance; return k a) =
      nested (do let a ← act; discard advance; return k a) := by
  funext s
  simp only [nested, bind, EStateM.bind]
  by_cases h : s.limit ≤ s.nesting
  · rw [if_pos h, if_pos h]
  · rw [if_neg h, if_neg h]
    cases act { s with nesting := s.nesting + 1 } with
    | error f u => rfl
    | ok a u =>
      obtain ⟨buffer, ⟨tokens, failure⟩, limit, nesting⟩ := u
      cases buffer with
      | cons t ts => rfl
      | nil =>
        cases tokens with
        | cons t ts => rfl
        | nil => cases failure <;> rfl

/-- To read on inside a bracket that is counted is to read on with that bracket in the state, if
there is room for it. -/
theorem nested_of_resume {act : Reader Datum} {hole : Hole}
    (h : act { s with nesting := s.nesting + 1 } =
      resume ((s.nesting + 1 : Nat) - 1) (.ready [hole]) { s with nesting := s.nesting + 1 }) :
    nested act s =
      if s.limit ≤ s.nesting then .error (.read (.tooDeep s.limit)) s
      else resume s.nesting (.ready [hole]) s := by
  have outside : ((s.nesting + 1 : Nat) : Int) - 1 = s.nesting := by omega
  have same : unread { s with nesting := s.nesting + 1 } = s.unread := rfl
  unfold nested
  rw [h, outside]
  unfold resume
  rw [same]
  dsimp only
  cases Gauge.scan ⟨s.limit, s.nesting⟩ (.ready [hole]) s.unread <;> rfl

/-- A token that opens a bracket, and the routine for the bracket after it. -/
theorem nested_eq_resume {act : Reader Datum} {hole : Hole} {t : Token} {ts : List Token}
    (hts : s.unread = t :: ts) (ht : ∀ g : Gauge, g.start [] t = g.push hole [])
    (h : act { s.upTo 0 ts with nesting := s.nesting + 1 } =
      resume ((s.nesting + 1 : Nat) - 1) (.ready [hole])
        { s.upTo 0 ts with nesting := s.nesting + 1 }) :
    nested act (s.upTo 0 ts) = resume s.nesting (.ready []) s := by
  have none_open : (s.nesting : Int) + ([] : List Hole).length = s.nesting := Int.add_zero _
  have step (g : Gauge) : g.step (.ready []) t = g.push hole [] := ht g
  have limited : (s.upTo 0 ts).limit = s.limit := rfl
  have counted : (s.upTo 0 ts).nesting = s.nesting := rfl
  rw [nested_of_resume h, resume_of_unread_cons _ _ hts, step, Gauge.push, none_open, limited,
    counted]
  dsimp only
  by_cases deep : s.limit ≤ s.nesting
  · rw [if_pos deep, if_pos deep]
    rfl
  · rw [if_neg deep, if_neg deep]

namespace Descent

/-! ## The routines read what a stream reads -/

/-- With so many calls inside each other, each routine reads on from the state in which its bracket
is open. -/
structure Agrees (n : Nat) : Prop where
  form (s : Stream) (h : 2 * s.unread.length < n) : form n s = resume s.nesting (.ready []) s
  call (s : Stream) (taken : List Datum) (h : 2 * s.unread.length + 1 < n) :
    (do let items ← callItems n taken; discard advance; return Datum.call 0 items) s =
      resume (s.nesting - 1) (.ready [.call taken]) s
  collection (s : Stream) (h : 2 * s.unread.length + 1 < n) :
    collection n s = resume (s.nesting - 1) (.ready [.brace []]) s
  /-- A colon after the first form would make a map of the list, so it has been ruled out. -/
  list (s : Stream) (taken : List Datum) (h : 2 * s.unread.length + 1 < n)
    (hc : taken.length = 1 → ∀ t ∈ s.unread.head?, t.kind ≠ .colon) (hne : taken ≠ []) :
    listRest n taken s = resume (s.nesting - 1) (.ready [.brace taken]) s
  map (s : Stream) (entries : Assoc Datum) (key : String) (h : 2 * s.unread.length + 1 < n) :
    mapRest n entries key s = resume (s.nesting - 1) (.ready [.value entries key]) s

variable {n : Nat}

theorem form_succ (h : Agrees n) (hs : 2 * s.unread.length < n + 1) :
    form (n + 1) s = resume s.nesting (.ready []) s := by
  rw [form]
  cases hts : s.unread with
  | nil => rw [bind_of_error (expectMore_of_unread_nil hts), resume_of_unread_nil _ _ hts]
  | cons t ts =>
    rw [hts, List.length_cons] at hs
    rw [bind_of_ok (expectMore_of_unread_cons hts)]
    have started (g : Gauge) : g.step (.ready []) t = g.start [] t := rfl
    have inside : unread { s.upTo 0 ts with nesting := s.nesting + 1 } = ts := unread_upTo s 0 ts
    have shorter : 2 * (unread { s.upTo 0 ts with nesting := s.nesting + 1 }).length + 1 < n := by
      rw [inside]
      omega
    cases hk : t.kind with
    | openParen =>
      have opens (g : Gauge) : g.start [] t = g.push (.call []) [] := by simp only [Gauge.start, hk]
      exact (congrFun (nested_bind_advance _ _) _).trans
        (nested_eq_resume hts opens (h.call _ [] shorter))
    | openBrace =>
      have opens (g : Gauge) : g.start [] t = g.push (.brace []) [] := by
        simp only [Gauge.start, hk]
      exact nested_eq_resume hts opens (h.collection _ shorter)
    | symbol =>
      rw [resume_of_unread_cons _ _ hts, started]
      simp only [Gauge.start, hk]
      cases t.name? <;> rfl
    | _ =>
      rw [resume_of_unread_cons _ _ hts, started]
      simp only [Gauge.start, hk]
      rfl

/-- A routine that reads a form in its bracket and goes on with that form in the bracket. -/
theorem form_bind (h : Agrees n) {hole : Hole} (hs : 2 * s.unread.length < n)
    (hstart : ∀ t ∈ s.unread.head?, Gauge.Starts t hole) {k : Datum → Reader Datum}
    (hk : ∀ d u, u.unread.length < s.unread.length →
      k d u = resume (u.nesting - 1) (hole.filled d) u) :
    (form n >>= k) s = resume (s.nesting - 1) (.ready [hole]) s := by
  rw [resume_ready hstart, Int.sub_add_cancel]
  refine bind_congr_at (h.form s hs) fun d u hu => ?_
  rw [← nesting_resume hu]
  exact hk d u (length_unread_resume hu)

/-- The same where the first token of the form has been looked at. -/
theorem form_bind_of_peek (h : Agrees n) {hole : Hole} {t : Token} {ts : List Token}
    (hts : s.unread = t :: ts) (hs : 2 * (ts.length + 1) < n) (hstart : Gauge.Starts t hole)
    {k : Datum → Reader Datum}
    (hk : ∀ d u, u.unread.length ≤ ts.length → k d u = resume (u.nesting - 1) (hole.filled d) u) :
    (form n >>= k) (s.upTo 1 (t :: ts)) =
      resume (s.nesting - 1) (.ready [hole]) s := by
  rw [← resume_of_peek _ _ hts]
  refine form_bind h ?_ ?_ fun d u hu => hk d u ?_
  · rw [unread_upTo]
    exact hs
  · rw [unread_upTo]
    rintro _ ⟨⟩
    exact hstart
  · rw [unread_upTo] at hu
    exact Nat.le_of_lt_succ hu

theorem call_succ (h : Agrees n) (taken : List Datum) (hs : 2 * s.unread.length + 1 < n + 1) :
    (do let items ← callItems (n + 1) taken; discard advance; return Datum.call 0 items) s =
      resume (s.nesting - 1) (.ready [.call taken]) s := by
  rw [callItems, bind_assoc]
  cases hts : s.unread with
  | nil => exact bind_peekKind_of_unread_nil hts (throw_of_unread_nil hts)
  | cons t ts =>
    rw [hts, List.length_cons] at hs
    rw [bind_of_ok (peekKind_of_unread_cons hts)]
    cases hk : t.kind with
    | closeParen =>
      rw [resume_of_unread_cons _ _ hts, Gauge.step, if_pos hk]
      exact advance_of_peek s t ts _
    | _ =>
      have starts : Gauge.Starts t (.call taken) := fun g => if_neg (by simp [hk])
      refine (congrFun (bind_assoc _ _ _) _).trans
        (form_bind_of_peek h hts (by omega) starts fun d u hu => ?_)
      exact h.call u (d :: taken) (by omega)

theorem list_succ (h : Agrees n) {taken : List Datum} (hs : 2 * s.unread.length + 1 < n + 1)
    (hc : taken.length = 1 → ∀ t ∈ s.unread.head?, t.kind ≠ .colon) (hne : taken ≠ []) :
    listRest (n + 1) taken s = resume (s.nesting - 1) (.ready [.brace taken]) s := by
  rw [listRest]
  cases hts : s.unread with
  | nil => exact bind_peekKind_of_unread_nil hts (throw_of_unread_nil hts)
  | cons t ts =>
    rw [hts, List.length_cons] at hs
    rw [hts] at hc
    rw [bind_of_ok (peekKind_of_unread_cons hts)]
    cases hk : t.kind with
    | closeBrace =>
      have closes (g : Gauge) :
          g.step (.ready [.brace taken]) t = .complete (.listForm taken.reverse) := by
        simp [Gauge.step, hk, fill]
      rw [resume_of_unread_cons _ _ hts, closes]
      exact advance_of_peek s t ts _
    | colon =>
      have rejects (g : Gauge) : g.step (.ready [.brace taken]) t = .reject .colonInList true := by
        obtain _ | ⟨first, _ | ⟨second, taken⟩⟩ := taken
        · exact absurd rfl hne
        · exact absurd hk (hc rfl t rfl)
        · simp [Gauge.step, hk]
      rw [resume_of_unread_cons _ _ hts, rejects]
      rfl
    | _ =>
      have starts : Gauge.Starts t (.brace taken) := fun g => by simp [Gauge.step, hk]
      refine form_bind_of_peek h hts (by omega) starts fun d u hu => ?_
      exact h.list u (d :: taken) (by omega) (by simp [hne]) (List.cons_ne_nil d taken)

/-- After the first form in a brace the next token tells a map from a list. -/
theorem first_bind (h : Agrees n) (first : Datum) (hs : 2 * s.unread.length + 1 < n) :
    (do
      match ← peekKind, first with
      | some .colon, .symbol key =>
        discard advance
        mapRest n [] key
      | some .colon, _ => throw (Fault.read .keyNotSymbol)
      | _, _ => listRest n [first] :
          Reader Datum) s = resume (s.nesting - 1) (.ready [.brace [first]]) s := by
  cases hts : s.unread with
  | nil =>
    refine bind_peekKind_of_unread_nil hts fun _ =>
      h.list s [first] hs (fun _ => ?_) (List.cons_ne_nil first [])
    simp [hts]
  | cons t ts =>
    rw [hts, List.length_cons] at hs
    rw [bind_of_ok (peekKind_of_unread_cons hts)]
    cases hk : t.kind with
    | colon =>
      rw [resume_of_unread_cons _ _ hts]
      cases first with
      | symbol key =>
        have opens (g : Gauge) :
            g.step (.ready [.brace [.symbol key]]) t = .shift (.ready [.value [] key]) := by
          simp [Gauge.step, hk]
        rw [opens]
        refine (advance_of_peek s t ts _).trans (h.map (s.upTo 0 ts) [] key ?_)
        rw [unread_upTo]
        omega
      | _ =>
        simp only [Gauge.step, hk]
        rfl
    | _ =>
      rw [← resume_of_peek _ _ hts]
      refine h.list (s.upTo 1 (t :: ts)) [first] ?_ (fun _ => ?_) (List.cons_ne_nil first [])
      · rw [unread_upTo]
        exact hs
      · rw [unread_upTo]
        rintro _ ⟨⟩
        simp [hk]

theorem collection_succ (h : Agrees n) (hs : 2 * s.unread.length + 1 < n + 1) :
    collection (n + 1) s = resume (s.nesting - 1) (.ready [.brace []]) s := by
  rw [collection]
  cases hts : s.unread with
  | nil => exact bind_peekKind_of_unread_nil hts (throw_of_unread_nil hts)
  | cons t ts =>
    rw [hts, List.length_cons] at hs
    rw [bind_of_ok (peekKind_of_unread_cons hts)]
    cases hk : t.kind with
    | closeBrace =>
      have closes (g : Gauge) : g.step (.ready [.brace []]) t = .complete (.listForm []) := by
        simp [Gauge.step, hk, fill]
      rw [resume_of_unread_cons _ _ hts, closes]
      exact advance_of_peek s t ts _
    | colon =>
      have opens (g : Gauge) : g.step (.ready [.brace []]) t = .shift (.emptyMap []) := by
        simp [Gauge.step, hk]
      rw [resume_of_unread_cons _ _ hts, opens]
      refine (advance_of_peek s t ts _).trans ?_
      exact expect_eq_resume (fun g r => rfl) (Gauge.fill_ne_reject (.mapForm []) [])
        fun u _ _ => rfl
    | _ =>
      have starts : Gauge.Starts t (.brace []) := fun g => by simp [Gauge.step, hk]
      exact form_bind_of_peek h hts (by omega) starts fun d u hu => first_bind h d (by omega)

theorem map_succ (h : Agrees n) (entries : Assoc Datum) (key : String)
    (hs : 2 * s.unread.length + 1 < n + 1) :
    mapRest (n + 1) entries key s = resume (s.nesting - 1) (.ready [.value entries key]) s := by
  rw [mapRest]
  refine form_bind h (Nat.lt_of_succ_lt_succ hs) (fun t _ g => rfl) fun d u hu => ?_
  rw [Hole.filled]
  cases hts : u.unread with
  | nil => rw [bind_of_error (expectMore_of_unread_nil hts), resume_of_unread_nil _ _ hts]
  | cons t ts =>
    rw [hts, List.length_cons] at hu
    rw [bind_of_ok (expectMore_of_unread_cons hts), resume_of_unread_cons _ _ hts, Gauge.step]
    cases hk : t.kind with
    | symbol =>
      refine expect_eq_resume (fun g c => rfl) (by simp) fun v hn hv => ?_
      rw [unread_upTo] at hv
      have same : v.nesting = u.nesting := hn
      rw [← same]
      exact h.map v _ _ (by omega)
    | _ => rfl

/-- Each routine calls the others with one call less to go. -/
theorem agrees (n : Nat) : Agrees n := by
  induction n with
  | zero => constructor <;> intros <;> omega
  | succ n ih =>
    exact ⟨fun _ => form_succ ih, fun _ => call_succ ih, fun _ => collection_succ ih,
      fun _ _ => list_succ ih, fun _ => map_succ ih⟩

/-- Two calls for each unread token are enough. -/
theorem form_eq (h : 2 * s.unread.length < n) : form n s = Stream.form s := (agrees n).form s h

theorem collection_eq (h : 2 * s.unread.length + 1 < n) : collection n s = Stream.collection s :=
  (agrees n).collection s h

end Descent

end Stream

end DynLisp
