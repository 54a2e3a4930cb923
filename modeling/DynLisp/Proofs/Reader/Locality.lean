import DynLisp.Proofs.Reader.Descent

/-!
# What reading takes from a stream

To read a form is to take its tokens and no others: what follows them is neither looked at nor asked
for.  Whatever is asked of a stream, and however that ends, no token is lost, repeated or moved.
The tokens that have been consumed, the token that has been looked at and the tokens still in the
supply are the tokens that there were.
-/

namespace DynLisp

/-- The tokens that are left after a scan. -/
def Scan.left : Scan → List Token
  | .complete _ rest => rest
  | .reject _ _ rest => rest
  | .hungry => []

namespace Gauge

variable {g : Gauge}

/-- What follows a complete form plays no part in it. -/
theorem scan_append {s : ReadState} {ts left : List Token} {d : Datum}
    (h : g.scan s ts = .complete d left) (rest : List Token) :
    g.scan s (ts ++ rest) = .complete d (left ++ rest) := by
  induction ts generalizing s with
  | nil => cases h
  | cons t ts ih =>
    rw [scan] at h
    rw [List.cons_append, scan]
    cases hstep : g.step s t with
    | shift s' =>
      rw [hstep] at h
      exact ih h
    | complete d' =>
      rw [hstep] at h
      cases h
      rfl
    | reject cause kept =>
      rw [hstep] at h
      cases h

/-- The tokens that a scan for one form takes for good. -/
def taken (g : Gauge) : ReadState → List Token → List Token
  | _, [] => []
  | s, t :: ts =>
    match g.step s t with
    | .shift s' => t :: g.taken s' ts
    | .complete _ => [t]
    | .reject _ kept => if kept then [] else [t]

theorem taken_append_left (s : ReadState) (ts : List Token) :
    g.taken s ts ++ (g.scan s ts).left = ts := by
  induction ts generalizing s with
  | nil => rfl
  | cons t ts ih =>
    rw [taken, scan]
    cases g.step s t with
    | shift s' => exact congrArg (t :: ·) (ih s')
    | complete d => rfl
    | reject cause kept => cases kept <;> rfl

/-- The tokens that are taken until a form is complete are that form. -/
theorem derives_taken {s : ReadState} {ts begun rest : List Token} {d : Datum}
    (hs : s.Began (g.limit - g.opened) begun) (h : g.scan s ts = .complete d rest) :
    Derives (g.limit - g.opened) (begun ++ g.taken s ts) d := by
  induction ts generalizing s begun with
  | nil => cases h
  | cons t ts ih =>
    rw [scan] at h
    rw [taken]
    obtain hv | ⟨cause, kept, hv⟩ := g.takes_or_reject s t
    · have hb := hv.began hs
      cases hstep : g.step s t with
      | shift s' =>
        rw [hstep] at hb h
        simpa using ih hb h
      | complete d' =>
        rw [hstep] at hb h
        cases h
        exact hb
      | reject cause kept =>
        rw [hstep] at h
        cases h
    · rw [hv] at h
      cases h

end Gauge

/-! ## Requests -/

/-- What may be asked of a stream. -/
inductive Request where
  | peek
  | advance
  | expectMore
  | peekKind
  | form
  | collection

/-- The stream that is left behind, with a result or with a fault. -/
def Stream.final {α : Type} : EStateM.Result Fault Stream α → Stream
  | .ok _ u => u
  | .error _ u => u

namespace Request

/-- The stream after a request, whether it succeeds or fails. -/
def after : Request → Stream → Stream
  | .peek, s => Stream.final (Stream.peek s)
  | .advance, s => Stream.final (Stream.advance s)
  | .expectMore, s => Stream.final (Stream.expectMore s)
  | .peekKind, s => Stream.final (Stream.peekKind s)
  | .form, s => Stream.final (Stream.form s)
  | .collection, s => Stream.final (Stream.collection s)

/-- The tokens that a request consumes: those it hands out, or those it takes for a form. -/
def consumed : Request → Stream → List Token
  | .peek, _ | .peekKind, _ => []
  | .advance, s =>
    match Stream.advance s with
    | .ok (some t) _ => [t]
    | _ => []
  | .expectMore, s =>
    match Stream.expectMore s with
    | .ok t _ => [t]
    | _ => []
  | .form, s => Gauge.taken ⟨s.limit, s.nesting⟩ (.ready []) s.unread
  | .collection, s => Gauge.taken ⟨s.limit, s.nesting - 1⟩ (.ready [.brace []]) s.unread

/-- The stream after some requests, one after another. -/
def afterAll : List Request → Stream → Stream
  | [], s => s
  | r :: rs, s => afterAll rs (r.after s)

/-- The tokens that are consumed by some requests. -/
def consumedAll : List Request → Stream → List Token
  | [], _ => []
  | r :: rs, s => r.consumed s ++ consumedAll rs (r.after s)

end Request

/-! ## No token is lost -/

/-- Some tokens have been consumed, and nothing else has changed in what there is to read. -/
structure Stream.Consumes (s : Stream) (ts : List Token) (u : Stream) : Prop where
  unread : ts ++ u.unread = s.unread
  nesting : u.nesting = s.nesting

namespace Stream

variable {s : Stream}

theorem Consumes.refl (s : Stream) : s.Consumes [] s := ⟨rfl, rfl⟩

theorem Consumes.trans {u v : Stream} {ts ts' : List Token} (h : s.Consumes ts u)
    (h' : u.Consumes ts' v) : s.Consumes (ts ++ ts') v := by
  refine ⟨?_, h'.nesting.trans h.nesting⟩
  rw [List.append_assoc, h'.unread, h.unread]

theorem consumes_resume (opened : Int) (start : ReadState) (s : Stream) :
    s.Consumes (Gauge.taken ⟨s.limit, opened⟩ start s.unread) (final (resume opened start s)) := by
  have conserved := Gauge.taken_append_left (g := ⟨s.limit, opened⟩) start s.unread
  unfold resume
  cases hscan : Gauge.scan ⟨s.limit, opened⟩ start s.unread with
  | hungry =>
    rw [hscan] at conserved
    exact ⟨conserved, rfl⟩
  | _ =>
    rw [hscan] at conserved
    exact ⟨by rwa [final, unread_upTo], rfl⟩

theorem consumes_peek (s : Stream) : s.Consumes [] (final (peek s)) := by
  cases hts : s.unread with
  | nil =>
    rw [eq_of_unread_nil hts]
    cases s.supply.failure <;> exact ⟨rfl, rfl⟩
  | cons t ts =>
    rw [peek_of_unread_cons hts]
    exact ⟨by rw [final, unread_upTo, hts, List.nil_append], rfl⟩

theorem final_peekKind (s : Stream) : final (peekKind s) = final (peek s) := by
  cases h : peek s with
  | ok t u => exact congrArg final (bind_of_ok h)
  | error f u => exact congrArg final (bind_of_error h)

theorem consumes_advance (s : Stream) :
    s.Consumes (Request.consumed .advance s) (final (advance s)) := by
  cases hts : s.unread with
  | nil =>
    rw [eq_of_unread_nil hts]
    cases s.supply.failure <;> exact ⟨rfl, rfl⟩
  | cons t ts =>
    rw [Request.consumed, advance_of_unread_cons hts]
    exact ⟨by rw [final, unread_upTo, hts]; rfl, rfl⟩

theorem consumes_expectMore (s : Stream) :
    s.Consumes (Request.consumed .expectMore s) (final (expectMore s)) := by
  cases hts : s.unread with
  | nil =>
    rw [Request.consumed, expectMore_of_unread_nil hts]
    exact ⟨hts.symm, rfl⟩
  | cons t ts =>
    rw [Request.consumed, expectMore_of_unread_cons hts]
    exact ⟨by rw [final, unread_upTo, hts]; rfl, rfl⟩

end Stream

namespace Request

theorem consumes (r : Request) (s : Stream) : s.Consumes (r.consumed s) (r.after s) := by
  cases r with
  | peek => exact s.consumes_peek
  | advance => exact s.consumes_advance
  | expectMore => exact s.consumes_expectMore
  | peekKind =>
    rw [after, Stream.final_peekKind]
    exact s.consumes_peek
  | form => exact Stream.consumes_resume s.nesting (.ready []) s
  | collection => exact Stream.consumes_resume (s.nesting - 1) (.ready [.brace []]) s

theorem consumes_all (rs : List Request) (s : Stream) :
    s.Consumes (consumedAll rs s) (afterAll rs s) := by
  induction rs generalizing s with
  | nil => exact .refl s
  | cons r rs ih => exact (r.consumes s).trans (ih (r.after s))

end Request

/-! ## Exactly the tokens of a form -/

namespace Stream

variable {s u : Stream} {d : Datum}

theorem scan_of_form (h : form s = .ok d u) :
    Gauge.scan ⟨s.limit, s.nesting⟩ (.ready []) s.unread = .complete d u.unread := by
  have hr : resume s.nesting (.ready []) s = .ok d u := h
  unfold resume at hr
  split at hr
  next hscan =>
    cases hr
    rw [hscan, unread_upTo]
  next => cases hr
  next => cases hr

theorem derives_consumed (h : form s = .ok d u) :
    Derives (s.limit - s.nesting) (Request.consumed .form s) d :=
  Gauge.derives_taken (.ready .nil) (scan_of_form h)

/-- What follows the tokens of a form stays in the supply, with the fault behind it. -/
theorem form_of_unread_append {alone : Stream} {rest : List Token} (hb : s.buffer.length ≤ 1)
    (hl : alone.limit = s.limit) (hn : alone.nesting = s.nesting)
    (hs : s.unread = alone.unread ++ rest) (h : form alone = .ok d u) (hu : u.unread = []) :
    form s = .ok d ⟨[], ⟨rest, s.supply.failure⟩, s.limit, s.nesting⟩ := by
  have scanned := scan_of_form h
  rw [hl, hn, hu] at scanned
  -- the form takes at least one token, so nothing of the buffer is left behind it
  have supplied : rest.length ≤ s.supply.tokens.length := by
    have taken := Gauge.length_scan scanned
    have lengths := congrArg List.length hs
    rw [unread, List.length_append, List.length_append] at lengths
    rw [List.length_nil] at taken
    omega
  show resume s.nesting (.ready []) s = _
  rw [resume, hs, Gauge.scan_append scanned, List.nil_append, ← upTo_zero_of_le supplied]

/-! ## At most one token is looked at -/

theorem length_buffer_upTo {seen : Nat} {rest : List Token} (hb : s.buffer.length ≤ 1)
    (hseen : seen ≤ 1) (hrest : rest.length ≤ s.unread.length) :
    (s.upTo seen rest).buffer.length ≤ 1 := by
  have looked : (s.upTo seen rest).buffer.length ≤
      max seen (rest.length - s.supply.tokens.length) := List.length_take_le _ _
  rw [unread, List.length_append] at hrest
  omega

theorem length_buffer_resume (opened : Int) (start : ReadState) (hb : s.buffer.length ≤ 1) :
    (final (resume opened start s)).buffer.length ≤ 1 := by
  unfold resume
  cases hscan : Gauge.scan ⟨s.limit, opened⟩ start s.unread with
  | complete d rest =>
    exact length_buffer_upTo hb (Nat.zero_le 1) (Nat.le_of_lt (Gauge.length_scan hscan))
  | reject cause kept rest =>
    have shorter := Gauge.length_scan_reject hscan
    have once : kept.toNat ≤ 1 := Bool.toNat_le kept
    exact length_buffer_upTo hb once (by omega)
  | hungry => exact Nat.zero_le 1

theorem length_buffer_peek (hb : s.buffer.length ≤ 1) : (final (peek s)).buffer.length ≤ 1 := by
  cases hts : s.unread with
  | nil =>
    rw [eq_of_unread_nil hts]
    cases s.supply.failure <;> exact Nat.zero_le 1
  | cons t ts =>
    rw [peek_of_unread_cons hts]
    exact length_buffer_upTo hb (Nat.le_refl 1) (Nat.le_of_eq (congrArg List.length hts.symm))

theorem length_buffer_advance (hb : s.buffer.length ≤ 1) :
    (final (advance s)).buffer.length ≤ 1 := by
  cases hts : s.unread with
  | nil =>
    rw [eq_of_unread_nil hts]
    cases s.supply.failure <;> exact Nat.zero_le 1
  | cons t ts =>
    rw [advance_of_unread_cons hts]
    refine length_buffer_upTo hb (Nat.zero_le 1) ?_
    rw [hts]
    exact Nat.le_succ ts.length

theorem final_expectMore (s : Stream) : final (expectMore s) = final (advance s) := by
  unfold expectMore
  cases h : advance s with
  | ok t u =>
    rw [bind_of_ok h]
    cases t <;> rfl
  | error f u =>
    rw [bind_of_error h]
    rfl

end Stream

namespace Request

theorem length_buffer_after (r : Request) {s : Stream} (hb : s.buffer.length ≤ 1) :
    (r.after s).buffer.length ≤ 1 := by
  cases r with
  | peek => exact Stream.length_buffer_peek hb
  | advance => exact Stream.length_buffer_advance hb
  | expectMore =>
    rw [after, Stream.final_expectMore]
    exact Stream.length_buffer_advance hb
  | peekKind =>
    rw [after, Stream.final_peekKind]
    exact Stream.length_buffer_peek hb
  | form => exact Stream.length_buffer_resume s.nesting (.ready []) hb
  | collection => exact Stream.length_buffer_resume (s.nesting - 1) (.ready [.brace []]) hb

theorem length_buffer_afterAll (rs : List Request) {s : Stream} (hb : s.buffer.length ≤ 1) :
    (afterAll rs s).buffer.length ≤ 1 := by
  induction rs generalizing s with
  | nil => exact hb
  | cons r rs ih => exact ih (r.length_buffer_after hb)

end Request

/-- Reading a form depends on the tokens of that form alone: with other tokens behind them, or with
a fault, the form is the same, nothing is looked at ahead, and all that follows is still to be
asked for.  Whatever is asked of a stream, in any order, at most one token is held, every token is
consumed, held or still in the supply, in the order in which they came, and no bracket is left
open; tokens that are consumed for a form are that form.  A stream reads by recursive descent,
where every routine looks ahead, takes tokens and counts open brackets for itself. -/
theorem stream_reads_exactly (s : Stream) (hs : s.buffer.length ≤ 1) :
    (∀ (alone ended : Stream) (rest : List Token) (d : Datum), alone.limit = s.limit →
      alone.nesting = s.nesting → s.unread = alone.unread ++ rest →
      Stream.form alone = .ok d ended → ended.unread = [] →
      Stream.form s = .ok d ⟨[], ⟨rest, s.supply.failure⟩, s.limit, s.nesting⟩) ∧
    (∀ requests : List Request,
      let u := Request.afterAll requests s
      u.buffer.length ≤ 1 ∧
      Request.consumedAll requests s ++ u.buffer ++ u.supply.tokens = s.unread ∧
      u.nesting = s.nesting ∧
      ∀ d v, Stream.form u = .ok d v →
        Derives (u.limit - u.nesting) (Request.consumed .form u) d) ∧
    ∀ rounds, 2 * s.unread.length + 1 < rounds →
      Stream.Descent.form rounds s = Stream.form s ∧
      Stream.Descent.collection rounds s = Stream.collection s := by
  refine ⟨?_, fun requests => ?_, fun rounds h => ?_⟩
  · intro alone ended rest d hl hn hu h he
    exact Stream.form_of_unread_append hs hl hn hu h he
  · have conserved := Request.consumes_all requests s
    refine ⟨Request.length_buffer_afterAll requests hs, ?_, conserved.nesting, fun d v h => ?_⟩
    · rw [List.append_assoc]
      exact conserved.unread
    · exact Stream.derives_consumed h
  · exact ⟨Stream.Descent.form_eq (by omega), Stream.Descent.collection_eq h⟩

/-- A call before a symbol and an unterminated string: the call is read as if it stood alone, and
the fault is not met. -/
theorem stream_reads_exactly_call :
    let call : List Token :=
      [⟨.openParen, .str "(", 1⟩, ⟨.symbol, .str "f", 1⟩, ⟨.closeParen, .str ")", 1⟩]
    let rest : Lexed := ⟨[⟨.symbol, .str "x", 1⟩], some (.lex 1 .unterminated)⟩
    let s : Stream := .ofLexed ⟨call ++ rest.tokens, rest.failure⟩ maxNesting
    s.buffer.length ≤ 1 ∧
    Stream.form s = .ok (.call 0 [.symbol "f"]) (.ofLexed rest maxNesting) ∧
    Stream.Descent.form 10 s = Stream.form s := by
  intro call rest s
  obtain ⟨reads, -, descends⟩ := stream_reads_exactly s (Nat.zero_le 1)
  refine ⟨Nat.zero_le 1, ?_, (descends 10 (by decide)).1⟩
  exact reads (.ofLexed ⟨call, none⟩ maxNesting) (.ofLexed .empty maxNesting) rest.tokens _ rfl rfl
    rfl rfl rfl

end DynLisp
