import DynLisp.Proofs.Reader.Viable
import DynLisp.Proofs.Token.Lines

/-!
# Reading joined texts

The reader never looks at the line of a token, except to report it.  So what is read from a text
that stands further down is the same, and a fault is moved along with the text.

A text that is read without a fault leaves the reader as it was at the start.  What follows it on a
line of its own is read as if it stood alone.
-/

namespace DynLisp

def Verdict.moved (k : Int) : Verdict → Verdict
  | .reject cause kept => .reject (cause.moved k) kept
  | v => v

/-- The reading as it is `k` lines further down. -/
def Reading.moved (k : Int) (r : Reading) : Reading := ⟨r.forms, r.failure.map (Fault.moved k)⟩

theorem fill_moved (k : Int) (d : Datum) (holes : List Hole) :
    (fill d holes).moved k = fill d holes := by
  unfold fill
  split <;> rfl

namespace Gauge

variable (g : Gauge) (k : Int)

theorem push_moved (hole : Hole) (holes : List Hole) :
    (g.push hole holes).moved k = g.push hole holes := by
  unfold push
  split <;> rfl

theorem start_moved (holes : List Hole) (t : Token) :
    g.start holes (t.moved k) = (g.start holes t).moved k := by
  have hname : (t.moved k).name? = t.name? := rfl
  have hkind : (t.moved k).kind = t.kind := rfl
  unfold start
  rw [hname, hkind]
  split
  case h_1 | h_2 | h_3 | h_4 | h_5 => exact (fill_moved _ _ _).symm
  case h_6 =>
    split
    · exact (fill_moved _ _ _).symm
    · rfl
  case h_7 | h_8 => exact (g.push_moved _ _ _).symm
  case h_9 => rfl

/-- What a token does has nothing to do with its line. -/
theorem step_moved (s : ReadState) (t : Token) : g.step s (t.moved k) = (g.step s t).moved k := by
  have hkind : (t.moved k).kind = t.kind := rfl
  have started := fun holes => g.start_moved k holes t
  cases s with
  | ready holes =>
    cases holes with
    | nil => exact started _
    | cons hole holes =>
      cases hole with
      | call taken =>
        rw [step, step, hkind]
        split
        · exact (fill_moved _ _ _).symm
        · exact started _
      | brace taken =>
        unfold step
        dsimp only
        rw [hkind]
        split
        case h_1 => exact (fill_moved _ _ _).symm
        case h_2 | h_3 | h_4 | h_5 => rfl
        case h_6 => exact started _
      | value entries key => exact started _
  | emptyMap holes =>
    rw [step, step, hkind]
    split
    · exact (fill_moved _ _ _).symm
    · rfl
  | beforeKey entries holes =>
    rw [step, step, hkind]
    split
    case h_1 => exact (fill_moved _ _ _).symm
    case h_2 | h_3 => rfl
  | afterKey entries key holes =>
    rw [step, step, hkind]
    split <;> rfl

theorem readFrom_moved (failure : Option Fault) (s : ReadState) (ts : List Token) :
    g.readFrom (failure.map (Fault.moved k)) s (ts.map (Token.moved k)) =
      (g.readFrom failure s ts).moved k := by
  induction ts generalizing s with
  | nil =>
    rw [List.map_nil, readFrom, readFrom]
    unfold ReadState.finish
    split
    · rfl
    · cases failure <;> rfl
  | cons t ts ih =>
    rw [List.map_cons, readFrom_cons, readFrom_cons, step_moved]
    cases g.step s t with
    | shift s' => exact ih s'
    | complete d =>
      change (g.readFrom _ _ _).cons d = ((g.readFrom _ _ _).cons d).moved k
      rw [ih]
      rfl
    | reject cause kept => rfl

/-- Where the tokens end in a fault, reading does too. -/
theorem failure_ne_none (f : Fault) (s : ReadState) (ts : List Token) :
    (g.readFrom (some f) s ts).failure ≠ none := by
  rw [readFrom_eq_resume]
  cases g.progress s ts with
  | stuck forms cause => exact Option.some_ne_none _
  | standing forms s' =>
    change (s'.finish (some f)).failure ≠ none
    unfold ReadState.finish
    split <;> exact Option.some_ne_none _

end Gauge

theorem lex_failure_of_read {a : String} (h : (read a).failure = none) :
    (lex a).failure = none := by
  cases hf : (lex a).failure with
  | none => rfl
  | some f =>
    rw [read, Lexed.read, hf] at h
    exact absurd h (Gauge.failure_ne_none _ f _ _)

/-- The number of newlines in a text. -/
def newlines (text : String) : Nat := text.toList.count '\n'

theorem lex_join {a : String} (h : (lex a).failure = none) (b : String) :
    lex (a ++ "\n" ++ b) = ((lex b).moved (newlines a + 1 : Nat)).prepend (lex a).tokens := by
  have hchars : (a ++ "\n" ++ b).toList = a.toList ++ '\n' :: b.toList := by
    simp
  rw [lex, hchars, Lexer.lexFrom_append_newline h, Lexer.lexFrom_moved]
  rfl

/-- What is read from a text that follows another, complete one is what is read from it alone, moved
down. -/
theorem read_join {a : String} (h : (read a).failure = none) (b : String) :
    read (a ++ "\n" ++ b) = ((read b).moved (newlines a + 1 : Nat)).prepend (read a).forms := by
  have hlex := lex_failure_of_read h
  have whole : Gauge.readFrom ⟨maxNesting, 0⟩ none (.ready []) (lex a).tokens = read a := by
    rw [read, Lexed.read, hlex]
  have first :
      Gauge.readFrom ⟨maxNesting, 0⟩ none (.ready []) (lex a).tokens = ⟨(read a).forms, none⟩ := by
    rw [whole, ← h]
  rw [read, lex_join hlex, Lexed.read, Lexed.prepend, Gauge.readFrom_append,
    Gauge.progress_of_readFrom first, Progress.resume]
  exact congrArg (Reading.prepend _) (Gauge.readFrom_moved _ _ _ _ _)

end DynLisp
