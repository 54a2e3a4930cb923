import DynLisp.Proofs.Reader.Viable
import DynLisp.Proofs.Token.Grammar

/-!
# Faults of reading

Whatever is wrong with a text is a fault of the program, with one exception: a decimal integer that
is too long to be converted.  It takes more than `maxDigits` digits in a row (`failure_of_read`).

The reader itself knows one fault that is not the program's, a symbol token without a name.  No text
has such a token.
-/

namespace DynLisp

/-! ## Symbol tokens have names -/

/-- If the token is a symbol, it has a name. -/
def Token.Named (t : Token) : Prop := t.kind = .symbol → t.name? ≠ none

theorem Word.named {run : List Char} {kind : TokenKind} {value : Datum} (h : Word run kind value)
    (line : Int) : Token.Named ⟨kind, value, line⟩ := by
  cases h with
  | number h =>
    obtain ⟨h, -⟩ := h
    cases h <;> nofun
  | true | false | nil => nofun
  | symbol => exact fun _ => nofun

theorem Lexeme.named_of_token? {l : Lexeme} {line : Int} {t : Token} (h : l.token? line = some t) :
    t.Named := by
  cases l with
  | newline | blanks | comment => cases h
  | structural c kind hc =>
    cases h
    exact fun _ => nofun
  | quoted pieces =>
    cases h
    nofun
  | run cs kind value ne chars printable word =>
    cases h
    exact word.named line

theorem named_of_mem_tokensAfter {before : List Char} {ls : List Lexeme} {t : Token}
    (h : t ∈ tokensAfter before ls) : t.Named := by
  obtain ⟨l, line, hl⟩ := exists_lexeme_of_mem_tokensAfter h
  exact Lexeme.named_of_token? hl

/-! ## Tokens that are refused -/

namespace Gauge

variable {g : Gauge}

theorem isProgram_of_start {holes : List Hole} {t : Token} (ht : t.Named) {cause : ReadFault}
    {kept : Bool} (h : g.start holes t = .reject cause kept) : cause.kind.isProgram = true := by
  have pushed (hole : Hole) (h : g.push hole holes = .reject cause kept) :
      cause.kind.isProgram = true := by
    unfold push at h
    split at h <;> cases h
    rfl
  unfold start at h
  split at h
  case h_1 | h_2 | h_3 | h_4 | h_5 => exact absurd h (fill_ne_reject _ _ _ _)
  case h_6 hk =>
    split at h
    · exact absurd h (fill_ne_reject _ _ _ _)
    next hn => exact absurd hn (ht hk)
  case h_7 | h_8 => exact pushed _ h
  case h_9 =>
    cases h
    rfl

theorem isProgram_of_step {s : ReadState} {t : Token} (ht : t.Named) {cause : ReadFault}
    {kept : Bool} (h : g.step s t = .reject cause kept) : cause.kind.isProgram = true := by
  unfold step at h
  split at h
  case h_1 =>
    split at h
    · exact absurd h (fill_ne_reject _ _ _ _)
    · exact isProgram_of_start ht h
  case h_2 =>
    split at h
    case h_1 => exact absurd h (fill_ne_reject _ _ _ _)
    case h_2 | h_3 => cases h
    case h_4 | h_5 =>
      cases h
      rfl
    case h_6 => exact isProgram_of_start ht h
  case h_3 => exact isProgram_of_start ht h
  case h_4 =>
    split at h
    · exact absurd h (fill_ne_reject _ _ _ _)
    · cases h
      rfl
  case h_5 =>
    split at h
    case h_1 => exact absurd h (fill_ne_reject _ _ _ _)
    case h_2 => cases h
    case h_3 =>
      cases h
      rfl
  case h_6 =>
    split at h <;> cases h
    rfl

/-- Reading ends with the fault behind the tokens or with a fault of the program, for which there
are words. -/
theorem failure_of_readFrom {failure : Option Fault} {s : ReadState} {ts : List Token}
    (hts : ∀ t ∈ ts, t.Named) {f : Fault} (h : (g.readFrom failure s ts).failure = some f) :
    failure = some f ∨ f.kind.isProgram = true ∧ f.isSpoken = true := by
  induction ts generalizing s with
  | nil =>
    rw [readFrom] at h
    unfold ReadState.finish at h
    split at h
    · exact .inl h
    · cases failure with
      | some e => exact .inl h
      | none =>
        cases h
        exact .inr ⟨rfl, rfl⟩
  | cons t ts ih =>
    obtain ⟨ht, hts⟩ := List.forall_mem_cons.mp hts
    rw [readFrom_cons] at h
    cases hstep : g.step s t with
    | shift s' =>
      rw [hstep] at h
      exact ih hts h
    | complete d =>
      rw [hstep] at h
      exact ih hts h
    | reject cause kept =>
      rw [hstep] at h
      cases h
      exact .inr ⟨isProgram_of_step ht hstep, rfl⟩

end Gauge

/-! ## Texts -/

/-- More decimal digits in a row than can be converted. -/
def HasLongInteger (cs : List Char) : Prop := ∃ run, run <:+: cs ∧ Number.IsLong run

/-- What ends the reading of a text is a fault of the program, or an integer of the text that is too
long. -/
theorem failure_of_read {text : String} {f : Fault} (h : (read text).failure = some f) :
    f.kind.isProgram = true ∧ f.isSpoken = true ∨
    HasLongInteger text.toList ∧ ∃ n, f = .unreadableInteger n := by
  obtain ⟨ls, rest, hcut, hend⟩ := exists_cut [] text.toList
  rw [List.nil_append] at hend
  obtain ⟨failure, hlex, hfailure⟩ : ∃ failure, lex text = ⟨tokensAfter [] ls, failure⟩ ∧
      ∀ e, failure = some e → Offence (ls.flatMap Lexeme.chars) rest e := by
    obtain rfl | ⟨e, he⟩ := hend
    · exact ⟨none, lex_of_cut_end hcut, nofun⟩
    · refine ⟨some e, lex_of_cut_offence hcut he, fun e' h => ?_⟩
      cases h
      exact he
  rw [read, Lexed.read, hlex] at h
  obtain h | h := Gauge.failure_of_readFrom (fun t ht => named_of_mem_tokensAfter ht) h
  · have offence := hfailure f h
    have hchars := hcut.chars
    cases offence with
    | unterminated | badEscape | illegalCharacter | malformed => exact .inl ⟨rfl, rfl⟩
    | long hrun hlong =>
      rw [← List.append_assoc] at hchars
      exact .inr ⟨⟨_, ⟨_, _, hchars.symm⟩, hlong⟩, _, rfl⟩
  · exact .inl h

theorem isSpoken_of_read {text : String} {f : Fault} (h : (read text).failure = some f) :
    f.isSpoken = true := by
  obtain ⟨-, spoken⟩ | ⟨-, n, rfl⟩ := failure_of_read h
  · exact spoken
  · rfl

end DynLisp
