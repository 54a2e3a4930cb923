import Mathlib.Data.List.TakeWhile
import DynLisp.Token.Lexer

/-!
# Lines of tokens

Where a text starts matters to its tokens only through their lines: further down in a file the same
text has the same tokens and the same fault, on lines that are larger by the distance.

A newline separates.  A text that can be cut into tokens leaves nothing open at its end, neither a
text in quotes nor, once a newline follows, a comment or a run, so the tokens of what comes after it
are those of a text of its own.
-/

namespace DynLisp

/-! ## The same text further down -/

def Token.moved (k : Int) (t : Token) : Token := { t with line := t.line + k }

def ReadFault.moved (k : Int) : ReadFault → ReadFault
  | .unexpected t => .unexpected (t.moved k)
  | cause => cause

/-- The fault as it is met `k` lines further down. -/
def Fault.moved (k : Int) : Fault → Fault
  | .lex line cause => .lex (line + k) cause
  | .read cause => .read (cause.moved k)
  | f => f

def Lexed.moved (k : Int) (l : Lexed) : Lexed :=
  ⟨l.tokens.map (Token.moved k), l.failure.map (Fault.moved k)⟩

/-- Several more tokens in front. -/
def Lexed.prepend (ts : List Token) (l : Lexed) : Lexed := ⟨ts ++ l.tokens, l.failure⟩

/-- An outcome further down, whose result changes as given. -/
def movedOutcome {α : Type} (k : Int) (move : α → α) : Except Fault α → Except Fault α
  | .ok a => .ok (move a)
  | .error f => .error (f.moved k)

theorem Number.intToken_moved (line k : Int) (run : List Char) (n : Nat) :
    intToken (line + k) run n = movedOutcome k (Token.moved k) (intToken line run n) := by
  unfold intToken
  split <;> rfl

theorem Number.token_moved (line k : Int) (run : List Char) :
    token (line + k) run = movedOutcome k (Token.moved k) (token line run) := by
  unfold token
  cases marked? run with
  | some m =>
    obtain ⟨mark, base, digits⟩ := m
    simp only
    split
    · rfl
    · cases value? base digits with
      | some n => exact intToken_moved line k run n
      | none => rfl
  | none =>
    simp only
    cases value? 10 run with
    | some n =>
      simp only
      split
      · rfl
      · exact intToken_moved line k run n
    | none =>
      cases realParts? run with
      | some parts => rfl
      | none => rfl

namespace Lexer

theorem wordToken_moved (line k : Int) (run : List Char) :
    wordToken (line + k) run = movedOutcome k (Token.moved k) (wordToken line run) := by
  unfold wordToken
  split
  · exact Number.token_moved line k run
  · cases reserved? (String.ofList run) <;> rfl

theorem runToken_moved (line k : Int) (run : List Char) :
    runToken (line + k) run = movedOutcome k (Token.moved k) (runToken line run) := by
  unfold runToken
  cases run.find? (fun c => !Text.isPrintable c) with
  | some c => rfl
  | none => exact wordToken_moved line k run

/-! ## Texts in quotes -/

/-- The rest of a text in quotes after a character that stands for itself. -/
theorem scanString_cons (start line : Int) {c : Char} (hq : c ≠ '"') (hb : c ≠ '\\')
    (rest : List Char) :
    scanString start line (c :: rest) =
      match scanString start (if c = '\n' then line + 1 else line) rest with
      | .ok (text, last, after) => .ok (c :: text, last, after)
      | .error f => .error f := by
  rw [scanString.eq_def]
  split
  next h => cases h
  next h => exact absurd (List.cons.inj h).1 hq
  next h => exact absurd (List.cons.inj h).1 hb
  next h => exact absurd (List.cons.inj h).1 hb
  next h =>
    cases h
    rfl

theorem ne_backslash {c : Char} {rest : List Char} (hlast : c = '\\' → rest = [] → False)
    (hescape : ∀ d ds, c = '\\' → rest = d :: ds → False) : c ≠ '\\' := by
  intro hc
  cases rest with
  | nil => exact hlast hc rfl
  | cons d ds => exact hescape d ds hc rfl

theorem line_moved (line k : Int) (c : Char) :
    (if c = '\n' then line + k + 1 else line + k) = (if c = '\n' then line + 1 else line) + k := by
  split <;> omega

theorem scanString_moved (start line k : Int) (cs : List Char) :
    scanString (start + k) (line + k) cs =
      movedOutcome k (fun (text, last, after) => (text, last + k, after))
        (scanString start line cs) := by
  fun_induction scanString start line cs with
  | case1 | case2 | case3 => rfl
  | case4 line c rest hc =>
    rw [scanString, hc]
    rfl
  | case5 line c rest d hd text last after hr ih =>
    rw [scanString, hd, ih, hr]
    rfl
  | case6 line c rest d hd f hr ih =>
    rw [scanString, hd, ih, hr]
    rfl
  | case7 line c rest hq hlast hescape text last after hr ih =>
    rw [scanString_cons _ _ hq (ne_backslash hlast hescape), line_moved, ih, hr]
    rfl
  | case8 line c rest hq hlast hescape f hr ih =>
    rw [scanString_cons _ _ hq (ne_backslash hlast hescape), line_moved, ih, hr]
    rfl

/-- A text in quotes has a body, whose newlines count, and does not depend on what follows it. -/
theorem exists_body_of_scanString {start line last : Int} {cs text after : List Char}
    (h : scanString start line cs = .ok (text, last, after)) :
    ∃ body, cs = body ++ after ∧ last = line + body.count '\n' ∧
      ∀ more, scanString start line (body ++ more) = .ok (text, last, more) := by
  fun_induction scanString start line cs generalizing text last after with
  | case1 | case3 | case4 | case6 | case8 => cases h
  | case2 line rest =>
    cases h
    exact ⟨['"'], rfl, by simp, fun _ => rfl⟩
  | case5 line c rest d hd text' last' after' hr ih =>
    cases h
    obtain ⟨body, rfl, rfl, hbody⟩ := ih hr
    have hc : c ≠ '\n' := by
      rintro rfl
      cases hd
    refine ⟨'\\' :: c :: body, rfl, ?_, fun more => ?_⟩
    · simp [hc]
    · rw [List.cons_append, List.cons_append, scanString, hd, hbody]
  | case7 line c rest hq hlast hescape text' last' after' hr ih =>
    cases h
    obtain ⟨body, rfl, rfl, hbody⟩ := ih hr
    refine ⟨c :: body, rfl, ?_, fun more => ?_⟩
    · by_cases hc : c = '\n'
      · simp [hc]
        omega
      · simp [hc]
    · rw [List.cons_append, scanString_cons _ _ hq (ne_backslash hlast hescape), hbody]

/-! ## One item of a text -/

theorem lexFrom_newline (line : Int) (rest : List Char) :
    lexFrom line ('\n' :: rest) = lexFrom (line + 1) rest := by
  rw [lexFrom, if_pos rfl]

theorem lexFrom_blank (line : Int) {c : Char} (hn : c ≠ '\n') (hc : Text.isBlank c = true)
    (rest : List Char) : lexFrom line (c :: rest) = lexFrom line rest := by
  rw [lexFrom, if_neg hn, if_pos hc]

theorem lexFrom_comment (line : Int) (rest : List Char) :
    lexFrom line (';' :: rest) = lexFrom line (rest.dropWhile (· != '\n')) := by
  rw [lexFrom, if_neg (by decide), if_neg (by decide), if_pos rfl]

theorem lexFrom_structural (line : Int) {c : Char} {kind : TokenKind}
    (hc : structural? c = some kind) (rest : List Char) :
    lexFrom line (c :: rest) =
      (lexFrom line rest).cons ⟨kind, .str (String.singleton c), line⟩ := by
  have hother : c ≠ '\n' ∧ ¬ Text.isBlank c = true ∧ c ≠ ';' := by
    unfold structural? at hc
    split at hc
    case h_6 => cases hc
    all_goals decide
  rw [lexFrom, if_neg hother.1, if_neg hother.2.1, if_neg hother.2.2]
  split
  next kind' h =>
    rw [hc] at h
    cases h
    rfl
  next h =>
    rw [hc] at h
    cases h

theorem lexFrom_string (line : Int) (rest : List Char) :
    lexFrom line ('"' :: rest) =
      match scanString line line rest with
      | .ok (text, last, after) =>
        (lexFrom last after).cons ⟨.string, .str (String.ofList text), line⟩
      | .error f => .failed f := by
  rw [lexFrom, if_neg (by decide), if_neg (by decide), if_neg (by decide)]
  change (if '"' = '"' then _ else _) = _
  rw [if_pos rfl]
  split <;> rename_i h <;> rw [h]

theorem lexFrom_run (line : Int) {c : Char} (hc : isRunChar c = true) (rest : List Char) :
    lexFrom line (c :: rest) =
      match runToken line (c :: rest.takeWhile isRunChar) with
      | .ok t => (lexFrom line (rest.dropWhile isRunChar)).cons t
      | .error f => .failed f := by
  simp only [isRunChar, Bool.and_eq_true, Bool.not_eq_true', Option.isNone_iff_eq_none,
    bne_iff_ne] at hc
  obtain ⟨⟨⟨hblank, hstruct⟩, hcomment⟩, hquote⟩ := hc
  have hn : c ≠ '\n' := by
    rintro rfl
    exact absurd hblank (by decide)
  rw [lexFrom, if_neg hn, if_neg (by simp [hblank]), if_neg hcomment, hstruct]
  exact if_neg hquote

/-! ## The tokens of a text -/

theorem isRunChar_of_other {c : Char} (hblank : ¬ Text.isBlank c = true) (hcomment : c ≠ ';')
    (hstruct : structural? c = none) (hquote : c ≠ '"') : isRunChar c = true := by
  simp [isRunChar, hblank, hcomment, hstruct, hquote]

theorem lexFrom_moved (line k : Int) (cs : List Char) :
    lexFrom (line + k) cs = (lexFrom line cs).moved k := by
  fun_induction lexFrom line cs with
  | case1 line => rw [lexFrom]; rfl
  | case2 line rest ih =>
    have hline : line + k + 1 = line + 1 + k := by omega
    rw [lexFrom_newline, hline, ih]
  | case3 line c rest hn hblank ih => rw [lexFrom_blank _ hn hblank, ih]
  | case4 line rest hn hblank ih => rw [lexFrom_comment, ih]
  | case5 line c rest hn hblank hcomment kind hkind ih =>
    rw [lexFrom_structural _ hkind, ih]
    rfl
  | case6 line rest text last after h _ _ _ _ ih =>
    rw [lexFrom_string, scanString_moved, h, movedOutcome]
    simp only
    rw [ih]
    rfl
  | case7 line rest f h _ _ _ _ =>
    rw [lexFrom_string, scanString_moved, h]
    rfl
  | case8 line c rest hn hblank hcomment hkind hquote t ht ih =>
    rw [lexFrom_run _ (isRunChar_of_other hblank hcomment hkind hquote), runToken_moved, ht,
      movedOutcome]
    simp only
    rw [ih]
    rfl
  | case9 line c rest hn hblank hcomment hkind hquote f hf =>
    rw [lexFrom_run _ (isRunChar_of_other hblank hcomment hkind hquote), runToken_moved, hf]
    rfl

/-! ## Texts joined by a newline -/

theorem dropWhile_append_newline (p : Char → Bool) (hp : p '\n' = false) (cs ds : List Char) :
    (cs ++ '\n' :: ds).dropWhile p = cs.dropWhile p ++ '\n' :: ds := by
  rw [List.dropWhile_append]
  split
  next h =>
    rw [List.isEmpty_iff.mp h, List.dropWhile_cons_of_neg (by simp [hp])]
    rfl
  next => rfl

theorem takeWhile_append_newline (p : Char → Bool) (hp : p '\n' = false) (cs ds : List Char) :
    (cs ++ '\n' :: ds).takeWhile p = cs.takeWhile p := by
  rw [List.takeWhile_append]
  split
  next h =>
    rw [List.takeWhile_cons_of_neg (by simp [hp]), List.append_nil]
    exact (List.Sublist.eq_of_length (List.takeWhile_sublist p) h).symm
  next => rfl

/-- What is skipped up to a newline holds none. -/
theorem count_dropWhile_newline (p : Char → Bool) (hp : p '\n' = false) (cs : List Char) :
    (cs.dropWhile p).count '\n' = cs.count '\n' := by
  have skipped : (cs.takeWhile p).count '\n' = 0 := by
    rw [List.count_eq_zero]
    intro hmem
    have := List.mem_takeWhile_imp hmem
    rw [hp] at this
    cases this
  have whole := congrArg (List.count '\n') (List.takeWhile_append_dropWhile (p := p) (l := cs))
  rw [List.count_append, skipped, Nat.zero_add] at whole
  exact whole

theorem lexFrom_append_newline {line : Int} {cs : List Char} (h : (lexFrom line cs).failure = none)
    (ds : List Char) :
    lexFrom line (cs ++ '\n' :: ds) =
      (lexFrom (line + (cs.count '\n' + 1 : Nat)) ds).prepend (lexFrom line cs).tokens := by
  fun_induction lexFrom line cs with
  | case1 line =>
    rw [List.nil_append, lexFrom_newline]
    rfl
  | case2 line rest ih =>
    rw [List.cons_append, lexFrom_newline, ih h, List.count_cons_self]
    congr 2
    push_cast
    omega
  | case3 line c rest hn hblank ih =>
    rw [List.cons_append, lexFrom_blank _ hn hblank, ih h, List.count_cons_of_ne hn]
  | case4 line rest hn hblank ih =>
    rw [List.cons_append, lexFrom_comment, dropWhile_append_newline (· != '\n') rfl, ih h,
      count_dropWhile_newline (· != '\n') rfl, List.count_cons_of_ne hn]
  | case5 line c rest hn hblank hcomment kind hkind ih =>
    rw [List.cons_append, lexFrom_structural _ hkind, ih h, List.count_cons_of_ne hn]
    rfl
  | case6 line rest text last after hscan _ _ _ _ ih =>
    obtain ⟨body, rfl, rfl, hbody⟩ := exists_body_of_scanString hscan
    rw [List.cons_append, lexFrom_string, List.append_assoc, hbody]
    simp only
    have hline : line + body.count '\n' + (after.count '\n' + 1 : Nat) =
        line + (('"' :: (body ++ after)).count '\n' + 1 : Nat) := by
      rw [List.count_cons_of_ne (by decide), List.count_append]
      push_cast
      omega
    rw [ih h, hline]
    rfl
  | case8 line c rest hn hblank hcomment hkind hquote t ht ih =>
    have stop : isRunChar '\n' = false := by decide
    rw [List.cons_append, lexFrom_run _ (isRunChar_of_other hblank hcomment hkind hquote),
      takeWhile_append_newline _ stop, ht]
    simp only
    rw [dropWhile_append_newline _ stop, ih h, count_dropWhile_newline _ stop,
      List.count_cons_of_ne hn]
    rfl
  | case7 | case9 => cases h

end Lexer

end DynLisp
