import Mathlib.Data.List.Chain
import DynLisp.Proofs.Token.Lines
import DynLisp.Proofs.Token.Number

/-!
# The grammar of tokens

A text is a sequence of lexemes: newlines, blanks, comments, brackets and colons, texts in quotes,
and runs of anything else.  A comment goes on to the next newline and a run to the next character
that cannot stand in one.

The lexer says nothing else.  A text has tokens if and only if it can be cut into lexemes, and then
they are the tokens of these lexemes, each on the line on which its lexeme starts.  Otherwise it can
be cut up to a place that is the start of no lexeme, and what is wrong there (`Offence`) is the
fault.

Both follow from two facts: the lexer takes one lexeme at a time (`lexFrom_chars`), and every text
that is not empty starts with a lexeme or with an offence (`lexeme_or_offence`).
-/

namespace DynLisp

/-! ## Lexemes -/

/-- A piece of a text in quotes: a character that stands for itself, or one of the four escapes. -/
inductive Piece where
  | plain (c : Char) (hq : c ≠ '"') (hb : c ≠ '\\')
  | newline
  | tab
  | backslash
  | quote

namespace Piece

def chars : Piece → List Char
  | .plain c _ _ => [c]
  | .newline => ['\\', 'n']
  | .tab => ['\\', 't']
  | .backslash => ['\\', '\\']
  | .quote => ['\\', '"']

/-- The character that a piece stands for. -/
def char : Piece → Char
  | .plain c _ _ => c
  | .newline => '\n'
  | .tab => '\t'
  | .backslash => '\\'
  | .quote => '"'

end Piece

def StartsWithDigit (run : List Char) : Prop := run.head?.any Text.isAsciiDigit = true

instance (run : List Char) : Decidable (StartsWithDigit run) :=
  inferInstanceAs (Decidable (run.head?.any Text.isAsciiDigit = true))

/-- The words that are literals. -/
def reservedWords : List (List Char) := ["true".toList, "false".toList, "nil".toList]

/-- A run, with the kind and the content of its token.  A run that starts with a digit is a
number. -/
inductive Word : List Char → TokenKind → Datum → Prop where
  | number {run : List Char} {kind : TokenKind} {value : Datum} (h : Number.Legal run kind value) :
    Word run kind value
  | true : Word "true".toList .bool (.bool true)
  | false : Word "false".toList .bool (.bool false)
  | nil : Word "nil".toList .nil .absent
  | symbol {run : List Char} (hd : ¬ StartsWithDigit run) (hr : run ∉ reservedWords) :
    Word run .symbol (.str (String.ofList run))

/-- A part of a text that is a token or stands between tokens. -/
inductive Lexeme where
  | newline
  | blanks (cs : List Char) (ne : cs ≠ []) (h : ∀ c ∈ cs, Text.isBlank c = true ∧ c ≠ '\n')
  | comment (body : List Char) (h : '\n' ∉ body)
  | structural (c : Char) (kind : TokenKind) (h : Lexer.structural? c = some kind)
  | quoted (pieces : List Piece)
  | run (cs : List Char) (kind : TokenKind) (value : Datum) (ne : cs ≠ [])
    (chars : ∀ c ∈ cs, Lexer.isRunChar c = true) (printable : ∀ c ∈ cs, Text.isPrintable c = true)
    (word : Word cs kind value)

namespace Lexeme

def chars : Lexeme → List Char
  | .newline => ['\n']
  | .blanks cs _ _ => cs
  | .comment body _ => ';' :: body
  | .structural c _ _ => [c]
  | .quoted pieces => '"' :: (pieces.flatMap Piece.chars ++ ['"'])
  | .run cs _ _ _ _ _ _ => cs

/-- The token of a lexeme that starts on the given line. -/
def token? (line : Int) : Lexeme → Option Token
  | .newline | .blanks _ _ _ | .comment _ _ => none
  | .structural c kind _ => some ⟨kind, .str (String.singleton c), line⟩
  | .quoted pieces => some ⟨.string, .str (String.ofList (pieces.map Piece.char)), line⟩
  | .run _ kind value _ _ _ _ => some ⟨kind, value, line⟩

/-- May the second lexeme come right after the first?  A comment ends before a newline, and no two
runs are adjacent. -/
def Meets : Lexeme → Lexeme → Prop
  | .comment _ _, .newline => True
  | .comment _ _, _ => False
  | .run _ _ _ _ _ _ _, .run _ _ _ _ _ _ _ => False
  | _, _ => True

/-- May the characters come right after the lexeme? -/
def EndsBefore : Lexeme → List Char → Prop
  | .comment _ _, rest => ∀ c ∈ rest.head?, c = '\n'
  | .run _ _ _ _ _ _ _, rest => ∀ c ∈ rest.head?, Lexer.isRunChar c = false
  | _, _ => True

end Lexeme

/-- The line on which something starts that has the given text before it. -/
def lineAfter (before : List Char) : Int := 1 + (before.count '\n' : Nat)

theorem lineAfter_append (before cs : List Char) :
    lineAfter (before ++ cs) = lineAfter before + (cs.count '\n' : Nat) := by
  rw [lineAfter, lineAfter, List.count_append, Int.natCast_add, Int.add_assoc]

/-- The tokens of lexemes that have the given text before them. -/
def tokensAfter : List Char → List Lexeme → List Token
  | _, [] => []
  | before, l :: ls => (l.token? (lineAfter before)).toList ++ tokensAfter (before ++ l.chars) ls

/-- The characters are cut into lexemes up to `rest`. -/
structure Cut (cs : List Char) (ls : List Lexeme) (rest : List Char) : Prop where
  chars : cs = ls.flatMap Lexeme.chars ++ rest
  chain : ls.IsChain Lexeme.Meets
  last : ∀ l ∈ ls.getLast?, l.EndsBefore rest

/-- A run at the front of a text, which cannot be made longer. -/
structure RunBefore (run rest : List Char) : Prop where
  ne : run ≠ []
  chars : ∀ c ∈ run, Lexer.isRunChar c = true
  ends : ∀ c ∈ rest.head?, Lexer.isRunChar c = false

/-- A text that starts with no lexeme, and what is wrong with it, given the text before it.  A bad
escape is reported where its backslash stands, anything else where the offending lexeme starts; a
long integer is not reported by line. -/
inductive Offence (before : List Char) : List Char → Fault → Prop where
  | unterminated (pieces : List Piece) {tail : List Char} (ht : tail = [] ∨ tail = ['\\']) :
    Offence before ('"' :: (pieces.flatMap Piece.chars ++ tail))
      (.lex (lineAfter before) .unterminated)
  | badEscape (pieces : List Piece) {c : Char} (hc : c ∉ ['n', 't', '\\', '"']) (rest : List Char) :
    Offence before ('"' :: (pieces.flatMap Piece.chars ++ '\\' :: c :: rest))
      (.lex (lineAfter (before ++ '"' :: pieces.flatMap Piece.chars)) (.badEscape c))
  | illegalCharacter {first last rest : List Char} {c : Char}
      (h : RunBefore (first ++ c :: last) rest)
    (hfirst : ∀ d ∈ first, Text.isPrintable d = true) (hc : Text.isPrintable c = false) :
    Offence before (first ++ c :: last ++ rest) (.lex (lineAfter before) (.illegalCharacter c))
  | malformed {run rest : List Char} {cause : LexFault} (h : RunBefore run rest)
    (hp : ∀ c ∈ run, Text.isPrintable c = true) (hd : StartsWithDigit run)
      (hs : ¬ Number.IsLong run)
    (hm : Number.Malformed run cause) : Offence before (run ++ rest) (.lex (lineAfter before) cause)
  | long {run rest : List Char} (h : RunBefore run rest) (hl : Number.IsLong run) :
    Offence before (run ++ rest) (.unreadableInteger run.length)

/-! ## Texts in quotes -/

/-- What a scan adds to the characters of a text in quotes. -/
def scannedAfter (text : List Char) :
    Except Fault (List Char × Int × List Char) → Except Fault (List Char × Int × List Char)
  | .ok (more, last, rest) => .ok (text ++ more, last, rest)
  | .error f => .error f

namespace Lexer

theorem scanString_piece (start line : Int) (p : Piece) (cs : List Char) :
    scanString start line (p.chars ++ cs) =
      scannedAfter [p.char] (scanString start (line + (p.chars.count '\n' : Nat)) cs) := by
  cases p with
  | plain c hq hb =>
    have hline : (if c = '\n' then line + 1 else line) = line + ([c].count '\n' : Nat) := by
      split
      next h => rw [h]; rfl
      next h => simp [h]
    rw [Piece.chars, List.singleton_append, scanString_cons _ _ hq hb, hline]
    cases scanString start _ cs <;> rfl
  | newline | tab | backslash | quote =>
    have hline : line = line + (0 : Nat) := (Int.add_zero line).symm
    rw [Piece.chars, List.cons_append, List.singleton_append, scanString]
    simp only [unescape?]
    change _ = scannedAfter _ (scanString start (line + (0 : Nat)) cs)
    rw [← hline]
    cases scanString start line cs <;> rfl

theorem scanString_pieces (start line : Int) (pieces : List Piece) (cs : List Char) :
    scanString start line (pieces.flatMap Piece.chars ++ cs) =
      scannedAfter (pieces.map Piece.char)
        (scanString start (line + ((pieces.flatMap Piece.chars).count '\n' : Nat)) cs) := by
  induction pieces generalizing line with
  | nil =>
    simp only [List.flatMap_nil, List.nil_append, List.count_nil, List.map_nil, Int.natCast_zero,
      Int.add_zero]
    cases scanString start line cs <;> rfl
  | cons p pieces ih =>
    rw [List.flatMap_cons, List.append_assoc, scanString_piece, ih, List.count_append,
      Int.natCast_add, Int.add_assoc]
    cases scanString start _ cs <;> rfl

theorem unescape?_eq_none_iff {c : Char} : unescape? c = none ↔ c ∉ ['n', 't', '\\', '"'] := by
  unfold unescape?
  split
  case h_5 hn ht hb hq => simp_all
  all_goals simp

end Lexer

/-! ## Runs -/

theorem Number.Literal.startsWithDigit {run : List Char} {kind : TokenKind} {value : Datum}
    (h : Literal run kind value) : StartsWithDigit run := by
  have numeral {digits : List Char} {n : Nat} (hn : Numeral 10 digits n) (rest : List Char) :
      StartsWithDigit (digits ++ rest) := by
    obtain ⟨c, cs, rfl⟩ := List.exists_cons_of_ne_nil hn.1
    simpa [StartsWithDigit] using hn.isAsciiDigit c List.mem_cons_self
  cases h with
  | int h =>
    cases h with
    | decimal h => simpa using numeral h []
    | marked => rfl
  | real h =>
    obtain ⟨hw, -⟩ := h
    exact numeral hw _

theorem Number.IsLong.startsWithDigit {run : List Char} (h : IsLong run) : StartsWithDigit run := by
  obtain ⟨hlong, hdigits⟩ := h
  cases run with
  | nil => cases hlong
  | cons c cs => simpa [StartsWithDigit] using hdigits c List.mem_cons_self

namespace Lexer

theorem ofList_eq_iff {run : List Char} {word : String} :
    String.ofList run = word ↔ run = word.toList := by
  constructor
  · rintro rfl
    exact String.toList_ofList.symm
  · rintro rfl
    exact String.ofList_toList

theorem reserved?_of_not_mem {run : List Char} (h : run ∉ reservedWords) :
    reserved? (String.ofList run) = none := by
  simp only [reservedWords, List.mem_cons, List.not_mem_nil, or_false, not_or, ← ofList_eq_iff] at h
  unfold reserved?
  split
  next ht => exact absurd ht h.1
  next hf => exact absurd hf h.2.1
  next hn => exact absurd hn h.2.2
  next => rfl

theorem runToken_eq_wordToken (line : Int) {run : List Char}
    (h : ∀ c ∈ run, Text.isPrintable c = true) : runToken line run = wordToken line run := by
  have hfind : run.find? (fun c => !Text.isPrintable c) = none := by
    simpa [List.find?_eq_none] using h
  rw [runToken, hfind]

theorem wordToken_of_startsWithDigit (line : Int) {run : List Char} (h : StartsWithDigit run) :
    wordToken line run = Number.token line run := by
  rw [wordToken]
  exact if_pos h

theorem wordToken_of_word (line : Int) {run : List Char} {kind : TokenKind} {value : Datum}
    (h : Word run kind value) : wordToken line run = .ok ⟨kind, value, line⟩ := by
  cases h with
  | number h =>
    rw [wordToken_of_startsWithDigit line h.1.startsWithDigit, Number.token_of_legal line h]
  | true => rfl
  | false => rfl
  | nil => rfl
  | symbol hd hr =>
    rw [wordToken, reserved?_of_not_mem hr]
    exact if_neg hd

/-- A run that starts with no digit is a word of the language or a name. -/
theorem exists_word {run : List Char} (h : ¬ StartsWithDigit run) :
    ∃ kind value, Word run kind value := by
  by_cases hr : run ∈ reservedWords
  · simp only [reservedWords, List.mem_cons, List.not_mem_nil, or_false] at hr
    rcases hr with rfl | rfl | rfl
    · exact ⟨_, _, .true⟩
    · exact ⟨_, _, .false⟩
    · exact ⟨_, _, .nil⟩
  · exact ⟨_, _, .symbol h hr⟩

theorem isRunChar_of_ascii {cs : List Char}
    (h : (cs.all fun c => isRunChar c && 32 ≤ c.toNat && c.toNat < 127) = true) :
    ∀ c ∈ cs, isRunChar c = true ∧ Text.isPrintable c = true := by
  intro c hc
  have hascii := List.all_eq_true.mp h c hc
  simp only [Bool.and_eq_true, decide_eq_true_eq] at hascii
  exact ⟨hascii.1.1, Text.isPrintable_of_ascii hascii.1.2 hascii.2⟩

/-- Decimal digits may stand in a run. -/
theorem isRunChar_of_isAsciiDigit {c : Char} (h : Text.isAsciiDigit c = true) :
    isRunChar c = true ∧ Text.isPrintable c = true := by
  have digits :
      ("0123456789".toList.all fun c => isRunChar c && 32 ≤ c.toNat && c.toNat < 127) = true := by
    decide
  exact isRunChar_of_ascii digits c (Number.mem_of_isAsciiDigit h)

/-- A run at the front of a text is what the lexer takes. -/
theorem lexFrom_runBefore (line : Int) {run rest : List Char} (h : RunBefore run rest) :
    lexFrom line (run ++ rest) =
      match runToken line run with
      | .ok t => (lexFrom line rest).cons t
      | .error f => .failed f := by
  obtain ⟨hne, hchars, hends⟩ := h
  obtain ⟨c, cs, rfl⟩ := List.exists_cons_of_ne_nil hne
  obtain ⟨hc, hcs⟩ := List.forall_mem_cons.mp hchars
  have htake : (cs ++ rest).takeWhile isRunChar = cs := by
    rw [List.takeWhile_append_of_pos hcs]
    cases rest with
    | nil => simp
    | cons d ds => rw [List.takeWhile_cons_of_neg (by simp [hends d rfl]), List.append_nil]
  have hdrop : (cs ++ rest).dropWhile isRunChar = rest := by
    rw [List.dropWhile_append_of_pos hcs]
    cases rest with
    | nil => rfl
    | cons d ds => rw [List.dropWhile_cons_of_neg (by simp [hends d rfl])]
  have hrun := lexFrom_run line hc (cs ++ rest)
  rw [htake, hdrop] at hrun
  rw [List.cons_append]
  exact hrun.trans (by cases runToken line (c :: cs) <;> rfl)

/-! ## One lexeme at a time -/

theorem lexFrom_blanks (line : Int) {cs : List Char}
    (h : ∀ c ∈ cs, Text.isBlank c = true ∧ c ≠ '\n') (rest : List Char) :
    lexFrom line (cs ++ rest) = lexFrom line rest := by
  induction cs with
  | nil => rfl
  | cons c cs ih =>
    obtain ⟨⟨hblank, hn⟩, hcs⟩ := List.forall_mem_cons.mp h
    rw [List.cons_append, lexFrom_blank line hn hblank, ih hcs]

theorem dropWhile_comment {body rest : List Char} (h : '\n' ∉ body)
    (hrest : ∀ c ∈ rest.head?, c = '\n') : (body ++ rest).dropWhile (· != '\n') = rest := by
  have hbody : ∀ c ∈ body, (c != '\n') = true := by
    intro c hc
    rw [bne_iff_ne]
    rintro rfl
    exact h hc
  rw [List.dropWhile_append_of_pos hbody]
  cases rest with
  | nil => rfl
  | cons d ds => rw [hrest d rfl, List.dropWhile_cons_of_neg (by decide)]

theorem structural?_ne_newline {c : Char} {kind : TokenKind} (h : structural? c = some kind) :
    c ≠ '\n' := by
  rintro rfl
  cases h

theorem isRunChar_ne_newline {c : Char} (h : isRunChar c = true) : c ≠ '\n' := by
  rintro rfl
  exact absurd h (by decide)

theorem count_newline_eq_zero {cs : List Char} (h : ∀ c ∈ cs, c ≠ '\n') : cs.count '\n' = 0 :=
  List.count_eq_zero.mpr fun hmem => h _ hmem rfl

/-- The lexer takes one lexeme, counts its newlines, and goes on with what follows. -/
theorem lexFrom_chars (line : Int) (l : Lexeme) {rest : List Char} (h : l.EndsBefore rest) :
    lexFrom line (l.chars ++ rest) =
      (lexFrom (line + (l.chars.count '\n' : Nat)) rest).prepend (l.token? line).toList := by
  cases l with
  | newline => exact lexFrom_newline line rest
  | blanks cs ne hcs =>
    have hcount : cs.count '\n' = 0 := count_newline_eq_zero fun c hc => (hcs c hc).2
    rw [Lexeme.chars, lexFrom_blanks line hcs, hcount, Int.natCast_zero, Int.add_zero]
    rfl
  | comment body hbody =>
    have hcount : (';' :: body).count '\n' = 0 := by
      rw [List.count_cons_of_ne (by decide), List.count_eq_zero.mpr hbody]
    rw [Lexeme.chars, List.cons_append, lexFrom_comment, dropWhile_comment hbody h, hcount,
      Int.natCast_zero, Int.add_zero]
    rfl
  | structural c kind hc =>
    have hcount : [c].count '\n' = 0 :=
      count_newline_eq_zero (List.forall_mem_singleton.mpr (structural?_ne_newline hc))
    rw [Lexeme.chars, List.singleton_append, lexFrom_structural line hc, hcount, Int.natCast_zero,
      Int.add_zero]
    rfl
  | quoted pieces =>
    have hcount : ('"' :: (pieces.flatMap Piece.chars ++ ['"'])).count '\n' =
        (pieces.flatMap Piece.chars).count '\n' := by
      rw [List.count_cons_of_ne (by decide), List.count_append, List.count_singleton]
      rfl
    rw [Lexeme.chars, hcount, List.cons_append, List.append_assoc, lexFrom_string,
      scanString_pieces, List.singleton_append, scanString, scannedAfter, List.append_nil]
    rfl
  | run cs kind value ne hchars hprintable hword =>
    have hcount : cs.count '\n' = 0 :=
      count_newline_eq_zero fun c hc => isRunChar_ne_newline (hchars c hc)
    rw [Lexeme.chars, lexFrom_runBefore line ⟨ne, hchars, h⟩, runToken_eq_wordToken line hprintable,
      wordToken_of_word line hword, hcount, Int.natCast_zero, Int.add_zero]
    rfl

/-- What is wrong with a text that starts with no lexeme is what the lexer reports. -/
theorem lexFrom_of_offence {before rest : List Char} {f : Fault} (h : Offence before rest f) :
    lexFrom (lineAfter before) rest = .failed f := by
  cases h with
  | unterminated pieces ht =>
    rw [lexFrom_string, scanString_pieces]
    rcases ht with rfl | rfl <;> rfl
  | @badEscape pieces c hc rest =>
    have hline : lineAfter (before ++ '"' :: pieces.flatMap Piece.chars) =
        lineAfter before + ((pieces.flatMap Piece.chars).count '\n' : Nat) := by
      rw [lineAfter_append, List.count_cons_of_ne (by decide)]
    rw [lexFrom_string, scanString_pieces, scanString, unescape?_eq_none_iff.mpr hc, hline]
    rfl
  | @illegalCharacter first last rest c h hfirst hc =>
    have hfind : (first ++ c :: last).find? (fun c => !Text.isPrintable c) = some c := by
      rw [List.find?_eq_some_iff_append]
      exact ⟨by simp [hc], first, last, rfl, fun d hd => by simp [hfirst d hd]⟩
    rw [lexFrom_runBefore _ h, runToken, hfind]
  | malformed h hp hd hs hm =>
    rw [lexFrom_runBefore _ h, runToken_eq_wordToken _ hp, wordToken_of_startsWithDigit _ hd,
      Number.token_of_malformed _ hm hs]
  | long h hl =>
    have hp := fun c hc => (isRunChar_of_isAsciiDigit (hl.2 c hc)).2
    rw [lexFrom_runBefore _ h, runToken_eq_wordToken _ hp,
      wordToken_of_startsWithDigit _ hl.startsWithDigit, Number.token_of_long _ hl]

end Lexer

/-! ## Every text starts with a lexeme or an offence -/

/-- How a text goes on after an opening quote: it is closed, or it is not, or it has a bad
escape. -/
inductive AfterQuote : List Char → Prop where
  | closed (pieces : List Piece) (rest : List Char) :
      AfterQuote (pieces.flatMap Piece.chars ++ '"' :: rest)
  | unterminated (pieces : List Piece) {tail : List Char} (ht : tail = [] ∨ tail = ['\\']) :
    AfterQuote (pieces.flatMap Piece.chars ++ tail)
  | badEscape (pieces : List Piece) {c : Char} (hc : c ∉ ['n', 't', '\\', '"']) (rest : List Char) :
    AfterQuote (pieces.flatMap Piece.chars ++ '\\' :: c :: rest)

theorem AfterQuote.cons {cs : List Char} (h : AfterQuote cs) (p : Piece) :
    AfterQuote (p.chars ++ cs) := by
  cases h with
  | closed pieces rest =>
    rw [← List.append_assoc, ← List.flatMap_cons]
    exact .closed (p :: pieces) rest
  | unterminated pieces ht =>
    rw [← List.append_assoc, ← List.flatMap_cons]
    exact .unterminated (p :: pieces) ht
  | badEscape pieces hc rest =>
    rw [← List.append_assoc, ← List.flatMap_cons]
    exact .badEscape (p :: pieces) hc rest

namespace Lexer

theorem exists_piece {c d : Char} (h : unescape? c = some d) :
    ∃ p : Piece, p.chars = ['\\', c] := by
  unfold unescape? at h
  split at h
  · exact ⟨.newline, rfl⟩
  · exact ⟨.tab, rfl⟩
  · exact ⟨.backslash, rfl⟩
  · exact ⟨.quote, rfl⟩
  · cases h

/-- The scanner's own recursion shows how a text goes on; which lines it is given does not
matter. -/
theorem afterQuote (cs : List Char) : AfterQuote cs := by
  have escape {c d : Char} (h : unescape? c = some d) {rest : List Char} (ih : AfterQuote rest) :
      AfterQuote ('\\' :: c :: rest) := by
    obtain ⟨p, hp⟩ := exists_piece h
    have := ih.cons p
    rwa [hp] at this
  fun_induction scanString 0 0 cs with
  | case1 => exact .unterminated [] (.inl rfl)
  | case2 line rest => exact .closed [] rest
  | case3 => exact .unterminated [] (.inr rfl)
  | case4 line c rest hc => exact .badEscape [] (unescape?_eq_none_iff.mp hc) rest
  | case5 line c rest d hd text last after hr ih => exact escape hd ih
  | case6 line c rest d hd f hr ih => exact escape hd ih
  | case7 line c rest hq hlast hescape text last after hr ih =>
    exact ih.cons (.plain c hq (ne_backslash hlast hescape))
  | case8 line c rest hq hlast hescape f hr ih =>
    exact ih.cons (.plain c hq (ne_backslash hlast hescape))

theorem eq_false_of_mem_head?_dropWhile {p : Char → Bool} {cs : List Char} {c : Char}
    (h : c ∈ (cs.dropWhile p).head?) : p c = false := by
  have hstop := List.head?_dropWhile_not p cs
  rwa [Option.mem_def.mp h] at hstop

/-- A text that starts with a character that may stand in a run starts with a run. -/
theorem runBefore_takeWhile {c : Char} (hc : isRunChar c = true) (cs : List Char) :
    RunBefore (c :: cs.takeWhile isRunChar) (cs.dropWhile isRunChar) where
  ne := List.cons_ne_nil c _
  chars := List.forall_mem_cons.mpr ⟨hc, fun _ hd => List.mem_takeWhile_imp hd⟩
  ends _ hd := eq_false_of_mem_head?_dropWhile hd

end Lexer

/-- The text starts with a lexeme. -/
def StartsWithLexeme (cs : List Char) : Prop :=
  ∃ (l : Lexeme) (rest : List Char), cs = l.chars ++ rest ∧ l.EndsBefore rest

theorem RunBefore.lexeme_or_offence {run rest : List Char} (h : RunBefore run rest)
    (before : List Char) :
    StartsWithLexeme (run ++ rest) ∨ ∃ f, Offence before (run ++ rest) f := by
  have lexeme {kind : TokenKind} {value : Datum} (hp : ∀ c ∈ run, Text.isPrintable c = true)
      (hw : Word run kind value) : StartsWithLexeme (run ++ rest) :=
    ⟨.run run kind value h.ne h.chars hp hw, rest, rfl, h.ends⟩
  cases hfind : run.find? (fun c => !Text.isPrintable c) with
  | some c =>
    obtain ⟨hc, first, last, rfl, hfirst⟩ := List.find?_eq_some_iff_append.mp hfind
    exact .inr ⟨_, .illegalCharacter h (fun d hd => by simpa using hfirst d hd) (by simpa using hc)⟩
  | none =>
    have hp : ∀ c ∈ run, Text.isPrintable c = true := by simpa using List.find?_eq_none.mp hfind
    by_cases hd : StartsWithDigit run
    · by_cases hs : Number.IsLong run
      · exact .inr ⟨_, .long h hs⟩
      · obtain ⟨kind, value, hl⟩ | ⟨cause, hm⟩ := Number.literal_or_malformed run
        · exact .inl (lexeme hp (.number ⟨hl, hs⟩))
        · exact .inr ⟨_, .malformed h hp hd hs hm⟩
    · obtain ⟨kind, value, hw⟩ := Lexer.exists_word hd
      exact .inl (lexeme hp hw)

theorem lexeme_or_offence (before : List Char) {cs : List Char} (h : cs ≠ []) :
    StartsWithLexeme cs ∨ ∃ f, Offence before cs f := by
  obtain ⟨c, cs, rfl⟩ := List.exists_cons_of_ne_nil h
  by_cases hn : c = '\n'
  · exact .inl ⟨.newline, cs, by rw [hn]; rfl, trivial⟩
  by_cases hblank : Text.isBlank c = true
  · have hc : ∀ d ∈ [c], Text.isBlank d = true ∧ d ≠ '\n' :=
      List.forall_mem_singleton.mpr ⟨hblank, hn⟩
    exact .inl ⟨.blanks [c] (List.cons_ne_nil c []) hc, cs, rfl, trivial⟩
  by_cases hcomment : c = ';'
  · have hbody : '\n' ∉ cs.takeWhile (· != '\n') :=
      fun hmem => absurd (List.mem_takeWhile_imp hmem) (by decide)
    refine .inl ⟨.comment _ hbody, cs.dropWhile (· != '\n'), ?_, fun d hd => ?_⟩
    · rw [hcomment, Lexeme.chars, List.cons_append, List.takeWhile_append_dropWhile]
    · simpa using Lexer.eq_false_of_mem_head?_dropWhile hd
  cases hkind : Lexer.structural? c with
  | some kind => exact .inl ⟨.structural c kind hkind, cs, rfl, trivial⟩
  | none =>
    by_cases hquote : c = '"'
    · subst hquote
      cases Lexer.afterQuote cs with
      | closed pieces rest => exact .inl ⟨.quoted pieces, rest, by simp [Lexeme.chars], trivial⟩
      | unterminated pieces ht => exact .inr ⟨_, .unterminated pieces ht⟩
      | badEscape pieces hd rest => exact .inr ⟨_, .badEscape pieces hd rest⟩
    · have hrun :=
        Lexer.runBefore_takeWhile (Lexer.isRunChar_of_other hblank hcomment hkind hquote) cs
      have hparts := hrun.lexeme_or_offence before
      rwa [List.cons_append, List.takeWhile_append_dropWhile] at hparts

/-! ## Cuts -/

namespace Lexeme

theorem chars_ne_nil (l : Lexeme) : l.chars ≠ [] := by
  cases l with
  | blanks _ ne _ | run _ _ _ ne _ _ _ => exact ne
  | newline | comment _ _ | structural _ _ _ | quoted _ => exact List.cons_ne_nil _ _

def isRun : Lexeme → Bool
  | .run _ _ _ _ _ _ _ => true
  | _ => false

theorem isRunChar_head (l : Lexeme) {c : Char} (h : c ∈ l.chars.head?) :
    Lexer.isRunChar c = l.isRun := by
  cases l with
  | newline | comment _ _ | quoted _ =>
    cases h
    rfl
  | blanks cs ne hcs =>
    obtain ⟨hblank, -⟩ := hcs c (List.mem_of_mem_head? h)
    simp [Lexer.isRunChar, isRun, hblank]
  | structural d kind hd =>
    cases h
    simp [Lexer.isRunChar, isRun, hd]
  | run cs kind value ne hchars hp hw => exact hchars c (List.mem_of_mem_head? h)

theorem head_eq_newline_iff (l : Lexeme) {c : Char} (h : c ∈ l.chars.head?) :
    c = '\n' ↔ l = .newline := by
  cases l with
  | newline =>
    cases h
    exact iff_of_true rfl rfl
  | comment _ _ | quoted _ =>
    cases h
    exact iff_of_false (by decide) nofun
  | blanks cs ne hcs => exact iff_of_false (hcs c (List.mem_of_mem_head? h)).2 nofun
  | structural d kind hd =>
    cases h
    exact iff_of_false (Lexer.structural?_ne_newline hd) nofun
  | run cs kind value ne hchars hp hw =>
    exact iff_of_false (Lexer.isRunChar_ne_newline (hchars c (List.mem_of_mem_head? h))) nofun

/-- Whether a lexeme may come next is decided by its first character. -/
theorem endsBefore_iff_meets (l next : Lexeme) (rest : List Char) :
    l.EndsBefore (next.chars ++ rest) ↔ l.Meets next := by
  obtain ⟨c, cs, hchars⟩ := List.exists_cons_of_ne_nil next.chars_ne_nil
  have hhead : c ∈ next.chars.head? := by
    rw [hchars]
    rfl
  rw [hchars]
  cases l with
  | comment body h =>
    have hends : (Lexeme.comment body h).EndsBefore (c :: cs ++ rest) ↔ c = '\n' := by
      simp [EndsBefore]
    rw [hends, next.head_eq_newline_iff hhead]
    cases next <;> simp [Meets]
  | run first kind value ne hc hp hw =>
    have hends : (Lexeme.run first kind value ne hc hp hw).EndsBefore (c :: cs ++ rest) ↔
        Lexer.isRunChar c = false := by simp [EndsBefore]
    rw [hends, next.isRunChar_head hhead]
    cases next <;> simp [Meets, isRun]
  | newline | blanks _ _ _ | structural _ _ _ | quoted _ => cases next <;> simp [Meets, EndsBefore]

end Lexeme

theorem cut_nil (cs : List Char) : Cut cs [] cs := ⟨rfl, .nil, nofun⟩

theorem Cut.cons {l : Lexeme} {cs rest : List Char} {ls : List Lexeme} (h : Cut cs ls rest)
    (hl : l.EndsBefore cs) : Cut (l.chars ++ cs) (l :: ls) rest := by
  obtain ⟨rfl, hchain, hlast⟩ := h
  refine ⟨by rw [List.flatMap_cons, List.append_assoc], ?_, ?_⟩
  · refine List.isChain_cons.mpr ⟨fun next hnext => ?_, hchain⟩
    obtain ⟨ls, rfl⟩ := List.head?_eq_some_iff.mp hnext
    rw [List.flatMap_cons, List.append_assoc] at hl
    exact (l.endsBefore_iff_meets next _).mp hl
  · cases ls with
    | nil =>
      intro l' hl'
      cases hl'
      exact hl
    | cons next ls =>
      rw [List.getLast?_cons_cons]
      exact hlast

theorem Cut.tail {l : Lexeme} {cs rest : List Char} {ls : List Lexeme} (h : Cut cs (l :: ls) rest) :
    cs = l.chars ++ (ls.flatMap Lexeme.chars ++ rest) ∧
    l.EndsBefore (ls.flatMap Lexeme.chars ++ rest) ∧
      Cut (ls.flatMap Lexeme.chars ++ rest) ls rest := by
  obtain ⟨rfl, hchain, hlast⟩ := h
  obtain ⟨hmeets, hchain⟩ := List.isChain_cons.mp hchain
  refine ⟨by rw [List.flatMap_cons, List.append_assoc], ?_⟩
  cases ls with
  | nil => exact ⟨hlast l rfl, rfl, .nil, nofun⟩
  | cons next ls =>
    rw [List.getLast?_cons_cons] at hlast
    refine ⟨?_, rfl, hchain, hlast⟩
    rw [List.flatMap_cons, List.append_assoc]
    exact (l.endsBefore_iff_meets next _).mpr (hmeets next rfl)

/-- Over a cut the lexer yields the tokens of the lexemes, and then goes on with what is left. -/
theorem lexFrom_of_cut {ls : List Lexeme} {cs rest : List Char} (h : Cut cs ls rest)
    (before : List Char) :
    Lexer.lexFrom (lineAfter before) cs =
      (Lexer.lexFrom (lineAfter (before ++ ls.flatMap Lexeme.chars)) rest).prepend
        (tokensAfter before ls) := by
  induction ls generalizing cs before with
  | nil =>
    rw [h.chars, List.flatMap_nil, List.append_nil]
    rfl
  | cons l ls ih =>
    obtain ⟨rfl, hl, htail⟩ := h.tail
    rw [Lexer.lexFrom_chars _ l hl, ← lineAfter_append, ih htail, List.flatMap_cons,
      List.append_assoc]
    simp [Lexed.prepend, tokensAfter]

/-- Every text can be cut up to its end, or up to an offence. -/
theorem exists_cut (before cs : List Char) :
    ∃ ls rest, Cut cs ls rest ∧
      (rest = [] ∨ ∃ f, Offence (before ++ ls.flatMap Lexeme.chars) rest f) := by
  by_cases hcs : cs = []
  · exact ⟨[], cs, cut_nil cs, .inl hcs⟩
  obtain ⟨l, tail, htail, hl⟩ | ⟨f, hf⟩ := lexeme_or_offence before hcs
  · have : tail.length < cs.length := by
      rw [htail, List.length_append]
      exact Nat.lt_add_of_pos_left (List.length_pos_iff.mpr l.chars_ne_nil)
    obtain ⟨ls, rest, hcut, hend⟩ := exists_cut (before ++ l.chars) tail
    refine ⟨l :: ls, rest, htail ▸ hcut.cons hl, ?_⟩
    rwa [List.flatMap_cons, ← List.append_assoc]
  · refine ⟨[], cs, cut_nil cs, .inr ⟨f, ?_⟩⟩
    rwa [List.flatMap_nil, List.append_nil]
termination_by cs.length

theorem lex_of_cut {source : String} {ls : List Lexeme} {rest : List Char}
    (h : Cut source.toList ls rest) :
    lex source =
      (Lexer.lexFrom (lineAfter (ls.flatMap Lexeme.chars)) rest).prepend (tokensAfter [] ls) :=
  lexFrom_of_cut h []

theorem lex_of_cut_end {source : String} {ls : List Lexeme} (h : Cut source.toList ls []) :
    lex source = ⟨tokensAfter [] ls, none⟩ := by
  rw [lex_of_cut h, Lexer.lexFrom]
  simp [Lexed.prepend, Lexed.empty]

theorem lex_of_cut_offence {source : String} {ls : List Lexeme} {rest : List Char} {f : Fault}
    (h : Cut source.toList ls rest) (hf : Offence (ls.flatMap Lexeme.chars) rest f) :
    lex source = ⟨tokensAfter [] ls, some f⟩ := by
  rw [lex_of_cut h, Lexer.lexFrom_of_offence hf]
  simp [Lexed.prepend, Lexed.failed]

theorem exists_lexeme_of_mem_tokensAfter {before : List Char} {ls : List Lexeme} {t : Token}
    (h : t ∈ tokensAfter before ls) : ∃ (l : Lexeme) (line : Int), l.token? line = some t := by
  induction ls generalizing before with
  | nil => cases h
  | cons l ls ih =>
    obtain h | h := List.mem_append.mp h
    · exact ⟨l, _, Option.mem_toList.mp h⟩
    · exact ih h

/-- Every token of a text is that of a lexeme, also if the text cannot be cut to its end. -/
theorem exists_lexeme_of_mem_lex {source : String} {t : Token} (h : t ∈ (lex source).tokens) :
    ∃ (l : Lexeme) (line : Int), l.token? line = some t := by
  obtain ⟨ls, rest, hcut, hend⟩ := exists_cut [] source.toList
  rw [List.nil_append] at hend
  obtain rfl | ⟨f, hf⟩ := hend
  · rw [lex_of_cut_end hcut] at h
    exact exists_lexeme_of_mem_tokensAfter h
  · rw [lex_of_cut_offence hcut hf] at h
    exact exists_lexeme_of_mem_tokensAfter h

/-- A long integer is a text without tokens. -/
theorem lex_of_isLong {cs : List Char} (h : Number.IsLong cs) :
    lex (String.ofList cs) = ⟨[], some (.unreadableInteger cs.length)⟩ := by
  have run : RunBefore cs [] := by
    refine ⟨?_, fun c hc => (Lexer.isRunChar_of_isAsciiDigit (h.2 c hc)).1, nofun⟩
    rintro rfl
    exact absurd h.1 (by decide)
  have offence : Offence [] (cs ++ []) _ := .long run h
  rw [List.append_nil] at offence
  have cut : Cut (String.ofList cs).toList [] cs := by
    rw [String.toList_ofList]
    exact cut_nil cs
  exact lex_of_cut_offence cut offence

/-! ## Names -/

/-- The characters that have a meaning of their own. -/
def marks : List Char := ['(', ')', '\x7b', '\x7d', ':', ';', '"']

/-- A word that can stand for something: its characters are visible and have no meaning of their
own, and it is neither a number nor a literal. -/
structure IsName (name : String) : Prop where
  ne : name ≠ ""
  printable : ∀ c ∈ name.toList, Text.isPrintable c = true
  no_blank : ∀ c ∈ name.toList, Text.isBlank c = false
  no_mark : ∀ c ∈ name.toList, c ∉ marks
  no_digit : ∀ c ∈ name.toList.head?, ¬ ('0' ≤ c ∧ c ≤ '9')
  not_literal : name ∉ ["true", "false", "nil"]

theorem isRunChar_iff {c : Char} :
    Lexer.isRunChar c = true ↔ Text.isBlank c = false ∧ c ∉ marks := by
  have structural : (Lexer.structural? c).isNone = true ↔ c ∉ ['(', ')', '\x7b', '\x7d', ':'] := by
    unfold Lexer.structural?
    split <;> simp_all
  simp only [Lexer.isRunChar, Bool.and_eq_true, Bool.not_eq_true', bne_iff_ne, structural, marks]
  simp only [List.mem_cons, List.not_mem_nil, or_false]
  tauto

theorem startsWithDigit_iff {run : List Char} :
    StartsWithDigit run ↔ ∃ c ∈ run.head?, '0' ≤ c ∧ c ≤ '9' := by
  cases run with
  | nil => simp [StartsWithDigit]
  | cons c cs => simp [StartsWithDigit, Text.isAsciiDigit, Text.asciiDigit?]

/-- The names are the runs that are read as symbols. -/
theorem isName_iff {name : String} : IsName name ↔
    name.toList ≠ [] ∧ (∀ c ∈ name.toList, Lexer.isRunChar c = true) ∧
    (∀ c ∈ name.toList, Text.isPrintable c = true) ∧
    ¬ StartsWithDigit name.toList ∧ name.toList ∉ reservedWords := by
  have empty : name.toList = [] ↔ name = "" := String.toList_eq_nil_iff
  have literal : name.toList ∈ reservedWords ↔ name ∈ ["true", "false", "nil"] := by
    simp only [reservedWords, List.mem_cons, List.not_mem_nil, String.toList_inj]
  simp only [startsWithDigit_iff, literal, isRunChar_iff, ne_eq, empty]
  constructor
  · intro h
    exact ⟨h.ne, fun c hc => ⟨h.no_blank c hc, h.no_mark c hc⟩, h.printable,
      fun ⟨c, hc, hd⟩ => h.no_digit c hc hd, h.not_literal⟩
  · rintro ⟨ne, chars, printable, digit, reserved⟩
    exact ⟨ne, printable, fun c hc => (chars c hc).1, fun c hc => (chars c hc).2,
      fun c hc hd => digit ⟨c, hc, hd⟩, reserved⟩

namespace IsName

variable {name : String} (h : IsName name)
include h

theorem toList_ne_nil : name.toList ≠ [] := (isName_iff.mp h).1

theorem isRunChar : ∀ c ∈ name.toList, Lexer.isRunChar c = true := (isName_iff.mp h).2.1

theorem word : Word name.toList .symbol (.str (String.ofList name.toList)) :=
  .symbol (isName_iff.mp h).2.2.2.1 (isName_iff.mp h).2.2.2.2

end IsName

/-- A text has tokens if and only if it can be cut into lexemes, and they are the tokens of the
lexemes, each on the line on which its lexeme starts.  It ends in a fault if and only if it can be
cut up to an offence, whose fault that is; then it has the tokens of the lexemes before the
offence. -/
theorem lex_eq_iff (source : String) :
    (∀ ts, lex source = ⟨ts, none⟩ ↔
      ∃ ls, source.toList = ls.flatMap Lexeme.chars ∧ ls.IsChain Lexeme.Meets ∧
        ts = tokensAfter [] ls) ∧
    ∀ ts f, lex source = ⟨ts, some f⟩ ↔
      ∃ ls rest, Cut source.toList ls rest ∧ Offence (ls.flatMap Lexeme.chars) rest f ∧
        ts = tokensAfter [] ls := by
  have ends (l : Lexeme) : l.EndsBefore [] := by
    cases l <;> simp [Lexeme.EndsBefore]
  obtain ⟨ls, rest, hcut, hend⟩ := exists_cut [] source.toList
  refine ⟨fun ts => ⟨fun h => ?_, ?_⟩, fun ts f => ⟨fun h => ?_, ?_⟩⟩
  · obtain rfl | ⟨f, hf⟩ := hend
    · rw [lex_of_cut_end hcut] at h
      cases h
      exact ⟨ls, by rw [hcut.chars, List.append_nil], hcut.chain, rfl⟩
    · rw [lex_of_cut_offence hcut hf] at h
      cases h
  · rintro ⟨ls, hchars, hchain, rfl⟩
    exact lex_of_cut_end ⟨by rw [hchars, List.append_nil], hchain, fun l _ => ends l⟩
  · obtain rfl | ⟨f', hf⟩ := hend
    · rw [lex_of_cut_end hcut] at h
      cases h
    · rw [lex_of_cut_offence hcut hf] at h
      cases h
      exact ⟨ls, rest, hcut, hf, rfl⟩
  · rintro ⟨ls, rest, hcut, hf, rfl⟩
    exact lex_of_cut_offence hcut hf

/-- One zero more than can be converted is a literal for zero, and yet it has no token. -/
theorem lex_zeros :
    Number.Literal (List.replicate (maxDigits + 1) '0') .int (.int 0) ∧
    lex (String.ofList (List.replicate (maxDigits + 1) '0')) =
      ⟨[], some (.unreadableInteger (maxDigits + 1))⟩ := by
  refine ⟨.int (.decimal (Number.numeral_zeros maxDigits)) (by decide), ?_⟩
  have long : Number.IsLong (List.replicate (maxDigits + 1) '0') :=
    Number.isLong_replicate (by decide) (Nat.lt_succ_self maxDigits)
  rw [lex_of_isLong long, List.length_replicate]

end DynLisp
