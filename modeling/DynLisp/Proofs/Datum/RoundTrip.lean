import DynLisp.Datum.Printer
import DynLisp.Proofs.Evaluation.Balance
import DynLisp.Proofs.Reader.Grammar
import DynLisp.Proofs.Token.Grammar

/-!
# Values that can be written in a program

Texts, truth values, integers that are not negative, and lists and maps of such values have a
literal.  The literal is read as one form, and the form evaluates to the value again.

Both follow by one induction on the value, which takes writing, tokens, forms and evaluation
together (`WrittenAs`).  What lets the parts be put side by side is that every item of a collection
is followed by a blank, so no token runs into the next, and that no literal spans several lines.
-/

namespace DynLisp

/-- A value that has a literal, with at most `n` collections inside one another. -/
inductive Datum.Writable : Nat → Datum → Prop where
  | str {n : Nat} (text : String) : Writable n (.str text)
  | bool {n : Nat} (b : Bool) : Writable n (.bool b)
  | int {n : Nat} {i : Int} (h₀ : 0 ≤ i) (h : i < 2 ^ 63) : Writable n (.int i)
  | list {n : Nat} {items : List Datum} (h : ∀ d ∈ items, Writable n d) :
      Writable (n + 1) (.list items)
  | map {n : Nat} {entries : List (String × Datum)} (hk : (Assoc.names entries).Nodup)
    (hs : ∀ e ∈ entries, IsName e.1) (h : ∀ e ∈ entries, Writable n e.2) :
    Writable (n + 1) (.map entries)

/-! ## Tokens of literals -/

namespace Lexer

/-- A lexeme within a line. -/
theorem lexFrom_lexeme (line : Int) (l : Lexeme) (hl : ∀ c ∈ l.chars, c ≠ '\n') {rest : List Char}
    (h : l.EndsBefore rest) :
    lexFrom line (l.chars ++ rest) = (lexFrom line rest).prepend (l.token? line).toList := by
  rw [lexFrom_chars line l h, count_newline_eq_zero hl, Int.natCast_zero, Int.add_zero]

theorem lexFrom_word (line : Int) {run : List Char} {kind : TokenKind} {value : Datum}
    (ne : run ≠ []) (chars : ∀ c ∈ run, isRunChar c = true)
    (printable : ∀ c ∈ run, Text.isPrintable c = true) (word : Word run kind value)
    {rest : List Char} (h : ∀ c ∈ rest.head?, isRunChar c = false) :
    lexFrom line (run ++ rest) = (lexFrom line rest).prepend [⟨kind, value, line⟩] :=
  lexFrom_lexeme line (.run run kind value ne chars printable word)
    (fun c hc => isRunChar_ne_newline (chars c hc)) h

end Lexer

namespace Piece

/-- The way in which a character is written. -/
def ofChar (c : Char) : Piece :=
  if c = '\n' then .newline
  else if c = '\t' then .tab
  else if hb : c = '\\' then .backslash
  else if hq : c = '"' then .quote
  else .plain c hq hb

theorem char_ofChar (c : Char) : (ofChar c).char = c := by
  unfold ofChar
  split_ifs <;> simp_all [char]

theorem chars_ofChar (c : Char) : (ofChar c).chars = Datum.escapeChar c := by
  unfold ofChar Datum.escapeChar
  split_ifs <;> simp_all [chars]

end Piece

namespace Lexer

theorem lexFrom_stringLiteral (line : Int) (text : String) (rest : List Char) :
    lexFrom line ((Datum.stringLiteral text).toList ++ rest) =
      (lexFrom line rest).prepend [⟨.string, .str text, line⟩] := by
  have hchars :
      (Lexeme.quoted (text.toList.map Piece.ofChar)).chars = (Datum.stringLiteral text).toList := by
    simp [Lexeme.chars, Datum.stringLiteral, List.flatMap_map, Piece.chars_ofChar]
  have htoken : (Lexeme.quoted (text.toList.map Piece.ofChar)).token? line =
      some ⟨.string, .str text, line⟩ := by
    simp [Lexeme.token?, Function.comp_def, Piece.char_ofChar]
  have hline : ∀ c ∈ (Lexeme.quoted (text.toList.map Piece.ofChar)).chars, c ≠ '\n' := by
    have escaped (c : Char) : '\n' ∉ Datum.escapeChar c := by
      unfold Datum.escapeChar
      split <;> simp_all [Ne.symm]
    rintro _ hc rfl
    rw [hchars] at hc
    simp [Datum.stringLiteral, escaped] at hc
  have h := @lexFrom_lexeme line (.quoted (text.toList.map Piece.ofChar)) hline rest trivial
  rwa [hchars, htoken] at h

end Lexer

/-! ## One level down and back -/

theorem World.lt_levelsLeft_deeper {w : World} {n : Nat} (h : n + 1 < w.env.levelsLeft) :
    n < w.deeper.env.levelsLeft := by
  unfold Environment.levelsLeft World.deeper at *
  cases hl : w.env.limit with
  | none =>
    rw [hl] at h
    exact Nat.lt_of_succ_lt h
  | some limit =>
    rw [hl] at h
    dsimp only at h ⊢
    omega

/-- A form is evaluated one level down.  If that leaves the state alone, so does the way back. -/
theorem evaluate_of_form {natives : Natives} {room n : Nat} {d v : Datum} {w : World}
    (hroom : n < room) (hw : n < w.env.levelsLeft)
    (h : ∀ inner ≥ n, Eval.form natives (evaluate natives inner) d w.deeper =
      .ok v w.deeper) :
    evaluate natives room d w = .ok v w := by
  obtain ⟨inner, rfl⟩ := Nat.exists_eq_succ_of_ne_zero (Nat.ne_zero_of_lt hroom)
  obtain ⟨limit, hlimit, hle, -⟩ | ⟨-, hd⟩ := w.env.descend_cases
  · rw [Environment.levelsLeft_of_some hlimit] at hw
    omega
  · exact Eval.nested_eq_ok hd (h inner (Nat.lt_succ_iff.mp hroom))

/-! ## From values to literals and back -/

/-- The value is written as a text whose tokens are read as a form that evaluates to the value. -/
structure WrittenAs (line : Int) (n : Nat) (v : Datum) (text : String) (p : Part) : Prop where
  source : v.source = .ok text
  tokens : ∀ rest : List Char, (∀ c ∈ rest.head?, Lexer.isRunChar c = false) →
    Lexer.lexFrom line (text.toList ++ rest) = (Lexer.lexFrom line rest).prepend p.tokens
  form : Derives n p.tokens p.form
  value : ∀ natives room w, n < room → n < w.env.levelsLeft →
    evaluate natives room p.form w = .ok v w

namespace WrittenAs

variable {line : Int} {n : Nat}

theorem atom {v : Datum} {kind : TokenKind} {text : String} (hs : v.source = .ok text)
    (ht : ∀ rest : List Char, (∀ c ∈ rest.head?, Lexer.isRunChar c = false) →
      Lexer.lexFrom line (text.toList ++ rest) =
        (Lexer.lexFrom line rest).prepend [⟨kind, v, line⟩])
    (hk : kind = .string ∨ kind = .int ∨ kind = .real ∨ kind = .bool)
    (he : ∀ natives go, Eval.form natives go v = pure v) :
    WrittenAs line n v text ⟨[⟨kind, v, line⟩], v⟩ := by
  refine ⟨hs, ht, .atom (.literal hk), fun natives room w hroom hw => ?_⟩
  refine evaluate_of_form hroom hw fun inner _ => ?_
  rw [he]
  rfl

theorem word {v : Datum} {kind : TokenKind} {text : String} (hs : v.source = .ok text)
    (hne : text.toList ≠ [])
    (hc : ∀ c ∈ text.toList, Lexer.isRunChar c = true ∧ Text.isPrintable c = true)
    (hw : Word text.toList kind v) (hk : kind = .string ∨ kind = .int ∨ kind = .real ∨ kind = .bool)
    (he : ∀ natives go, Eval.form natives go v = pure v) :
    WrittenAs line n v text ⟨[⟨kind, v, line⟩], v⟩ :=
  have printable : ∀ c ∈ text.toList, Text.isPrintable c = true := fun c h => (hc c h).2
  atom hs (fun _ => Lexer.lexFrom_word line hne (fun c h => (hc c h).1) printable hw) hk he

theorem str (text : String) : ∃ literal p, WrittenAs line n (.str text) literal p :=
  ⟨_, _, atom rfl (fun rest _ => Lexer.lexFrom_stringLiteral line text rest) (.inl rfl)
    fun _ _ => rfl⟩

theorem bool (b : Bool) : ∃ literal p, WrittenAs line n (.bool b) literal p := by
  have kind : TokenKind.bool = .string ∨ TokenKind.bool = .int ∨ TokenKind.bool = .real ∨
      TokenKind.bool = .bool :=
    .inr (.inr (.inr rfl))
  cases b with
  | true =>
    exact ⟨"true", _, word rfl (by decide) (Lexer.isRunChar_of_ascii (by decide)) .true kind
      fun _ _ => rfl⟩
  | false =>
    exact ⟨"false", _, word rfl (by decide) (Lexer.isRunChar_of_ascii (by decide)) .false kind
      fun _ _ => rfl⟩

theorem int {i : Int} (h₀ : 0 ≤ i) (h : i < 2 ^ 63) :
    ∃ literal p, WrittenAs line n (.int i) literal p := by
  obtain ⟨m, rfl⟩ := Int.eq_ofNat_of_zero_le h₀
  have hm : m < 2 ^ 63 := by exact_mod_cast h
  have hdigits := Number.numeral_toDigits m
  have short : ¬ Number.IsLong (Nat.toDigits 10 m) := by
    intro hlong
    have : (Nat.toDigits 10 m).length ≤ 19 :=
      (Nat.length_toDigits_le_iff (by decide) (by decide)).mpr (hm.trans (by decide))
    exact absurd (hlong.1.trans_le this) (by decide)
  have hsource : (Datum.int m).source = .ok (String.ofList (Nat.toDigits 10 m)) :=
    congrArg Except.ok Nat.toString_eq_ofList_toDigits
  refine ⟨_, _, word hsource ?_ ?_ ?_ (.inr (.inl rfl)) fun _ _ => rfl⟩ <;>
    rw [String.toList_ofList]
  · exact hdigits.1
  · exact fun c hc => Lexer.isRunChar_of_isAsciiDigit (hdigits.isAsciiDigit c hc)
  · exact .number ⟨.int (.decimal hdigits) hm, short⟩

end WrittenAs

/-! ## Collections -/

/-- A token that is a single character. -/
def Token.mark (kind : TokenKind) (c : Char) (line : Int) : Token :=
  ⟨kind, .str (String.singleton c), line⟩

/-- Tokens between braces. -/
def Token.braced (line : Int) (ts : List Token) : List Token :=
  mark .openBrace '\x7b' line :: (ts ++ [mark .closeBrace '\x7d' line])

/-- An entry on the given line. -/
def Entry.ofBinding (line : Int) (b : String × Part) : Entry :=
  ⟨⟨.symbol, .str b.1, line⟩, .mark .colon ':' line, b.2, rfl, rfl⟩

/-- The text stands for the tokens, whatever follows. -/
def Lexer.Spells (line : Int) (text : String) (ts : List Token) : Prop :=
  ∀ rest, lexFrom line (text.toList ++ rest) = (lexFrom line rest).prepend ts

theorem Lexer.Spells.braced {line : Int} {text : String} {ts : List Token}
    (h : Spells line text ts) : Spells line ("\x7b " ++ text ++ "\x7d") (Token.braced line ts) := by
  intro rest
  have hbraces : ("\x7b " ++ text ++ "\x7d").toList ++ rest =
      '\x7b' :: ' ' :: (text.toList ++ '\x7d' :: rest) := by
    simp
  have hopen : structural? '\x7b' = some .openBrace := rfl
  have hclose : structural? '\x7d' = some .closeBrace := rfl
  rw [hbraces, lexFrom_structural line hopen, lexFrom_blank line (by decide) (by decide), h,
    lexFrom_structural line hclose]
  simp [Lexed.prepend, Lexed.cons, Token.braced, Token.mark]

/-- The items of a list, each of which is followed by a blank. -/
structure ItemsWrittenAs (line : Int) (n : Nat) (items : List Datum) (text : String)
    (parts : List Part) : Prop where
  source : Datum.writeAll true items = .ok text
  tokens : Lexer.Spells line text (parts.flatMap Part.tokens)
  forms : ∀ p ∈ parts, Derives n p.tokens p.form
  values : ∀ natives room w, n < room → n < w.env.levelsLeft →
    Eval.each (evaluate natives room) (parts.map Part.form) w = .ok items w

/-- The entries of a map, each of which is followed by a blank. -/
structure EntriesWrittenAs (line : Int) (n : Nat) (entries : List (String × Datum)) (text : String)
    (bs : List (String × Part)) : Prop where
  source : Datum.writeEntries true entries = .ok text
  tokens : Lexer.Spells line text ((bs.map (Entry.ofBinding line)).flatMap Entry.tokens)
  forms : ∀ b ∈ bs, Derives n b.2.tokens b.2.form
  names : bs.map Prod.fst = Assoc.names entries
  values : ∀ natives room w, n < room → n < w.env.levelsLeft →
    Eval.entries (evaluate natives room) (bs.map fun b => (b.1, b.2.form)) w = .ok entries w

namespace WrittenAs

variable {line : Int} {n : Nat}

theorem exists_items {items : List Datum} (h : ∀ d ∈ items, ∃ text p, WrittenAs line n d text p) :
    ∃ text parts, ItemsWrittenAs line n items text parts := by
  induction items with
  | nil => exact ⟨"", [], rfl, fun _ => rfl, nofun, fun _ _ _ _ _ => rfl⟩
  | cons d items ih =>
    obtain ⟨⟨text, p, hd⟩, hitems⟩ := List.forall_mem_cons.mp h
    obtain ⟨more, parts, hm⟩ := ih hitems
    refine ⟨text ++ " " ++ more, p :: parts, ?_, fun rest => ?_,
      List.forall_mem_cons.mpr ⟨hd.form, hm.forms⟩, fun natives room w hroom hw => ?_⟩
    · rw [Datum.writeAll, show Datum.write true d = .ok text from hd.source, hm.source]
      rfl
    · have hblank : (text ++ " " ++ more).toList ++ rest =
          text.toList ++ ' ' :: (more.toList ++ rest) := by simp
      rw [hblank, hd.tokens _ (by simp; decide),
        Lexer.lexFrom_blank line (by decide) (by decide), hm.tokens]
      simp [Lexed.prepend]
    · rw [List.map_cons, Eval.each, Eval.bind_apply, hd.value natives room w hroom hw]
      dsimp only
      rw [Eval.bind_apply, hm.values natives room w hroom hw]
      rfl

theorem exists_entries {entries : List (String × Datum)} (hs : ∀ e ∈ entries, IsName e.1)
    (h : ∀ e ∈ entries, ∃ text p, WrittenAs line n e.2 text p) :
    ∃ text bs, EntriesWrittenAs line n entries text bs := by
  induction entries with
  | nil => exact ⟨"", [], rfl, fun _ => rfl, nofun, rfl, fun _ _ _ _ _ => rfl⟩
  | cons e entries ih =>
    obtain ⟨key, d⟩ := e
    obtain ⟨⟨text, p, hd⟩, hentries⟩ := List.forall_mem_cons.mp h
    obtain ⟨hkey, hkeys⟩ := List.forall_mem_cons.mp hs
    obtain ⟨more, bs, hm⟩ := ih hkeys hentries
    refine ⟨key ++ ": " ++ text ++ " " ++ more, (key, p) :: bs, ?_, fun rest => ?_,
      List.forall_mem_cons.mpr ⟨hd.form, hm.forms⟩, congrArg (key :: ·) hm.names,
      fun natives room w hroom hw => ?_⟩
    · rw [Datum.writeEntries, show Datum.write true d = .ok text from hd.source, hm.source]
      rfl
    · have hparts : (key ++ ": " ++ text ++ " " ++ more).toList ++ rest =
          key.toList ++ ':' :: ' ' :: (text.toList ++ ' ' :: (more.toList ++ rest)) := by simp
      have hcolon : Lexer.structural? ':' = some .colon := rfl
      have hword := hkey.word
      rw [hparts, Lexer.lexFrom_word line hkey.toList_ne_nil hkey.isRunChar hkey.printable hword
          (by simp; decide),
        Lexer.lexFrom_structural line hcolon, Lexer.lexFrom_blank line (by decide) (by decide),
        hd.tokens _ (by simp; decide), Lexer.lexFrom_blank line (by decide) (by decide), hm.tokens]
      simp [Lexed.prepend, Lexed.cons, Entry.tokens, Entry.ofBinding, Token.mark]
    · rw [List.map_cons, Eval.entries, Eval.bind_apply, hd.value natives room w hroom hw]
      dsimp only
      rw [Eval.bind_apply, hm.values natives room w hroom hw]
      rfl

theorem list {items : List Datum} (h : ∀ d ∈ items, ∃ text p, WrittenAs line n d text p) :
    ∃ text p, WrittenAs line (n + 1) (.list items) text p := by
  obtain ⟨text, parts, hm⟩ := exists_items h
  refine ⟨"\x7b " ++ text ++ "\x7d",
    ⟨Token.braced line (parts.flatMap Part.tokens), .listForm (parts.map Part.form)⟩, ?_,
    fun rest _ => hm.tokens.braced rest, ?_, fun natives room w hroom hw => ?_⟩
  · rw [Datum.source, Datum.write, hm.source]
    rfl
  · exact .list (by omega) rfl rfl (by simpa using hm.forms)
  · refine evaluate_of_form hroom hw fun inner hinner => ?_
    rw [Eval.form, Eval.bind_apply, hm.values natives inner _ hinner
      (World.lt_levelsLeft_deeper hw)]
    rfl

/-- Entries with distinct keys are read as they stand. -/
theorem derives_entries {b : String × Part} {bs : List (String × Part)}
    (hn : ((b :: bs).map Prod.fst).Nodup) (h : ∀ e ∈ b :: bs, Derives n e.2.tokens e.2.form) :
    Derives (n + 1 : Nat)
      (Token.braced line (((b :: bs).map (Entry.ofBinding line)).flatMap Entry.tokens))
      (.mapForm ((b :: bs).map fun b => (b.1, b.2.form))) := by
  obtain ⟨hb, hbs⟩ := List.forall_mem_cons.mp h
  have hbinding :
      (bs.map (Entry.ofBinding line)).map Entry.binding = bs.map fun b => (b.1, b.2.form) := by
    rw [List.map_map]
    rfl
  have hmerged : Assoc.merged ((b :: bs).map fun b => (b.1, b.2.form)) =
      (b :: bs).map fun b => (b.1, b.2.form) := by
    rw [← Assoc.ofList_eq_merged]
    refine Assoc.ofList_of_nodup ?_
    rwa [Assoc.names, List.map_map]
  have hroom : ((n + 1 : Nat) : Int) - 1 = n := by omega
  have hvalues : ∀ e ∈ bs.map (Entry.ofBinding line),
      Derives ((n + 1 : Nat) - 1) e.value.tokens e.value.form := by
    intro e he
    obtain ⟨b', hb', rfl⟩ := List.mem_map.mp he
    exact hroom ▸ hbs b' hb'
  have hd := @Derives.map (n + 1 : Nat) (.mark .openBrace '\x7b' line) ⟨.symbol, .str b.1, line⟩
    (.mark .colon ':' line) (.mark .closeBrace '\x7d' line) b.1 b.2 (bs.map (Entry.ofBinding line))
    (by omega) rfl (.symbol rfl rfl) rfl rfl (hroom ▸ hb) hvalues
  rw [hbinding, ← List.map_cons (f := fun b : String × Part => (b.1, b.2.form)), hmerged] at hd
  simpa [Token.braced, Entry.tokens, Entry.ofBinding] using hd

theorem map {entries : List (String × Datum)} (hk : (Assoc.names entries).Nodup)
    (hs : ∀ e ∈ entries, IsName e.1) (h : ∀ e ∈ entries, ∃ text p, WrittenAs line n e.2 text p) :
    ∃ text p, WrittenAs line (n + 1) (.map entries) text p := by
  cases entries with
  | nil =>
    -- the empty map has a literal of its own, without blanks
    refine ⟨"\x7b:\x7d", ⟨Token.braced line [.mark .colon ':' line], .mapForm []⟩, rfl,
      fun rest _ => ?_, .emptyMap (by omega) rfl rfl rfl, fun natives room w hroom hw => ?_⟩
    · have hmarks : "\x7b:\x7d".toList ++ rest = '\x7b' :: ':' :: '\x7d' :: rest := rfl
      have structural {c : Char} {kind : TokenKind} (hc : Lexer.structural? c = some kind)
          (rest : List Char) :=
        Lexer.lexFrom_structural line hc rest
      rw [hmarks, structural rfl, structural rfl, structural rfl]
      rfl
    · exact evaluate_of_form hroom hw fun _ _ => rfl
  | cons e entries =>
    obtain ⟨text, bs, hm⟩ := exists_entries hs h
    cases bs with
    | nil => cases hm.names
    | cons b bs =>
      refine ⟨"\x7b " ++ text ++ "\x7d", ⟨_, _⟩, ?_, fun rest _ => hm.tokens.braced rest,
        derives_entries (hm.names ▸ hk) hm.forms, fun natives room w hroom hw => ?_⟩
      · rw [Datum.source, Datum.write, hm.source]
        · rfl
        · exact List.cons_ne_nil _ _
      · refine evaluate_of_form hroom hw fun inner hinner => ?_
        rw [Eval.form, Eval.bind_apply, hm.values natives inner _ hinner
          (World.lt_levelsLeft_deeper hw)]
        dsimp only
        rw [Assoc.ofList_of_nodup hk]
        rfl

end WrittenAs

theorem exists_writtenAs (line : Int) {n : Nat} {v : Datum} (h : v.Writable n) :
    ∃ text p, WrittenAs line n v text p := by
  induction h with
  | str text => exact WrittenAs.str text
  | bool b => exact WrittenAs.bool b
  | int h₀ h => exact WrittenAs.int h₀ h
  | list _ ih => exact WrittenAs.list ih
  | map hk hs _ ih => exact WrittenAs.map hk hs ih

/-- A value that has a literal is read back from it as one form, and wherever the limit leaves more
levels than the value has collections inside one another, the form evaluates to the same value and
leaves everything as it was. -/
theorem read_source {v : Datum} {n : Nat} (h : v.Writable n) (hn : n ≤ maxNesting) :
    ∃ text form, v.source = .ok text ∧ read text = ⟨[form], none⟩ ∧
      ∀ natives w, n < w.env.levelsLeft → evalForm natives form w = .ok v w := by
  obtain ⟨text, p, hs, ht, hf, hv⟩ := exists_writtenAs 1 h
  refine ⟨text, p.form, hs, ?_, fun natives w hw => hv natives _ w (Environment.lt_room hw) hw⟩
  · have hlex : lex text = ⟨p.tokens, none⟩ := by
      have h := ht [] nofun
      rw [List.append_nil] at h
      rw [lex, h]
      simp [Lexer.lexFrom, Lexed.prepend, Lexed.empty]
    rw [read, hlex, Lexed.read, ← List.append_nil p.tokens]
    rw [Gauge.reads_of_derives hf [] [] (by simpa using hn)]
    rfl

/-- A list in a map that holds all four escapes and an empty map. -/
theorem read_source_nested :
    (Datum.map [("k", .list [.str "\"\\\n\t", .int 7, .map []])]).Writable 3 ∧
    (3 : Nat) ≤ maxNesting ∧
    ∃ text form, (Datum.map [("k", .list [.str "\"\\\n\t", .int 7, .map []])]).source = .ok text ∧
      read text = ⟨[form], none⟩ ∧ ∀ natives w, 3 < w.env.levelsLeft →
        evalForm natives form w =
          .ok (.map [("k", .list [.str "\"\\\n\t", .int 7, .map []])]) w := by
  have letter := Lexer.isRunChar_of_ascii (by decide : ("k".toList.all fun c =>
    Lexer.isRunChar c && 32 ≤ c.toNat && c.toNat < 127) = true)
  have key : IsName "k" := isName_iff.mpr
    ⟨by decide, fun c hc => (letter c hc).1, fun c hc => (letter c hc).2, by decide, by decide⟩
  have items : ∀ d ∈ [Datum.str "\"\\\n\t", .int 7, .map []], d.Writable 1 := by
    simp only [List.forall_mem_cons]
    exact ⟨.str _, .int (by decide) (by decide), .map .nil nofun nofun, nofun⟩
  have writable : (Datum.map [("k", .list [.str "\"\\\n\t", .int 7, .map []])]).Writable 3 :=
    .map (List.nodup_singleton "k") (List.forall_mem_singleton.mpr key)
      (List.forall_mem_singleton.mpr (.list items))
  exact ⟨writable, by decide, read_source writable (by decide)⟩

end DynLisp
