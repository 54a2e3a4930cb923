import DynLisp.Proofs.Reader.Grammar
import DynLisp.Proofs.Token.Grammar

/-!
# What is read is well formed

Every form that is read has legal names and integers all the way down, maps without repeated keys,
and no more brackets inside one another than are allowed (`WellFormed`).  This holds of the forms of
every text, also of those before a fault.

What the atoms are like is decided by the lexer, and everything else by the grammar of forms: each
form read is derived from tokens of the text, whatever becomes of the tokens after it
(`derives_of_mem_readFrom`), and a derivation from legal tokens makes a well-formed form.
-/

namespace DynLisp

/-- A form fit for evaluation, with at most `n` calls, lists and maps inside one another. -/
inductive Datum.WellFormed : Nat → Datum → Prop where
  | str {n : Nat} (text : String) : WellFormed n (.str text)
  | int {n : Nat} {i : Int} (h₀ : 0 ≤ i) (h : i ≤ 2 ^ 63 - 1) : WellFormed n (.int i)
  | real {n : Nat} (x : Float) : WellFormed n (.real x 0)
  | bool {n : Nat} (b : Bool) : WellFormed n (.bool b)
  | nil {n : Nat} : WellFormed n .nil
  | symbol {n : Nat} {name : String} (h : IsName name) : WellFormed n (.symbol name)
  | call {n : Nat} {items : List Datum} (h : ∀ d ∈ items, WellFormed n d) :
      WellFormed (n + 1) (.call 0 items)
  | listForm {n : Nat} {items : List Datum} (h : ∀ d ∈ items, WellFormed n d) :
      WellFormed (n + 1) (.listForm items)
  | mapForm {n : Nat} {entries : List (String × Datum)} (hk : (Assoc.names entries).Nodup)
    (hs : ∀ e ∈ entries, IsName e.1) (h : ∀ e ∈ entries, WellFormed n e.2) :
    WellFormed (n + 1) (.mapForm entries)

/-! ## Legal tokens -/

/-- The atom of the token is well formed, and so is the key. -/
structure Token.Legal (t : Token) : Prop where
  atom : ∀ {d}, t.IsAtom d → ∀ n, d.WellFormed n
  key : t.kind = .symbol → IsName t.value.plain

theorem Token.legal_of_literal {t : Token}
    (hk : t.kind = .string ∨ t.kind = .int ∨ t.kind = .real ∨ t.kind = .bool)
    (h : ∀ n, t.value.WellFormed n) : t.Legal := by
  constructor
  · intro d hd n
    cases hd with
    | literal => exact h n
    | nil h | symbol h => simp [h] at hk
  · intro hs
    simp [hs] at hk

theorem legal_of_word {run : List Char} {kind : TokenKind} {value : Datum} (h : Word run kind value)
    (ne : run ≠ []) (chars : ∀ c ∈ run, Lexer.isRunChar c = true)
    (printable : ∀ c ∈ run, Text.isPrintable c = true) (line : Int) :
    Token.Legal ⟨kind, value, line⟩ := by
  cases h with
  | number h =>
    obtain ⟨h, -⟩ := h
    cases h with
    | int _ hn =>
      exact Token.legal_of_literal (.inr (.inl rfl)) fun _ => .int (Int.natCast_nonneg _) (by omega)
    | real => exact Token.legal_of_literal (.inr (.inr (.inl rfl))) fun _ => .real _
  | true | false => exact Token.legal_of_literal (.inr (.inr (.inr rfl))) fun _ => .bool _
  | nil =>
    refine ⟨fun hd n => ?_, nofun⟩
    rcases hd with h | _ | h
    · simp at h
    · exact .nil
    · cases h
  | symbol hd hr =>
    have hname : IsName (String.ofList run) := by
      rw [isName_iff, String.toList_ofList]
      exact ⟨ne, chars, printable, hd, hr⟩
    refine ⟨fun hd n => ?_, fun _ => hname⟩
    rcases hd with h | h | ⟨-, h⟩
    · simp at h
    · cases h
    · cases h
      exact .symbol hname

theorem Lexeme.legal_of_token? {l : Lexeme} {line : Int} {t : Token} (h : l.token? line = some t) :
    t.Legal := by
  cases l with
  | newline | blanks | comment => cases h
  | structural c kind hc =>
    cases h
    unfold Lexer.structural? at hc
    split at hc <;> cases hc <;> exact ⟨fun hd => by rcases hd with h | h | h <;> simp at h, nofun⟩
  | quoted pieces =>
    cases h
    exact Token.legal_of_literal (.inl rfl) fun _ => .str _
  | run cs kind value ne chars printable word =>
    cases h
    exact legal_of_word word ne chars printable line

theorem legal_of_mem_lex {text : String} {t : Token} (h : t ∈ (lex text).tokens) : t.Legal := by
  obtain ⟨l, line, hl⟩ := exists_lexeme_of_mem_lex h
  exact Lexeme.legal_of_token? hl

/-! ## Forms from legal tokens -/

theorem legal_of_mem_part {l r : Token} {parts : List Part}
    (h : ∀ t ∈ l :: (parts.flatMap Part.tokens ++ [r]), t.Legal) {p : Part} (hp : p ∈ parts) :
    ∀ t ∈ p.tokens, t.Legal := fun t ht =>
  h t (List.mem_cons_of_mem _ (List.mem_append_left _ (List.mem_flatMap.mpr ⟨p, hp, ht⟩)))

/-- Legal tokens make a well-formed form. -/
theorem Derives.wellFormed {n : Int} {ts : List Token} {d : Datum} (h : Derives n ts d)
    (hts : ∀ t ∈ ts, t.Legal) {k : Nat} (hk : n ≤ k) : d.WellFormed k := by
  induction h generalizing k with
  | atom h => exact (hts _ List.mem_cons_self).atom h k
  | call hn _ _ _ ih =>
    obtain ⟨k, rfl⟩ := Nat.exists_eq_add_one.mpr (show 0 < k by omega)
    refine .call (List.forall_mem_map.mpr fun p hp => ?_)
    exact ih p hp (legal_of_mem_part hts hp) (by omega)
  | list hn _ _ _ ih =>
    obtain ⟨k, rfl⟩ := Nat.exists_eq_add_one.mpr (show 0 < k by omega)
    refine .listForm (List.forall_mem_map.mpr fun p hp => ?_)
    exact ih p hp (legal_of_mem_part hts hp) (by omega)
  | emptyMap hn =>
    obtain ⟨k, rfl⟩ := Nat.exists_eq_add_one.mpr (show 0 < k by omega)
    exact .mapForm List.nodup_nil nofun nofun
  | @map n l key c r name value rest hn _ hkey _ _ _ _ ihv ih =>
    obtain ⟨k, rfl⟩ := Nat.exists_eq_add_one.mpr (show 0 < k by omega)
    simp only [List.forall_mem_cons, List.forall_mem_append] at hts
    obtain ⟨-, hfirst, -, hvalue, hrest, -⟩ := hts
    have hentry : ∀ e ∈ rest, e.key.Legal ∧ ∀ t ∈ e.value.tokens, t.Legal := by
      intro e he
      have htokens : ∀ t ∈ e.tokens, t.Legal :=
        fun t ht => hrest t (List.mem_flatMap.mpr ⟨e, he, ht⟩)
      simp only [Entry.tokens, List.forall_mem_cons] at htokens
      exact ⟨htokens.1, htokens.2.2⟩
    have hbinding :
        ∀ b ∈ (name, value.form) :: rest.map Entry.binding, IsName b.1 ∧ b.2.WellFormed k := by
      refine List.forall_mem_cons.mpr ⟨⟨?_, ihv hvalue (by omega)⟩,
        List.forall_mem_map.mpr fun e he => ?_⟩
      · cases hfirst.atom hkey k with
        | symbol h => exact h
      · exact ⟨(hentry e he).1.key e.key_kind, ih e he (hentry e he).2 (by omega)⟩
    rw [← Assoc.ofList_eq_merged]
    exact .mapForm (Assoc.nodup_names_ofList _)
      (fun e he => (hbinding e (Assoc.mem_of_mem_ofList he)).1)
      (fun e he => (hbinding e (Assoc.mem_of_mem_ofList he)).2)

/-- Every form that is read is derived from tokens that stand together, also if reading fails after
it. -/
theorem Gauge.derives_of_mem_readFrom {g : Gauge} {failure : Option Fault} {ts : List Token}
    {s : ReadState} {tokens : List Token} (hs : s.Began (g.limit - g.opened) tokens) {d : Datum}
    (hd : d ∈ (g.readFrom failure s ts).forms) :
    ∃ part, part <:+: tokens ++ ts ∧ Derives (g.limit - g.opened) part d := by
  induction ts generalizing s tokens with
  | nil =>
    rw [readFrom] at hd
    unfold ReadState.finish at hd
    split at hd <;> cases hd
  | cons t ts ih =>
    obtain hv | ⟨cause, kept, hv⟩ := g.takes_or_reject s t
    · have hb := hv.began hs
      rw [readFrom_cons] at hd
      cases hstep : g.step s t with
      | shift s' =>
        rw [hstep] at hb hd
        simpa using ih hb hd
      | complete d' =>
        rw [hstep] at hb hd
        obtain rfl | hd := List.mem_cons.mp hd
        · exact ⟨tokens ++ [t], ⟨[], ts, by simp⟩, hb⟩
        · obtain ⟨part, hpart, hder⟩ := ih (.ready .nil) hd
          exact ⟨part, hpart.trans ⟨tokens ++ [t], [], by simp⟩, hder⟩
      | reject cause kept =>
        rw [hstep] at hd
        cases hd
    · rw [readFrom_cons, hv] at hd
      cases hd

/-- Every form of a text is well formed. -/
theorem read_wellFormed (source : String) : ∀ d ∈ (read source).forms, d.WellFormed 200 := by
  intro d hd
  obtain ⟨part, hpart, hder⟩ := Gauge.derives_of_mem_readFrom (.ready .nil) hd
  exact hder.wellFormed (fun t ht => legal_of_mem_lex (hpart.subset ht)) (by decide)

/-- A map with a repeated key, and a call that does not end. -/
def unfinished : String := "\x7bk: (f 0x10) j: \x7b:\x7d k: nil\x7d (g"

theorem read_wellFormed_unfinished :
    (read unfinished).failure.isSome = true ∧ ∃ d, (read unfinished).forms = [d] ∧
    d.WellFormed 200 := by
  have hread : (read unfinished).forms.length = 1 ∧ (read unfinished).failure.isSome = true := by
    decide +kernel
  obtain ⟨d, hd⟩ := List.length_eq_one_iff.mp hread.1
  have hmem : d ∈ (read unfinished).forms := by
    rw [hd]
    exact List.mem_singleton_self d
  exact ⟨hread.2, d, hd, read_wellFormed unfinished d hmem⟩

end DynLisp
