import DynLisp.Proofs.Decimal.Real
import DynLisp.Proofs.Datum.RoundTrip

/-!
# The text of a value tells which value it is

No mark in the text of a value names its kind, and still two values without functions and nans are
written alike only if they are the same (`source_unambiguous`).  Values are of three sorts, told
apart by their first character: words, text literals and collections in braces (`Datum.opening`).
Words end where a character cannot continue them, literals at the first quote without a backslash,
and each item of a collection at the blank after it.  Therefore a text also shows where a value ends
(`Datum.Legible`), and an induction on the value takes collections apart item by item.

Integers, reals, truth values and nil never share a word.  A key of a map may be spelled like any of
them, but it is followed by a colon.
-/

namespace DynLisp

namespace Datum

/-- A value without functions and nans whose keys are symbols.  Reals that are no nan have no
mark. -/
inductive Plain : Datum → Prop where
  | str (text : String) : Plain (.str text)
  | int (n : Int) : Plain (.int n)
  | real {x : Float} (h : x.isNaN = false) : Plain (.real x 0)
  | bool (b : Bool) : Plain (.bool b)
  | nil : Plain .nil
  | list {items : List Datum} (h : ∀ d ∈ items, Plain d) : Plain (.list items)
  | map {entries : List (String × Datum)} (hs : ∀ e ∈ entries, IsName e.1)
      (h : ∀ e ∈ entries, Plain e.2) :
    Plain (.map entries)

/-- The characters of a value as in a program. -/
def spelling (d : Datum) : List Char :=
  match d.source with
  | .ok text => text.toList
  | .error _ => []

/-- An item of a list, with the blank after it. -/
def spellingItem (d : Datum) : List Char := d.spelling ++ [' ']

/-- An entry of a map, with the blank after it. -/
def spellingEntry (e : String × Datum) : List Char := e.1.toList ++ ':' :: ' ' :: e.2.spellingItem

/-! ## What is written -/

theorem spelling_of_source {d : Datum} {cs : List Char} (h : d.source = .ok (String.ofList cs)) :
    d.spelling = cs := by
  rw [spelling, h]
  exact String.toList_ofList

theorem writeAll_eq {items : List Datum}
    (h : ∀ d ∈ items, d.source = .ok (String.ofList d.spelling)) :
    writeAll true items = .ok (String.ofList (items.flatMap spellingItem)) := by
  induction items with
  | nil => rfl
  | cons d items ih =>
    obtain ⟨hd, hitems⟩ := List.forall_mem_cons.mp h
    rw [writeAll, show write true d = _ from hd, ih hitems]
    refine congrArg Except.ok (String.toList_inj.mp ?_)
    simp [spellingItem]

theorem writeEntries_eq {entries : List (String × Datum)}
    (h : ∀ e ∈ entries, e.2.source = .ok (String.ofList e.2.spelling)) :
    writeEntries true entries = .ok (String.ofList (entries.flatMap spellingEntry)) := by
  induction entries with
  | nil => rfl
  | cons e entries ih =>
    obtain ⟨hd, hentries⟩ := List.forall_mem_cons.mp h
    rw [writeEntries, show write true e.2 = _ from hd, ih hentries]
    refine congrArg Except.ok (String.toList_inj.mp ?_)
    simp [spellingEntry, spellingItem]

theorem source_list {items : List Datum}
    (h : ∀ d ∈ items, d.source = .ok (String.ofList d.spelling)) :
    (Datum.list items).source =
      .ok (String.ofList ('\x7b' :: ' ' :: (items.flatMap spellingItem ++ ['\x7d']))) := by
  rw [source, write, writeAll_eq h]
  refine congrArg Except.ok (String.toList_inj.mp ?_)
  simp

theorem source_map {entries : List (String × Datum)} (hne : entries ≠ [])
    (h : ∀ e ∈ entries, e.2.source = .ok (String.ofList e.2.spelling)) :
    (Datum.map entries).source =
      .ok (String.ofList ('\x7b' :: ' ' :: (entries.flatMap spellingEntry ++ ['\x7d']))) := by
  rw [source, write, writeEntries_eq h]
  · refine congrArg Except.ok (String.toList_inj.mp ?_)
    simp
  · exact hne

theorem Plain.source_eq {v : Datum} (h : v.Plain) : v.source = .ok (String.ofList v.spelling) := by
  have htext {d : Datum} {text : String} (hd : d.source = .ok text) :
      d.source = .ok (String.ofList d.spelling) := by
    rw [spelling, hd]
    simp
  induction h with
  | str | int | real | bool | nil => exact htext rfl
  | list _ ih => exact htext (source_list ih)
  | @map entries _ _ ih =>
    cases entries with
    | nil => exact htext rfl
    | cons e entries => exact htext (source_map (List.cons_ne_nil _ _) ih)

theorem spelling_list {items : List Datum} (h : ∀ d ∈ items, d.Plain) :
    (Datum.list items).spelling = '\x7b' :: ' ' :: (items.flatMap spellingItem ++ ['\x7d']) :=
  spelling_of_source (source_list fun d hd => (h d hd).source_eq)

theorem spelling_map {entries : List (String × Datum)} (hne : entries ≠ [])
    (h : ∀ e ∈ entries, e.2.Plain) :
    (Datum.map entries).spelling = '\x7b' :: ' ' :: (entries.flatMap spellingEntry ++ ['\x7d']) :=
  spelling_of_source (source_map hne fun e he => (h e he).source_eq)

end Datum

/-! ## Where a part ends -/

/-- Parts that show where they end are told apart one after another, up to a character with which
none of them starts. -/
theorem flatMap_append_inj {α : Type} {f : α → List Char} {stop : Char} {as bs : List α}
    {rest rest' : List Char}
    (hinj : ∀ a ∈ as, ∀ b ∈ bs, ∀ r r', f a ++ r = f b ++ r' → a = b ∧ r = r')
    (ha : ∀ a ∈ as, ∃ c cs, f a = c :: cs ∧ c ≠ stop)
    (hb : ∀ b ∈ bs, ∃ c cs, f b = c :: cs ∧ c ≠ stop)
    (h : as.flatMap f ++ stop :: rest = bs.flatMap f ++ stop :: rest') :
    as = bs ∧ rest = rest' := by
  induction as generalizing bs with
  | nil =>
    cases bs with
    | nil => exact ⟨rfl, (List.cons.inj h).2⟩
    | cons b bs =>
      obtain ⟨c, cs, hc, hne⟩ := hb b List.mem_cons_self
      rw [List.flatMap_cons, hc] at h
      exact absurd (List.cons.inj h).1.symm hne
  | cons a as ih =>
    cases bs with
    | nil =>
      obtain ⟨c, cs, hc, hne⟩ := ha a List.mem_cons_self
      rw [List.flatMap_cons, hc] at h
      exact absurd (List.cons.inj h).1 hne
    | cons b bs =>
      rw [List.flatMap_cons, List.flatMap_cons, List.append_assoc, List.append_assoc] at h
      obtain ⟨rfl, hrest⟩ := hinj a List.mem_cons_self b List.mem_cons_self _ _ h
      obtain ⟨rfl, rfl⟩ :=
        ih (fun a ha' b hb' => hinj a (List.mem_cons_of_mem _ ha') b (List.mem_cons_of_mem _ hb'))
          (fun a ha' => ha a (List.mem_cons_of_mem _ ha'))
          (fun b hb' => hb b (List.mem_cons_of_mem _ hb')) hrest
      exact ⟨rfl, rfl⟩

/-- What follows a word does not continue it. -/
def Lexer.Stops (rest : List Char) : Prop := ∀ c ∈ rest.head?, isRunChar c = false

theorem Lexer.run_append_inj {cs ds rest rest' : List Char} (hc : ∀ c ∈ cs, isRunChar c = true)
    (hd : ∀ c ∈ ds, isRunChar c = true) (hrest : Stops rest) (hrest' : Stops rest')
    (h : cs ++ rest = ds ++ rest') : cs = ds ∧ rest = rest' := by
  have htake {cs rest : List Char} (hc : ∀ c ∈ cs, isRunChar c = true) (hrest : Stops rest) :
      (cs ++ rest).takeWhile isRunChar = cs := by
    rw [List.takeWhile_append_of_pos hc]
    cases rest with
    | nil => exact List.append_nil cs
    | cons d rest => rw [List.takeWhile_cons_of_neg (by simp [hrest d rfl]), List.append_nil]
  have hcs : cs = ds := by rw [← htake hc hrest, h, htake hd hrest']
  subst hcs
  exact ⟨rfl, List.append_cancel_left h⟩

theorem Datum.escapeChar_append_inj {c d : Char} {r r' : List Char}
    (h : escapeChar c ++ r = escapeChar d ++ r') : c = d ∧ r = r' := by
  unfold escapeChar at h
  split at h <;> split at h <;> grind

theorem Datum.escapeChar_eq_cons (c : Char) : ∃ d ds, escapeChar c = d :: ds ∧ d ≠ '"' := by
  unfold escapeChar
  split <;> simp_all

/-- A text literal shows where it ends. -/
theorem Datum.stringLiteral_append_inj {text text' : String} {rest rest' : List Char}
    (h : (stringLiteral text).toList ++ rest = (stringLiteral text').toList ++ rest') :
    text = text' ∧ rest = rest' := by
  simp only [stringLiteral, String.toList_ofList, List.cons_append, List.append_assoc,
    List.nil_append, List.cons.injEq, true_and] at h
  obtain ⟨htext, hrest⟩ := flatMap_append_inj (fun _ _ _ _ _ _ => escapeChar_append_inj)
    (fun c _ => escapeChar_eq_cons c) (fun c _ => escapeChar_eq_cons c) h
  exact ⟨String.toList_inj.mp htext, hrest⟩

/-! ## Words -/

namespace Decimal

theorem toList_toString (n : Int) :
    (toString n).toList = (if n < 0 then ['-'] else []) ++ Nat.toDigits 10 n.natAbs := by
  rw [Int.toString_eq_repr, Int.repr_eq_if]
  split
  · rw [if_neg (by omega), Nat.toList_repr, List.nil_append]
    congr 1
    omega
  · rw [if_pos (by omega), String.toList_append, Nat.toList_repr]
    congr 2
    omega

theorem toString_chars (n : Int) :
    ∀ c ∈ (toString n).toList, Text.isAsciiDigit c = true ∨ c = '-' := by
  rw [toList_toString]
  refine List.forall_mem_append.mpr ⟨?_, fun c hc => .inl (allDigits_toDigits _ c hc)⟩
  split <;> simp

theorem toString_ne {text : List Char} (h : ∃ c ∈ text, Text.isAsciiDigit c = false ∧ c ≠ '-')
    (n : Int) : (toString n).toList ≠ text := by
  rintro rfl
  obtain ⟨c, hc, hdigit, hsign⟩ := h
  rcases toString_chars n c hc with h | h
  · simp [h] at hdigit
  · exact hsign h

theorem toString_injective {m n : Int} (h : toString m = toString n) : m = n := by
  have hchars := congrArg String.toList h
  rw [toList_toString, toList_toString] at hchars
  have hminus (k : Nat) : '-' ∉ Nat.toDigits 10 k := (allDigits_toDigits k).not_mem rfl
  have hsigned {j k : Nat} : ['-'] ++ Nat.toDigits 10 j ≠ [] ++ Nat.toDigits 10 k := by
    intro hjk
    have hmem : '-' ∈ [] ++ Nat.toDigits 10 k := hjk ▸ List.mem_cons_self
    exact hminus k hmem
  have habs {j k : Nat} (hjk : Nat.toDigits 10 j = Nat.toDigits 10 k) : j = k := by
    rw [← natural_toDigits j, hjk, natural_toDigits]
  split at hchars <;> split at hchars
  · have := habs (List.cons.inj hchars).2
    omega
  · exact absurd hchars hsigned
  · exact absurd hchars.symm hsigned
  · have := habs hchars
    omega

end Decimal

namespace Datum

/-- Is the value written as a single word? -/
def isWord : Datum → Bool
  | .int _ | .real _ _ | .bool _ | .nil => true
  | _ => false

theorem isRunChar_of_isWord {v : Datum} (h : v.isWord = true) :
    ∀ c ∈ v.spelling, Lexer.isRunChar c = true := by
  have hascii {cs ds : List Char} (hds : ∀ c ∈ ds, c ∈ cs)
      (h : (cs.all fun c => Lexer.isRunChar c && 32 ≤ c.toNat && c.toNat < 127) = true) :
      ∀ c ∈ ds, Lexer.isRunChar c = true := fun c hc => (Lexer.isRunChar_of_ascii h c (hds c hc)).1
  cases v with
  | int n =>
    intro c hc
    rcases Decimal.toString_chars n c hc with hdigit | rfl
    · exact (Lexer.isRunChar_of_isAsciiDigit hdigit).1
    · decide
  | real x mark => exact hascii (Decimal.realText_chars x) (by decide)
  | bool b => cases b <;> exact hascii (fun _ => id) (by decide)
  | nil => exact hascii (fun _ => id) (by decide)
  | _ => cases h

theorem spelling_ne_nil_of_isWord {v : Datum} (h : v.isWord = true) : v.spelling ≠ [] := by
  cases v with
  | int n =>
    show (toString n).toList ≠ []
    rw [Decimal.toList_toString]
    simp
  | real x mark =>
    obtain ⟨c, hc, -⟩ := Decimal.realText_mark x
    exact List.ne_nil_of_mem hc
  | bool b => cases b <;> decide
  | nil => decide
  | _ => cases h

theorem eq_of_spelling_int {n : Int} {v : Datum} (hv : v.isWord = true)
    (h : (Datum.int n).spelling = v.spelling) : .int n = v := by
  cases v with
  | int m => exact congrArg _ (Decimal.toString_injective (String.toList_inj.mp h))
  | real x mark => exact absurd h (Decimal.toString_ne (Decimal.realText_mark x) n)
  | bool b =>
    cases b with
    | false => exact absurd h (Decimal.toString_ne ⟨'f', by decide⟩ n)
    | true => exact absurd h (Decimal.toString_ne ⟨'t', by decide⟩ n)
  | nil => exact absurd h (Decimal.toString_ne ⟨'<', by decide⟩ n)
  | _ => cases hv

theorem eq_of_spelling_real {x : Float} (hx : x.isNaN = false) {v : Datum} (hv : v.Plain)
    (hw : v.isWord = true) (h : (Datum.real x 0).spelling = v.spelling) : .real x 0 = v := by
  have hchars : ∀ c ∈ v.spelling, c ∈ Decimal.realAlphabet := h ▸ Decimal.realText_chars x
  cases hv with
  | int n => exact (eq_of_spelling_int rfl h.symm).symm
  | real hy => exact congrArg (real · 0) (Decimal.realText_injective hx hy (String.toList_inj.mp h))
  | bool b =>
    -- neither word is made of the characters of reals
    cases b with
    | false => exact absurd (hchars 's' (by decide)) (by decide)
    | true => exact absurd (hchars 't' (by decide)) (by decide)
  | nil => exact absurd (hchars '<' (by decide)) (by decide)
  | _ => cases hw

theorem Plain.eq_of_isWord {v w : Datum} (hv : v.Plain) (hw : w.Plain) (hv' : v.isWord = true)
    (hw' : w.isWord = true) (h : v.spelling = w.spelling) : v = w := by
  cases hv with
  | int n => exact eq_of_spelling_int hw' h
  | real hx => exact eq_of_spelling_real hx hw hw' h
  | bool b =>
    cases hw with
    | int n => exact (eq_of_spelling_int hv' h.symm).symm
    | real hx => exact (eq_of_spelling_real hx (.bool b) hv' h.symm).symm
    | bool c =>
      have hbc : b = c := by
        revert h
        cases b <;> cases c <;> decide
      rw [hbc]
    | nil => cases b <;> exact absurd h (by decide)
    | _ => cases hw'
  | nil =>
    cases hw with
    | int n => exact (eq_of_spelling_int hv' h.symm).symm
    | real hx => exact (eq_of_spelling_real hx .nil hv' h.symm).symm
    | bool b => cases b <;> exact absurd h (by decide)
    | nil => rfl
    | _ => cases hw'
  | _ => cases hv'

/-! ## Values -/

/-- The mark with which a value starts that is no word. -/
def opening : Datum → Option Char
  | .str _ => some '"'
  | .list _ | .map _ => some '{'
  | _ => none

theorem Plain.opening_eq_none_iff {v : Datum} (h : v.Plain) :
    v.opening = none ↔ v.isWord = true := by
  cases h <;> simp [opening, isWord]

theorem Plain.exists_head {v : Datum} (h : v.Plain) :
    ∃ c cs, v.spelling = c :: cs ∧ v.opening = if Lexer.isRunChar c then none else some c := by
  by_cases hword : v.isWord = true
  · obtain ⟨c, cs, hcs⟩ := List.exists_cons_of_ne_nil (spelling_ne_nil_of_isWord hword)
    have hc : Lexer.isRunChar c = true := isRunChar_of_isWord hword c (hcs ▸ List.mem_cons_self)
    exact ⟨c, cs, hcs, by rw [if_pos hc, h.opening_eq_none_iff, hword]⟩
  cases h with
  | int | real | bool | nil => exact absurd rfl hword
  | str text => exact ⟨'"', _, by rw [spelling, source, write]; exact String.toList_ofList, rfl⟩
  | list h => exact ⟨'{', _, spelling_list h, rfl⟩
  | @map entries hs h =>
    cases entries with
    | nil => exact ⟨'{', _, rfl, rfl⟩
    | cons e entries => exact ⟨'{', _, spelling_map (List.cons_ne_nil _ _) h, rfl⟩

theorem Plain.opening_eq {v w : Datum} (hv : v.Plain) (hw : w.Plain) {rest rest' : List Char}
    (h : v.spelling ++ rest = w.spelling ++ rest') : v.opening = w.opening := by
  obtain ⟨c, cs, hc, hv'⟩ := hv.exists_head
  obtain ⟨d, ds, hd, hw'⟩ := hw.exists_head
  rw [hc, hd] at h
  rw [hv', hw', (List.cons.inj h).1]

/-- The text of a value, followed by something that does not continue a word, shows which value it
is and where it ends. -/
def Legible (v : Datum) : Prop :=
  ∀ w : Datum, w.Plain → ∀ rest rest', Lexer.Stops rest → Lexer.Stops rest' →
    v.spelling ++ rest = w.spelling ++ rest' → v = w ∧ rest = rest'

theorem stops_blank (rest : List Char) : Lexer.Stops (' ' :: rest) := by
  intro c hc
  cases hc
  rfl

theorem stops_colon (rest : List Char) : Lexer.Stops (':' :: rest) := by
  intro c hc
  cases hc
  rfl

theorem Plain.legible_of_isWord {v : Datum} (hv : v.Plain) (hword : v.isWord = true) :
    v.Legible := by
  intro w hw rest rest' hrest hrest' h
  have hw' : w.isWord = true := by
    rw [← hw.opening_eq_none_iff, ← hv.opening_eq hw h]
    exact hv.opening_eq_none_iff.mpr hword
  obtain ⟨heq, hrests⟩ :=
    Lexer.run_append_inj (isRunChar_of_isWord hword) (isRunChar_of_isWord hw') hrest hrest' h
  exact ⟨hv.eq_of_isWord hw hword hw' heq, hrests⟩

theorem legible_str (text : String) : (Datum.str text).Legible := by
  intro w hw rest rest' _ _ h
  have hopening := (Plain.str text).opening_eq hw h
  cases hw with
  | str text' =>
    obtain ⟨rfl, rfl⟩ := stringLiteral_append_inj h
    exact ⟨rfl, rfl⟩
  | _ => simp [opening] at hopening

theorem Legible.item {d : Datum} (hd : d.Legible) {e : Datum} (he : e.Plain)
    {rest rest' : List Char} (h : d.spellingItem ++ rest = e.spellingItem ++ rest') :
    d = e ∧ rest = rest' := by
  rw [spellingItem, spellingItem, List.append_assoc, List.append_assoc] at h
  obtain ⟨heq, hrest⟩ := hd e he _ _ (stops_blank rest) (stops_blank rest') h
  exact ⟨heq, (List.cons.inj hrest).2⟩

theorem Plain.item_head {d : Datum} (hd : d.Plain) :
    ∃ c cs, d.spellingItem = c :: cs ∧ c ≠ '}' := by
  obtain ⟨c, cs, hc, hopening⟩ := hd.exists_head
  refine ⟨c, cs ++ [' '], by rw [spellingItem, hc, List.cons_append], ?_⟩
  rintro rfl
  have hclose : d.opening = some '}' := hopening
  cases hd <;> simp [opening] at hclose

theorem Legible.entry {d e : String × Datum} (hk : IsName d.1) (hk' : IsName e.1) (hd : d.2.Legible)
    (he : e.2.Plain) {rest rest' : List Char}
    (h : spellingEntry d ++ rest = spellingEntry e ++ rest') : d = e ∧ rest = rest' := by
  simp only [spellingEntry, List.append_assoc, List.cons_append] at h
  obtain ⟨hkey, hvalue⟩ :=
    Lexer.run_append_inj hk.isRunChar hk'.isRunChar (stops_colon _) (stops_colon _) h
  obtain ⟨hvalue, hrest⟩ := hd.item he (List.cons.inj (List.cons.inj hvalue).2).2
  exact ⟨Prod.ext (String.toList_inj.mp hkey) hvalue, hrest⟩

theorem entry_head {e : String × Datum} (hk : IsName e.1) :
    ∃ c cs, spellingEntry e = c :: cs ∧ c ≠ '}' := by
  obtain ⟨c, cs, hc⟩ := List.exists_cons_of_ne_nil hk.toList_ne_nil
  refine ⟨c, _, by rw [spellingEntry, hc, List.cons_append], ?_⟩
  rintro rfl
  exact absurd (hk.isRunChar '}' (hc ▸ List.mem_cons_self)) (by decide)

/-- A word may be an item or a key, but then it is followed by different characters. -/
theorem item_ne_entry {d : Datum} {e : String × Datum} (hd : d.Plain) (hk : IsName e.1)
    (rest rest' : List Char) : d.spellingItem ++ rest ≠ spellingEntry e ++ rest' := by
  intro h
  simp only [spellingItem, spellingEntry, List.append_assoc, List.cons_append, List.nil_append] at h
  obtain ⟨c, cs, hc, hopening⟩ := hd.exists_head
  obtain ⟨k, ks, hks⟩ := List.exists_cons_of_ne_nil hk.toList_ne_nil
  have hword : d.isWord = true := by
    have hck : c = k := by
      rw [hc, hks] at h
      exact (List.cons.inj h).1
    have hrun : Lexer.isRunChar c = true :=
      hk.isRunChar c (by rw [hks, hck]; exact List.mem_cons_self)
    rw [← hd.opening_eq_none_iff, hopening, if_pos hrun]
  obtain ⟨-, hrest⟩ :=
    Lexer.run_append_inj (isRunChar_of_isWord hword) hk.isRunChar (stops_blank rest)
      (stops_colon _) h
  exact absurd (List.cons.inj hrest).1 (by decide)

theorem spelling_list_ne_map {items : List Datum} {entries : List (String × Datum)}
    (hitems : ∀ d ∈ items, d.Plain) (hs : ∀ e ∈ entries, IsName e.1)
    (hentries : ∀ e ∈ entries, e.2.Plain) (rest rest' : List Char) :
    (Datum.list items).spelling ++ rest ≠ (Datum.map entries).spelling ++ rest' := by
  rw [spelling_list hitems]
  intro h
  cases entries with
  | nil => exact absurd (List.cons.inj (List.cons.inj h).2).1 (by decide)
  | cons e entries =>
    rw [spelling_map (List.cons_ne_nil _ _) hentries] at h
    have hk := hs e List.mem_cons_self
    simp only [List.cons_append, List.append_assoc, List.cons.injEq, true_and, List.nil_append,
      List.flatMap_cons] at h
    cases items with
    | nil =>
      obtain ⟨c, cs, hc, hne⟩ := entry_head hk
      rw [hc] at h
      exact hne (List.cons.inj h).1.symm
    | cons d items =>
      rw [List.flatMap_cons, List.append_assoc] at h
      exact item_ne_entry (hitems d List.mem_cons_self) hk _ _ h

theorem legible_list {items : List Datum} (hitems : ∀ d ∈ items, d.Plain)
    (h : ∀ d ∈ items, d.Legible) : (Datum.list items).Legible := by
  intro w hw rest rest' _ _ heq
  have hopening := (Plain.list hitems).opening_eq hw heq
  cases hw with
  | @list items' hitems' =>
    rw [spelling_list hitems, spelling_list hitems'] at heq
    simp only [List.cons_append, List.append_assoc, List.cons.injEq, true_and,
      List.nil_append] at heq
    obtain ⟨rfl, rfl⟩ := flatMap_append_inj (fun d hd e he _ _ => (h d hd).item (hitems' e he))
      (fun d hd => (hitems d hd).item_head) (fun e he => (hitems' e he).item_head) heq
    exact ⟨rfl, rfl⟩
  | map hs hentries => exact absurd heq (spelling_list_ne_map hitems hs hentries rest rest')
  | _ => simp [opening] at hopening

theorem legible_map {entries : List (String × Datum)} (hs : ∀ e ∈ entries, IsName e.1)
    (hentries : ∀ e ∈ entries, e.2.Plain) (h : ∀ e ∈ entries, e.2.Legible) :
    (Datum.map entries).Legible := by
  intro w hw rest rest' _ _ heq
  have hopening := (Plain.map hs hentries).opening_eq hw heq
  cases hw with
  | list hitems => exact absurd heq.symm (spelling_list_ne_map hitems hs hentries rest' rest)
  | @map entries' hs' hentries' =>
    -- the empty map has a text of its own
    cases entries with
    | nil =>
      cases entries' with
      | nil => exact ⟨rfl, List.append_cancel_left heq⟩
      | cons e entries' =>
        rw [spelling_map (List.cons_ne_nil _ _) hentries'] at heq
        exact absurd (List.cons.inj (List.cons.inj heq).2).1 (by decide)
    | cons e entries =>
      rw [spelling_map (List.cons_ne_nil _ _) hentries] at heq
      cases entries' with
      | nil => exact absurd (List.cons.inj (List.cons.inj heq).2).1 (by decide)
      | cons e' entries' =>
        rw [spelling_map (List.cons_ne_nil _ _) hentries'] at heq
        simp only [List.cons_append, List.append_assoc, List.cons.injEq, true_and,
          List.nil_append] at heq
        obtain ⟨hall, hrest⟩ := flatMap_append_inj
          (fun d hd e he _ _ => Legible.entry (hs d hd) (hs' e he) (h d hd) (hentries' e he))
          (fun d hd => entry_head (hs d hd)) (fun e he => entry_head (hs' e he)) heq
        rw [hall, hrest]
        exact ⟨rfl, rfl⟩
  | _ => simp [opening] at hopening

theorem Plain.legible {v : Datum} (h : v.Plain) : v.Legible := by
  induction h with
  | str text => exact legible_str text
  | int n => exact (Plain.int n).legible_of_isWord rfl
  | real hx => exact (Plain.real hx).legible_of_isWord rfl
  | bool b => exact (Plain.bool b).legible_of_isWord rfl
  | nil => exact Plain.nil.legible_of_isWord rfl
  | list h ih => exact legible_list h ih
  | map hs h ih => exact legible_map hs h ih

end Datum

/-- Every value without functions and nans whose keys are symbols has a text as in a program, and
two such values with the same text are the same: of the same kind, and all the way down with the
same items and entries in the same order. -/
theorem source_unambiguous {v w : Datum} (hv : v.Plain) (hw : w.Plain) :
    (∃ text, v.source = .ok text) ∧ (v.source = w.source → v = w) := by
  refine ⟨⟨_, hv.source_eq⟩, fun h => ?_⟩
  have hspelling : v.spelling ++ [] = w.spelling ++ [] := by rw [Datum.spelling, Datum.spelling, h]
  have hend : Lexer.Stops [] := fun c hc => by cases hc
  exact (hv.legible w hw [] [] hend hend hspelling).1

/-- A text of two braces is not taken for an empty list, nor the two zeros for one another. -/
theorem source_unambiguous_lookalikes :
    (Datum.list [.str "\x7b \x7d", .real (Float.ofBits 0x8000000000000000) 0]).Plain ∧
    (Datum.list [.list [], .real (Float.ofBits 0) 0]).Plain ∧
    (Datum.list [.str "\x7b \x7d", .real (Float.ofBits 0x8000000000000000) 0]).source ≠
      (Datum.list [.list [], .real (Float.ofBits 0) 0]).source := by
  have hv : (Datum.list [.str "\x7b \x7d", .real (Float.ofBits 0x8000000000000000) 0]).Plain := by
    refine .list (List.forall_mem_cons.mpr ⟨.str _, List.forall_mem_singleton.mpr (.real ?_)⟩)
    rfl
  have hw : (Datum.list [.list [], .real (Float.ofBits 0) 0]).Plain := by
    refine .list (List.forall_mem_cons.mpr ⟨.list ?_, List.forall_mem_singleton.mpr (.real ?_)⟩)
    · exact fun d hd => absurd hd List.not_mem_nil
    · rfl
  refine ⟨hv, hw, fun h => ?_⟩
  cases (source_unambiguous hv hw).2 h

end DynLisp
