import DynLisp.Proofs.Assoc
import DynLisp.Proofs.Reader.Step
import DynLisp.Reader.Stream

/-!
# The grammar of forms

`Derives n ts d` says that the tokens `ts` are one form, read as `d`, in which at most `n` brackets
are open at once.  The reader accepts exactly the sequences of such forms, and what it reads are
their trees.

That it reads what is derived is shown by induction on the derivation, for any brackets that are
open around it.  That it reads nothing else follows from what each of its states says about the
tokens taken so far (`Began`).
-/

namespace DynLisp

/-- A stretch of tokens and the form that it is read as. -/
structure Part where
  tokens : List Token
  form : Datum

/-- An entry of a map form: a symbol, a colon and a form. -/
structure Entry where
  key : Token
  colon : Token
  value : Part
  key_kind : key.kind = .symbol
  colon_kind : colon.kind = .colon

/-- The tokens of an entry. -/
def Entry.tokens (e : Entry) : List Token := e.key :: e.colon :: e.value.tokens

/-- The key of an entry and its form. -/
def Entry.binding (e : Entry) : String × Datum := (e.key.value.plain, e.value.form)

/-- One form, with at most `n` brackets open at once; atoms open none, so they need no room at
all. -/
inductive Derives : Int → List Token → Datum → Prop where
  | atom {n : Int} {t : Token} {d : Datum} (h : t.IsAtom d) : Derives n [t] d
  | call {n : Int} {l r : Token} {parts : List Part} (hn : 0 < n) (hl : l.kind = .openParen)
    (hr : r.kind = .closeParen) (h : ∀ p ∈ parts, Derives (n - 1) p.tokens p.form) :
    Derives n (l :: (parts.flatMap Part.tokens ++ [r])) (.call 0 (parts.map Part.form))
  | list {n : Int} {l r : Token} {parts : List Part} (hn : 0 < n) (hl : l.kind = .openBrace)
    (hr : r.kind = .closeBrace) (h : ∀ p ∈ parts, Derives (n - 1) p.tokens p.form) :
    Derives n (l :: (parts.flatMap Part.tokens ++ [r])) (.listForm (parts.map Part.form))
  | emptyMap {n : Int} {l c r : Token} (hn : 0 < n) (hl : l.kind = .openBrace)
    (hc : c.kind = .colon) (hr : r.kind = .closeBrace) : Derives n [l, c, r] (.mapForm [])
  /-- The first key is read before its colon is seen, so it is any token that is read as a
  symbol. -/
  | map {n : Int} {l k c r : Token} {name : String} {value : Part} {rest : List Entry} (hn : 0 < n)
    (hl : l.kind = .openBrace) (hk : k.IsAtom (.symbol name)) (hc : c.kind = .colon)
    (hr : r.kind = .closeBrace) (hv : Derives (n - 1) value.tokens value.form)
    (h : ∀ e ∈ rest, Derives (n - 1) e.value.tokens e.value.form) :
    Derives n (l :: k :: c :: (value.tokens ++ (rest.flatMap Entry.tokens ++ [r])))
      (.mapForm (Assoc.merged ((name, value.form) :: rest.map Entry.binding)))

/-! ## What is derived is read -/

namespace Gauge

variable {g : Gauge} {failure : Option Fault}

/-- Reads on after a verdict. -/
def readOn (g : Gauge) (failure : Option Fault) : Verdict → List Token → Reading
  | .shift s, ts => g.readFrom failure s ts
  | .complete d, ts => (g.readFrom failure (.ready []) ts).cons d
  | .reject cause _, _ => ⟨[], some (.read cause)⟩

theorem readOn_shift (s : ReadState) (ts : List Token) :
    g.readOn failure (.shift s) ts = g.readFrom failure s ts := rfl

theorem readFrom_cons (s : ReadState) (t : Token) (ts : List Token) :
    g.readFrom failure s (t :: ts) = g.readOn failure (g.step s t) ts := by
  rw [readFrom]
  cases g.step s t <;> rfl

theorem readFrom_of_takes {s : ReadState} {t : Token} {v : Verdict} (h : g.Takes s t v)
    (ts : List Token) : g.readFrom failure s (t :: ts) = g.readOn failure v ts := by
  rw [readFrom_cons, step_of_takes h]

/-- Wherever a form may start and there is room for its brackets, the tokens are read as the
form. -/
def Reads (g : Gauge) (failure : Option Fault) (n : Int) (tokens : List Token) (d : Datum) : Prop :=
  ∀ (holes : List Hole) (rest : List Token), n ≤ g.limit - g.opened - holes.length →
    g.readFrom failure (.ready holes) (tokens ++ rest) = g.readOn failure (fill d holes) rest

/-- Forms are taken one after another by an open bracket. -/
theorem readFrom_parts {n : Int} {hole : List Datum → Hole} {holes : List Hole}
    (hfill : ∀ d taken, fill d (hole taken :: holes) = .shift (.ready (hole (d :: taken) :: holes)))
    (hn : n < g.limit - g.opened - holes.length) (rest : List Token) {parts : List Part}
    (h : ∀ p ∈ parts, g.Reads failure n p.tokens p.form) (taken : List Datum) :
    g.readFrom failure (.ready (hole taken :: holes)) (parts.flatMap Part.tokens ++ rest) =
      g.readFrom failure (.ready (hole ((parts.map Part.form).reverse ++ taken) :: holes))
        rest := by
  induction parts generalizing taken with
  | nil => rfl
  | cons p parts ih =>
    obtain ⟨hp, hparts⟩ := List.forall_mem_cons.mp h
    have hroom : n ≤ g.limit - g.opened - (hole taken :: holes).length := by
      rw [List.length_cons]
      omega
    rw [List.flatMap_cons, List.append_assoc, hp _ _ hroom, hfill, readOn_shift, ih hparts]
    simp

/-- Entries are bound one after another by an open map. -/
theorem readFrom_entries {n : Int} {holes : List Hole}
    (hn : n < g.limit - g.opened - holes.length) (rest : List Token) {entries : List Entry}
    (h : ∀ e ∈ entries, g.Reads failure n e.value.tokens e.value.form) (m : Assoc Datum) :
    g.readFrom failure (.beforeKey m holes) (entries.flatMap Entry.tokens ++ rest) =
      g.readFrom failure
        (.beforeKey ((entries.map Entry.binding).foldl (fun m e => Assoc.insert m e.1 e.2) m) holes)
        rest := by
  induction entries generalizing m with
  | nil => rfl
  | cons e entries ih =>
    obtain ⟨he, hentries⟩ := List.forall_mem_cons.mp h
    have hroom : n ≤ g.limit - g.opened - (Hole.value m e.key.value.plain :: holes).length := by
      rw [List.length_cons]
      omega
    simp only [List.flatMap_cons, Entry.tokens, List.cons_append, List.append_assoc]
    rw [readFrom_of_takes (.key e.key_kind), readOn_shift, readFrom_of_takes (.colon e.colon_kind),
      readOn_shift, he _ _ hroom]
    exact ih hentries _

theorem reads_of_derives {n : Int} {tokens : List Token} {d : Datum} (h : Derives n tokens d) :
    g.Reads failure n tokens d := by
  induction h with
  | atom h => exact fun holes rest _ => readFrom_of_takes (.atom h) rest
  | @call n l r parts hn hl hr _ ih =>
    intro holes rest hroom
    rw [List.cons_append, List.append_assoc, readFrom_of_takes (.openParen hl (by omega)),
      readOn_shift, readFrom_parts (fun _ _ => rfl) (by omega) _ ih, List.singleton_append,
      readFrom_of_takes (.closeCall hr)]
    simp
  | @list n l r parts hn hl hr _ ih =>
    intro holes rest hroom
    rw [List.cons_append, List.append_assoc, readFrom_of_takes (.openBrace hl (by omega)),
      readOn_shift, readFrom_parts (fun _ _ => rfl) (by omega) _ ih, List.singleton_append,
      readFrom_of_takes (.closeList hr)]
    simp
  | @emptyMap n l c r hn hl hc hr =>
    intro holes rest hroom
    simp only [List.cons_append, List.nil_append]
    rw [readFrom_of_takes (.openBrace hl (by omega)), readOn_shift, readFrom_of_takes (.noEntry hc),
      readOn_shift, readFrom_of_takes (.closeEmpty hr)]
  | @map n l k c r name value entries hn hl hk hc hr _ _ ihv ih =>
    intro holes rest hroom
    have hinner : n - 1 ≤ g.limit - g.opened - (Hole.value [] name :: holes).length := by
      rw [List.length_cons]
      omega
    simp only [List.cons_append, List.append_assoc]
    -- the first key is taken as an item of a list, and its colon makes a map of that list
    rw [readFrom_of_takes (.openBrace hl (by omega)), readOn_shift, readFrom_of_takes (.atom hk),
      fill, readOn_shift, readFrom_of_takes (.firstColon hc), readOn_shift, ihv _ _ hinner, fill,
      readOn_shift, readFrom_entries (by omega) _ ih, readFrom_of_takes (.closeMap hr),
      ← Assoc.ofList_eq_merged]
    rfl

end Gauge

/-! ## Only what is derived is read -/

/-- A map that has been begun: its bracket, and the entries that are bound by now. -/
inductive MapBegan (n : Int) : Assoc Datum → List Token → Prop where
  | intro {l k c : Token} {name : String} {value : Part} {rest : List Entry}
    (hl : l.kind = .openBrace) (hk : k.IsAtom (.symbol name)) (hc : c.kind = .colon)
    (hv : Derives (n - 1) value.tokens value.form)
    (h : ∀ e ∈ rest, Derives (n - 1) e.value.tokens e.value.form) :
    MapBegan n (Assoc.ofList ((name, value.form) :: rest.map Entry.binding))
      (l :: k :: c :: (value.tokens ++ rest.flatMap Entry.tokens))

/-- A bracket that has been opened, with the tokens up to the place where it waits for a form. -/
inductive Hole.Began (n : Int) : Hole → List Token → Prop where
  | call {l : Token} {parts : List Part} (hl : l.kind = .openParen)
    (h : ∀ p ∈ parts, Derives (n - 1) p.tokens p.form) :
    Began n (.call (parts.map Part.form).reverse) (l :: parts.flatMap Part.tokens)
  | brace {l : Token} {parts : List Part} (hl : l.kind = .openBrace)
    (h : ∀ p ∈ parts, Derives (n - 1) p.tokens p.form) :
    Began n (.brace (parts.map Part.form).reverse) (l :: parts.flatMap Part.tokens)
  | firstValue {l k c : Token} {name : String} (hl : l.kind = .openBrace)
    (hk : k.IsAtom (.symbol name)) (hc : c.kind = .colon) : Began n (.value [] name) [l, k, c]
  | value {m : Assoc Datum} {tokens : List Token} {k c : Token} (h : MapBegan n m tokens)
    (hk : k.kind = .symbol) (hc : c.kind = .colon) :
    Began n (.value m k.value.plain) (tokens ++ [k, c])

/-- The brackets that are open, with all tokens since the outermost of them. -/
inductive HolesBegan (n : Int) : List Hole → List Token → Prop where
  | nil : HolesBegan n [] []
  | cons {hole : Hole} {holes : List Hole} {outer inner : List Token} (h : HolesBegan n holes outer)
    (hn : 0 < n - holes.length) (hole_began : hole.Began (n - holes.length) inner) :
    HolesBegan n (hole :: holes) (outer ++ inner)

/-- A state of the reader, with the tokens taken since the last form was complete. -/
inductive ReadState.Began (n : Int) : ReadState → List Token → Prop where
  | ready {holes : List Hole} {tokens : List Token} (h : HolesBegan n holes tokens) :
    Began n (.ready holes) tokens
  | emptyMap {holes : List Hole} {outer : List Token} {l c : Token} (h : HolesBegan n holes outer)
    (hn : 0 < n - holes.length) (hl : l.kind = .openBrace) (hc : c.kind = .colon) :
    Began n (.emptyMap holes) (outer ++ [l, c])
  | beforeKey {m : Assoc Datum} {holes : List Hole} {outer inner : List Token}
    (h : HolesBegan n holes outer) (hn : 0 < n - holes.length)
    (hm : MapBegan (n - holes.length) m inner) : Began n (.beforeKey m holes) (outer ++ inner)
  | afterKey {m : Assoc Datum} {holes : List Hole} {outer inner : List Token} {k : Token}
    (h : HolesBegan n holes outer) (hn : 0 < n - holes.length)
    (hm : MapBegan (n - holes.length) m inner) (hk : k.kind = .symbol) :
    Began n (.afterKey m k.value.plain holes) (outer ++ (inner ++ [k]))

/-- What a verdict says about the tokens up to it. -/
def Verdict.Began (n : Int) : Verdict → List Token → Prop
  | .shift s, tokens => s.Began n tokens
  | .complete d, tokens => Derives n tokens d
  | .reject _ _, _ => True

section Began

variable {n : Int} {tokens inner : List Token} {d : Datum}

theorem forall_mem_parts {parts : List Part} (h : ∀ p ∈ parts, Derives n p.tokens p.form)
    (hd : Derives n tokens d) : ∀ p ∈ parts ++ [⟨tokens, d⟩], Derives n p.tokens p.form :=
  List.forall_mem_append.mpr ⟨h, List.forall_mem_singleton.mpr hd⟩

theorem Hole.Began.call_cons {taken : List Datum} (h : Hole.Began n (.call taken) inner)
    (hd : Derives (n - 1) tokens d) : Hole.Began n (.call (d :: taken)) (inner ++ tokens) := by
  obtain ⟨hl, h⟩ := h
  have := Hole.Began.call hl (forall_mem_parts h hd)
  simpa using this

theorem Hole.Began.brace_cons {taken : List Datum} (h : Hole.Began n (.brace taken) inner)
    (hd : Derives (n - 1) tokens d) : Hole.Began n (.brace (d :: taken)) (inner ++ tokens) := by
  cases h with
  | brace hl h =>
    have := Hole.Began.brace hl (forall_mem_parts h hd)
    simpa using this

theorem MapBegan.append {m : Assoc Datum} (h : MapBegan n m inner) (e : Entry)
    (he : Derives (n - 1) e.value.tokens e.value.form) :
    MapBegan n (Assoc.insert m e.binding.1 e.binding.2) (inner ++ e.tokens) := by
  obtain @⟨l, k, c, name, value, rest, hl, hk, hc, hv, h⟩ := h
  have hall : ∀ e' ∈ rest ++ [e], Derives (n - 1) e'.value.tokens e'.value.form :=
    List.forall_mem_append.mpr ⟨h, List.forall_mem_singleton.mpr he⟩
  have := MapBegan.intro hl hk hc hv hall
  rw [List.map_append, List.map_singleton, ← List.cons_append,
    Assoc.ofList_append_singleton] at this
  simpa using this

theorem MapBegan.close {m : Assoc Datum} {r : Token} (h : MapBegan n m inner) (hn : 0 < n)
    (hr : r.kind = .closeBrace) : Derives n (inner ++ [r]) (.mapForm m) := by
  obtain ⟨hl, hk, hc, hv, h⟩ := h
  rw [Assoc.ofList_eq_merged]
  simpa using Derives.map hn hl hk hc hr hv h

theorem Hole.Began.value_insert {m : Assoc Datum} {key : String}
    (h : Hole.Began n (.value m key) inner) (hd : Derives (n - 1) tokens d) :
    MapBegan n (Assoc.insert m key d) (inner ++ tokens) := by
  cases h with
  | @firstValue l k c _ hl hk hc =>
    simpa [Assoc.ofList] using
      @MapBegan.intro n l k c key ⟨tokens, d⟩ [] hl hk hc hd (List.forall_mem_nil _)
  | @value m begun k c hm hk hc =>
    simpa [Entry.tokens, Entry.binding] using hm.append ⟨k, c, ⟨tokens, d⟩, hk, hc⟩ hd

/-- A form that fills the innermost hole goes on with what has been begun, or is complete. -/
theorem HolesBegan.fill {holes : List Hole} {outer : List Token} (h : HolesBegan n holes outer)
    (hd : Derives (n - holes.length) tokens d) : (fill d holes).Began n (outer ++ tokens) := by
  cases h with
  | nil =>
    rw [List.length_nil, Int.natCast_zero, Int.sub_zero] at hd
    exact hd
  | @cons hole holes outer inner h hn hb =>
    rw [List.length_cons, Int.natCast_add, Int.natCast_one, ← Int.sub_sub] at hd
    rw [List.append_assoc]
    cases hole with
    | call taken => exact .ready (.cons h hn (hb.call_cons hd))
    | brace taken => exact .ready (.cons h hn (hb.brace_cons hd))
    | value m key => exact .beforeKey h hn (hb.value_insert hd)

theorem Hole.Began.close_call {taken : List Datum} {r : Token}
    (h : Hole.Began n (.call taken) inner) (hn : 0 < n) (hr : r.kind = .closeParen) :
    Derives n (inner ++ [r]) (.call 0 taken.reverse) := by
  obtain ⟨hl, h⟩ := h
  rw [List.reverse_reverse]
  exact .call hn hl hr h

theorem Hole.Began.close_brace {taken : List Datum} {r : Token}
    (h : Hole.Began n (.brace taken) inner) (hn : 0 < n) (hr : r.kind = .closeBrace) :
    Derives n (inner ++ [r]) (.listForm taken.reverse) := by
  cases h with
  | brace hl h =>
    rw [List.reverse_reverse]
    exact .list hn hl hr h

theorem Hole.Began.brace_inv {taken : List Datum} (h : Hole.Began n (.brace taken) inner) :
    ∃ (l : Token) (parts : List Part), taken = (parts.map Part.form).reverse ∧
      inner = l :: parts.flatMap Part.tokens ∧ l.kind = .openBrace ∧
      ∀ p ∈ parts, Derives (n - 1) p.tokens p.form := by
  cases h with
  | @brace l parts hl h => exact ⟨l, parts, rfl, rfl, hl, h⟩

/-- A brace with nothing in it yet. -/
theorem Hole.Began.brace_nil (h : Hole.Began n (.brace []) inner) :
    ∃ l : Token, l.kind = .openBrace ∧ inner = [l] := by
  obtain ⟨l, parts, ht, rfl, hl, -⟩ := h.brace_inv
  have hp : parts = [] := by simpa using ht.symm
  exact ⟨l, hl, by rw [hp]; rfl⟩

/-- A symbol after a brace is a single token. -/
theorem Hole.Began.brace_symbol {key : String} (h : Hole.Began n (.brace [.symbol key]) inner) :
    ∃ l k : Token, l.kind = .openBrace ∧ k.IsAtom (.symbol key) ∧ inner = [l, k] := by
  obtain ⟨l, parts, ht, rfl, hl, hparts⟩ := h.brace_inv
  obtain ⟨p, rfl, hp⟩ : ∃ p, parts = [p] ∧ p.form = .symbol key := by
    have := congrArg List.reverse ht
    rw [List.reverse_reverse, List.reverse_singleton] at this
    simpa [eq_comm] using List.map_eq_singleton_iff.mp this.symm
  obtain ⟨tokens, form⟩ := p
  subst hp
  cases hparts _ List.mem_cons_self with
  | atom hk => exact ⟨l, _, hl, hk, by simp⟩

end Began

/-- What the reader says about the tokens it has taken stays true with every token. -/
theorem Gauge.Takes.began {g : Gauge} {s : ReadState} {t : Token} {v : Verdict} (h : g.Takes s t v)
    {tokens : List Token} (hs : s.Began (g.limit - g.opened) tokens) :
    v.Began (g.limit - g.opened) (tokens ++ [t]) := by
  -- a closing bracket completes a derivation, which fills the hole around it; other tokens only
  -- lengthen the tokens
  -- of the innermost bracket
  cases hs with
  | @ready holes tokens hh =>
    cases h with
    | atom h => exact hh.fill (.atom h)
    | openParen h hg =>
      exact .ready (.cons hh (by omega) (@Hole.Began.call _ t [] h (List.forall_mem_nil _)))
    | openBrace h hg =>
      exact .ready (.cons hh (by omega) (@Hole.Began.brace _ t [] h (List.forall_mem_nil _)))
    | closeCall h =>
      obtain _ | ⟨hh, hn, hb⟩ := hh
      rw [List.append_assoc]
      exact hh.fill (hb.close_call hn h)
    | closeList h =>
      obtain _ | ⟨hh, hn, hb⟩ := hh
      rw [List.append_assoc]
      exact hh.fill (hb.close_brace hn h)
    | noEntry h =>
      obtain _ | ⟨hh, hn, hb⟩ := hh
      obtain ⟨l, hl, rfl⟩ := hb.brace_nil
      rw [List.append_assoc]
      exact .emptyMap hh hn hl h
    | firstColon h =>
      obtain _ | ⟨hh, hn, hb⟩ := hh
      obtain ⟨l, k, hl, hk, rfl⟩ := hb.brace_symbol
      rw [List.append_assoc]
      exact .ready (.cons hh hn (.firstValue hl hk h))
  | emptyMap hh hn hl hc =>
    rw [List.append_assoc]
    cases h with
    | closeEmpty h => exact hh.fill (.emptyMap hn hl hc h)
  | beforeKey hh hn hm =>
    rw [List.append_assoc]
    cases h with
    | closeMap h => exact hh.fill (hm.close hn h)
    | key h => exact .afterKey hh hn hm h
  | afterKey hh hn hm hk =>
    rw [List.append_assoc, List.append_assoc]
    cases h with
    | colon h => exact .ready (.cons hh hn (.value hm hk h))

theorem Reading.eq_of_cons_eq {d : Datum} {r : Reading} {forms : List Datum}
    {failure : Option Fault} (h : r.cons d = ⟨forms, failure⟩) :
    ∃ rest, forms = d :: rest ∧ r = ⟨rest, failure⟩ := by
  cases h
  exact ⟨r.forms, rfl, rfl⟩

/-- Tokens that are read to their end without a fault are forms, one after another. -/
theorem Gauge.derives_of_readFrom {g : Gauge} {ts : List Token} {s : ReadState}
    {tokens : List Token} {forms : List Datum} (hs : s.Began (g.limit - g.opened) tokens)
    (h : g.readFrom none s ts = ⟨forms, none⟩) :
    ∃ parts : List Part, tokens ++ ts = parts.flatMap Part.tokens ∧ forms = parts.map Part.form ∧
      ∀ p ∈ parts, Derives (g.limit - g.opened) p.tokens p.form := by
  induction ts generalizing s tokens forms with
  | nil =>
    -- only where no bracket is open may the tokens end
    rw [readFrom] at h
    unfold ReadState.finish at h
    split at h
    · cases h
      obtain ⟨⟨⟩⟩ := hs
      exact ⟨[], rfl, rfl, List.forall_mem_nil _⟩
    · cases h
  | cons t ts ih =>
    obtain hv | ⟨cause, kept, hv⟩ := g.takes_or_reject s t
    · have hb := hv.began hs
      rw [readFrom_cons] at h
      cases hstep : g.step s t with
      | shift s' =>
        rw [hstep] at hb h
        simpa using ih hb h
      | complete d =>
        rw [hstep] at hb h
        obtain ⟨rest, rfl, hrest⟩ := Reading.eq_of_cons_eq h
        obtain ⟨parts, rfl, rfl, hparts⟩ := ih (.ready .nil) hrest
        exact ⟨⟨tokens ++ [t], d⟩ :: parts, by simp, rfl, List.forall_mem_cons.mpr ⟨hb, hparts⟩⟩
      | reject cause kept =>
        rw [hstep] at h
        cases h
    · rw [readFrom_cons, hv] at h
      cases h

theorem Gauge.readFrom_of_derives {g : Gauge} {parts : List Part}
    (h : ∀ p ∈ parts, Derives (g.limit - g.opened) p.tokens p.form) :
    g.readFrom none (.ready []) (parts.flatMap Part.tokens) = ⟨parts.map Part.form, none⟩ := by
  induction parts with
  | nil => rfl
  | cons p parts ih =>
    obtain ⟨hp, hparts⟩ := List.forall_mem_cons.mp h
    have hroom : g.limit - g.opened ≤ g.limit - g.opened - ([] : List Hole).length := by simp
    rw [List.flatMap_cons, reads_of_derives hp [] _ hroom, fill, readOn, ih hparts]
    rfl

/-- The reader accepts exactly the sequences of forms, and reads them as their trees. -/
theorem readAll_eq_iff (limit : Int) (ts : List Token) (forms : List Datum) :
    (Stream.ofLexed ⟨ts, none⟩ limit).readAll = ⟨forms, none⟩ ↔
    ∃ parts : List Part, ts = parts.flatMap Part.tokens ∧ forms = parts.map Part.form ∧
      ∀ p ∈ parts, Derives limit p.tokens p.form := by
  have hread : (Stream.ofLexed ⟨ts, none⟩ limit).readAll =
      Gauge.readFrom ⟨limit, 0⟩ none (.ready []) ts := rfl
  have hlimit : limit - 0 = limit := Int.sub_zero limit
  rw [hread]
  constructor
  · intro h
    have hparts := Gauge.derives_of_readFrom (.ready .nil) h
    rwa [hlimit] at hparts
  · rintro ⟨parts, rfl, rfl, h⟩
    refine Gauge.readFrom_of_derives fun p hp => ?_
    rw [hlimit]
    exact h p hp

end DynLisp
