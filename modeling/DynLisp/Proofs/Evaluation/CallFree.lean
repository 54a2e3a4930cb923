import DynLisp.Proofs.Evaluation.Termination
import DynLisp.Proofs.Reader.Grammar

/-!
# Forms without calls

A form made of atoms, bound symbols, and list and map forms has a value that depends on the bindings
alone (`value`), and evaluating it takes as many levels as it is nested deep (`levels`).  If so many
levels are left, evaluation comes to the value and changes nothing; otherwise it meets the limit or
the end of the stack (`yields_evalForm`).

Repeated keys of a map are therefore merged with the same effect at two places: the reader merges
the forms of the entries, and evaluation merges their values.  The two commute because merging does
not look at what it merges (`Assoc.ofList_map`).
-/

namespace DynLisp

namespace Datum

/-- A form without calls, all of whose symbols mean something. -/
inductive CallFree (meaning : String → Option Datum) : Datum → Prop where
  | str (text : String) : CallFree meaning (.str text)
  | int (n : Int) : CallFree meaning (.int n)
  | real (x : Float) (mark : Nat) : CallFree meaning (.real x mark)
  | bool (b : Bool) : CallFree meaning (.bool b)
  | nil : CallFree meaning .nil
  | symbol {name : String} {v : Datum} (h : meaning name = some v) : CallFree meaning (.symbol name)
  | listForm {items : List Datum} (h : ∀ d ∈ items, CallFree meaning d) :
      CallFree meaning (.listForm items)
  | mapForm {entries : List (String × Datum)} (h : ∀ e ∈ entries, CallFree meaning e.2) :
    CallFree meaning (.mapForm entries)

/-! ## Values and levels -/

mutual

/-- The value of a form without calls. -/
def value (meaning : String → Option Datum) : Datum → Datum
  | .symbol name => (meaning name).getD (.symbol name)
  | .listForm items => .list (valueAll meaning items)
  | .mapForm entries => .map (Assoc.ofList (valueEntries meaning entries))
  | d => d

/-- The values of several forms. -/
def valueAll (meaning : String → Option Datum) : List Datum → List Datum
  | [] => []
  | d :: rest => value meaning d :: valueAll meaning rest

/-- The values of the forms of several entries. -/
def valueEntries (meaning : String → Option Datum) : List (String × Datum) → List (String × Datum)
  | [] => []
  | (key, d) :: rest => (key, value meaning d) :: valueEntries meaning rest

end

mutual

/-- The levels that a form without calls takes: its own, and below it those of its deepest item. -/
def levels : Datum → Nat
  | .listForm items => levelsAll items + 1
  | .mapForm entries => levelsEntries entries + 1
  | _ => 1

/-- The levels of the deepest of several forms. -/
def levelsAll : List Datum → Nat
  | [] => 0
  | d :: rest => max (levels d) (levelsAll rest)

/-- The levels of the deepest form of several entries. -/
def levelsEntries : List (String × Datum) → Nat
  | [] => 0
  | (_, d) :: rest => max (levels d) (levelsEntries rest)

end

section Lemmas

variable {meaning : String → Option Datum}

theorem valueAll_eq_map (items : List Datum) :
    valueAll meaning items = items.map (value meaning) := by
  induction items with
  | nil => rfl
  | cons d rest ih => rw [valueAll, ih, List.map_cons]

theorem valueEntries_eq_map (entries : List (String × Datum)) :
    valueEntries meaning entries = entries.map (Prod.map id (value meaning)) := by
  induction entries with
  | nil => rfl
  | cons e rest ih =>
    rw [valueEntries, ih, List.map_cons]
    rfl

theorem levelsAll_le_iff {items : List Datum} {n : Nat} :
    levelsAll items ≤ n ↔ ∀ d ∈ items, d.levels ≤ n := by
  induction items with
  | nil => simp [levelsAll]
  | cons d rest ih => rw [levelsAll, Nat.max_le, ih, List.forall_mem_cons]

theorem levelsEntries_le_iff {entries : List (String × Datum)} {n : Nat} :
    levelsEntries entries ≤ n ↔ ∀ e ∈ entries, e.2.levels ≤ n := by
  induction entries with
  | nil => simp [levelsEntries]
  | cons e rest ih => rw [levelsEntries, Nat.max_le, ih, List.forall_mem_cons]

theorem levels_pos (d : Datum) : 0 < d.levels := by
  unfold levels
  split <;> omega

theorem levels_listForm_le_iff {items : List Datum} {n : Nat} :
    (listForm items).levels ≤ n + 1 ↔ ∀ d ∈ items, d.levels ≤ n := by
  rw [levels, Nat.succ_le_succ_iff, levelsAll_le_iff]

theorem levels_mapForm_le_iff {entries : List (String × Datum)} {n : Nat} :
    (mapForm entries).levels ≤ n + 1 ↔ ∀ e ∈ entries, e.2.levels ≤ n := by
  rw [levels, Nat.succ_le_succ_iff, levelsEntries_le_iff]

theorem levels_lt_of_mem {entries : List (String × Datum)} {e : String × Datum} (he : e ∈ entries) :
    e.2.levels < (mapForm entries).levels := by
  rw [levels, Nat.lt_succ_iff]
  exact levelsEntries_le_iff.mp (Nat.le_refl _) e he

end Lemmas

end Datum

/-! ## Levels that are left -/

namespace Environment

/-- The levels that the limit leaves within the given room. -/
def levelsWithin (e : Environment) (room : Nat) : Nat :=
  match e.limit with
  | some _ => min room e.levelsLeft
  | none => room

theorem levelsWithin_room (e : Environment) : e.levelsWithin e.room = e.levelsLeft := by
  unfold levelsWithin room
  cases e.limit with
  | none => rfl
  | some limit => exact Nat.min_eq_right (Nat.le_succ _)

theorem levelsWithin_zero (e : Environment) : e.levelsWithin 0 = 0 := by
  unfold levelsWithin
  cases e.limit with
  | none => rfl
  | some limit => exact Nat.zero_min _

theorem levelsWithin_of_limit_le {e : Environment} {limit : Int} (h : e.limit = some limit)
    (hle : limit ≤ e.level) (room : Nat) : e.levelsWithin room = 0 := by
  simp only [levelsWithin, h, levelsLeft_of_some h]
  omega

/-- One level deeper there is one level less. -/
theorem levelsWithin_succ {w : World} (h : ∀ limit, w.env.limit = some limit → w.env.level < limit)
    (room : Nat) : w.env.levelsWithin (room + 1) = w.deeper.env.levelsWithin room + 1 := by
  unfold levelsWithin levelsLeft World.deeper
  cases hl : w.env.limit with
  | none => rfl
  | some limit =>
    have := h limit hl
    dsimp only
    omega

end Environment

/-! ## Actions that change nothing -/

namespace Eval

variable {α β : Type} {w : World} {P Q : Prop} {E : Fault → Prop}

/-- The action changes nothing.  It comes to the result where the condition holds, and to one of the
faults elsewhere. -/
structure Yields (E : Fault → Prop) (P : Prop) (a : α) (act : Eval α) (w : World) : Prop where
  result : P → act w = .ok a w
  limit : ¬ P → ∃ f, E f ∧ act w = .error f w

theorem Yields.congr {a : α} {act : Eval α} (h : Yields E P a act w) (hPQ : P ↔ Q) :
    Yields E Q a act w :=
  ⟨fun hq => h.result (hPQ.mpr hq), fun hq => h.limit (mt hPQ.mp hq)⟩

theorem yields_of_eq {a : α} {act : Eval α} (h : act w = .ok a w) (hP : P) : Yields E P a act w :=
  ⟨fun _ => h, fun hn => absurd hP hn⟩

/-- An action after another one meets the limit if one of the two does. -/
theorem Yields.bind {a : α} {b : β} {act : Eval α} {k : α → Eval β} (h : Yields E P a act w)
    (hk : Yields E Q b (k a) w) : Yields E (P ∧ Q) b (act >>= k) w := by
  constructor
  · rintro ⟨hp, hq⟩
    rw [bind_apply, h.result hp]
    exact hk.result hq
  · intro hn
    by_cases hp : P
    · rw [bind_apply, h.result hp]
      exact hk.limit fun hq => hn ⟨hp, hq⟩
    · obtain ⟨f, hf, hact⟩ := h.limit hp
      refine ⟨f, hf, ?_⟩
      rw [bind_apply, hact]

theorem Yields.map {a : α} {act : Eval α} (h : Yields E P a act w) (g : α → β) :
    Yields E P (g a) (act >>= fun a => pure (g a)) w :=
  (h.bind (@yields_of_eq _ w True E (g a) _ rfl trivial)).congr (iff_of_eq (and_true P))

section Sequences

variable {go : Datum → Eval Datum} {fits : Datum → Prop} {f : Datum → Datum}

theorem yields_each {items : List Datum} (h : ∀ d ∈ items, Yields E (fits d) (f d) (go d) w) :
    Yields E (∀ d ∈ items, fits d) (items.map f) (each go items) w := by
  induction items with
  | nil => exact yields_of_eq rfl (List.forall_mem_nil _)
  | cons d rest ih =>
    obtain ⟨hd, hrest⟩ := List.forall_mem_cons.mp h
    exact (hd.bind ((ih hrest).map (f d :: ·))).congr List.forall_mem_cons.symm

theorem yields_entries {es : List (String × Datum)}
    (h : ∀ e ∈ es, Yields E (fits e.2) (f e.2) (go e.2) w) :
    Yields E (∀ e ∈ es, fits e.2) (es.map (Prod.map id f)) (entries go es) w := by
  induction es with
  | nil => exact yields_of_eq rfl (List.forall_mem_nil _)
  | cons e rest ih =>
    obtain ⟨he, hrest⟩ := List.forall_mem_cons.mp h
    exact (he.bind ((ih hrest).map ((e.1, f e.2) :: ·))).congr
      (List.forall_mem_cons (p := fun e : String × Datum => fits e.2)).symm

end Sequences

/-- An action that takes some levels, the next one among them, does when it is nested what it does
one level deeper. -/
theorem Yields.nested (hE : ∀ limit, E (.tooDeep limit)) {a : α} {act : Eval α} {room n : Nat}
    (hn : 0 < n) (h : Yields E (n ≤ w.deeper.env.levelsWithin room + 1) a act w.deeper) :
    Yields E (n ≤ w.env.levelsWithin (room + 1)) a (nested act) w := by
  obtain ⟨limit, hlimit, hle, hd⟩ | ⟨hlt, hd⟩ := w.env.descend_cases
  · rw [Environment.levelsWithin_of_limit_le hlimit hle]
    exact ⟨fun h₀ => absurd hn (Nat.not_lt.mpr h₀),
      fun _ => ⟨.tooDeep limit, hE limit, by simp only [Eval.nested, hd]⟩⟩
  · rw [Environment.levelsWithin_succ hlt]
    refine ⟨fun hle => nested_eq_ok hd (h.result hle), fun hle => ?_⟩
    obtain ⟨f, hf, hact⟩ := h.limit hle
    exact ⟨f, hf, nested_eq_error hd hact⟩

/-- A form whose items come to their values within `n` levels comes to its value within one level
more. -/
theorem yields_form (natives : Natives) {go : Datum → Eval Datum} {n : Nat}
    (hgo : ∀ {d : Datum}, d.CallFree w.env.lookup? →
      Yields E (d.levels ≤ n) (d.value w.env.lookup?) (go d) w)
    {d : Datum} (h : d.CallFree w.env.lookup?) :
    Yields E (d.levels ≤ n + 1) (d.value w.env.lookup?) (form natives go d) w := by
  cases h with
  | str | int | real | bool | nil => exact yields_of_eq rfl (Nat.le_add_left 1 n)
  | @symbol name v h =>
    refine yields_of_eq ?_ (Nat.le_add_left 1 n)
    rw [form, lookup, Environment.lookup, Datum.value, h]
    rfl
  | @listForm items h =>
    rw [Datum.value, Datum.valueAll_eq_map]
    exact ((yields_each fun d hd => hgo (h d hd)).map Datum.list).congr
      Datum.levels_listForm_le_iff.symm
  | @mapForm entries h =>
    have hentries :=
      @yields_entries w E go (fun d => d.levels ≤ n) _ entries fun e he => hgo (h e he)
    rw [Datum.value, Datum.valueEntries_eq_map]
    exact (hentries.map fun es => Datum.map (Assoc.ofList es)).congr
      Datum.levels_mapForm_le_iff.symm

/-- A form without calls comes to its value, if there are levels enough. -/
theorem yields_rounds (natives : Natives) (hE : ∀ limit, E (.tooDeep limit)) {f : Fault} (hf : E f)
    {room : Nat} {d : Datum} (h : d.CallFree w.env.lookup?) :
    Yields E (d.levels ≤ w.env.levelsWithin room) (d.value w.env.lookup?)
      (rounds natives (fun _ => throw f) room d) w := by
  induction room generalizing d w with
  | zero =>
    rw [Environment.levelsWithin_zero]
    exact ⟨fun hn => absurd d.levels_pos (Nat.not_lt.mpr hn), fun _ => ⟨f, hf, rfl⟩⟩
  | succ room ih =>
    -- one level deeper the bindings are the same
    have hform :=
      @yields_form w.deeper E natives (rounds natives (fun _ => throw f) room) _
        (fun hd => ih hd) d h
    exact hform.nested hE d.levels_pos

/-- Without a limit it is the stack that is too short for a form. -/
theorem yields_evalForm (natives : Natives) {d : Datum} (h : d.CallFree w.env.lookup?) :
    Yields (fun f => f.kind = .depth ∨ w.env.limit = none ∧ f = .stackSpent)
      (d.levels ≤ w.env.levelsLeft) (d.value w.env.lookup?) (evalForm natives d) w := by
  obtain ⟨f, hf, heq⟩ : ∃ f : Fault, (f.kind = .depth ∨ w.env.limit = none ∧ f = .stackSpent) ∧
      evalForm natives d w = rounds natives (fun _ => throw f) w.env.room d w := by
    cases hl : w.env.limit with
    | none => exact ⟨.stackSpent, .inr ⟨rfl, rfl⟩, by rw [evalForm, evaluate_eq_rounds]⟩
    | some limit => exact ⟨.noRoom, .inl rfl, evalForm_eq_rounds natives hl _ d⟩
  have hd :=
    @yields_rounds w (fun f => f.kind = .depth ∨ w.env.limit = none ∧ f = .stackSpent) natives
    (fun _ => .inl rfl) f hf w.env.room d h
  rw [Environment.levelsWithin_room] at hd
  exact ⟨fun hn => heq.trans (hd.result hn), fun hn => heq ▸ hd.limit hn⟩

end Eval

/-! ## Repeated keys -/

/-- The tokens of a map form with the given entries, each of them in its place and with at most `n`
brackets open at once. -/
inductive SpellsMap (n : Int) : List (String × Datum) → List Token → Prop where
  | empty {l c r : Token} (hn : 0 < n) (hl : l.kind = .openBrace) (hc : c.kind = .colon)
      (hr : r.kind = .closeBrace) :
    SpellsMap n [] [l, c, r]
  | entries {l k c r : Token} {name : String} {value : Part} {rest : List Entry} (hn : 0 < n)
      (hl : l.kind = .openBrace)
    (hk : k.IsAtom (.symbol name)) (hc : c.kind = .colon) (hr : r.kind = .closeBrace)
    (hv : Derives (n - 1) value.tokens value.form)
      (h : ∀ e ∈ rest, Derives (n - 1) e.value.tokens e.value.form) :
    SpellsMap n ((name, value.form) :: rest.map Entry.binding)
      (l :: k :: c :: (value.tokens ++ (rest.flatMap Entry.tokens ++ [r])))

section Merged

variable {meaning : String → Option Datum} {es : List (String × Datum)}

/-- The reader merges the forms of repeated keys. -/
theorem SpellsMap.derives {n : Int} {ts : List Token} (h : SpellsMap n es ts) :
    Derives n ts (.mapForm (Assoc.merged es)) := by
  cases h with
  | empty hn hl hc hr => exact .emptyMap hn hl hc hr
  | entries hn hl hk hc hr hv h => exact .map hn hl hk hc hr hv h

theorem SpellsMap.read_eq {limit : Int} {ts : List Token} (h : SpellsMap limit es ts) :
    Lexed.read ⟨ts, none⟩ limit = ⟨[.mapForm (Assoc.merged es)], none⟩ := by
  have hroom : limit ≤ limit - 0 - ([] : List Hole).length := by simp
  have hread := @Gauge.reads_of_derives ⟨limit, 0⟩ none _ _ _ h.derives [] [] hroom
  rwa [List.append_nil] at hread

theorem Datum.value_mapForm :
    (Datum.mapForm es).value meaning =
      .map (Assoc.ofList (es.map (Prod.map id (Datum.value meaning)))) := by
  rw [value, valueEntries_eq_map]

/-- Evaluation merges the values of repeated keys, and where the forms have been merged it finds
nothing more to merge. -/
theorem Datum.value_mapForm_merged :
    (Datum.mapForm (Assoc.merged es)).value meaning = (Datum.mapForm es).value meaning := by
  rw [value_mapForm, value_mapForm, ← Assoc.ofList_eq_merged, ← Assoc.ofList_map,
    Assoc.ofList_of_nodup (Assoc.nodup_names_ofList _)]

theorem Datum.levels_mapForm_merged_le :
    (Datum.mapForm (Assoc.merged es)).levels ≤ (Datum.mapForm es).levels := by
  rw [← Assoc.ofList_eq_merged, levels, levels]
  refine Nat.succ_le_succ (levelsEntries_le_iff.mpr fun e he => ?_)
  exact levelsEntries_le_iff.mp (Nat.le_refl _) e (Assoc.mem_of_mem_ofList he)

theorem Datum.callFree_mapForm_merged (h : ∀ e ∈ es, e.2.CallFree meaning) :
    (Datum.mapForm (Assoc.merged es)).CallFree meaning := by
  rw [← Assoc.ofList_eq_merged]
  exact .mapForm (Assoc.forall_mem_ofList h)

end Merged

/-- It makes no difference whether the repeated keys of a map form without calls are merged when it
is read or when it is evaluated.  Where the limit leaves the levels for all its entries, both ways
come to the same map: each key stands at its first place and has the value of its last entry.  Where
it does not, evaluating all entries meets the limit, or without a limit the end of the stack. -/
theorem repeatedKeys_agree (natives : Natives) (w : World) {es : List (String × Datum)}
    (h : ∀ e ∈ es, e.2.CallFree w.env.lookup?) :
    (∀ limit ts, SpellsMap limit es ts →
      Lexed.read ⟨ts, none⟩ limit = ⟨[.mapForm (Assoc.merged es)], none⟩) ∧
    ((Datum.mapForm es).levels ≤ w.env.levelsLeft → ∃ m,
      evalForm natives (.mapForm (Assoc.merged es)) w = .ok (.map m) w ∧
      evalForm natives (.mapForm es) w = .ok (.map m) w ∧
      Assoc.names m = (Assoc.names es).eraseDups ∧
      ∀ before key form after, es = before ++ (key, form) :: after → key ∉ Assoc.names after →
        ∃ v, evalForm natives form w = .ok v w ∧ Assoc.find? m key = some v) ∧
    (w.env.levelsLeft < (Datum.mapForm es).levels →
      ∃ f : Fault, (f.kind = .depth ∨ w.env.limit = none ∧ f = .stackSpent) ∧
        evalForm natives (.mapForm es) w = .error f w) := by
  have hraw := Eval.yields_evalForm natives (.mapForm h)
  have hmerged := Eval.yields_evalForm natives (Datum.callFree_mapForm_merged h)
  rw [Datum.value_mapForm_merged, Datum.value_mapForm] at hmerged
  rw [Datum.value_mapForm] at hraw
  refine ⟨fun limit ts => SpellsMap.read_eq, fun hn => ⟨_, ?_, hraw.result hn, ?_, ?_⟩,
    fun hn => hraw.limit (Nat.not_le.mpr hn)⟩
  · exact hmerged.result (Nat.le_trans Datum.levels_mapForm_merged_le hn)
  · rw [Assoc.names_ofList, Assoc.names_map]
  · rintro before key form after rfl hlast
    have hmem : (key, form) ∈ before ++ (key, form) :: after := by simp
    have hform := (Eval.yields_evalForm natives (h _ hmem)).result
      (Nat.le_trans (Nat.le_of_lt (Datum.levels_lt_of_mem hmem)) hn)
    refine ⟨_, hform, ?_⟩
    rw [List.map_append, List.map_cons]
    exact Assoc.find?_ofList_of_last (by rwa [Assoc.names_map]) _

/-- Three entries.  The first takes the most levels and has no part in the map. -/
def repeating : List (String × Datum) :=
  [("a", .listForm [.symbol "x"]), ("b", .nil), ("a", .symbol "x")]

/-- The tokens of `{a: {x} b: nil a: x}`. -/
def repeatingTokens : List Token :=
  [⟨.openBrace, .str "\x7b", 1⟩, ⟨.symbol, .str "a", 1⟩, ⟨.colon, .str ":", 1⟩,
    ⟨.openBrace, .str "\x7b", 1⟩, ⟨.symbol, .str "x", 1⟩, ⟨.closeBrace, .str "\x7d", 1⟩,
    ⟨.symbol, .str "b", 1⟩, ⟨.colon, .str ":", 1⟩, ⟨.nil, .absent, 1⟩, ⟨.symbol, .str "a", 1⟩,
    ⟨.colon, .str ":", 1⟩, ⟨.symbol, .str "x", 1⟩, ⟨.closeBrace, .str "\x7d", 1⟩]

theorem spellsMap_repeating : SpellsMap 2 repeating repeatingTokens := by
  have symbol (n : Int) : Derives n [⟨.symbol, .str "x", 1⟩] (.symbol "x") :=
    .atom (.symbol rfl rfl)
  have list := @Derives.list 1 ⟨.openBrace, .str "\x7b", 1⟩ ⟨.closeBrace, .str "\x7d", 1⟩
    [⟨[⟨.symbol, .str "x", 1⟩], .symbol "x"⟩] (by decide) rfl rfl
      (List.forall_mem_singleton.mpr (symbol 0))
  refine @SpellsMap.entries 2 _ _ _ _ "a" ⟨_, _⟩
    [⟨⟨.symbol, .str "b", 1⟩, ⟨.colon, .str ":", 1⟩, ⟨[⟨.nil, .absent, 1⟩], .nil⟩, rfl, rfl⟩,
      ⟨⟨.symbol, .str "a", 1⟩, ⟨.colon, .str ":", 1⟩,
        ⟨[⟨.symbol, .str "x", 1⟩], .symbol "x"⟩, rfl, rfl⟩]
    (by decide) rfl (.symbol rfl rfl) rfl rfl list ?_
  simp only [List.forall_mem_cons]
  exact ⟨.atom (.nil rfl), symbol 1, List.forall_mem_nil _⟩

/-- A local binding hides a global one, and the limit leaves three levels. -/
def threeLevels : Session := .ofEnvironment ⟨[[("x", .int 7)]], [("x", .int 1)], some 3, 0⟩

theorem repeatedKeys_agree_hidden :
    (∀ e ∈ repeating, e.2.CallFree threeLevels.world.env.lookup?) ∧
    Lexed.read ⟨repeatingTokens, none⟩ 2 = ⟨[.mapForm (Assoc.merged repeating)], none⟩ ∧
    (Datum.mapForm repeating).levels = 3 ∧ threeLevels.world.env.levelsLeft = 3 ∧
    ∃ m, evalForm threeLevels.natives (.mapForm (Assoc.merged repeating)) threeLevels.world =
        .ok (.map m) threeLevels.world ∧
      evalForm threeLevels.natives (.mapForm repeating) threeLevels.world =
        .ok (.map m) threeLevels.world ∧
      Assoc.names m = ["a", "b"] ∧ Assoc.find? m "a" = some (.int 7) := by
  have symbol : (Datum.symbol "x").CallFree threeLevels.world.env.lookup? :=
    @Datum.CallFree.symbol _ _ (.int 7) rfl
  have h : ∀ e ∈ repeating, e.2.CallFree threeLevels.world.env.lookup? := by
    simp only [repeating, List.forall_mem_cons]
    exact ⟨.listForm (List.forall_mem_singleton.mpr symbol), .nil, symbol, List.forall_mem_nil _⟩
  obtain ⟨hread, hagree, -⟩ := repeatedKeys_agree threeLevels.natives threeLevels.world h
  obtain ⟨m, hmerged, hraw, hnames, hlast⟩ := hagree (by decide)
  obtain ⟨v, hv, hfind⟩ :=
    hlast [("a", .listForm [.symbol "x"]), ("b", .nil)] "a" (.symbol "x") [] rfl List.not_mem_nil
  have hseven : evalForm threeLevels.natives (.symbol "x") threeLevels.world =
      .ok (.int 7) threeLevels.world := rfl
  cases hseven.symm.trans hv
  exact ⟨h, hread 2 _ spellsMap_repeating, by decide, by decide, m, hmerged, hraw,
    hnames.trans (by decide), hfind⟩

end DynLisp
