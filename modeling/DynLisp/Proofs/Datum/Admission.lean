import Mathlib.Algebra.Order.Ring.Int
import DynLisp.Proofs.Datum.Equality

/-!
# What is admitted

Admission goes through the lists and maps that a host hands over and looks at one spot after
another: at a thing itself, at all keys of a map, and then at what the map holds (`Datum.spots`).  A
spot offends if it is a thing without a kind, an integer out of range or a key that is no name.

The first spot that offends decides (`Datum.accept_eq_verdict`).  If there is none, the thing is let
through as it is.  Otherwise the fault is about that spot: a wrong type, or an overflow if the spot
is an integer.  The wording shows what stands at the spot, though, and an integer with more than
`maxDigits` digits cannot be written: then the fault is that it cannot.
-/

namespace DynLisp

namespace Datum

/-! ## Spots -/

/-- A place that admission looks at: a thing, or a key of a map. -/
inductive Spot where
  | item (d : Datum)
  | key (d : Datum)

namespace Spot

/-- Is the spot a reason to refuse? -/
def offends : Spot → Bool
  | .item (.int n) => !inRange n
  | .item d => d.kind?.isNone
  | .key (.str _) => false
  | .key _ => true

/-- The fault about a spot that offends. -/
def fault : Spot → Fault
  | .item (.int n) => if n.natAbs < 10 ^ maxDigits then .overflow n else .unwritableInteger
  | .item d => .notValue d
  | .key d => .badKey d

/-- What stands at the spot. -/
def subject : Spot → Datum
  | .item d | .key d => d

/-- Is the spot an integer, and not a key? -/
def isInteger : Spot → Bool
  | .item (.int _) => true
  | _ => false

/-- Hosts make no map that has a name twice, and a table only of rows of which one has a key that is
no name. -/
def WellMade : Spot → Prop
  | .item (.map entries) => (Assoc.names entries).Nodup
  | .item (.table bad rows) => badKey? rows = some bad
  | _ => True

end Spot

mutual

/-- All spots of a thing, depth first and from left to right; the keys of a map come before its
values. -/
def spots : Datum → List Spot
  | .list items => .item (.list items) :: spotsOfAll items
  | .map entries =>
    .item (.map entries) :: (entries.map (fun e => .key (.str e.1)) ++ spotsOfEntries entries)
  | .table key rows => .item (.table key rows) :: (rows.map (fun r => .key r.1) ++ spotsOfRows rows)
  | d => [.item d]

def spotsOfAll : List Datum → List Spot
  | [] => []
  | d :: rest => spots d ++ spotsOfAll rest

def spotsOfEntries : List (String × Datum) → List Spot
  | [] => []
  | (_, d) :: rest => spots d ++ spotsOfEntries rest

def spotsOfRows : List (Datum × Datum) → List Spot
  | [] => []
  | (_, d) :: rest => spots d ++ spotsOfRows rest

end

/-- The first spot that offends. -/
def FirstOffence (d : Datum) (s : Spot) : Prop :=
  ∃ before after, d.spots = before ++ s :: after ∧ s.offends = true ∧
    ∀ t ∈ before, t.offends = false

/-- A thing as hosts make it. -/
def WellMade (d : Datum) : Prop := ∀ s ∈ d.spots, s.WellMade

section Everywhere

variable {P : Spot → Prop}

theorem forall_mem_spots_list {items : List Datum} :
    (∀ s ∈ (Datum.list items).spots, P s) ↔ P (.item (.list items)) ∧
      ∀ d ∈ items, ∀ s ∈ d.spots, P s := by
  have h : spotsOfAll items = items.flatMap spots := by
    induction items with
    | nil => rfl
    | cons d rest ih => rw [spotsOfAll, ih, List.flatMap_cons]
  rw [spots, h, List.forall_mem_cons, List.forall_mem_flatMap]

theorem forall_mem_spots_map {entries : List (String × Datum)} :
    (∀ s ∈ (Datum.map entries).spots, P s) ↔ P (.item (.map entries)) ∧
      (∀ e ∈ entries, P (.key (.str e.1))) ∧ ∀ e ∈ entries, ∀ s ∈ e.2.spots, P s := by
  have h : spotsOfEntries entries = entries.flatMap fun e => e.2.spots := by
    induction entries with
    | nil => rfl
    | cons e rest ih => rw [spotsOfEntries, ih, List.flatMap_cons]
  rw [spots, h, List.forall_mem_cons, List.forall_mem_append, List.forall_mem_map,
    List.forall_mem_flatMap]

theorem forall_mem_spots_table {key : Datum} {rows : List (Datum × Datum)} :
    (∀ s ∈ (Datum.table key rows).spots, P s) ↔ P (.item (.table key rows)) ∧
      (∀ r ∈ rows, P (.key r.1)) ∧ ∀ r ∈ rows, ∀ s ∈ r.2.spots, P s := by
  have h : spotsOfRows rows = rows.flatMap fun r => r.2.spots := by
    induction rows with
    | nil => rfl
    | cons r rest ih => rw [spotsOfRows, ih, List.flatMap_cons]
  rw [spots, h, List.forall_mem_cons, List.forall_mem_append, List.forall_mem_map,
    List.forall_mem_flatMap]

end Everywhere

theorem item_mem_spots (d : Datum) : .item d ∈ d.spots := by
  unfold spots
  split <;> exact List.mem_cons_self

/-! ## Things that hosts make -/

theorem wellMade_list {items : List Datum} :
    (Datum.list items).WellMade ↔ ∀ d ∈ items, d.WellMade :=
  forall_mem_spots_list.trans (and_iff_right trivial)

theorem wellMade_map {entries : List (String × Datum)} :
    (Datum.map entries).WellMade ↔ (Assoc.names entries).Nodup ∧ ∀ e ∈ entries, e.2.WellMade :=
  forall_mem_spots_map.trans (and_congr_right fun _ => and_iff_right fun _ _ => trivial)

theorem wellMade_table {key : Datum} {rows : List (Datum × Datum)} :
    (Datum.table key rows).WellMade ↔ badKey? rows = some key ∧ ∀ r ∈ rows, r.2.WellMade :=
  forall_mem_spots_table.trans (and_congr_right fun _ => and_iff_right fun _ _ => trivial)

theorem mem_insertRow {rows : List (Datum × Datum)} {key d : Datum} {r : Datum × Datum}
    (h : r ∈ insertRow rows key d) : r.2 = d ∨ ∃ r' ∈ rows, r'.2 = r.2 := by
  fun_induction insertRow rows key d with
  | case1 key d => exact .inl (by rw [List.mem_singleton.mp h])
  | case2 k old rest key d hk =>
    rcases List.mem_cons.mp h with rfl | h
    · exact .inl rfl
    · exact .inr ⟨r, List.mem_cons_of_mem _ h, rfl⟩
  | case3 k old rest key d hk ih =>
    rcases List.mem_cons.mp h with rfl | h
    · exact .inr ⟨_, List.mem_cons_self, rfl⟩
    · obtain hd | ⟨r', hr', heq⟩ := ih h
      · exact .inl hd
      · exact .inr ⟨r', List.mem_cons_of_mem _ hr', heq⟩

/-- The name that a key is. -/
def name? : Datum → Option String
  | .str name => some name
  | _ => none

theorem name?_eq_some_iff {d : Datum} {name : String} : d.name? = some name ↔ d = .str name := by
  cases d <;> simp [name?]

theorem names_namedRows (rows : List (Datum × Datum)) :
    Assoc.names (namedRows rows) = (rows.map Prod.fst).filterMap name? := by
  fun_induction namedRows rows with
  | case1 => rfl
  | case2 name d rest ih => exact congrArg (name :: ·) ih
  | case3 r rest hr ih =>
    have hnone : name? r.1 = none := Option.eq_none_iff_forall_ne_some.mpr fun name hname =>
      hr name r.2 (Prod.ext (name?_eq_some_iff.mp hname) rfl)
    rw [List.map_cons, List.filterMap_cons_none hnone, ih]

theorem mem_of_mem_namedRows {rows : List (Datum × Datum)} {e : String × Datum}
    (h : e ∈ namedRows rows) : (.str e.1, e.2) ∈ rows := by
  fun_induction namedRows rows with
  | case1 => cases h
  | case2 name d rest ih =>
    rcases List.mem_cons.mp h with rfl | h
    · exact List.mem_cons_self
    · exact List.mem_cons_of_mem _ (ih h)
  | case3 r rest hr ih => exact List.mem_cons_of_mem _ (ih h)

/-- A key that was there keeps its place; a new one comes last. -/
theorem keys_insertRow (rows : List (Datum × Datum)) (key d : Datum) :
    (insertRow rows key d).map Prod.fst =
      if rows.any (fun r => sameKey r.1 key) then rows.map Prod.fst
      else rows.map Prod.fst ++ [key] := by
  induction rows with
  | nil => rfl
  | cons r rest ih =>
    obtain ⟨k, old⟩ := r
    rw [insertRow, List.any_cons]
    by_cases hk : sameKey k key = true
    · simp [hk]
    · rw [if_neg hk, List.map_cons, ih, Bool.eq_false_iff.mpr hk, Bool.false_or]
      split <;> rfl

theorem nodup_insertRow {rows : List (Datum × Datum)} (key d : Datum)
    (h : (Assoc.names (namedRows rows)).Nodup) :
    (Assoc.names (namedRows (insertRow rows key d))).Nodup := by
  rw [names_namedRows] at h ⊢
  rw [keys_insertRow]
  split
  · exact h
  next hnew =>
    rw [List.filterMap_append]
    cases hkey : key.name? with
    | none =>
      rw [List.filterMap_cons_none hkey, List.filterMap_nil, List.append_nil]
      exact h
    | some name =>
      rw [List.filterMap_cons_some hkey, List.filterMap_nil, ← List.concat_eq_append]
      refine List.Nodup.concat (fun hmem => hnew ?_) h
      obtain ⟨k, hk, hname⟩ := List.mem_filterMap.mp hmem
      obtain ⟨r, hr, rfl⟩ := List.mem_map.mp hk
      refine List.any_eq_true.mpr ⟨r, hr, ?_⟩
      rw [name?_eq_some_iff.mp hkey, name?_eq_some_iff.mp hname]
      simp [sameKey, bare]

/-- Rows as they are taken into a map: no name twice, and well made values. -/
def RowsWellMade (rows : List (Datum × Datum)) : Prop :=
  (Assoc.names (namedRows rows)).Nodup ∧ ∀ r ∈ rows, r.2.WellMade

theorem RowsWellMade.collectRows {taken rows all : List (Datum × Datum)} (ht : RowsWellMade taken)
    (hr : ∀ r ∈ rows, r.2.WellMade) (h : collectRows taken rows = .ok all) : RowsWellMade all := by
  induction rows generalizing taken with
  | nil =>
    cases h
    exact ht
  | cons r rest ih =>
    obtain ⟨key, d⟩ := r
    obtain ⟨hd, hrest⟩ := List.forall_mem_cons.mp hr
    rw [Datum.collectRows] at h
    split at h
    · cases h
    · refine ih ⟨nodup_insertRow key d ht.1, fun r hmem => ?_⟩ hrest h
      obtain heq | ⟨r', hr', heq⟩ := mem_insertRow hmem
      · exact heq ▸ hd
      · exact heq ▸ ht.2 r' hr'

/-- What is made of rows is well made. -/
theorem wellMade_ofRows {rows : List (Datum × Datum)} {d : Datum} (hr : ∀ r ∈ rows, r.2.WellMade)
    (h : ofRows rows = .ok d) : d.WellMade := by
  unfold ofRows at h
  cases hall : collectRows [] rows with
  | error f =>
    rw [hall] at h
    cases h
  | ok all =>
    have hnone : RowsWellMade [] := ⟨List.nodup_nil, List.forall_mem_nil _⟩
    obtain ⟨hn, hv⟩ := hnone.collectRows hr hall
    rw [hall] at h
    dsimp only [bind, Except.bind] at h
    cases hkey : badKey? all with
    | none =>
      rw [hkey] at h
      cases h
      exact wellMade_map.mpr ⟨hn, fun e he => hv _ (mem_of_mem_namedRows he)⟩
    | some key =>
      rw [hkey] at h
      cases h
      exact wellMade_table.mpr ⟨hkey, hv⟩

/-! ## The verdict -/

/-- The outcome for something, given the first spot that offends. -/
def verdict {α : Type} (a : α) : Option Spot → Except Fault α
  | none => .ok a
  | some s => .error s.fault

theorem map_verdict {α β : Type} (a : α) (first : Option Spot) (g : α → β) :
    (verdict a first).map g = verdict (g a) first := by
  cases first <;> rfl

/-- The first of the spots that offends. -/
def firstOf (ss : List Spot) : Option Spot := ss.find? Spot.offends

theorem firstOf_append (ss ts : List Spot) : firstOf (ss ++ ts) = (firstOf ss).or (firstOf ts) :=
  List.find?_append

theorem firstOf_cons_of_not {s : Spot} (h : s.offends = false) (ss : List Spot) :
    firstOf (s :: ss) = firstOf ss :=
  List.find?_cons_of_neg (by simp [h])

theorem firstOf_cons_of_offends {s : Spot} (h : s.offends = true) (ss : List Spot) :
    firstOf (s :: ss) = some s :=
  List.find?_cons_of_pos h

theorem firstOf_names (entries : List (String × Datum)) :
    firstOf (entries.map fun e => Spot.key (.str e.1)) = none := by
  simp [firstOf, Spot.offends]

/-- The keys of rows come down to the first of them that is no name. -/
theorem firstOf_keys (rows : List (Datum × Datum)) :
    firstOf (rows.map fun r => Spot.key r.1) = (badKey? rows).map Spot.key := by
  fun_induction badKey? rows with
  | case1 => rfl
  | case2 name d rest ih =>
    rw [List.map_cons, firstOf_cons_of_not rfl, ih]
  | case3 key d rest hkey =>
    have offends : Spot.offends (.key key) = true := by
      unfold Spot.offends
      split <;> simp_all
    rw [List.map_cons, firstOf_cons_of_offends offends]
    rfl

theorem map_checkInt (n : Int) :
    (checkInt n).map Datum.int = verdict (.int n) (firstOf [.item (.int n)]) := by
  rw [checkInt]
  by_cases h : inRange n = true
  · rw [if_pos h, firstOf_cons_of_not (by simp [Spot.offends, h])]
    rfl
  · rw [if_neg h, firstOf_cons_of_offends (by simp [Spot.offends, h])]
    simp only [verdict, Spot.fault]
    -- the bound must not be evaluated
    generalize maxDigits = most
    rw [Nat.pow_eq]
    split <;> rfl

mutual

/-- Admission is decided by the first spot that offends. -/
theorem accept_eq_verdict : ∀ {d : Datum}, d.WellMade → d.accept = verdict d (firstOf d.spots)
  | .int n, _ => map_checkInt n
  | .list items, h => by
    rw [accept, acceptAll_eq_verdict (wellMade_list.mp h), map_verdict, spots,
      firstOf_cons_of_not rfl]
  | .map entries, h => by
    rw [accept, acceptEntries_eq_verdict (wellMade_map.mp h).2, map_verdict, spots,
      firstOf_cons_of_not rfl, firstOf_append, firstOf_names, Option.none_or]
  | .table key rows, h => by
    -- one of the keys is no name, so the values are never looked at
    rw [accept, spots, firstOf_cons_of_not rfl, firstOf_append, firstOf_keys,
      (wellMade_table.mp h).1]
    rfl
  | .str _, _ | .real _ _, _ | .bool _, _ | .nil, _ | .fn _ _ _, _ | .native _ _, _ | .symbol _, _
  | .call _ _, _ | .listForm _, _ | .mapForm _, _ | .absent, _ | .array _ _, _ | .record _ _, _
  | .quoted _ _, _ => rfl

theorem acceptAll_eq_verdict : ∀ {items : List Datum}, (∀ d ∈ items, d.WellMade) →
    acceptAll items = verdict items (firstOf (spotsOfAll items))
  | [], _ => rfl
  | d :: rest, h => by
    obtain ⟨hd, hrest⟩ := List.forall_mem_cons.mp h
    rw [acceptAll, accept_eq_verdict hd, acceptAll_eq_verdict hrest, spotsOfAll, firstOf_append]
    cases firstOf d.spots <;> cases firstOf (spotsOfAll rest) <;> rfl

theorem acceptEntries_eq_verdict :
    ∀ {entries : List (String × Datum)}, (∀ e ∈ entries, e.2.WellMade) →
    acceptEntries entries = verdict entries (firstOf (spotsOfEntries entries))
  | [], _ => rfl
  | (key, d) :: rest, h => by
    obtain ⟨hd, hrest⟩ := List.forall_mem_cons.mp h
    rw [acceptEntries, accept_eq_verdict hd, acceptEntries_eq_verdict hrest, spotsOfEntries,
      firstOf_append]
    cases firstOf d.spots <;> cases firstOf (spotsOfEntries rest) <;> rfl

end

/-! ## Values that are let through -/

/-- A thing without an offence is a proper value. -/
theorem proper_of_spots : ∀ {d : Datum}, d.WellMade → (∀ s ∈ d.spots, s.offends = false) → d.Proper
  | .str text, _, _ => .str text
  | .int n, _, _ => .int n
  | .real x mark, _, _ => .real x mark
  | .bool b, _, _ => .bool b
  | .nil, _, _ => .nil
  | .fn place params body, _, _ => .fn place params body
  | .native name procedure, _, _ => .native name procedure
  | .list items, hd, hs => .list fun e he => by
    have : sizeOf e < sizeOf items := List.sizeOf_lt_of_mem he
    exact proper_of_spots (wellMade_list.mp hd e he) ((forall_mem_spots_list.mp hs).2 e he)
  | .map entries, hd, hs => .map (wellMade_map.mp hd).1 fun e he => by
    have : sizeOf e < sizeOf entries := List.sizeOf_lt_of_mem he
    have : sizeOf e.2 < sizeOf e := by obtain ⟨key, d⟩ := e; simp +arith
    exact proper_of_spots ((wellMade_map.mp hd).2 e he) ((forall_mem_spots_map.mp hs).2.2 e he)
  | .table key rows, hd, hs => by
    have hfirst : firstOf (rows.map fun r => Spot.key r.1) = some (.key key) := by
      rw [firstOf_keys, (wellMade_table.mp hd).1, Option.map_some]
    have hfine : ∀ s ∈ rows.map fun r => Spot.key r.1, s.offends = false :=
      List.forall_mem_map.mpr (forall_mem_spots_table.mp hs).2.1
    have hoffends : Spot.offends (.key key) = true := List.find?_some hfirst
    rw [hfine _ (List.mem_of_find?_eq_some hfirst)] at hoffends
    cases hoffends
  | .symbol _, _, hs | .call _ _, _, hs | .listForm _, _, hs | .mapForm _, _, hs | .absent, _, hs
  | .array _ _, _, hs | .record _ _, _, hs | .quoted _ _, _, hs =>
    absurd (hs _ (item_mem_spots _)) (by simp [Spot.offends, kind?])
termination_by d => sizeOf d

theorem firstOf_eq_none_iff {ss : List Spot} : firstOf ss = none ↔ ∀ s ∈ ss, s.offends = false := by
  simp [firstOf]

theorem firstOffence_iff {d : Datum} {s : Spot} : d.FirstOffence s ↔ firstOf d.spots = some s := by
  rw [firstOf, List.find?_eq_some_iff_append]
  constructor
  · rintro ⟨before, after, hd, hs, hb⟩
    exact ⟨hs, before, after, hd, fun t ht => by rw [hb t ht]; rfl⟩
  · rintro ⟨hs, before, after, hd, hb⟩
    exact ⟨before, after, hd, hs, fun t ht => by simpa using hb t ht⟩

/-! ## Faults -/

theorem Spot.kind_fault (s : Spot) : s.fault.kind =
    if s.subject.inspectable then (if s.isInteger then .overflow else .badType) else .badValue := by
  unfold fault
  split
  next n =>
    rw [subject, inspectable, isInteger, Nat.pow_eq]
    -- the bound is not to be evaluated
    generalize 10 ^ maxDigits = bound
    by_cases h : n.natAbs < bound
    · rw [if_pos h, decide_eq_true h]
      rfl
    · rw [if_neg h, decide_eq_false h]
      rfl
  next d hd =>
    have hint : isInteger (.item d) = false := by
      unfold isInteger
      split
      next n heq => exact absurd (Spot.item.inj heq) (hd n)
      next => rfl
    rw [hint]
    rfl
  next => rfl

end Datum

open Datum in
/-- A thing is admitted exactly if none of its spots offends, and then it comes out as it is, equal
to itself, and is admitted again.  Otherwise the first spot that offends decides the fault: an
overflow if that spot is an integer and a wrong type if it is not, provided that what stands at the
spot can be written. -/
theorem accept_decides {d : Datum} (hd : d.WellMade) :
    ((∃ v, d.accept = .ok v) ↔ ∀ s ∈ d.spots, s.offends = false) ∧
    (∀ v, d.accept = .ok v → v = d ∧ v.equal d = .ok true ∧ v.accept = .ok v) ∧
    ((∃ s ∈ d.spots, s.offends = true) → ∃ s f, d.FirstOffence s ∧ d.accept = .error f ∧
      f.kind =
        if s.subject.inspectable then (if s.isInteger then .overflow else .badType)
        else .badValue) := by
  have haccept := accept_eq_verdict hd
  cases hfirst : firstOf d.spots with
  | none =>
    have hfine := firstOf_eq_none_iff.mp hfirst
    rw [hfirst] at haccept
    refine ⟨⟨fun _ => hfine, fun _ => ⟨d, haccept⟩⟩, fun v hv => ?_, fun ⟨s, hs, ho⟩ => ?_⟩
    · obtain rfl : d = v := Except.ok.inj (haccept.symm.trans hv)
      have hproper := proper_of_spots hd hfine
      exact ⟨rfl, (decides_equal hproper hproper).eq_ok_iff.mpr hproper.same_self, hv⟩
    · rw [hfine s hs] at ho
      cases ho
  | some s =>
    have hs := firstOffence_iff.mpr hfirst
    rw [hfirst] at haccept
    refine ⟨⟨fun ⟨v, hv⟩ => ?_, fun hfine => ?_⟩, fun v hv => ?_,
      fun _ => ⟨s, s.fault, hs, haccept, s.kind_fault⟩⟩
    · cases haccept.symm.trans hv
    · rw [firstOf_eq_none_iff.mpr hfine] at hfirst
      cases hfirst
    · cases haccept.symm.trans hv

open Datum in
/-- A key that is no name comes before the values of its map, also before one that is out of
range. -/
theorem accept_decides_key :
    ∃ table, ofRows [(.str "a", .int (2 ^ 63)), (.nil, .nil)] = .ok table ∧
      (Datum.list [.nil, table]).WellMade ∧
      ∃ f, (Datum.list [.nil, table]).accept = .error f ∧ f.kind = .badType := by
  have hrows : ∀ r ∈ [(Datum.str "a", Datum.int (2 ^ 63)), (.nil, .nil)], r.2.WellMade := by
    simp [Datum.WellMade, spots, Spot.WellMade]
  have htable : ofRows [(.str "a", .int (2 ^ 63)), (.nil, .nil)] =
      .ok (.table .nil [(.str "a", .int (2 ^ 63)), (.nil, .nil)]) := rfl
  have hlist :
      (Datum.list [.nil, .table .nil [(.str "a", .int (2 ^ 63)), (.nil, .nil)]]).WellMade := by
    refine wellMade_list.mpr (List.forall_mem_cons.mpr
      ⟨?_, List.forall_mem_singleton.mpr (wellMade_ofRows hrows htable)⟩)
    simp [Datum.WellMade, spots, Spot.WellMade]
  obtain ⟨-, -, hrefused⟩ := accept_decides hlist
  obtain ⟨s, f, hs, hf, hkind⟩ := hrefused ⟨.key .nil, by simp [spots, spotsOfAll], rfl⟩
  have hkey : s = .key .nil := Option.some.inj ((firstOffence_iff.mp hs).symm.trans rfl)
  rw [hkey] at hkind
  exact ⟨_, htable, hlist, f, hf, hkind⟩

open Datum in
/-- An integer with one digit too many is out of range, but its fault is not an overflow. -/
theorem accept_unwritable :
    (Datum.int (10 ^ maxDigits)).FirstOffence (.item (.int (10 ^ maxDigits))) ∧
    (Datum.int (10 ^ maxDigits)).accept = .error .unwritableInteger ∧
    Fault.unwritableInteger.kind = .badValue := by
  have hlarge : maxInt < (10 : Int) ^ maxDigits := by
    have h : (10 : Int) ^ 19 ≤ 10 ^ maxDigits := pow_le_pow_right₀ (by decide) (by decide)
    exact Int.lt_of_lt_of_le (by decide) h
  have hoffends : Spot.offends (.item (.int (10 ^ maxDigits))) = true := by
    rw [Spot.offends, inRange, decide_eq_false (Int.not_le.mpr hlarge), Bool.and_false]
    rfl
  have hsize : ¬ ((10 : Int) ^ maxDigits).natAbs < 10 ^ maxDigits := by
    rw [Int.natAbs_pow, show (10 : Int).natAbs = 10 from rfl]
    exact Nat.lt_irrefl _
  refine ⟨⟨[], [], rfl, hoffends, List.forall_mem_nil _⟩, ?_, rfl⟩
  rw [accept, map_checkInt, firstOf_cons_of_offends hoffends, verdict, Spot.fault, if_neg hsize]

end DynLisp
