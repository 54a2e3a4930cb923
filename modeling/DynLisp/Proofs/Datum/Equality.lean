import Mathlib.Data.List.Perm.Subperm
import DynLisp.Native.Builtin
import DynLisp.Proofs.Assoc

/-!
# Equality is an equivalence

`Datum.Same` gives the rules of equality, one for each kind of value.  Lists are the same item by
item, and maps when they bind the same names to the same things, in whatever order.  Comparing two
proper values decides these rules (`Datum.decides_equal`), and the rules make an equivalence, so it
does no harm that `=` compares its arguments only with the first of them.

The delicate case is a nan, which no comparison of numbers takes for equal to anything.  It is the
same as itself because it has a mark, and a mark is as good as a number here: two reals are the same
if they stand for the same number or if both are the one nan (`Datum.sameReal_iff`).
-/

namespace DynLisp

/-! ## Reals -/

namespace Decimal

open Float.Model

/-- The number that a double stands for: an infinity, zero, or a sign with an exponent and a
mantissa.  A nan stands for none. -/
def number? (x : Float) : Option (UnpackedFloat.Sign ⊕ Option (UnpackedFloat.Sign × Int × Nat)) :=
  match x.toModel.unpack with
  | .notANumber => none
  | .infinity sign => some (.inl sign)
  | .zero _ => some (.inr none)
  | .finite sign mantissa exponent _ => some (.inr (some (sign, exponent, mantissa)))

theorem isNaN_iff (x : Float) : x.isNaN = true ↔ number? x = none := by
  show x.toModel.unpack.isNaN = true ↔ _
  unfold number? UnpackedFloat.isNaN
  cases x.toModel.unpack <;> dsimp only <;> simp

theorem beq_iff (x y : Float) : (x == y) = true ↔ number? x = number? y ∧ number? x ≠ none := by
  show UnpackedFloat.beq x.toModel.unpack y.toModel.unpack = true ↔ _
  unfold number? UnpackedFloat.beq
  -- a comparison of two finite numbers looks at the signs first, so they have to be known
  rcases x.toModel.unpack with s | _ | s | ⟨s, m, e, _⟩ <;>
    rcases y.toModel.unpack with s' | _ | s' | ⟨s', m', e', _⟩ <;>
    (try cases s) <;> (try cases s') <;> dsimp only [UnpackedFloat.compare] <;> simp
  all_goals rfl

end Decimal

namespace Datum

theorem sameReal_iff {x y : Float} {m n : Nat} : sameReal x y m n = true ↔
    Decimal.number? x = Decimal.number? y ∧ (Decimal.number? x = none → m = n) := by
  simp only [sameReal, Bool.or_eq_true, Bool.and_eq_true, beq_iff_eq, Decimal.beq_iff,
    Decimal.isNaN_iff]
  by_cases hx : Decimal.number? x = none
  · simp [hx, eq_comm]
  · simp [hx]

/-! ## Functions -/

theorem sameBody_iff {p q : Nat} {body other : List Datum} : sameBody p q body other = true ↔
    uniqueBody? body = uniqueBody? other ∧
      (uniqueBody? body = none → p = q ∧ body.length = other.length) := by
  unfold sameBody
  cases uniqueBody? body <;> cases uniqueBody? other <;> simp

/-! ## The rules -/

/-- The rules by which two values are equal. -/
inductive Same : Datum → Datum → Prop where
  | str (text : String) : Same (.str text) (.str text)
  | int (n : Int) : Same (.int n) (.int n)
  | real {x y : Float} {m n : Nat} (h : sameReal x y m n = true) : Same (.real x m) (.real y n)
  | bool (b : Bool) : Same (.bool b) (.bool b)
  | nil : Same .nil .nil
  | list {items others : List Datum} (hl : items.length = others.length)
    (h : ∀ (i : Nat) a b, items[i]? = some a → others[i]? = some b → Same a b) :
    Same (.list items) (.list others)
  | map {entries others : Assoc Datum}
    (hn : ∀ name, name ∈ Assoc.names entries ↔ name ∈ Assoc.names others)
    (h : ∀ name a b, Assoc.find? entries name = some a → Assoc.find? others name = some b →
      Same a b) :
    Same (.map entries) (.map others)
  | fn {p q : Nat} {params : List String} {body other : List Datum}
    (h : sameBody p q body other = true) : Same (.fn p params body) (.fn q params other)
  | native (name other : String) (p : Procedure) : Same (.native name p) (.native other p)

/-- A value at every depth, whose maps have each of their names once.  Integers may be of any size
and functions may have any body. -/
inductive Proper : Datum → Prop where
  | str (text : String) : Proper (.str text)
  | int (n : Int) : Proper (.int n)
  | real (x : Float) (mark : Nat) : Proper (.real x mark)
  | bool (b : Bool) : Proper (.bool b)
  | nil : Proper .nil
  | list {items : List Datum} (h : ∀ d ∈ items, Proper d) : Proper (.list items)
  | map {entries : Assoc Datum} (hn : (Assoc.names entries).Nodup) (h : ∀ e ∈ entries, Proper e.2) :
    Proper (.map entries)
  | fn (place : Nat) (params : List String) (body : List Datum) : Proper (.fn place params body)
  | native (name : String) (procedure : Procedure) : Proper (.native name procedure)

theorem Proper.same_self {d : Datum} (h : d.Proper) : Same d d := by
  induction h with
  | str text => exact .str text
  | int n => exact .int n
  | real x mark => exact .real (sameReal_iff.mpr ⟨rfl, fun _ => rfl⟩)
  | bool b => exact .bool b
  | nil => exact .nil
  | list _ ih =>
    refine .list rfl fun i a b ha hb => ?_
    obtain rfl : a = b := Option.some.inj (ha.symm.trans hb)
    exact ih a (List.mem_of_getElem? ha)
  | map _ _ ih =>
    refine .map (fun _ => Iff.rfl) fun name a b ha hb => ?_
    obtain rfl : a = b := Option.some.inj (ha.symm.trans hb)
    exact ih _ (Assoc.mem_of_find?_eq_some ha)
  | fn place params body => exact .fn (sameBody_iff.mpr ⟨rfl, fun _ => ⟨rfl, rfl⟩⟩)
  | native name procedure => exact .native name name procedure

theorem Same.symm {a b : Datum} (h : Same a b) : Same b a := by
  induction h with
  | str text => exact .str text
  | int n => exact .int n
  | real h =>
    obtain ⟨hx, hm⟩ := sameReal_iff.mp h
    exact .real (sameReal_iff.mpr ⟨hx.symm, fun hn => (hm (hx.trans hn)).symm⟩)
  | bool b => exact .bool b
  | nil => exact .nil
  | list hl _ ih => exact .list hl.symm fun i a b ha hb => ih i b a hb ha
  | map hn _ ih => exact .map (fun name => (hn name).symm) fun name a b ha hb => ih name b a hb ha
  | fn h =>
    obtain ⟨hu, hp⟩ := sameBody_iff.mp h
    refine .fn (sameBody_iff.mpr ⟨hu.symm, fun hn => ?_⟩)
    obtain ⟨hpq, hlen⟩ := hp (hu.trans hn)
    exact ⟨hpq.symm, hlen.symm⟩
  | native name other p => exact .native other name p

theorem Same.trans {a b c : Datum} (h : Same a b) (h' : Same b c) : Same a c := by
  induction h generalizing c with
  | str text => exact h'
  | int n => exact h'
  | real h =>
    cases h' with
    | real h' =>
      obtain ⟨hx, hm⟩ := sameReal_iff.mp h
      obtain ⟨hy, hn⟩ := sameReal_iff.mp h'
      exact .real (sameReal_iff.mpr ⟨hx.trans hy, fun hz => (hm hz).trans (hn (hx.symm.trans hz))⟩)
  | bool b => exact h'
  | nil => exact h'
  | @list items others hl _ ih =>
    cases h' with
    | @list _ further hl' h' =>
      refine .list (hl.trans hl') fun i a c ha hc => ?_
      -- the list in between is as long as the other two, so it has an item at the same place
      have hi : i < others.length := hl ▸ (List.getElem?_eq_some_iff.mp ha).1
      obtain ⟨b, hb⟩ : ∃ b, others[i]? = some b := ⟨_, List.getElem?_eq_getElem hi⟩
      exact ih i a b ha hb (h' i b c hb hc)
  | @map entries others hn _ ih =>
    cases h' with
    | map hn' h' =>
      refine .map (fun name => (hn name).trans (hn' name)) fun name a c ha hc => ?_
      have hname : name ∈ Assoc.names others := (hn name).mp (Assoc.mem_names_of_find? ha)
      obtain ⟨b, hb⟩ := Assoc.exists_find?_of_mem_names hname
      exact ih name a b ha hb (h' name b c hb hc)
  | fn h =>
    cases h' with
    | fn h' =>
      obtain ⟨hu, hp⟩ := sameBody_iff.mp h
      obtain ⟨hv, hq⟩ := sameBody_iff.mp h'
      refine .fn (sameBody_iff.mpr ⟨hu.trans hv, fun hn => ?_⟩)
      obtain ⟨hpq, hlen⟩ := hp hn
      obtain ⟨hqr, hlen'⟩ := hq (hu.symm.trans hn)
      exact ⟨hpq.trans hqr, hlen.trans hlen'⟩
  | native name other p =>
    cases h' with
    | native _ further => exact .native name further p

/-- The order of the entries of a map does not matter. -/
theorem same_map_of_perm {entries others : Assoc Datum} (h : entries.Perm others)
    (hm : (Datum.map entries).Proper) : Same (.map entries) (.map others) := by
  cases hm with
  | map hn hv =>
    refine .map (fun name => (h.map Prod.fst).mem_iff) fun name a b ha hb => ?_
    rw [← Assoc.find?_eq_of_perm h hn] at hb
    obtain rfl : a = b := Option.some.inj (ha.symm.trans hb)
    exact (hv _ (Assoc.mem_of_find?_eq_some ha)).same_self

theorem Proper.map_of_perm {entries others : Assoc Datum} (h : entries.Perm others)
    (hm : (Datum.map entries).Proper) : (Datum.map others).Proper := by
  cases hm with
  | map hn hv => exact .map ((h.map Prod.fst).nodup_iff.mp hn) fun e he => hv e (h.mem_iff.mpr he)

/-! ## Comparison -/

/-- The comparison comes to a result, which tells whether the condition holds. -/
def Decides (outcome : Except Fault Bool) (P : Prop) : Prop :=
  ∃ r, outcome = .ok r ∧ (r = true ↔ P)

theorem Decides.congr {outcome : Except Fault Bool} {P Q : Prop} (h : Decides outcome P)
    (hPQ : P ↔ Q) : Decides outcome Q := by
  obtain ⟨r, hr, hP⟩ := h
  exact ⟨r, hr, hP.trans hPQ⟩

theorem decides_beq {α : Type} [BEq α] [LawfulBEq α] {x y : α} {P : Prop} (h : x = y ↔ P) :
    Decides (.ok (x == y)) P := ⟨_, rfl, beq_iff_eq.trans h⟩

theorem decides_false {P : Prop} (h : ¬ P) : Decides (.ok false) P := ⟨false, rfl, by simp [h]⟩

theorem decides_true {P : Prop} (h : P) : Decides (.ok true) P := ⟨true, rfl, by simp [h]⟩

/-- Comparisons in a row end with the first that fails. -/
theorem Decides.and {outcome next : Except Fault Bool} {P Q : Prop} :
    Decides outcome P → Decides next Q →
    Decides (match outcome with | .ok true => next | other => other) (P ∧ Q) := by
  rintro ⟨r, rfl, hP⟩ hnext
  cases r with
  | true => exact hnext.congr ⟨fun hQ => ⟨hP.mp rfl, hQ⟩, fun h => h.2⟩
  | false => exact decides_false fun h => Bool.false_ne_true (hP.mpr h.1)

theorem Decides.eq_ok_iff {outcome : Except Fault Bool} {P : Prop} (h : Decides outcome P) :
    outcome = .ok true ↔ P := by
  obtain ⟨r, rfl, hP⟩ := h
  rw [Except.ok.injEq]
  exact hP

/-- Comparisons that decide the same come to the same. -/
theorem Decides.unique {outcome other : Except Fault Bool} {P Q : Prop} (h : Decides outcome P)
    (h' : Decides other Q) (hPQ : P ↔ Q) : outcome = other := by
  obtain ⟨r, rfl, hP⟩ := h
  obtain ⟨s, rfl, hQ⟩ := h'
  rw [Bool.eq_iff_iff.mpr (hP.trans (hPQ.trans hQ.symm))]

theorem Same.kind?_eq {a b : Datum} (h : Same a b) : a.kind? = b.kind? := by
  cases h <;> rfl

theorem Proper.kind?_eq_some {d : Datum} (h : d.Proper) : ∃ kind, d.kind? = some kind := by
  cases h <;> exact ⟨_, rfl⟩

theorem Proper.sameObject_eq_false {d : Datum} (h : d.Proper) (other : Datum) :
    sameObject d other = false := by
  cases h <;> rfl

theorem equal_of_kind?_ne {a b : Datum} (ha : a.Proper) (hb : b.Proper) (h : a.kind? ≠ b.kind?) :
    a.equal b = .ok false := by
  rw [equal.eq_def]
  split
  case h_13 =>
    obtain ⟨kind, hkind⟩ := ha.kind?_eq_some
    obtain ⟨other, hother⟩ := hb.kind?_eq_some
    have hne : kind ≠ other := by rintro rfl; exact h (hkind.trans hother.symm)
    rw [if_neg (by simp [ha.sameObject_eq_false])]
    simp [sameKind, kindOf, hkind, hother, hne, bind, Except.bind, pure, Except.pure]
  all_goals exact absurd rfl h

theorem decides_equalAll {items : List Datum}
    (ih : ∀ a ∈ items, ∀ b, b.Proper → Decides (a.equal b) (Same a b)) {others : List Datum}
    (ho : ∀ b ∈ others, b.Proper) (hl : items.length = others.length) :
    Decides (equalAll items others)
      (∀ (i : Nat) a b, items[i]? = some a → others[i]? = some b → Same a b) := by
  induction items generalizing others with
  | nil =>
    rw [equalAll.eq_def]
    exact decides_true (by simp)
  | cons a items ihs =>
    cases others with
    | nil => simp at hl
    | cons b others =>
      obtain ⟨hfirst, hrest⟩ := List.forall_mem_cons.mp ih
      obtain ⟨hb, ho⟩ := List.forall_mem_cons.mp ho
      rw [equalAll]
      refine ((hfirst b hb).and (ihs hrest ho (by simpa using hl))).congr ⟨?_, fun h => ⟨?_, ?_⟩⟩
      · rintro ⟨hab, h⟩ (_ | i) x y hx hy
        · simp only [List.getElem?_cons_zero, Option.some.injEq] at hx hy
          rwa [← hx, ← hy]
        · exact h i x y hx hy
      · exact h 0 a b rfl rfl
      · exact fun i x y hx hy => h (i + 1) x y hx hy

theorem decides_equalEntries {entries : List (String × Datum)} {others : Assoc Datum}
    (ih : ∀ e ∈ entries, ∀ b, b.Proper → Decides (e.2.equal b) (Same e.2 b))
    (ho : ∀ e ∈ others, e.2.Proper) (hn : ∀ e ∈ entries, e.1 ∈ Assoc.names others) :
    Decides (equalEntries entries others)
      (∀ e ∈ entries, ∀ b, Assoc.find? others e.1 = some b → Same e.2 b) := by
  induction entries with
  | nil =>
    rw [equalEntries]
    exact decides_true (List.forall_mem_nil _)
  | cons e entries ihs =>
    obtain ⟨hfirst, hrest⟩ := List.forall_mem_cons.mp ih
    obtain ⟨hname, hnames⟩ := List.forall_mem_cons.mp hn
    obtain ⟨b, hb⟩ := Assoc.exists_find?_of_mem_names hname
    have hproper : b.Proper := ho _ (Assoc.mem_of_find?_eq_some hb)
    rw [equalEntries, hb]
    refine ((hfirst b hproper).and (ihs hrest hnames)).congr ?_
    rw [List.forall_mem_cons, hb]
    simp

theorem sameNames_iff {entries others : Assoc Datum} (hn : (Assoc.names entries).Nodup)
    (ho : (Assoc.names others).Nodup) : sameNames entries others = true ↔
      ∀ name, name ∈ Assoc.names entries ↔ name ∈ Assoc.names others := by
  have hsome : (∀ e ∈ entries, (Assoc.find? others e.1).isSome = true) ↔
      Assoc.names entries ⊆ Assoc.names others := by
    simp [List.subset_def, Assoc.names, Assoc.isSome_find?]
  have hlen (m : Assoc Datum) : m.length = (Assoc.names m).length := by simp [Assoc.names]
  simp only [sameNames, Bool.and_eq_true, beq_iff_eq, List.all_eq_true, hsome, hlen]
  constructor
  · rintro ⟨hl, hs⟩ name
    exact ((hn.subperm hs).perm_of_length_le (Nat.le_of_eq hl.symm)).mem_iff
  · intro h
    have hp : (Assoc.names entries).Perm (Assoc.names others) :=
      (List.perm_ext_iff_of_nodup hn ho).mpr h
    exact ⟨hp.length_eq, hp.subset⟩

theorem decides_of_kind?_ne {a b : Datum} (ha : a.Proper) (hb : b.Proper) (h : a.kind? ≠ b.kind?) :
    Decides (a.equal b) (Same a b) := by
  rw [equal_of_kind?_ne ha hb h]
  exact decides_false fun hs => h hs.kind?_eq

theorem decides_list {items others : List Datum}
    (ih : ∀ a ∈ items, ∀ b, b.Proper → Decides (a.equal b) (Same a b))
    (ho : ∀ b ∈ others, b.Proper) :
    Decides (equal (.list items) (.list others)) (Same (.list items) (.list others)) := by
  rw [equal]
  by_cases hl : items.length = others.length
  · rw [if_pos (beq_iff_eq.mpr hl)]
    refine (decides_equalAll ih ho hl).congr ⟨.list hl, fun h => ?_⟩
    cases h
    assumption
  · rw [if_neg (mt beq_iff_eq.mp hl)]
    refine decides_false fun h => ?_
    cases h
    contradiction

theorem decides_map {entries others : Assoc Datum}
    (ih : ∀ e ∈ entries, ∀ b, b.Proper → Decides (e.2.equal b) (Same e.2 b))
    (hn : (Assoc.names entries).Nodup) (ho : (Assoc.names others).Nodup)
    (hv : ∀ e ∈ others, e.2.Proper) :
    Decides (equal (.map entries) (.map others)) (Same (.map entries) (.map others)) := by
  rw [equal]
  have hnames := sameNames_iff hn ho
  by_cases hs : sameNames entries others = true
  · rw [if_pos hs]
    have bound : ∀ e ∈ entries, e.1 ∈ Assoc.names others := fun e he =>
      (hnames.mp hs e.1).mp (List.mem_map_of_mem he)
    refine (decides_equalEntries ih hv bound).congr ⟨fun h => ?_, fun h e he b hb => ?_⟩
    · exact .map (hnames.mp hs) fun name a b ha => h (name, a) (Assoc.mem_of_find?_eq_some ha) b
    · cases h with
      | map _ h => exact h e.1 e.2 b (Assoc.find?_of_mem hn he) hb
  · rw [if_neg hs]
    refine decides_false fun h => ?_
    cases h with
    | map h _ => exact hs (hnames.mpr h)

/-- Comparing two values decides whether the rules make them the same. -/
theorem decides_equal {a b : Datum} (ha : a.Proper) (hb : b.Proper) :
    Decides (a.equal b) (Same a b) := by
  induction ha generalizing b with
  | str text =>
    cases b with
    | str other => rw [equal]; exact decides_beq ⟨fun h => h ▸ .str text, fun h => by cases h; rfl⟩
    | _ => exact decides_of_kind?_ne (.str text) hb (by simp [kind?])
  | int n =>
    cases b with
    | int m => rw [equal]; exact decides_beq ⟨fun h => h ▸ .int n, fun h => by cases h; rfl⟩
    | _ => exact decides_of_kind?_ne (.int n) hb (by simp [kind?])
  | real x mark =>
    cases b with
    | real y other => rw [equal]; exact ⟨_, rfl, .real, fun h => by cases h; assumption⟩
    | _ => exact decides_of_kind?_ne (.real x mark) hb (by simp [kind?])
  | bool v =>
    cases b with
    | bool w => rw [equal]; exact decides_beq ⟨fun h => h ▸ .bool v, fun h => by cases h; rfl⟩
    | _ => exact decides_of_kind?_ne (.bool v) hb (by simp [kind?])
  | nil =>
    cases b with
    | nil => rw [equal]; exact decides_true .nil
    | _ => exact decides_of_kind?_ne .nil hb (by simp [kind?])
  | list hitems ih =>
    cases b with
    | list others =>
      cases hb with
      | list ho => exact decides_list (fun a ha b hb => ih a ha hb) ho
    | _ => exact decides_of_kind?_ne (.list hitems) hb (by simp [kind?])
  | map hn hv ih =>
    cases b with
    | map others =>
      cases hb with
      | map ho hw => exact decides_map (fun e he b hb => ih e he hb) hn ho hw
    -- a table has the kind of a map, but it is not a proper one
    | table => cases hb
    | _ => exact decides_of_kind?_ne (.map hn hv) hb (by simp [kind?])
  | fn place params body =>
    cases b with
    | fn other params' body' =>
      rw [equal]
      refine ⟨_, rfl, fun h => ?_, fun h => ?_⟩
      · rw [Bool.and_eq_true, beq_iff_eq] at h
        obtain ⟨rfl, h⟩ := h
        exact .fn h
      · cases h with
        | fn h => simpa using h
    | _ => exact decides_of_kind?_ne (.fn place params body) hb (by simp [kind?])
  | native name procedure =>
    cases b with
    | native other procedure' =>
      rw [equal]
      exact decides_beq ⟨fun h => h ▸ .native name other procedure, fun h => by cases h; rfl⟩
    | _ => exact decides_of_kind?_ne (.native name procedure) hb (by simp [kind?])

end Datum

/-! ## Several arguments -/

namespace Builtin

open Datum

theorem decides_allEqual {first : Datum} {rest : List Datum} (hf : first.Proper)
    (hr : ∀ d ∈ rest, d.Proper) : Decides (allEqual first rest) (∀ d ∈ rest, Same first d) := by
  induction rest with
  | nil => exact decides_true (List.forall_mem_nil _)
  | cons d rest ih =>
    obtain ⟨hd, hr⟩ := List.forall_mem_cons.mp hr
    rw [allEqual]
    exact ((decides_equal hf hd).and (ih hr)).congr List.forall_mem_cons.symm

/-- What is the same as the first argument is the same as every other. -/
theorem exists_reply_equal {args : List Datum} (hne : args ≠ []) (ha : ∀ d ∈ args, d.Proper) :
    ∃ r, Builtin.equal.reply args = .give (.bool r) ∧
      (r = true ↔ ∀ a ∈ args, ∀ b ∈ args, Same a b) := by
  cases args with
  | nil => contradiction
  | cons first rest =>
    obtain ⟨hf, hr⟩ := List.forall_mem_cons.mp ha
    obtain ⟨r, hr, hP⟩ := decides_allEqual hf hr
    refine ⟨r, ?_, hP.trans ⟨fun h => ?_, fun h d hd => ?_⟩⟩
    · show Reply.ofExcept ((allEqual first rest).map .bool) = _
      rw [hr]
      rfl
    · have all : ∀ d ∈ first :: rest, Same first d := List.forall_mem_cons.mpr ⟨hf.same_self, h⟩
      exact fun a ha b hb => (all a ha).symm.trans (all b hb)
    · exact h first List.mem_cons_self d (List.mem_cons_of_mem _ hd)

end Builtin

/-- Equality of values is reflexive, symmetric and transitive, and does not see the order of the
entries of a map.  So `=` tells whether its arguments are equal to one another, whatever their
order. -/
theorem equal_equivalence :
    (∀ a : Datum, a.Proper → a.equal a = .ok true) ∧
    (∀ a b : Datum, a.Proper → b.Proper → ∃ r, a.equal b = .ok r ∧ b.equal a = .ok r) ∧
    (∀ a b c : Datum, a.Proper → b.Proper → c.Proper → a.equal b = .ok true → b.equal c = .ok true →
      a.equal c = .ok true) ∧
    (∀ (entries others : Assoc Datum) (d : Datum), (Datum.map entries).Proper → d.Proper →
      entries.Perm others → (Datum.map entries).equal d = (Datum.map others).equal d) ∧
    (∀ args : List Datum, args ≠ [] → (∀ d ∈ args, d.Proper) →
      ∃ r, Builtin.equal.reply args = .give (.bool r) ∧
        (r = true ↔ ∀ a ∈ args, ∀ b ∈ args, a.equal b = .ok true) ∧
        ∀ others, others.Perm args → Builtin.equal.reply others = .give (.bool r)) := by
  refine ⟨fun a ha => ?_, fun a b ha hb => ?_, fun a b c ha hb hc hab hbc => ?_,
    fun entries others d hm hd hp => ?_, fun args hne ha => ?_⟩
  · exact (Datum.decides_equal ha ha).eq_ok_iff.mpr ha.same_self
  · obtain ⟨r, hr, -⟩ := Datum.decides_equal ha hb
    refine ⟨r, hr, ?_⟩
    rw [← hr]
    exact (Datum.decides_equal hb ha).unique (Datum.decides_equal ha hb) ⟨.symm, .symm⟩
  · rw [(Datum.decides_equal ha hb).eq_ok_iff] at hab
    rw [(Datum.decides_equal hb hc).eq_ok_iff] at hbc
    exact (Datum.decides_equal ha hc).eq_ok_iff.mpr (hab.trans hbc)
  · have same := Datum.same_map_of_perm hp hm
    exact (Datum.decides_equal hm hd).unique (Datum.decides_equal (hm.map_of_perm hp) hd)
      ⟨same.symm.trans, same.trans⟩
  · obtain ⟨r, hr, hP⟩ := Builtin.exists_reply_equal hne ha
    refine ⟨r, hr, hP.trans ⟨fun h a ma b mb => ?_, fun h a ma b mb => ?_⟩, fun others hp => ?_⟩
    · exact (Datum.decides_equal (ha a ma) (ha b mb)).eq_ok_iff.mpr (h a ma b mb)
    · exact (Datum.decides_equal (ha a ma) (ha b mb)).eq_ok_iff.mp (h a ma b mb)
    · have hne' : others ≠ [] := by rintro rfl; exact hne hp.nil_eq.symm
      obtain ⟨s, hs, hQ⟩ := Builtin.exists_reply_equal hne' fun d hd => ha d (hp.mem_iff.mp hd)
      have : s = r := by rw [Bool.eq_iff_iff, hQ, hP]; simp only [hp.mem_iff]
      rw [hs, this]

/-- Two maps that hold one nan, with their entries in different orders. -/
theorem equal_equivalence_nan :
    (Datum.map [("n", .list [.real (0.0 / 0.0) 7]), ("k", .nil)]).Proper ∧
    (Datum.map [("k", .nil), ("n", .list [.real (0.0 / 0.0) 7])]).Proper ∧
    (Datum.map [("k", .nil), ("n", .list [.real (0.0 / 0.0) 7])]).equal
      (.map [("n", .list [.real (0.0 / 0.0) 7]), ("k", .nil)]) = .ok true ∧
    Builtin.equal.reply [.map [("n", .list [.real (0.0 / 0.0) 7]), ("k", .nil)],
      .map [("k", .nil), ("n", .list [.real (0.0 / 0.0) 7])]] = .give (.bool true) := by
  have item : (Datum.list [.real (0.0 / 0.0) 7]).Proper :=
    .list (List.forall_mem_singleton.mpr (.real _ 7))
  have first : (Datum.map [("n", .list [.real (0.0 / 0.0) 7]), ("k", .nil)]).Proper :=
    .map (by decide) (List.forall_mem_cons.mpr ⟨item, List.forall_mem_singleton.mpr .nil⟩)
  have second : (Datum.map [("k", .nil), ("n", .list [.real (0.0 / 0.0) 7])]).Proper :=
    .map (by decide) (List.forall_mem_cons.mpr ⟨.nil, List.forall_mem_singleton.mpr item⟩)
  obtain ⟨refl, symm, -, unordered, args⟩ := equal_equivalence
  have forth : (Datum.map [("k", .nil), ("n", .list [.real (0.0 / 0.0) 7])]).equal
      (.map [("n", .list [.real (0.0 / 0.0) 7]), ("k", .nil)]) = .ok true :=
    (unordered _ _ _ first first (.swap _ _ [])).symm.trans (refl _ first)
  obtain ⟨r, hr, hback⟩ := symm _ _ second first
  have back := hback.trans (hr.symm.trans forth)
  have both := List.forall_mem_cons.mpr ⟨first, List.forall_mem_singleton.mpr second⟩
  obtain ⟨s, hs, hiff, -⟩ := args _ (List.cons_ne_nil _ _) both
  have all : s = true := hiff.mpr (by simp [forth, back, refl _ first, refl _ second])
  exact ⟨first, second, forth, by rw [hs, all]⟩

end DynLisp
