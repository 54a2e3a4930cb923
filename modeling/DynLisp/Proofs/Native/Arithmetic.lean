import DynLisp.Proofs.Native.Rounding

/-!
# What arithmetic gives

A fold over numbers computes exactly as long as it has met integers only, and checks each result on
the way (`Arithmetic.running`).  It ends in one of three ways (`Settled`): a running result does not
fit and the fold stops there, all numbers are integers and the exact result fits, or a real turns up
before any overflow and from then on nothing can go wrong.

Integers that fit have results far below `10 ^ maxDigits`, so an overflow can always be written, and
they have doubles near them, so no integer is too large to meet a real.
-/

namespace DynLisp

/-- Is the datum an integer or a real? -/
def Datum.IsNumber (d : Datum) : Prop :=
  d.kind? = some .int ∨ d.kind? = some .real

theorem Datum.isNumber_iff {d : Datum} :
    d.IsNumber ↔ (∃ n, d = .int n) ∨ ∃ x mark, d = .real x mark := by
  cases d <;> simp [IsNumber, kind?]

namespace Arithmetic

open Datum

/-! ## The specification -/

/-- The integers before the first real. -/
def leadingInts : List Datum → List Int
  | .int n :: rest => n :: leadingInts rest
  | _ => []

/-- The exact results one after another when integers are folded into a start. -/
def results (op : Arithmetic) (start : Int) (ns : List Int) : List Int :=
  (ns.scanl op.exact start).tail

/-- The exact results on the way to the first real. -/
def running : Arithmetic → List Datum → List Int
  | .add, args => add.results 0 (leadingInts args)
  | .mul, args => mul.results 1 (leadingInts args)
  | .sub, [.int n] => [0 - n]
  | .sub, .int n :: rest => sub.results n (leadingInts rest)
  | .sub, _ => []

/-- The exact result on integers. -/
def total : Arithmetic → List Int → Int
  | .add, ns => ns.sum
  | .mul, ns => ns.prod
  | .sub, [] => 0
  | .sub, [n] => -n
  | .sub, n :: rest => n - rest.sum

/-- What is given for no arguments at all. -/
def ofNothing : Arithmetic → Reply
  | .add => .give (.int 0)
  | .mul => .give (.int 1)
  | .sub => .fail (.tooFewArguments .sub)

/-- The ways in which a computation with numbers ends, given its running results and what integers
come to. -/
inductive Settled (args : List Datum) (running : List Int) (last : List Int → Int) :
    Except Fault Datum → Prop
  | overflow {r : Int} (h : running.find? (!inRange ·) = some r) :
      Settled args running last (.error (.overflow r))
  | int (h : ∀ r ∈ running, inRange r = true) (ns : List Int) (hargs : args = ns.map .int) :
      Settled args running last (.ok (.int (last ns)))
  | real (h : ∀ r ∈ running, inRange r = true) {x : Float} {mark : Nat} (hx : .real x mark ∈ args)
      (y : Float) :
      Settled args running last (.ok (.real y 0))

@[simp] theorem results_nil (op : Arithmetic) (start : Int) : op.results start [] = [] := rfl

@[simp] theorem results_cons (op : Arithmetic) (start n : Int) (rest : List Int) :
    op.results start (n :: rest) = op.exact start n :: op.results (op.exact start n) rest := by
  cases rest <;> simp [results, List.scanl_cons]

theorem foldl_sub (n : Int) (rest : List Int) : rest.foldl sub.exact n = n - rest.sum := by
  induction rest generalizing n with
  | nil => simp
  | cons m rest ih =>
    rw [List.foldl_cons, ih, List.sum_cons, exact]
    omega

/-! ## The arguments -/

/-- What arithmetic can work on: an integer that fits, or a real. -/
inductive Operand : Datum → Prop where
  | int {n : Int} (h : inRange n = true) : Operand (.int n)
  | real (x : Float) (mark : Nat) : Operand (.real x mark)

theorem operands_of_isNumber {args : List Datum} (hargs : ∀ d ∈ args, d.IsNumber)
    (hfits : ∀ n, .int n ∈ args → inRange n = true) : ∀ d ∈ args, Operand d := by
  intro d hd
  obtain ⟨n, rfl⟩ | ⟨x, mark, rfl⟩ := isNumber_iff.mp (hargs d hd)
  · exact .int (hfits n hd)
  · exact .real x mark

theorem Operand.isNumber {d : Datum} (h : Operand d) : d.IsNumber := by
  cases h with
  | int => exact .inl rfl
  | real => exact .inr rfl

theorem toReal_real (x : Float) (mark : Nat) : toReal (.real x mark) = .ok x := rfl

theorem Operand.exists_toReal {d : Datum} (h : Operand d) : ∃ x, toReal d = .ok x := by
  cases h with
  | int h => exact realOfInt_of_inRange h
  | real x mark => exact ⟨x, rfl⟩

theorem checkNumbers_of_isNumber {b : Builtin} {args : List Datum} (h : ∀ d ∈ args, d.IsNumber) :
    checkNumbers b args = .ok () := by
  induction args with
  | nil => rfl
  | cons d rest ih =>
    obtain ⟨hd, hrest⟩ := List.forall_mem_cons.mp h
    rw [checkNumbers, kindOf]
    rcases hd with hd | hd <;> rw [hd] <;> exact ih hrest

theorem checkNumbers_of_not_isNumber (b : Builtin) {before : List Datum} (after : List Datum)
    {d : Datum} {kind : Kind} (hbefore : ∀ x ∈ before, x.IsNumber) (hd : ¬ d.IsNumber)
    (hkind : d.kind? = some kind) :
    checkNumbers b (before ++ d :: after) = .error (.notNumber b kind) := by
  induction before with
  | nil =>
    rw [IsNumber, hkind] at hd
    rw [List.nil_append, checkNumbers, kindOf, hkind]
    cases kind <;> first | rfl | exact absurd hd (by decide)
  | cons x rest ih =>
    obtain ⟨hx, hrest⟩ := List.forall_mem_cons.mp hbefore
    rw [List.cons_append, checkNumbers, kindOf]
    rcases hx with hx | hx <;> rw [hx] <;> exact ih hrest

/-! ## One step -/

section Step

variable (op : Arithmetic) {m n : Int}

theorem natAbs_exact_lt (hm : inRange m = true) (hn : inRange n = true) :
    (op.exact m n).natAbs < 10 ^ maxDigits := by
  have hm := natAbs_le_of_inRange hm
  have hn := natAbs_le_of_inRange hn
  have hle : (op.exact m n).natAbs ≤ 2 ^ 63 * 2 ^ 63 := by
    cases op with
    | add =>
      have := Int.natAbs_add_le m n
      simp only [exact]
      omega
    | sub =>
      have := Int.natAbs_sub_le m n
      simp only [exact]
      omega
    | mul =>
      rw [exact, Int.natAbs_mul]
      exact Nat.mul_le_mul hm hn
  calc (op.exact m n).natAbs ≤ 2 ^ 63 * 2 ^ 63 := hle
    _ < 10 ^ 38 := by decide
    _ ≤ 10 ^ maxDigits := Nat.pow_le_pow_right (by decide) (by decide)

theorem combine_int_int (hm : inRange m = true) (hn : inRange n = true) :
    op.combine (.int m) (.int n) =
      if inRange (op.exact m n) then .ok (.int (op.exact m n))
      else .error (.overflow (op.exact m n)) := by
  have hlt := natAbs_exact_lt op hm hn
  rw [combine, checkInt, Nat.pow_eq]
  -- the bound is not to be evaluated
  generalize 10 ^ maxDigits = most at *
  rw [if_pos hlt]
  split <;> rfl

theorem negate_int (n : Int) : negate (.int n) = sub.combine (.int 0) (.int n) := by
  rw [negate, combine, exact, Int.zero_sub]

theorem combine_int_real (x : Float) (mark : Nat) (hm : inRange m = true) :
    ∃ y, op.combine (.int m) (.real x mark) = .ok (.real y 0) := by
  obtain ⟨z, hz⟩ := (Operand.int hm).exists_toReal
  refine ⟨op.rounded z x, ?_⟩
  simp only [combine, hz, toReal_real]

theorem combine_real (x : Float) (mark : Nat) {d : Datum} (hd : Operand d) :
    ∃ y, op.combine (.real x mark) d = .ok (.real y 0) := by
  obtain ⟨z, hz⟩ := hd.exists_toReal
  refine ⟨op.rounded x z, ?_⟩
  simp only [combine, hz, toReal_real]

end Step

/-! ## Whole folds -/

namespace Settled

variable {args : List Datum} {running : List Int} {last : List Int → Int}
    {outcome : Except Fault Datum}

theorem cons_result {r : Int} (h : Settled args running last outcome) (hr : inRange r = true) :
    Settled args (r :: running) last outcome := by
  cases h with
  | overflow h => exact .overflow (by rwa [List.find?_cons_of_neg (by simp [hr])])
  | int h ns hargs => exact .int (List.forall_mem_cons.mpr ⟨hr, h⟩) ns hargs
  | real h hx y => exact .real (List.forall_mem_cons.mpr ⟨hr, h⟩) hx y

theorem congr_last {last' : List Int → Int} (h : Settled args running last outcome)
    (hlast : ∀ ns, args = ns.map .int → last' ns = last ns) :
    Settled args running last' outcome := by
  cases h with
  | overflow h => exact .overflow h
  | int h ns hargs =>
    rw [← hlast ns hargs]
    exact .int h ns hargs
  | real h hx y => exact .real h hx y

theorem cons_int {n : Int} {last' : List Int → Int} (h : Settled args running last outcome)
    (hlast : ∀ ns, args = ns.map .int → last' (n :: ns) = last ns) :
    Settled (.int n :: args) running last' outcome := by
  cases h with
  | overflow h => exact .overflow h
  | int h ns hargs =>
    rw [← hlast ns hargs]
    exact .int h (n :: ns) (by rw [hargs, List.map_cons])
  | real h hx y => exact .real h (List.mem_cons_of_mem _ hx) y

end Settled

section Fold

variable (op : Arithmetic) {args : List Datum}

theorem fold_singleton (a b : Datum) : op.fold a [b] = op.combine a b := by
  rw [fold]
  cases op.combine a b <;> rfl

theorem fold_real (x : Float) (hargs : ∀ d ∈ args, Operand d) :
    ∃ y, op.fold (.real x 0) args = .ok (.real y 0) := by
  induction args generalizing x with
  | nil => exact ⟨x, rfl⟩
  | cons d rest ih =>
    obtain ⟨hd, hrest⟩ := List.forall_mem_cons.mp hargs
    obtain ⟨y, hy⟩ := combine_real op x 0 hd
    rw [fold, hy]
    exact ih y hrest

/-- Once a step has given a real, the fold gives one. -/
theorem fold_cons_of_real {a d : Datum} {y : Float} (h : op.combine a d = .ok (.real y 0))
    (hargs : ∀ d ∈ args, Operand d) : ∃ z, op.fold a (d :: args) = .ok (.real z 0) := by
  rw [fold, h]
  exact fold_real op y hargs

theorem settled_fold {start : Int} (hstart : inRange start = true) (hargs : ∀ d ∈ args, Operand d) :
    Settled args (op.results start (leadingInts args)) (·.foldl op.exact start)
      (op.fold (.int start) args) := by
  induction args generalizing start with
  | nil => exact .int (by simp [leadingInts]) [] rfl
  | cons d rest ih =>
    obtain ⟨hd, hrest⟩ := List.forall_mem_cons.mp hargs
    cases hd with
    | @int n hn =>
      rw [leadingInts, results_cons, fold, combine_int_int op hstart hn]
      by_cases hr : inRange (op.exact start n) = true
      · rw [if_pos hr]
        exact ((ih hr hrest).cons_result hr).cons_int fun ns _ => List.foldl_cons ..
      · rw [if_neg hr]
        exact .overflow (List.find?_cons_of_pos (by simpa using hr))
    | real x mark =>
      obtain ⟨y, hy⟩ := combine_int_real op x mark hstart
      obtain ⟨z, hz⟩ := fold_cons_of_real op hy hrest
      rw [hz]
      exact .real (by simp [leadingInts]) List.mem_cons_self z

end Fold

/-! ## The operations -/

section Operation

variable {args : List Datum}

theorem settled_foldChecked (op : Arithmetic) {start : Int} (hstart : inRange start = true)
    (hargs : ∀ d ∈ args, Operand d) :
    Settled args (op.results start (leadingInts args)) (·.foldl op.exact start)
      (op.foldChecked (.int start) args) := by
  rw [foldChecked, checkNumbers_of_isNumber fun d hd => (hargs d hd).isNumber]
  exact settled_fold op hstart hargs

theorem settled_difference (hne : args ≠ []) (hargs : ∀ d ∈ args, Operand d) :
    Settled args (sub.running args) sub.total (Builtin.difference args) := by
  cases args with
  | nil => exact absurd rfl hne
  | cons d rest =>
    obtain ⟨hd, hrest⟩ := List.forall_mem_cons.mp hargs
    rw [Builtin.difference, checkNumbers_of_isNumber fun d hd => (hargs d hd).isNumber]
    dsimp only
    cases hd with
    | @int n hn =>
      cases rest with
      | nil =>
        -- a single integer is taken from zero
        rw [List.isEmpty_nil, if_pos rfl, negate_int, ← fold_singleton]
        refine (settled_fold sub rfl hargs).congr_last fun ns hns => ?_
        obtain rfl : [n] = ns := (List.map_inj_right fun _ _ => Datum.int.inj).mp hns
        exact (Int.zero_sub n).symm
      | cons e rest =>
        refine (settled_fold sub hn hrest).cons_int fun ns hns => ?_
        cases ns with
        | nil => cases hns
        | cons m ns => exact (foldl_sub n (m :: ns)).symm
    | real x mark =>
      cases rest with
      | nil => exact .real (by simp [running]) List.mem_cons_self (-x)
      | cons e rest =>
        obtain ⟨he, hrest⟩ := List.forall_mem_cons.mp hrest
        obtain ⟨y, hy⟩ := combine_real sub x mark he
        obtain ⟨z, hz⟩ := fold_cons_of_real sub hy hrest
        rw [List.isEmpty_cons, if_neg Bool.false_ne_true, hz]
        exact .real (by simp [running]) List.mem_cons_self z

theorem settled_reply (op : Arithmetic) (hne : args ≠ []) (hargs : ∀ d ∈ args, Operand d) :
    ∃ outcome, op.builtin.reply args = .ofExcept outcome ∧
      Settled args (op.running args) op.total outcome := by
  cases op with
  | add =>
    refine ⟨_, rfl, (settled_foldChecked add rfl hargs).congr_last fun ns _ => ?_⟩
    exact List.sum_eq_foldl
  | mul =>
    refine ⟨_, rfl, (settled_foldChecked mul rfl hargs).congr_last fun ns _ => ?_⟩
    exact List.prod_eq_foldl
  | sub => exact ⟨_, rfl, settled_difference hne hargs⟩

/-- Which way a computation ends can be read off its arguments and its running results. -/
theorem Settled.decides {running : List Int} {last : List Int → Int} {outcome : Except Fault Datum}
    (h : Settled args running last outcome) :
    (∀ r, outcome = .error (.overflow r) ↔ running.find? (!inRange ·) = some r) ∧
    ((∀ r ∈ running, inRange r = true) →
      (∀ ns : List Int, args = ns.map .int → outcome = .ok (.int (last ns))) ∧
      ((∃ x mark, .real x mark ∈ args) → ∃ x, outcome = .ok (.real x 0))) := by
  have hnone (h : ∀ r ∈ running, inRange r = true) : running.find? (!inRange ·) = none := by
    rw [List.find?_eq_none]
    intro r hr
    simp [h r hr]
  cases h with
  | overflow h =>
    refine ⟨fun r => ?_, fun hall => ?_⟩
    · rw [h]
      simp
    · rw [hnone hall] at h
      cases h
  | int h ns hargs =>
    refine ⟨fun r => ?_, fun _ => ⟨fun ms hms => ?_, fun ⟨x, mark, hx⟩ => ?_⟩⟩
    · simp [hnone h]
    · rw [hargs] at hms
      rw [(List.map_inj_right fun _ _ => Datum.int.inj).mp hms]
    · rw [hargs] at hx
      simp at hx
  | @real h x mark hx y =>
    refine ⟨fun r => ?_, fun _ => ⟨fun ns hns => ?_, fun _ => ⟨y, rfl⟩⟩⟩
    · simp [hnone h]
    · rw [hns] at hx
      simp at hx

theorem reply_of_not_isNumber (op : Arithmetic) {before after : List Datum} {d : Datum}
    {kind : Kind} (hbefore : ∀ x ∈ before, x.IsNumber) (hd : ¬ d.IsNumber)
    (hkind : d.kind? = some kind) :
    op.builtin.reply (before ++ d :: after) = .fail (.notNumber op.builtin kind) := by
  have hcheck (b : Builtin) := checkNumbers_of_not_isNumber b after hbefore hd hkind
  cases op with
  | add | mul => rw [builtin, Builtin.reply, foldChecked, builtin, hcheck, Reply.ofExcept]
  | sub =>
    rw [builtin, Builtin.reply, Builtin.difference.eq_def, hcheck]
    cases before <;> rfl

end Operation

/-- Arithmetic is exact.  For no arguments there is a neutral result or none; the first argument
that is no number is a fault, whatever the numbers before it would do; and numbers overflow exactly
if a running result before the first real does not fit. -/
theorem reply_exact (op : Arithmetic) (args : List Datum)
    (hfits : ∀ n, .int n ∈ args → inRange n = true) :
    (args = [] → op.builtin.reply args = op.ofNothing) ∧
    (∀ before d after kind, args = before ++ d :: after → (∀ x ∈ before, x.IsNumber) →
      ¬ d.IsNumber →
      d.kind? = some kind → op.builtin.reply args = .fail (.notNumber op.builtin kind)) ∧
    (args ≠ [] → (∀ d ∈ args, d.IsNumber) →
      (∀ r, op.builtin.reply args = .fail (.overflow r) ↔
        (op.running args).find? (!inRange ·) = some r) ∧
      ((∀ r ∈ op.running args, inRange r = true) →
        (∀ ns : List Int, args = ns.map .int → op.builtin.reply args = .give (.int (op.total ns))) ∧
        ((∃ x mark, .real x mark ∈ args) → ∃ x, op.builtin.reply args = .give (.real x 0)))) := by
  refine ⟨?_, ?_, fun hne hargs => ?_⟩
  · rintro rfl
    cases op <;> rfl
  · rintro before d after kind rfl hbefore hd hkind
    exact reply_of_not_isNumber op hbefore hd hkind
  · obtain ⟨outcome, hreply, hsettled⟩ := settled_reply op hne (operands_of_isNumber hargs hfits)
    obtain ⟨hoverflow, hfit⟩ := hsettled.decides
    rw [hreply]
    refine ⟨fun r => ?_, fun hrunning => ⟨fun ns hns => ?_, fun hreal => ?_⟩⟩
    · rw [← hoverflow r]
      cases outcome <;> simp [Reply.ofExcept]
    · rw [(hfit hrunning).1 ns hns, Reply.ofExcept]
    · obtain ⟨x, hx⟩ := (hfit hrunning).2 hreal
      exact ⟨x, by rw [hx, Reply.ofExcept]⟩

/-- The least integer has no negative, but a real can be taken from it.  What is no number is a
fault even if it comes after an overflow. -/
theorem reply_exact_edges :
    Builtin.sub.reply [.int minInt] = .fail (.overflow 9223372036854775808) ∧
    (∃ x, Builtin.sub.reply [.int minInt, .real 1 0] = .give (.real x 0)) ∧
    Builtin.add.reply [.int maxInt, .int 1, .nil] = .fail (.notNumber .add .nil) ∧
    Builtin.mul.reply [.int minInt, .int 1] = .give (.int minInt) := by
  refine ⟨?_, ?_, ?_, ?_⟩
  · have h :=
      (reply_exact sub [.int minInt] (by simp; decide)).2.2 (by simp) (by simp [IsNumber, kind?])
    exact (h.1 9223372036854775808).mpr (by decide)
  · have h :=
      (reply_exact sub [.int minInt, .real 1 0] (by simp; decide)).2.2 (by simp)
        (by simp [IsNumber, kind?])
    exact (h.2 (by simp [running, leadingInts])).2 ⟨1, 0, by simp⟩
  · exact (reply_exact add [.int maxInt, .int 1, .nil] (by simp; decide)).2.1 [.int maxInt, .int 1]
      .nil [] .nil rfl
      (by simp [IsNumber, kind?]) (by simp [IsNumber, kind?]) rfl
  · have h :=
      (reply_exact mul [.int minInt, .int 1] (by simp; decide)).2.2 (by simp)
        (by simp [IsNumber, kind?])
    exact (h.2 (by decide)).1 [minInt, 1] rfl

end Arithmetic

end DynLisp
