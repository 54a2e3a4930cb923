import DynLisp.Native.Builtin

/-!
# Faults that can be put into words

Only what a procedure of the host raises may lack words.  Whatever the operations on values and the
builtins fail with can be said (`Builtin.speaks_reply`).
-/

namespace DynLisp

/-- If it fails, there are words for the fault. -/
def Spoken {α : Type} (x : Except Fault α) : Prop := ∀ f, x = .error f → f.isSpoken = true

section Rules

variable {α β : Type}

theorem spoken_ok (a : α) : Spoken (.ok a) := fun _ h => by cases h

theorem spoken_error {f : Fault} (hf : f.isSpoken = true) : Spoken (.error f : Except Fault α) := by
  intro f' h
  cases h
  exact hf

theorem Spoken.map {x : Except Fault α} (h : Spoken x) (g : α → β) : Spoken (x.map g) := by
  cases x with
  | ok a => exact spoken_ok (g a)
  | error f => exact spoken_error (h f rfl)

theorem Spoken.bind {x : Except Fault α} (h : Spoken x) {k : α → Except Fault β}
    (hk : ∀ a, Spoken (k a)) : Spoken (x >>= k) := by
  cases x with
  | ok a => exact hk a
  | error f => exact spoken_error (h f rfl)

end Rules

/-! ## Values -/

namespace Datum

theorem spoken_kindOf (d : Datum) : Spoken d.kindOf := by
  unfold kindOf
  split
  · exact spoken_ok _
  · exact spoken_error rfl

theorem spoken_checkInt (n : Int) : Spoken (checkInt n) := by
  unfold checkInt
  split
  · exact spoken_ok n
  · split <;> exact spoken_error rfl

mutual

theorem spoken_accept : ∀ d : Datum, Spoken d.accept
  | .int n => by
    rw [accept]
    exact (spoken_checkInt n).map _
  | .list items => by
    rw [accept]
    exact (spoken_acceptAll items).map _
  | .map entries => by
    rw [accept]
    exact (spoken_acceptEntries entries).map _
  | .str _ | .real _ _ | .bool _ | .nil | .fn _ _ _ | .native _ _ => spoken_ok _
  | .table _ _ | .symbol _ | .call _ _ | .listForm _ | .mapForm _ | .absent | .array _ _
  | .record _ _ | .quoted _ _ => spoken_error rfl

theorem spoken_acceptAll (items : List Datum) : Spoken (acceptAll items) := by
  cases items with
  | nil => exact spoken_ok []
  | cons d rest =>
    rw [acceptAll]
    split
    next f hf => exact spoken_error (spoken_accept d f hf)
    next =>
      split
      next f hf => exact spoken_error (spoken_acceptAll rest f hf)
      next => exact spoken_ok _

theorem spoken_acceptEntries (entries : List (String × Datum)) :
    Spoken (acceptEntries entries) := by
  cases entries with
  | nil => exact spoken_ok []
  | cons e rest =>
    obtain ⟨key, d⟩ := e
    rw [acceptEntries]
    split
    next f hf => exact spoken_error (spoken_accept d f hf)
    next =>
      split
      next f hf => exact spoken_error (spoken_acceptEntries rest f hf)
      next => exact spoken_ok _

end

theorem spoken_sameKind (a b : Datum) : Spoken (a.sameKind b) :=
  a.spoken_kindOf.bind fun _ => b.spoken_kindOf.bind fun _ => spoken_ok _

mutual

theorem spoken_equal (a b : Datum) : Spoken (a.equal b) := by
  unfold equal
  split
  case h_8 items others =>
    split
    · exact spoken_equalAll items others
    · exact spoken_ok false
  case h_9 entries others =>
    split
    · exact spoken_equalEntries entries others
    · exact spoken_ok false
  case h_10 rows _ others =>
    split
    · exact spoken_equalRows rows others
    · exact spoken_ok false
  case h_13 =>
    split
    · exact spoken_ok true
    · exact spoken_sameKind _ _
  all_goals exact spoken_ok _

theorem spoken_equalAll (items others : List Datum) : Spoken (equalAll items others) := by
  cases items with
  | nil => simpa only [equalAll] using spoken_ok true
  | cons a rest =>
    cases others with
    | nil => simpa only [equalAll] using spoken_ok true
    | cons b others =>
      rw [equalAll]
      split
      · exact spoken_equalAll rest others
      · exact spoken_equal a b

theorem spoken_equalEntries (entries : List (String × Datum)) (others : Assoc Datum) :
    Spoken (equalEntries entries others) := by
  cases entries with
  | nil => simpa only [equalEntries] using spoken_ok true
  | cons e rest =>
    obtain ⟨key, a⟩ := e
    rw [equalEntries]
    split
    · exact spoken_ok false
    next b _ =>
      split
      · exact spoken_equalEntries rest others
      · exact spoken_equal a b

theorem spoken_equalRows (rows : List (Datum × Datum)) (others : List (Datum × Datum)) :
    Spoken (equalRows rows others) := by
  cases rows with
  | nil => simpa only [equalRows] using spoken_ok true
  | cons e rest =>
    obtain ⟨key, a⟩ := e
    rw [equalRows]
    split
    · exact spoken_ok false
    next b _ =>
      split
      · exact spoken_equalRows rest others
      · exact spoken_equal a b

end

mutual

theorem spoken_write (literal : Bool) : ∀ d : Datum, Spoken (d.write literal)
  | .list items => by
    rw [write]
    exact (spoken_writeAll literal items).map _
  | .map [] => spoken_ok _
  | .map (e :: rest) => (spoken_writeEntries literal (e :: rest)).map _
  | .table key rows => by
    rw [write]
    exact (spoken_writeRows literal rows).map _
  | .str _ | .int _ | .real _ _ | .bool _ | .nil | .fn _ _ _ | .native _ _ => spoken_ok _
  | .symbol _ | .call _ _ | .listForm _ | .mapForm _ | .absent | .array _ _ | .record _ _
  | .quoted _ _ => spoken_error rfl

theorem spoken_writeAll (literal : Bool) (items : List Datum) :
    Spoken (writeAll literal items) := by
  cases items with
  | nil => exact spoken_ok ""
  | cons d rest =>
    rw [writeAll]
    split
    next f hf => exact spoken_error (spoken_write literal d f hf)
    next => exact (spoken_writeAll literal rest).map _

theorem spoken_writeEntries (literal : Bool) (entries : List (String × Datum)) :
    Spoken (writeEntries literal entries) := by
  cases entries with
  | nil => exact spoken_ok ""
  | cons e rest =>
    obtain ⟨key, d⟩ := e
    rw [writeEntries]
    split
    next f hf => exact spoken_error (spoken_write literal d f hf)
    next => exact (spoken_writeEntries literal rest).map _

theorem spoken_writeRows (literal : Bool) (rows : List (Datum × Datum)) :
    Spoken (writeRows literal rows) := by
  cases rows with
  | nil => exact spoken_ok ""
  | cons e rest =>
    obtain ⟨key, d⟩ := e
    rw [writeRows]
    split
    next f hf => exact spoken_error (spoken_write literal d f hf)
    next => exact (spoken_writeRows literal rest).map _

end

end Datum

/-! ## Builtins -/

namespace Arithmetic

theorem spoken_toReal (d : Datum) : Spoken (toReal d) := by
  unfold toReal
  split
  · unfold realOfInt
    extract_lets x
    split
    · exact spoken_error rfl
    · exact spoken_ok _
  · exact spoken_ok _
  · exact spoken_error rfl

theorem spoken_combine (op : Arithmetic) (a b : Datum) : Spoken (op.combine a b) := by
  unfold combine
  split
  · exact (Datum.spoken_checkInt _).map _
  · split
    next f hf => exact spoken_error (spoken_toReal a f hf)
    next =>
      split
      next f hf => exact spoken_error (spoken_toReal b f hf)
      next => exact spoken_ok _

theorem spoken_fold (op : Arithmetic) (start : Datum) (args : List Datum) :
    Spoken (op.fold start args) := by
  induction args generalizing start with
  | nil => exact spoken_ok start
  | cons x rest ih =>
    rw [fold]
    split
    next f hf => exact spoken_error (spoken_combine op start x f hf)
    next result _ => exact ih result

theorem spoken_checkNumbers (b : Builtin) (args : List Datum) : Spoken (checkNumbers b args) := by
  induction args with
  | nil => exact spoken_ok ()
  | cons x rest ih =>
    rw [checkNumbers]
    split
    next f hf => exact spoken_error (x.spoken_kindOf f hf)
    next => exact ih
    next => exact ih
    next => exact spoken_error rfl

theorem spoken_foldChecked (op : Arithmetic) (start : Datum) (args : List Datum) :
    Spoken (op.foldChecked start args) := by
  unfold foldChecked
  split
  next f hf => exact spoken_error (spoken_checkNumbers op.builtin args f hf)
  next => exact spoken_fold op start args

theorem spoken_negate (d : Datum) : Spoken (negate d) := by
  unfold negate
  split
  · exact (Datum.spoken_checkInt _).map _
  · exact spoken_ok _
  · exact spoken_error rfl

end Arithmetic

/-- There are words for whatever the native fails with, provided that there are words for the faults
of the source texts that it runs. -/
def Reply.Speaks : Reply → Prop
  | .give _ => True
  | .fail f => f.isSpoken = true
  | .say _ next => next.Speaks
  | .consult next => ∀ memory, (next memory).Speaks
  | .keep _ next => next.Speaks
  | .run _ next =>
    (∀ values, (next (.ok values)).Speaks) ∧ ∀ f, f.isSpoken = true → (next (.error f)).Speaks

/-- The procedure raises only what can be put into words. -/
def HostProcedure.Speaks (p : HostProcedure) : Prop := ∀ sight args, (p sight args).Speaks

theorem speaks_ofExcept {x : Except Fault Datum} (h : Spoken x) : (Reply.ofExcept x).Speaks := by
  cases x with
  | ok d => trivial
  | error f => exact h f rfl

namespace Builtin

open Arithmetic

theorem spoken_difference (args : List Datum) : Spoken (difference args) := by
  unfold difference
  split
  · exact spoken_error rfl
  · split
    next f hf => exact spoken_error (spoken_checkNumbers .sub _ f hf)
    next =>
      split
      · exact spoken_negate _
      · exact spoken_fold .sub _ _

theorem spoken_equalArguments (args : List Datum) : Spoken (equalArguments args) := by
  have compared (first : Datum) : ∀ rest, Spoken (allEqual first rest) := by
    intro rest
    induction rest with
    | nil => exact spoken_ok true
    | cons d rest ih =>
      rw [allEqual]
      split
      · exact ih
      · exact first.spoken_equal d
  cases args with
  | nil => exact spoken_error rfl
  | cons first rest => exact (compared first rest).map _

theorem spoken_hexArgument (args : List Datum) : Spoken (hexArgument args) := by
  unfold hexArgument
  split
  · exact spoken_ok _
  next d _ =>
    split
    next f hf => exact spoken_error (d.spoken_kindOf f hf)
    next => exact spoken_error rfl
  · exact spoken_error rfl

theorem speaks_sayAll (args : List Datum) : (sayAll args).Speaks := by
  induction args with
  | nil => trivial
  | cons d rest ih =>
    rw [sayAll]
    split
    next => exact ih
    next f hf => exact d.spoken_write false f hf

theorem speaks_reply (b : Builtin) (args : List Datum) : (b.reply args).Speaks := by
  cases b with
  | add => exact speaks_ofExcept (spoken_foldChecked .add _ args)
  | mul => exact speaks_ofExcept (spoken_foldChecked .mul _ args)
  | sub => exact speaks_ofExcept (spoken_difference args)
  | equal => exact speaks_ofExcept (spoken_equalArguments args)
  | hex => exact speaks_ofExcept (spoken_hexArgument args)
  | echo => exact speaks_sayAll args

end Builtin

end DynLisp
