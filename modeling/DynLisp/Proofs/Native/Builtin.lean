import DynLisp.Session

/-!
# What natives give

A builtin runs no source text and gives an atom back, whatever it is called with.  Together with the
procedures of the host that is all a session can call (`Session.nativesOf_induction`).
-/

namespace DynLisp

/-- Is the form an atom that stands for itself? -/
def Datum.isLiteral : Datum → Bool
  | .str _ | .int _ | .real _ _ | .bool _ | .nil => true
  | _ => false

/-- The native runs no source text, and what it returns satisfies a condition. -/
def Reply.Gives (P : Datum → Prop) : Reply → Prop
  | .give d => P d
  | .fail _ => True
  | .say _ next => next.Gives P
  | .consult next => ∀ memory, (next memory).Gives P
  | .keep _ next => next.Gives P
  | .run _ _ => False

theorem Datum.isLiteral_of_map {α : Type} {x : Except Fault α} {make : α → Datum} {d : Datum}
    (hmake : ∀ a, (make a).isLiteral = true) (h : x.map make = .ok d) : d.isLiteral = true := by
  cases x with
  | error f => cases h
  | ok a =>
    cases h
    exact hmake a

namespace Arithmetic

theorem isLiteral_of_combine {op : Arithmetic} {a b d : Datum} (h : op.combine a b = .ok d) :
    d.isLiteral = true := by
  unfold combine at h
  split at h
  · exact Datum.isLiteral_of_map (fun _ => rfl) h
  · split at h
    · cases h
    · split at h <;> cases h
      rfl

theorem isLiteral_of_fold {op : Arithmetic} {start d : Datum} {args : List Datum}
    (hs : start.isLiteral = true) (h : op.fold start args = .ok d) : d.isLiteral = true := by
  induction args generalizing start with
  | nil =>
    cases h
    exact hs
  | cons x rest ih =>
    rw [fold] at h
    split at h
    · cases h
    next result hr => exact ih (isLiteral_of_combine hr) h

theorem isLiteral_of_foldChecked {op : Arithmetic} {start d : Datum} {args : List Datum}
    (hs : start.isLiteral = true) (h : op.foldChecked start args = .ok d) : d.isLiteral = true := by
  unfold foldChecked at h
  split at h
  · cases h
  · exact isLiteral_of_fold hs h

theorem isLiteral_of_negate {d n : Datum} (h : negate d = .ok n) : n.isLiteral = true := by
  unfold negate at h
  split at h
  · exact Datum.isLiteral_of_map (fun _ => rfl) h
  · cases h
    rfl
  · cases h

end Arithmetic

namespace Builtin

open Arithmetic

theorem isLiteral_of_difference {args : List Datum} {d : Datum} (h : difference args = .ok d) :
    d.isLiteral = true := by
  unfold difference at h
  split at h
  · cases h
  next x rest =>
    split at h
    · cases h
    · split at h
      · exact isLiteral_of_negate h
      next hrest =>
        -- the first argument may be anything here, but the first difference is a number
        cases rest with
        | nil => exact absurd rfl hrest
        | cons y rest =>
          rw [fold] at h
          split at h
          · cases h
          next hr => exact isLiteral_of_fold (isLiteral_of_combine hr) h

theorem isLiteral_of_equalArguments {args : List Datum} {d : Datum}
    (h : equalArguments args = .ok d) : d.isLiteral = true := by
  unfold equalArguments at h
  split at h
  · cases h
  · exact Datum.isLiteral_of_map (fun _ => rfl) h

theorem isLiteral_of_hexArgument {args : List Datum} {d : Datum} (h : hexArgument args = .ok d) :
    d.isLiteral = true := by
  unfold hexArgument at h
  split at h
  · cases h
    rfl
  · split at h <;> cases h
  · cases h

theorem gives_ofExcept {P : Datum → Prop} {x : Except Fault Datum} (h : ∀ d, x = .ok d → P d) :
    (Reply.ofExcept x).Gives P := by
  cases x with
  | ok d => exact h d rfl
  | error f => trivial

theorem gives_sayAll (args : List Datum) : (sayAll args).Gives (·.isLiteral = true) := by
  induction args with
  | nil => exact rfl
  | cons d rest ih =>
    unfold sayAll
    split
    · exact ih
    · trivial

theorem gives_reply (b : Builtin) (args : List Datum) :
    (b.reply args).Gives (·.isLiteral = true) := by
  cases b with
  | add => exact gives_ofExcept fun _ => isLiteral_of_foldChecked rfl
  | mul => exact gives_ofExcept fun _ => isLiteral_of_foldChecked rfl
  | sub => exact gives_ofExcept fun _ => isLiteral_of_difference
  | equal => exact gives_ofExcept fun _ => isLiteral_of_equalArguments
  | hex => exact gives_ofExcept fun _ => isLiteral_of_hexArgument
  | echo => exact gives_sayAll args

end Builtin

/-- What holds of the builtins and of the host's procedures holds of all that can be called.  A
number that no procedure was registered under stands for one that returns nothing. -/
theorem Session.nativesOf_induction {P : HostProcedure → Prop} {hosted : List HostProcedure}
    (builtin : ∀ b : Builtin, P fun _ args => b.reply args) (host : ∀ p ∈ hosted, P p)
    (nothing : P Stock.nothing) (procedure : Procedure) : P (nativesOf hosted procedure) := by
  cases procedure with
  | builtin b => exact builtin b
  | hosted index =>
    change P (hosted.getD index Stock.nothing)
    rw [List.getD_eq_getElem?_getD]
    cases hp : hosted[index]? with
    | none => exact nothing
    | some p => exact host p (List.mem_of_getElem? hp)

/-- The reply does not depend on where the procedure is called. -/
def HostProcedure.Blind (p : HostProcedure) : Prop :=
  ∀ sight sight' args, p sight args = p sight' args

theorem Session.blind_nativesOf {hosted : List HostProcedure}
    (hh : ∀ p ∈ hosted, HostProcedure.Blind p) (procedure : Procedure) :
    HostProcedure.Blind (nativesOf hosted procedure) :=
  nativesOf_induction (fun _ _ _ _ => rfl) hh (fun _ _ _ => rfl) procedure

end DynLisp
