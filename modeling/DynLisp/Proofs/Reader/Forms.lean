import DynLisp.Proofs.Assoc
import DynLisp.Proofs.Datum.Sound
import DynLisp.Proofs.Reader.Step

/-!
# The reader makes forms

Everything that is read from a text is a form with its integers in range, also what is read before a
fault.  The lexer sees to the atoms; the reader puts forms together from forms, whatever state it is
in.
-/

namespace DynLisp

/-! ## Tokens -/

/-- The atom that the token stands for, if any, is a form. -/
def Token.OfForm (t : Token) : Prop :=
  ∀ d, t.IsAtom d → d.IsForm

theorem Token.ofForm_of_isForm {t : Token} (h : t.value.IsForm) : t.OfForm := by
  intro d hd
  cases hd with
  | literal => exact h
  | nil => exact .nil
  | symbol => exact .symbol _

theorem Number.ofForm_of_intToken {line : Int} {run : List Char} {n : Nat} {t : Token}
    (h : intToken line run n = .ok t) : t.OfForm := by
  unfold intToken at h
  split at h
  next hr =>
    cases h
    exact Token.ofForm_of_isForm (.int hr)
  next => cases h

theorem Number.ofForm_of_token {line : Int} {run : List Char} {t : Token}
    (h : token line run = .ok t) : t.OfForm := by
  unfold token at h
  split at h
  · split at h
    · cases h
    · split at h
      · exact ofForm_of_intToken h
      · cases h
  · split at h
    · split at h
      · cases h
      · exact ofForm_of_intToken h
    · split at h
      · cases h
        exact Token.ofForm_of_isForm (.real _ _)
      · cases h

namespace Lexer

theorem ofForm_of_reserved? {word : String} {kind : TokenKind} {value : Datum}
    (h : reserved? word = some (kind, value)) (line : Int) : Token.OfForm ⟨kind, value, line⟩ := by
  unfold reserved? at h
  split at h
  · cases h
    exact Token.ofForm_of_isForm (.bool true)
  · cases h
    exact Token.ofForm_of_isForm (.bool false)
  · cases h
    rintro d (h | h | ⟨h, -⟩)
    · simp at h
    · exact .nil
    · cases h
  · cases h

theorem ofForm_of_wordToken {line : Int} {run : List Char} {t : Token}
    (h : wordToken line run = .ok t) : t.OfForm := by
  unfold wordToken at h
  split at h
  · exact Number.ofForm_of_token h
  · split at h
    next hr =>
      cases h
      exact ofForm_of_reserved? hr line
    next =>
      cases h
      exact Token.ofForm_of_isForm (.str _)

theorem ofForm_of_runToken {line : Int} {run : List Char} {t : Token}
    (h : runToken line run = .ok t) : t.OfForm := by
  unfold runToken at h
  split at h
  · cases h
  · exact ofForm_of_wordToken h

theorem ofForm_of_lexFrom (line : Int) (cs : List Char) :
    ∀ t ∈ (lexFrom line cs).tokens, t.OfForm := by
  fun_induction lexFrom line cs with
  | case1 => exact List.forall_mem_nil _
  | case2 | case3 | case4 => assumption
  | case5 line c rest _ _ _ kind _ ih =>
    exact List.forall_mem_cons.mpr ⟨Token.ofForm_of_isForm (.str _), ih⟩
  | case6 line rest _ _ _ _ text last after _ ih =>
    exact List.forall_mem_cons.mpr ⟨Token.ofForm_of_isForm (.str _), ih⟩
  | case8 line c rest _ _ _ _ _ t ht ih =>
    exact List.forall_mem_cons.mpr ⟨ofForm_of_runToken ht, ih⟩
  | case7 | case9 => exact List.forall_mem_nil _

end Lexer

/-! ## States of the reader -/

/-- All that the open bracket has taken are forms. -/
def Hole.OfForms : Hole → Prop
  | .call taken => ∀ d ∈ taken, d.IsForm
  | .brace taken => ∀ d ∈ taken, d.IsForm
  | .value entries _ => ∀ e ∈ entries, e.2.IsForm

/-- All that the reader has taken are forms. -/
def ReadState.OfForms : ReadState → Prop
  | .ready holes => ∀ hole ∈ holes, hole.OfForms
  | .emptyMap holes => ∀ hole ∈ holes, hole.OfForms
  | .beforeKey entries holes => (∀ e ∈ entries, e.2.IsForm) ∧ ∀ hole ∈ holes, hole.OfForms
  | .afterKey entries _ holes => (∀ e ∈ entries, e.2.IsForm) ∧ ∀ hole ∈ holes, hole.OfForms

/-- What comes of a token are forms. -/
def Verdict.OfForms : Verdict → Prop
  | .shift s => s.OfForms
  | .complete d => d.IsForm
  | .reject _ _ => True

theorem ofForms_fill {d : Datum} (hd : d.IsForm) {holes : List Hole}
    (h : ∀ hole ∈ holes, hole.OfForms) : (fill d holes).OfForms := by
  cases holes with
  | nil => exact hd
  | cons hole holes =>
    obtain ⟨hole_of, holes_of⟩ := List.forall_mem_cons.mp h
    cases hole with
    | call taken =>
      exact List.forall_mem_cons.mpr ⟨List.forall_mem_cons.mpr ⟨hd, hole_of⟩, holes_of⟩
    | brace taken =>
      exact List.forall_mem_cons.mpr ⟨List.forall_mem_cons.mpr ⟨hd, hole_of⟩, holes_of⟩
    | value entries key =>
      exact ⟨Assoc.forall_mem_insert hole_of hd, holes_of⟩

theorem Gauge.Takes.ofForms {g : Gauge} {s : ReadState} {t : Token} {v : Verdict}
    (h : g.Takes s t v) (ht : t.OfForm) (hs : s.OfForms) : v.OfForms := by
  cases h with
  | atom h => exact ofForms_fill (ht _ h) hs
  | openParen => exact List.forall_mem_cons.mpr ⟨by simp [Hole.OfForms], hs⟩
  | openBrace => exact List.forall_mem_cons.mpr ⟨by simp [Hole.OfForms], hs⟩
  | closeCall =>
    obtain ⟨taken, holes⟩ := List.forall_mem_cons.mp hs
    exact ofForms_fill (.call fun d hd => taken d (List.mem_reverse.mp hd)) holes
  | closeList =>
    obtain ⟨taken, holes⟩ := List.forall_mem_cons.mp hs
    exact ofForms_fill (.listForm fun d hd => taken d (List.mem_reverse.mp hd)) holes
  | noEntry => exact (List.forall_mem_cons.mp hs).2
  | firstColon =>
    exact List.forall_mem_cons.mpr ⟨by simp [Hole.OfForms], (List.forall_mem_cons.mp hs).2⟩
  | closeEmpty => exact ofForms_fill (.mapForm (by simp)) hs
  | closeMap => exact ofForms_fill (.mapForm hs.1) hs.2
  | key => exact hs
  | colon => exact List.forall_mem_cons.mpr hs

theorem Gauge.ofForms_step (g : Gauge) {s : ReadState} {t : Token} (ht : t.OfForm)
    (hs : s.OfForms) : (g.step s t).OfForms := by
  obtain h | ⟨cause, kept, h⟩ := g.takes_or_reject s t
  · exact h.ofForms ht hs
  · rw [h]
    trivial

theorem Gauge.isForm_of_readFrom (g : Gauge) (failure : Option Fault) {ts : List Token}
    (hts : ∀ t ∈ ts, t.OfForm) {s : ReadState} (hs : s.OfForms) :
    ∀ d ∈ (g.readFrom failure s ts).forms, d.IsForm := by
  induction ts generalizing s with
  | nil =>
    have : (s.finish failure).forms = [] := by
      unfold ReadState.finish
      split <;> rfl
    rw [readFrom, this]
    exact List.forall_mem_nil _
  | cons t ts ih =>
    obtain ⟨ht, hts⟩ := List.forall_mem_cons.mp hts
    have hv := g.ofForms_step ht hs
    rw [readFrom]
    split
    next s' h =>
      rw [h] at hv
      exact ih hts hv
    next d h =>
      rw [h] at hv
      exact List.forall_mem_cons.mpr ⟨hv, ih hts (List.forall_mem_nil _)⟩
    next => exact List.forall_mem_nil _

/-- All forms of a source text are forms with integers in range. -/
theorem isForm_of_read (source : String) : ∀ d ∈ (read source).forms, d.IsForm :=
  Gauge.isForm_of_readFrom _ _ (Lexer.ofForm_of_lexFrom 1 source.toList) (List.forall_mem_nil _)

end DynLisp
