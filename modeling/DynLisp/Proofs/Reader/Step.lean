import DynLisp.Reader.Basic

/-!
# What a token does to the reader

`Gauge.Takes` lists the tokens that the reader accepts in each of its states, with what comes of
them.  A token that is not listed is rejected, so `Gauge.step` is this relation, and facts about the
reader are proved by going through its cases.
-/

namespace DynLisp

/-- The atom that a token stands for. -/
inductive Token.IsAtom (t : Token) : Datum → Prop where
  | literal (h : t.kind = .string ∨ t.kind = .int ∨ t.kind = .real ∨ t.kind = .bool) :
    IsAtom t t.value
  | nil (h : t.kind = .nil) : IsAtom t .nil
  | symbol {name : String} (h : t.kind = .symbol) (hn : t.name? = some name) :
    IsAtom t (.symbol name)

namespace Gauge

/-- The tokens that the reader accepts in a state. -/
inductive Takes (g : Gauge) : ReadState → Token → Verdict → Prop where
  | atom {holes : List Hole} {t : Token} {d : Datum} (h : t.IsAtom d) :
    Takes g (.ready holes) t (fill d holes)
  | openParen {holes : List Hole} {t : Token} (h : t.kind = .openParen)
    (hg : g.opened + holes.length < g.limit) :
    Takes g (.ready holes) t (.shift (.ready (.call [] :: holes)))
  | openBrace {holes : List Hole} {t : Token} (h : t.kind = .openBrace)
    (hg : g.opened + holes.length < g.limit) :
    Takes g (.ready holes) t (.shift (.ready (.brace [] :: holes)))
  | closeCall {taken : List Datum} {holes : List Hole} {t : Token} (h : t.kind = .closeParen) :
    Takes g (.ready (.call taken :: holes)) t (fill (.call 0 taken.reverse) holes)
  | closeList {taken : List Datum} {holes : List Hole} {t : Token} (h : t.kind = .closeBrace) :
    Takes g (.ready (.brace taken :: holes)) t (fill (.listForm taken.reverse) holes)
  | noEntry {holes : List Hole} {t : Token} (h : t.kind = .colon) :
    Takes g (.ready (.brace [] :: holes)) t (.shift (.emptyMap holes))
  | firstColon {key : String} {holes : List Hole} {t : Token} (h : t.kind = .colon) :
    Takes g (.ready (.brace [.symbol key] :: holes)) t (.shift (.ready (.value [] key :: holes)))
  | closeEmpty {holes : List Hole} {t : Token} (h : t.kind = .closeBrace) :
    Takes g (.emptyMap holes) t (fill (.mapForm []) holes)
  | closeMap {entries : Assoc Datum} {holes : List Hole} {t : Token} (h : t.kind = .closeBrace) :
    Takes g (.beforeKey entries holes) t (fill (.mapForm entries) holes)
  | key {entries : Assoc Datum} {holes : List Hole} {t : Token} (h : t.kind = .symbol) :
    Takes g (.beforeKey entries holes) t (.shift (.afterKey entries t.value.plain holes))
  | colon {entries : Assoc Datum} {key : String} {holes : List Hole} {t : Token}
    (h : t.kind = .colon) :
    Takes g (.afterKey entries key holes) t (.shift (.ready (.value entries key :: holes)))

theorem takes_or_reject_start (g : Gauge) (holes : List Hole) (t : Token) :
    g.Takes (.ready holes) t (g.start holes t) ∨
    ∃ cause kept, g.start holes t = .reject cause kept := by
  unfold start push
  split
  case h_1 h => exact .inl (.atom (.literal (.inl h)))
  case h_2 h => exact .inl (.atom (.literal (.inr (.inl h))))
  case h_3 h => exact .inl (.atom (.literal (.inr (.inr (.inl h)))))
  case h_4 h => exact .inl (.atom (.literal (.inr (.inr (.inr h)))))
  case h_5 h => exact .inl (.atom (.nil h))
  case h_6 h =>
    split
    next name hn => exact .inl (.atom (.symbol h hn))
    next => exact .inr ⟨_, _, rfl⟩
  case h_7 h =>
    split
    next => exact .inr ⟨_, _, rfl⟩
    next hg => exact .inl (.openParen h (Int.not_le.mp hg))
  case h_8 h =>
    split
    next => exact .inr ⟨_, _, rfl⟩
    next hg => exact .inl (.openBrace h (Int.not_le.mp hg))
  case h_9 => exact .inr ⟨_, _, rfl⟩

/-- A token is accepted in one of the listed ways, or rejected. -/
theorem takes_or_reject (g : Gauge) (s : ReadState) (t : Token) :
    g.Takes s t (g.step s t) ∨ ∃ cause kept, g.step s t = .reject cause kept := by
  unfold step
  split
  · split
    next h => exact .inl (.closeCall h)
    next => exact takes_or_reject_start g _ t
  · split
    next h => exact .inl (.closeList h)
    next h => exact .inl (.noEntry h)
    next h => exact .inl (.firstColon h)
    next => exact .inr ⟨_, _, rfl⟩
    next => exact .inr ⟨_, _, rfl⟩
    next => exact takes_or_reject_start g _ t
  · exact takes_or_reject_start g _ t
  · split
    next h => exact .inl (.closeEmpty h)
    next => exact .inr ⟨_, _, rfl⟩
  · split
    next h => exact .inl (.closeMap h)
    next h => exact .inl (.key h)
    next => exact .inr ⟨_, _, rfl⟩
  · split
    next h => exact .inl (.colon h)
    next => exact .inr ⟨_, _, rfl⟩

/-- Where a form may start, what is neither a closing bracket nor a colon starts one. -/
theorem step_ready (g : Gauge) (holes : List Hole) {t : Token} (hp : t.kind ≠ .closeParen)
    (hb : t.kind ≠ .closeBrace) (hc : t.kind ≠ .colon) :
    g.step (.ready holes) t = g.start holes t := by
  cases holes with
  | nil => rfl
  | cons hole holes =>
    cases hole with
    | call taken => exact if_neg hp
    | brace taken => simp [step, hc]
    | value entries key => rfl

theorem step_of_takes {g : Gauge} {s : ReadState} {t : Token} {v : Verdict} (h : g.Takes s t v) :
    g.step s t = v := by
  cases h with
  | atom h =>
    cases h with
    | literal h =>
      obtain h | h | h | h := h <;>
        rw [step_ready] <;> simp [start, h]
    | nil h => rw [step_ready] <;> simp [start, h]
    | symbol h hn => rw [step_ready] <;> simp [start, h, hn]
  | openParen h hg => rw [step_ready] <;> simp [start, push, h, Int.not_le.mpr hg]
  | openBrace h hg => rw [step_ready] <;> simp [start, push, h, Int.not_le.mpr hg]
  | _ h => simp [step, h]

end Gauge

end DynLisp
