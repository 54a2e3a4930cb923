/-!
# Insertion-ordered bindings

A list of named values in which a name stands at the place where it was first bound and has the
value it was last bound to.  `insert` keeps the names distinct.
-/

namespace DynLisp

/-- Named values in the order in which the names were first bound. -/
abbrev Assoc (α : Type) := List (String × α)

namespace Assoc

variable {α : Type}

/-- The value bound to a name. -/
def find? : Assoc α → String → Option α
  | [], _ => none
  | (k, v) :: rest, name => if k = name then some v else find? rest name

/-- Binds a name: in place if it is bound already, at the end otherwise. -/
def insert : Assoc α → String → α → Assoc α
  | [], name, value => [(name, value)]
  | (k, v) :: rest, name, value =>
    if k = name then (k, value) :: rest else (k, v) :: insert rest name value

/-- Binds the entries one after another. -/
def ofList (entries : List (String × α)) : Assoc α :=
  entries.foldl (fun m e => insert m e.1 e.2) []

/-- The bound names, in order. -/
def names (m : Assoc α) : List String :=
  m.map (·.1)

@[simp] theorem find?_nil (name : String) : find? ([] : Assoc α) name = none := rfl

@[simp] theorem find?_insert_self (m : Assoc α) (name : String) (value : α) :
    find? (insert m name value) name = some value := by
  induction m with
  | nil => simp [insert, find?]
  | cons e rest ih =>
    obtain ⟨k, v⟩ := e
    by_cases h : k = name <;> simp [insert, find?, h, ih]

theorem find?_insert_of_ne {name other : String} (m : Assoc α) (value : α) (h : other ≠ name) :
    find? (insert m name value) other = find? m other := by
  induction m with
  | nil => simp [insert, find?, Ne.symm h]
  | cons e rest ih =>
    obtain ⟨k, v⟩ := e
    by_cases hk : k = name
    · subst hk; simp [insert, find?, Ne.symm h]
    · by_cases ho : k = other
      · subst ho; simp [insert, find?, h]
      · simp [insert, find?, hk, ho, ih]

/-- A name that was bound keeps its place; a new one comes last. -/
theorem names_insert (m : Assoc α) (name : String) (value : α) :
    names (insert m name value) = if name ∈ names m then names m else names m ++ [name] := by
  induction m with
  | nil => simp [insert, names]
  | cons e rest ih =>
    obtain ⟨k, v⟩ := e
    simp only [names, List.map_cons, insert] at ih ⊢
    by_cases h : k = name
    · simp [h]
    · rw [if_neg h, List.map_cons, ih]
      simp only [List.mem_cons, Ne.symm h, false_or]
      split <;> simp [*]

end Assoc

end DynLisp
