import Mathlib.Data.List.Induction
import Mathlib.Data.List.Nodup
import DynLisp.Assoc

/-!
# Bindings made one after another

What holds of every value that is bound holds of every value in the bindings, and binding entries
one after another leaves each name at its first place with its last value (`ofList_eq_merged`).
-/

namespace DynLisp

namespace Assoc

variable {α : Type} {P : α → Prop}

theorem forall_mem_insert {m : Assoc α} {name : String} {value : α} (hm : ∀ e ∈ m, P e.2)
    (hv : P value) : ∀ e ∈ insert m name value, P e.2 := by
  induction m with
  | nil => simpa [insert] using hv
  | cons e rest ih =>
    obtain ⟨k, v⟩ := e
    obtain ⟨hfirst, hrest⟩ := List.forall_mem_cons.mp hm
    rw [insert]
    split
    · exact List.forall_mem_cons.mpr ⟨hv, hrest⟩
    · exact List.forall_mem_cons.mpr ⟨hfirst, ih hrest⟩

theorem find?_insert (m : Assoc α) (name other : String) (value : α) :
    find? (insert m name value) other = if other = name then some value else find? m other := by
  split
  next h => rw [h, find?_insert_self]
  next h => exact find?_insert_of_ne m value h

theorem mem_of_find?_eq_some {m : Assoc α} {name : String} {value : α}
    (h : find? m name = some value) : (name, value) ∈ m := by
  induction m with
  | nil => simp at h
  | cons e rest ih =>
    obtain ⟨k, v⟩ := e
    rw [find?] at h
    split at h
    · simp_all
    · exact List.mem_cons_of_mem _ (ih h)

theorem isSome_find? (m : Assoc α) (name : String) :
    (find? m name).isSome = true ↔ name ∈ names m := by
  induction m with
  | nil => simp [names]
  | cons e rest ih =>
    by_cases h : e.1 = name
    · simp [find?, names, h]
    · simpa [find?, names, h, Ne.symm h] using ih

theorem mem_names_of_find? {m : Assoc α} {name : String} {value : α}
    (h : find? m name = some value) : name ∈ names m :=
  (isSome_find? m name).mp (Option.isSome_iff_exists.mpr ⟨value, h⟩)

theorem exists_find?_of_mem_names {m : Assoc α} {name : String} (h : name ∈ names m) :
    ∃ value, find? m name = some value :=
  Option.isSome_iff_exists.mp ((isSome_find? m name).mpr h)

/-- Among distinct names, an entry is what its name means. -/
theorem find?_of_mem {m : Assoc α} (h : (names m).Nodup) {e : String × α} (he : e ∈ m) :
    find? m e.1 = some e.2 := by
  induction m with
  | nil => cases he
  | cons e' rest ih =>
    obtain ⟨hk, hrest⟩ := List.nodup_cons.mp (show (e'.1 :: names rest).Nodup from h)
    rw [find?]
    rcases List.mem_cons.mp he with rfl | he
    · exact if_pos rfl
    · have hne : e'.1 ≠ e.1 := fun heq => hk (heq ▸ List.mem_map_of_mem he)
      rw [if_neg hne, ih hrest he]

theorem find?_eq_of_perm {m m' : Assoc α} (h : m.Perm m') (hn : (names m).Nodup) (name : String) :
    find? m name = find? m' name := by
  have hn' : (names m').Nodup := (h.map Prod.fst).nodup_iff.mp hn
  refine Option.ext fun value => ⟨fun hv => ?_, fun hv => ?_⟩
  · exact find?_of_mem hn' (h.mem_iff.mp (mem_of_find?_eq_some hv))
  · exact find?_of_mem hn (h.mem_iff.mpr (mem_of_find?_eq_some hv))

/-! ## Entries with repeated names -/

/-- Each name once, at its first place and with its last value. -/
def merged (es : List (String × α)) : Assoc α :=
  (names es).eraseDups.filterMap fun name => (find? es.reverse name).map (name, ·)

theorem ofList_append_singleton (es : List (String × α)) (e : String × α) :
    ofList (es ++ [e]) = insert (ofList es) e.1 e.2 := by
  simp [ofList]

theorem nodup_names_insert {m : Assoc α} (h : (names m).Nodup) (name : String) (value : α) :
    (names (insert m name value)).Nodup := by
  rw [names_insert]
  split
  · exact h
  next hn =>
    refine List.nodup_append.mpr ⟨h, List.nodup_singleton _, fun other ho _ he => ?_⟩
    rw [List.mem_singleton.mp he]
    rintro rfl
    exact hn ho

theorem nodup_names_ofList (es : List (String × α)) : (names (ofList es)).Nodup := by
  induction es using List.reverseRecOn with
  | nil => exact List.nodup_nil
  | append_singleton es e ih =>
    rw [ofList_append_singleton]
    exact nodup_names_insert ih e.1 e.2

theorem names_ofList (es : List (String × α)) : names (ofList es) = (names es).eraseDups := by
  induction es using List.reverseRecOn with
  | nil => rfl
  | append_singleton es e ih =>
    have hmem : e.1 ∈ (names es).eraseDups ↔ e.1 ∈ names es := List.mem_eraseDups
    have hnames : names (es ++ [e]) = names es ++ [e.1] := by simp [names]
    rw [ofList_append_singleton, names_insert, ih, hnames, List.eraseDups_append]
    by_cases h : e.1 ∈ names es
    · simp [hmem, h, List.removeAll]
    · simp [hmem, h, List.removeAll, List.eraseDups_cons]

theorem find?_ofList (es : List (String × α)) (name : String) :
    find? (ofList es) name = find? es.reverse name := by
  induction es using List.reverseRecOn with
  | nil => rfl
  | append_singleton es e ih =>
    rw [ofList_append_singleton, List.reverse_append]
    change _ = find? (e :: es.reverse) name
    rw [find?]
    by_cases h : e.1 = name
    · subst h
      simp
    · rw [find?_insert_of_ne _ _ (Ne.symm h), if_neg h, ih]

/-- Bindings with distinct names are known by their names and by what each name means. -/
theorem eq_filterMap_find? {m : Assoc α} (h : (names m).Nodup) :
    (names m).filterMap (fun name => (find? m name).map (name, ·)) = m := by
  induction m with
  | nil => rfl
  | cons e rest ih =>
    obtain ⟨k, v⟩ := e
    obtain ⟨hk, hrest⟩ := List.nodup_cons.mp (show (k :: names rest).Nodup from h)
    have : (names rest).filterMap (fun name => (find? ((k, v) :: rest) name).map (name, ·)) =
        (names rest).filterMap (fun name => (find? rest name).map (name, ·)) := by
      refine List.filterMap_congr fun name hname => ?_
      have hne : k ≠ name := fun h => hk (h ▸ hname)
      rw [find?, if_neg hne]
    change List.filterMap _ (k :: names rest) = _
    rw [List.filterMap_cons, this, ih hrest]
    simp [find?]

theorem mem_of_mem_ofList {es : List (String × α)} {e : String × α} (h : e ∈ ofList es) :
    e ∈ es := by
  have hfind := find?_of_mem (nodup_names_ofList es) h
  rw [find?_ofList] at hfind
  exact List.mem_reverse.mp (mem_of_find?_eq_some hfind)

theorem forall_mem_ofList {es : List (String × α)} (h : ∀ e ∈ es, P e.2) : ∀ e ∈ ofList es, P e.2 :=
  fun e he => h e (mem_of_mem_ofList he)

/-- A name has the value of its last entry. -/
theorem find?_ofList_of_last {before after : List (String × α)} {name : String}
    (h : name ∉ names after) (value : α) :
    find? (ofList (before ++ (name, value) :: after)) name = some value := by
  induction after using List.reverseRecOn with
  | nil => rw [ofList_append_singleton, find?_insert_self]
  | append_singleton after e ih =>
    rw [names, List.map_append, List.mem_append, not_or] at h
    have hne : name ≠ e.1 := fun heq => h.2 (by simp [heq])
    rw [← List.cons_append, ← List.append_assoc, ofList_append_singleton,
      find?_insert_of_ne _ _ hne, ih h.1]

theorem names_map {β : Type} (f : α → β) (es : List (String × α)) :
    names (es.map (Prod.map id f)) = names es := by
  simp [names]

theorem insert_map {β : Type} (f : α → β) (m : Assoc α) (name : String) (value : α) :
    insert (m.map (Prod.map id f)) name (f value) = (insert m name value).map (Prod.map id f) := by
  induction m with
  | nil => rfl
  | cons e rest ih =>
    obtain ⟨k, v⟩ := e
    rw [List.map_cons, Prod.map_apply, insert, insert, ih, id]
    split <;> rfl

/-- Values may be changed before or after repeated names are merged. -/
theorem ofList_map {β : Type} (f : α → β) (es : List (String × α)) :
    ofList (es.map (Prod.map id f)) = (ofList es).map (Prod.map id f) := by
  induction es using List.reverseRecOn with
  | nil => rfl
  | append_singleton es e ih =>
    rw [List.map_append, List.map_singleton, ofList_append_singleton, ofList_append_singleton, ih]
    exact insert_map f _ e.1 e.2

theorem ofList_eq_merged (es : List (String × α)) : ofList es = merged es := by
  rw [← eq_filterMap_find? (nodup_names_ofList es), names_ofList]
  simp only [find?_ofList, merged]

theorem insert_of_not_mem {m : Assoc α} {name : String} (h : name ∉ names m) (value : α) :
    insert m name value = m ++ [(name, value)] := by
  induction m with
  | nil => rfl
  | cons e rest ih =>
    obtain ⟨k, v⟩ := e
    obtain ⟨hk, hrest⟩ := not_or.mp (mt List.mem_cons.mpr h)
    rw [insert, if_neg (Ne.symm hk), ih hrest, List.cons_append]

/-- Entries with distinct names stay as they are. -/
theorem ofList_of_nodup {es : List (String × α)} (h : (names es).Nodup) : ofList es = es := by
  induction es using List.reverseRecOn with
  | nil => rfl
  | append_singleton es e ih =>
    rw [names, List.map_append, List.nodup_append] at h
    have hnew : e.1 ∉ names es := fun he => h.2.2 e.1 he e.1 (by simp) rfl
    rw [ofList_append_singleton, ih h.1, insert_of_not_mem hnew]

end Assoc

end DynLisp
