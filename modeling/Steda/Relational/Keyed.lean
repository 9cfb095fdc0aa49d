import Mathlib.Data.List.Nodup

/-!
# Lists of keyed rows

A table is a list of rows in insertion order.  `find` looks a row up by its
key, `replace` writes a new version of the row with the same key, and `select`
keeps the rows whose column has a given value.
-/

namespace Relational

variable {ρ κ γ : Type} [DecidableEq κ] [DecidableEq γ] {key : ρ → κ} {column : ρ → γ}

/-- The first row with a key. -/
def find (key : ρ → κ) (wanted : κ) (rows : List ρ) : Option ρ :=
  rows.find? fun row => decide (key row = wanted)

/-- Write a new version of the row with the same key. -/
def replace (key : ρ → κ) (row : ρ) (rows : List ρ) : List ρ :=
  rows.map fun old => if key old = key row then row else old

/-- The rows with a column value. -/
def select (column : ρ → γ) (wanted : γ) (rows : List ρ) : List ρ :=
  rows.filter fun row => decide (column row = wanted)

/-! ## Lookup -/

@[simp] theorem find_nil (wanted : κ) : find key wanted [] = none := rfl

theorem find_cons_eq {wanted : κ} {row : ρ} {rows : List ρ} (equal : key row = wanted) :
    find key wanted (row :: rows) = some row := by
  simp [find, equal]

theorem find_cons_ne {wanted : κ} {row : ρ} {rows : List ρ} (different : key row ≠ wanted) :
    find key wanted (row :: rows) = find key wanted rows := by
  simp [find, different]

theorem mem_of_find {wanted : κ} {rows : List ρ} {row : ρ}
    (found : find key wanted rows = some row) : row ∈ rows :=
  List.mem_of_find?_eq_some found

theorem key_of_find {wanted : κ} {rows : List ρ} {row : ρ}
    (found : find key wanted rows = some row) : key row = wanted := by
  have matched := List.find?_some found
  simpa using matched

theorem find_eq_none {wanted : κ} {rows : List ρ} :
    find key wanted rows = none ↔ ∀ row ∈ rows, key row ≠ wanted := by
  simp [find, List.find?_eq_none]

theorem isSome_find (wanted : κ) (rows : List ρ) :
    (find key wanted rows).isSome = rows.any fun row => key row == wanted := by
  rw [Bool.eq_iff_iff]
  simp [find, List.find?_isSome]

theorem find_of_mem {rows : List ρ} {row : ρ}
    (distinct : (rows.map key).Nodup) (member : row ∈ rows) :
    find key (key row) rows = some row := by
  induction rows with
  | nil => cases member
  | cons first rest inductionHypothesis =>
      rw [List.map_cons, List.nodup_cons] at distinct
      rcases List.mem_cons.mp member with equal | inRest
      · rw [equal]
        exact find_cons_eq rfl
      · have different : key first ≠ key row := by
          intro equal
          exact distinct.1 (equal ▸ List.mem_map_of_mem inRest)
        rw [find_cons_ne different]
        exact inductionHypothesis distinct.2 inRest

theorem find_append (wanted : κ) (first second : List ρ) :
    find key wanted (first ++ second) =
      (find key wanted first).or (find key wanted second) := by
  simp [find, List.find?_append]

theorem find_singleton (wanted : κ) (row : ρ) :
    find key wanted [row] = if key row = wanted then some row else none := by
  by_cases equal : key row = wanted
  · rw [find_cons_eq equal, if_pos equal]
  · rw [find_cons_ne equal, if_neg equal, find_nil]

theorem find_filter_of_imp {rows : List ρ} {wanted : κ} {keeps : ρ → Bool}
    (kept : ∀ row, key row = wanted → keeps row) :
    find key wanted (rows.filter keeps) = find key wanted rows := by
  induction rows with
  | nil => rfl
  | cons first rest inductionHypothesis =>
      by_cases equal : key first = wanted
      · rw [List.filter_cons_of_pos (kept first equal), find_cons_eq equal, find_cons_eq equal]
      · rw [find_cons_ne equal, ← inductionHypothesis]
        by_cases keepsFirst : keeps first
        · rw [List.filter_cons_of_pos keepsFirst, find_cons_ne equal]
        · rw [List.filter_cons_of_neg keepsFirst]

/-- A change of the rows that keeps their keys. -/
theorem find_map {change : ρ → ρ} (keeps : ∀ row, key (change row) = key row) (wanted : κ)
    (rows : List ρ) : find key wanted (rows.map change) = (find key wanted rows).map change := by
  unfold find
  rw [List.find?_map]
  simp only [Function.comp_def, keeps]

/-! ## Replacement -/

/-- A replacement keeps every column in which the old version agrees with the
new one. -/
theorem map_replace_of_agree {δ : Type} {value : ρ → δ} {row : ρ} {rows : List ρ}
    (agree : ∀ old ∈ rows, key old = key row → value old = value row) :
    (replace key row rows).map value = rows.map value := by
  simp only [replace, List.map_map]
  apply List.map_congr_left
  intro old member
  by_cases same : key old = key row
  · simp [same, agree old member same]
  · simp [same]

theorem mem_replace {row candidate : ρ} {rows : List ρ}
    (member : candidate ∈ replace key row rows) :
    candidate = row ∨ candidate ∈ rows := by
  obtain ⟨old, oldMember, replaced⟩ := List.mem_map.mp member
  by_cases same : key old = key row
  · left
    rw [← replaced, if_pos same]
  · right
    rw [← replaced, if_neg same]
    exact oldMember

/-- Lookup by a column that the key of the replaced row determines. -/
theorem find_replace {wanted : γ} (row : ρ) (rows : List ρ)
    (determined : ∀ old, key old = key row → column old = column row) :
    find column wanted (replace key row rows) =
      (find column wanted rows).map fun old => if key old = key row then row else old := by
  induction rows with
  | nil => rfl
  | cons first rest inductionHypothesis =>
      have kept : column (if key first = key row then row else first) = column first := by
        by_cases same : key first = key row
        · rw [if_pos same, determined first same]
        · rw [if_neg same]
      change find column wanted
        ((if key first = key row then row else first) :: replace key row rest) = _
      by_cases equal : column first = wanted
      · rw [find_cons_eq (kept.trans equal), find_cons_eq equal, Option.map_some]
      · rw [find_cons_ne (kept ▸ equal), find_cons_ne equal]
        exact inductionHypothesis

/-- Replacing twice under the same key is replacing once. -/
theorem replace_replace {first second : ρ} (same : key first = key second) (rows : List ρ) :
    replace key second (replace key first rows) = replace key second rows := by
  unfold replace
  rw [List.map_map]
  apply List.map_congr_left
  intro old _
  by_cases held : key old = key first
  · simp [held, same]
  · simp [held]

theorem replace_of_not_mem {row : ρ} {rows : List ρ}
    (absent : ∀ old ∈ rows, key old ≠ key row) : replace key row rows = rows := by
  unfold replace
  conv_rhs => rw [← List.map_id rows]
  apply List.map_congr_left
  intro old member
  rw [if_neg (absent old member), id]

/-- Replacing the last row of a list. -/
theorem replace_append_last {row old : ρ} {rows : List ρ}
    (same : key old = key row) (absent : ∀ other ∈ rows, key other ≠ key row) :
    replace key row (rows ++ [old]) = rows ++ [row] := by
  have unchanged := replace_of_not_mem absent
  unfold replace at unchanged ⊢
  rw [List.map_append, unchanged]
  simp [same]

/-! ## Selection -/

theorem mem_select {wanted : γ} {rows : List ρ} {row : ρ} :
    row ∈ select column wanted rows ↔ row ∈ rows ∧ column row = wanted := by
  simp [select]

/-- A unique key selects its row. -/
theorem select_of_mem {rows : List ρ} {row : ρ} (distinct : (rows.map key).Nodup)
    (member : row ∈ rows) : select key (key row) rows = [row] := by
  induction rows with
  | nil => cases member
  | cons head rest inductionHypothesis =>
      obtain ⟨absent, distinctRest⟩ := List.nodup_cons.mp distinct
      unfold select at inductionHypothesis ⊢
      rcases List.mem_cons.mp member with isHead | inRest
      · subst isHead
        rw [List.filter_cons_of_pos (by simp), List.cons_inj_right, List.filter_eq_nil_iff]
        intro other inRest same
        exact absent (List.mem_map.mpr ⟨other, inRest, by simpa using same⟩)
      · have different : key head ≠ key row := fun same =>
          absent (same ▸ List.mem_map_of_mem inRest)
        rw [List.filter_cons_of_neg (by simpa using different)]
        exact inductionHypothesis distinctRest inRest

theorem select_append (wanted : γ) (first second : List ρ) :
    select column wanted (first ++ second) =
      select column wanted first ++ select column wanted second := by
  simp [select]

/-- A replacement inside one group replaces the row in that group. -/
theorem select_replace (row : ρ) (rows : List ρ) (wanted : γ)
    (determined : ∀ old, key old = key row → column old = column row) :
    select column wanted (replace key row rows) =
      replace key row (select column wanted rows) := by
  unfold select replace
  rw [List.filter_map]
  congr 1
  apply List.filter_congr
  intro old _
  by_cases same : key old = key row
  · simp [same, determined old same]
  · simp [same]

/-- A replacement leaves the other groups alone. -/
theorem select_replace_ne (row : ρ) (rows : List ρ) {wanted : γ}
    (determined : ∀ old, key old = key row → column old = column row)
    (different : column row ≠ wanted) :
    select column wanted (replace key row rows) = select column wanted rows := by
  rw [select_replace row rows wanted determined]
  apply replace_of_not_mem
  intro old member same
  exact different ((determined old same).symm.trans (mem_select.mp member).2)

theorem select_filter_of_imp {rows : List ρ} {wanted : γ} {keeps : ρ → Bool}
    (kept : ∀ row, column row = wanted → keeps row) :
    select column wanted (rows.filter keeps) = select column wanted rows := by
  unfold select
  rw [List.filter_filter]
  apply List.filter_congr
  intro row _
  by_cases inGroup : column row = wanted
  · simp [inGroup, kept row inGroup]
  · simp [inGroup]

theorem select_filter_of_not {rows : List ρ} {wanted : γ} {keeps : ρ → Bool}
    (removed : ∀ row, column row = wanted → keeps row = false) :
    select column wanted (rows.filter keeps) = [] := by
  unfold select
  rw [List.filter_filter, List.filter_eq_nil_iff]
  intro row _
  by_cases inGroup : column row = wanted
  · simp [removed row inGroup]
  · simp [inGroup]

end Relational
