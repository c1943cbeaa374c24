import Mathlib.Data.List.Nodup

/-!
# Keyed tables as lists of rows

A table is the list of its rows in insertion order. Rows are looked up,
overwritten and appended by a key computed from the row, so a row found under a
key always carries that key.
-/

namespace Tables

universe u v
variable {K : Type u} {R : Type v} [DecidableEq K] (key : R → K)

def find (rows : List R) (k : K) : Option R :=
  rows.find? (fun r => decide (key r = k))

/-- Overwrite the rows stored under `k`; every other row is left alone. -/
def update (rows : List R) (k : K) (f : R → R) : List R :=
  rows.map (fun r => if key r = k then f r else r)

def insert (rows : List R) (r : R) : List R := rows ++ [r]

/-- The rows stored under `k`, in insertion order. -/
def select (rows : List R) (k : K) : List R :=
  rows.filter (fun r => decide (key r = k))

variable {key}

@[simp] theorem find_nil (k : K) : find key ([] : List R) k = none := rfl

theorem find_key {rows : List R} {k : K} {r : R} (h : find key rows k = some r) :
    key r = k := by
  have hk := List.find?_some h
  simpa using hk

theorem find_mem {rows : List R} {k : K} {r : R} (h : find key rows k = some r) :
    r ∈ rows :=
  List.mem_of_find?_eq_some h

theorem find_eq_none {rows : List R} {k : K} :
    find key rows k = none ↔ ∀ r ∈ rows, key r ≠ k := by
  simp [find]

theorem find_isSome_of_mem (key : R → K) {rows : List R} {r : R} (h : r ∈ rows) :
    ∃ r', find key rows (key r) = some r' := by
  cases hf : find key rows (key r) with
  | some r' => exact ⟨r', rfl⟩
  | none => exact absurd rfl (find_eq_none.mp hf r h)

/-- Where keys are unique, a row is found under its key. -/
theorem find_of_mem {rows : List R} (nodup : (rows.map key).Nodup) {r : R} (h : r ∈ rows) :
    find key rows (key r) = some r := by
  obtain ⟨r', hr'⟩ := find_isSome_of_mem key h
  have hsame : r' = r := List.inj_on_of_nodup_map nodup (find_mem hr') h (find_key hr')
  rw [hr', hsame]

theorem insert_nodup {rows : List R} (nodup : (rows.map key).Nodup) {r : R}
    (fresh : find key rows (key r) = none) : ((insert rows r).map key).Nodup := by
  simp only [insert, List.map_append, List.map_cons, List.map_nil]
  refine List.nodup_append.mpr ⟨nodup, List.nodup_singleton _, ?_⟩
  intro k hk k' hk' he
  obtain ⟨row, hrow, rfl⟩ := List.mem_map.mp hk
  exact find_eq_none.mp fresh row hrow (he.trans (List.mem_singleton.mp hk'))

theorem find_insert (rows : List R) (r : R) (k : K) :
    find key (insert rows r) k = (find key rows k).or (if key r = k then some r else none) := by
  simp only [find, insert, List.find?_append]
  by_cases h : key r = k <;> simp [h]

theorem find_insert_old {rows : List R} {k : K} {r old : R}
    (h : find key rows k = some old) : find key (insert rows r) k = some old := by
  simp [find_insert, h]

theorem find_insert_self {rows : List R} {r : R} (h : find key rows (key r) = none) :
    find key (insert rows r) (key r) = some r := by
  simp [find_insert, h]

theorem find_insert_ne {rows : List R} {k : K} {r : R} (h : key r ≠ k) :
    find key (insert rows r) k = find key rows k := by
  simp [find_insert, h]

/-- What is found stays found when a row comes in. -/
theorem find_insert_ne_none {rows : List R} {k : K} (r : R) (h : find key rows k ≠ none) :
    find key (insert rows r) k ≠ none := by
  obtain ⟨old, hold⟩ := Option.ne_none_iff_exists'.mp h
  rw [find_insert_old hold]
  exact Option.some_ne_none old

/-- A property of the rows there are and of the one that comes in. -/
theorem forall_insert {rows : List R} {r : R} {P : R → Prop} (old : ∀ row ∈ rows, P row)
    (new : P r) : ∀ row ∈ rows ++ [r], P row :=
  List.forall_mem_append.mpr ⟨old, List.forall_mem_singleton.mpr new⟩

theorem find_update_ne {rows : List R} {j k : K} {f : R → R}
    (keeps : ∀ r, key r = k → key (f r) = k) (h : j ≠ k) :
    find key (update key rows k f) j = find key rows j := by
  induction rows with
  | nil => rfl
  | cons r rest ih =>
    simp only [find, update] at ih
    simp only [find, update, List.map_cons, List.find?_cons]
    by_cases hr : key r = k
    · have hf : key (f r) ≠ j := by rw [keeps r hr]; exact Ne.symm h
      have hj : key r ≠ j := by rw [hr]; exact Ne.symm h
      simpa [hr, hf, hj, Ne.symm h] using ih
    · by_cases hj : key r = j
      · simp [hj, h]
      · simpa [hr, hj] using ih

theorem find_update_self {rows : List R} {k : K} {f : R → R}
    (keeps : ∀ r, key r = k → key (f r) = k) :
    find key (update key rows k f) k = (find key rows k).map f := by
  induction rows with
  | nil => rfl
  | cons r rest ih =>
    simp only [find, update] at ih
    simp only [find, update, List.map_cons, List.find?_cons]
    by_cases hr : key r = k
    · simp [hr, keeps r hr]
    · simpa [hr] using ih

/-- An update neither loses nor finds a row. -/
theorem find_update_eq_none {rows : List R} {k : K} {f : R → R}
    (keeps : ∀ r, key r = k → key (f r) = k) {j : K} :
    find key (update key rows k f) j = none ↔ find key rows j = none := by
  by_cases hj : j = k
  · subst hj
    rw [find_update_self keeps, Option.map_eq_none_iff]
  · rw [find_update_ne keeps hj]

/-- Overwriting the one row stored under `k` keeps a property of all rows iff the
new row has it. -/
theorem forall_update_iff {rows : List R} (nodup : (rows.map key).Nodup) {k : K} {r : R}
    (found : find key rows k = some r) {f : R → R} {P : R → Prop} (h : ∀ r ∈ rows, P r) :
    (∀ r' ∈ update key rows k f, P r') ↔ P (f r) := by
  constructor
  · intro hall
    refine hall (f r) (List.mem_map.mpr ⟨r, find_mem found, ?_⟩)
    rw [if_pos (find_key found)]
  · intro hf r' hr'
    obtain ⟨row, hrow, rfl⟩ := List.mem_map.mp hr'
    by_cases hk : key row = k
    · have hsame : row = r := by
        have hfind := find_of_mem nodup hrow
        rw [hk, found] at hfind
        exact (Option.some.inj hfind).symm
      rw [if_pos hk, hsame]
      exact hf
    · rw [if_neg hk]
      exact h row hrow

theorem update_map_key {rows : List R} {k : K} {f : R → R}
    (keeps : ∀ r, key r = k → key (f r) = k) :
    (update key rows k f).map key = rows.map key := by
  simp only [update, List.map_map]
  apply List.map_congr_left
  intro r _
  by_cases hr : key r = k
  · simp [hr, keeps r hr]
  · simp [hr]

theorem select_eq_nil {rows : List R} {k : K} :
    select key rows k = [] ↔ ∀ r ∈ rows, key r ≠ k := by
  simp [select]

/-- Where keys are unique, what is stored under one is a single row. -/
theorem select_of_find {rows : List R} (nodup : (rows.map key).Nodup) {k : K} {r : R}
    (h : find key rows k = some r) : select key rows k = [r] := by
  induction rows with
  | nil => cases h
  | cons first rest ih =>
    rw [List.map_cons, List.nodup_cons] at nodup
    by_cases own : key first = k
    · have same : first = r := by simpa [find, own] using h
      have alone : select key rest k = [] := by
        refine List.filter_eq_nil_iff.mpr (fun r' hr' stored => nodup.1 ?_)
        rw [own, ← of_decide_eq_true stored]
        exact List.mem_map_of_mem hr'
      simp only [select] at alone ⊢
      simp [own, alone, ← same]
    · have further : find key rest k = some r := by simpa [find, own] using h
      have hrest := ih nodup.2 further
      simp only [select] at hrest ⊢
      simp [own, hrest]

/-- Appending rows of one key extends that key's selection and no other. -/
theorem select_append {new : List R} {j : K} (same : ∀ r ∈ new, key r = j) (rows : List R)
    (k : K) : select key (rows ++ new) k =
      if k = j then select key rows k ++ new else select key rows k := by
  have happ : select key (rows ++ new) k = select key rows k ++ select key new k :=
    List.filter_append ..
  rw [happ]
  by_cases hk : k = j
  · have hall : select key new k = new := by
      simpa [select, List.filter_eq_self, hk] using same
    rw [if_pos hk, hall]
  · have hnone : select key new k = [] :=
      select_eq_nil.mpr (fun r hr he => hk (he.symm.trans (same r hr)))
    rw [if_neg hk, hnone, List.append_nil]

/-! ## Lookups before and after a write -/

/-- Where a write changes one entry of a lookup, a property of all entries is
settled by that entry. -/
theorem forall_written_iff {V : Type v} {before after written : K → Option V} {k : K}
    {P : K → V → Prop} (h : ∀ j, after j = if j = k then written j else before j)
    (others : ∀ j x, j ≠ k → before j = some x → P j x) :
    (∀ j x, after j = some x → P j x) ↔ ∀ x, written k = some x → P k x := by
  constructor
  · intro hall x hx
    exact hall k x (by rw [h, if_pos rfl, hx])
  · intro hk j x hx
    rw [h] at hx
    by_cases hj : j = k
    · subst hj
      rw [if_pos rfl] at hx
      exact hk x hx
    · rw [if_neg hj] at hx
      exact others j x hj hx

/-- The same where the entry written is known. -/
theorem forall_written_some_iff {V : Type v} {before after written : K → Option V} {k : K}
    {P : K → V → Prop} {y : V} (h : ∀ j, after j = if j = k then written j else before j)
    (hy : written k = some y) (others : ∀ j x, j ≠ k → before j = some x → P j x) :
    (∀ j x, after j = some x → P j x) ↔ P k y := by
  refine (forall_written_iff h others).trans ⟨fun hall => hall y hy, fun hP x hx => ?_⟩
  cases hy.symm.trans hx
  exact hP

end Tables
