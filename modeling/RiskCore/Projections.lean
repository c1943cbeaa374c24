import RiskCore.Tables

/-!
# A table seen through the last entry of each key

A log tells the rows of a table; of the entries with one key only the last is kept.
The log mirrors the table when the entries kept tell its rows one by one. A row
that comes in with an entry of a new key, and a row that is overwritten with one
more entry of its key, keep it that way, and whatever is computed from the rows
without regard to their order can be computed from the entries.
-/

namespace Projections

universe u v w
variable {E : Type u} {R : Type v} {K : Type w} [DecidableEq K] {key : E → K} {id : R → K}

/-- The last entry of each key, in the order of the log. -/
def latest (key : E → K) : List E → List E
  | [] => []
  | e :: rest => if key e ∈ rest.map key then latest key rest else e :: latest key rest

theorem latest_snoc (es : List E) (e : E) : latest key (es ++ [e]) =
    (latest key es).filter (fun d => key d ≠ key e) ++ [e] := by
  induction es with
  | nil => rfl
  | cons d es ih =>
    rw [List.cons_append, latest, latest, ih]
    by_cases later : key d ∈ es.map key
    · have present : key d ∈ (es ++ [e]).map key := by
        rw [List.map_append]
        exact List.mem_append_left _ later
      rw [if_pos present, if_pos later]
    · by_cases same : key d = key e
      · have present : key d ∈ (es ++ [e]).map key := by simp [same]
        rw [if_pos present, if_neg later, List.filter_cons_of_neg (by simp [same])]
      · have absent : key d ∉ (es ++ [e]).map key := by
          rw [List.map_append]
          exact fun h => (List.mem_append.mp h).elim later (by simpa using same)
        rw [if_neg absent, if_neg later, List.filter_cons_of_pos (by simp [same])]
        rfl

theorem perm_update {rows : List R} (nodup : (rows.map id).Nodup) {k : K} {r : R}
    (found : Tables.find id rows k = some r) (f : R → R) :
    (rows.filter (fun r => id r ≠ k) ++ [f r]).Perm (Tables.update id rows k f) := by
  induction rows with
  | nil => cases found
  | cons first rest ih =>
    rw [List.map_cons, List.nodup_cons] at nodup
    by_cases own : id first = k
    · obtain rfl : first = r := by simpa [Tables.find, own] using found
      have others : ∀ r' ∈ rest, id r' ≠ k := fun r' hr' hk =>
        nodup.1 (own.trans hk.symm ▸ List.mem_map_of_mem hr')
      have kept : rest.filter (fun r => id r ≠ k) = rest :=
        List.filter_eq_self.mpr (fun r' hr' => by simpa using others r' hr')
      have left : Tables.update id rest k f = rest :=
        (List.map_congr_left (fun r' hr' => if_neg (others r' hr'))).trans (List.map_id _)
      have written : Tables.update id (first :: rest) k f =
          f first :: Tables.update id rest k f := by
        simp [Tables.update, own]
      rw [List.filter_cons_of_neg (by simp [own]), kept, written, left]
      exact List.perm_append_singleton (f first) rest
    · have further : Tables.find id rest k = some r := by simpa [Tables.find, own] using found
      have passed : Tables.update id (first :: rest) k f =
          first :: Tables.update id rest k f := by
        simp [Tables.update, own]
      rw [List.filter_cons_of_pos (by simp [own]), passed]
      exact (ih nodup.2 further).cons first

/-- The entries kept tell the rows. -/
def Mirrors (key : E → K) (tells : E → R → Prop) (es : List E) (rows : List R) : Prop :=
  ∃ rs : List R, rs.Perm rows ∧ List.Forall₂ tells (latest key es) rs

section
variable {tells : E → R → Prop} (about : ∀ e r, tells e r → key e = id r)
include about

/-- Leaving out one key leaves out the rows told by it. -/
theorem forall₂_filter {es : List E} {rs : List R} (h : List.Forall₂ tells es rs) (k : K) :
    List.Forall₂ tells (es.filter (fun e => key e ≠ k)) (rs.filter (fun r => id r ≠ k)) := by
  induction h with
  | nil => exact .nil
  | @cons e r es rs told _ ih =>
    have same := about e r told
    by_cases hk : key e = k
    · rw [List.filter_cons_of_neg (by simp [hk]), List.filter_cons_of_neg (by simp [← same, hk])]
      exact ih
    · rw [List.filter_cons_of_pos (by simp [hk]), List.filter_cons_of_pos (by simp [← same, hk])]
      exact .cons told ih

theorem Mirrors.insert {es : List E} {rows : List R} (h : Mirrors key tells es rows) {e : E} {r : R}
    (told : tells e r) (fresh : Tables.find id rows (id r) = none) :
    Mirrors key tells (es ++ [e]) (Tables.insert rows r) := by
  obtain ⟨rs, perm, tell⟩ := h
  have others : rs.filter (fun r' => id r' ≠ id r) = rs := by
    refine List.filter_eq_self.mpr (fun r' hr' => ?_)
    simpa using Tables.find_eq_none.mp fresh r' (perm.mem_iff.mp hr')
  have kept := forall₂_filter about tell (id r)
  rw [others, ← about e r told] at kept
  refine ⟨rs ++ [r], perm.append_right [r], ?_⟩
  rw [latest_snoc]
  exact List.rel_append kept (.cons told .nil)

theorem Mirrors.update {es : List E} {rows : List R} (h : Mirrors key tells es rows)
    (nodup : (rows.map id).Nodup) {k : K} {r : R} (found : Tables.find id rows k = some r)
    {f : R → R} {e : E} (told : tells e (f r)) (keeps : id (f r) = k) :
    Mirrors key tells (es ++ [e]) (Tables.update id rows k f) := by
  obtain ⟨rs, perm, tell⟩ := h
  have kept := forall₂_filter about tell k
  have hkey : key e = k := (about e (f r) told).trans keeps
  refine ⟨rs.filter (fun r => id r ≠ k) ++ [f r], ?_, ?_⟩
  · exact ((perm.filter _).append_right [f r]).trans (perm_update nodup found f)
  · rw [latest_snoc, hkey]
    exact List.rel_append kept (.cons told .nil)

end

/-- What an entry reads of its row, collected over the log, is what the rows are. -/
theorem Mirrors.filterMap_perm {tells : E → R → Prop} {es : List E} {rows : List R}
    (h : Mirrors key tells es rows) {V : Type u} {reads : E → Option V} {shows : R → V}
    (agree : ∀ e r, tells e r → reads e = some (shows r)) :
    ((latest key es).filterMap reads).Perm (rows.map shows) := by
  obtain ⟨rs, perm, tell⟩ := h
  have same : (latest key es).filterMap reads = rs.map shows := by
    clear perm
    generalize latest key es = kept at tell
    induction tell with
    | nil => rfl
    | @cons e r _ _ told _ ih => rw [List.filterMap_cons_some (agree e r told), ih, List.map_cons]
  rw [same]
  exact perm.map shows

end Projections
