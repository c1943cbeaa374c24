import Mathlib.Algebra.BigOperators.Group.List.Basic
import Mathlib.Algebra.GroupWithZero.Nat
import Mathlib.Data.List.Dedup
import RiskCore.Tables

/-!
# Counting the rows of a table by a column

A grouped count over a table gives a row for each value there is; a dictionary
that starts with a zero for each choice takes them over. How the counts move when
a row comes in or is overwritten does not depend on what is counted.
-/

namespace Tallies

universe u v
variable {R : Type u} {K : Type v} [DecidableEq K] {key : R → K} {rows : List R}

def count (key : R → K) (rows : List R) (k : K) : Nat :=
  rows.countP (fun r => key r = k)

/-- `objects.values(key).annotate(count=Count("id"))`. -/
def groups (key : R → K) (rows : List R) : List (K × Nat) :=
  (rows.map key).dedup.map (fun k => (k, count key rows k))

/-- `d[k] = n`. -/
def assign (d : List (K × Nat)) (e : K × Nat) : List (K × Nat) :=
  if e.1 ∈ d.map Prod.fst then d.map (fun x => if x.1 = e.1 then e else x) else d ++ [e]

/-- `dict.fromkeys(choices, 0)`, overwritten by the groups one by one. -/
def tally (choices : List K) (key : R → K) (rows : List R) : List (K × Nat) :=
  (groups key rows).foldl assign (choices.map (fun k => (k, 0)))

/-! ## What the dictionary ends as -/

theorem assign_choices {choices : List K} (f : K → Nat) {k : K} (hk : k ∈ choices) (n : Nat) :
    assign (choices.map (fun j => (j, f j))) (k, n) =
      choices.map (fun j => (j, Function.update f k n j)) := by
  have present : k ∈ (choices.map (fun j => (j, f j))).map Prod.fst := by simpa using hk
  rw [assign, if_pos present, List.map_map]
  refine List.map_congr_left (fun j _ => ?_)
  by_cases hj : j = k
  · subst hj
    simp
  · simp [hj]

/-- Entries whose value depends on their key only may come in any order. -/
theorem foldl_assign {choices : List K} {c : K → Nat} (ks : List K)
    (covered : ∀ k ∈ ks, k ∈ choices) : ∀ f : K → Nat,
      (ks.map (fun k => (k, c k))).foldl assign (choices.map (fun j => (j, f j))) =
        choices.map (fun j => (j, if j ∈ ks then c j else f j)) := by
  induction ks with
  | nil => exact fun f => by simp
  | cons k ks ih =>
    intro f
    rw [List.map_cons, List.foldl_cons, assign_choices f (covered k List.mem_cons_self),
      ih (fun j hj => covered j (List.mem_cons_of_mem k hj))]
    refine List.map_congr_left (fun j _ => ?_)
    by_cases hrest : j ∈ ks
    · simp [hrest]
    · by_cases hj : j = k
      · subst hj
        simp [hrest]
      · simp [hrest, hj]

theorem count_eq_zero {k : K} (h : k ∉ rows.map key) : count key rows k = 0 := by
  refine List.countP_eq_zero.mpr (fun r hr hk => h ?_)
  exact of_decide_eq_true hk ▸ List.mem_map_of_mem hr

theorem tally_eq {choices : List K} (covered : ∀ r ∈ rows, key r ∈ choices) :
    tally choices key rows = choices.map (fun k => (k, count key rows k)) := by
  have grouped : ∀ k ∈ (rows.map key).dedup, k ∈ choices := by
    intro k hk
    obtain ⟨r, hr, rfl⟩ := List.mem_map.mp (List.mem_dedup.mp hk)
    exact covered r hr
  rw [tally, groups, foldl_assign _ grouped]
  refine List.map_congr_left (fun k _ => ?_)
  by_cases hk : k ∈ rows.map key
  · rw [if_pos (List.mem_dedup.mpr hk)]
  · rw [if_neg (fun h => hk (List.mem_dedup.mp h)), count_eq_zero hk]

theorem lookup_tally {choices : List K} (covered : ∀ r ∈ rows, key r ∈ choices) {k : K}
    (hk : k ∈ choices) : (tally choices key rows).lookup k = some (count key rows k) := by
  rw [tally_eq covered]
  clear covered
  induction choices with
  | nil => cases hk
  | cons j rest ih =>
    by_cases hj : k = j
    · subst hj
      simp
    · have hrest := ih ((List.mem_cons.mp hk).resolve_left hj)
      have skipped : (k == j) = false := beq_false_of_ne hj
      rw [List.map_cons, List.lookup_cons, skipped]
      exact hrest

theorem sum_indicator {choices : List K} (nodup : choices.Nodup) {k : K} (hk : k ∈ choices) :
    (choices.map (fun j => if k = j then 1 else 0)).sum = 1 := by
  induction choices with
  | nil => cases hk
  | cons j rest ih =>
    rw [List.nodup_cons] at nodup
    rw [List.map_cons, List.sum_cons]
    by_cases hj : k = j
    · have none_left : (rest.map (fun i => if k = i then 1 else 0)).sum = 0 := by
        refine List.sum_eq_zero_iff_forall_eq_nat.mpr (fun n hn => ?_)
        obtain ⟨i, hi, rfl⟩ := List.mem_map.mp hn
        exact if_neg (fun he : k = i => nodup.1 (hj.symm.trans he ▸ hi))
      rw [if_pos hj, none_left]
    · rw [if_neg hj, ih nodup.2 ((List.mem_cons.mp hk).resolve_left hj)]

/-- Each row is counted under one of the choices. -/
theorem sum_count {choices : List K} (nodup : choices.Nodup)
    (covered : ∀ r ∈ rows, key r ∈ choices) :
    (choices.map (count key rows)).sum = rows.length := by
  induction rows with
  | nil =>
    refine List.sum_eq_zero_iff_forall_eq_nat.mpr (fun n hn => ?_)
    obtain ⟨k, _, rfl⟩ := List.mem_map.mp hn
    rfl
  | cons r rest ih =>
    have split : choices.map (count key (r :: rest)) =
        choices.map (fun k => count key rest k + if key r = k then 1 else 0) := by
      refine List.map_congr_left (fun k _ => ?_)
      simp [count, List.countP_cons]
    rw [split, List.sum_map_add, ih (fun r' hr' => covered r' (List.mem_cons_of_mem r hr')),
      sum_indicator nodup (covered r List.mem_cons_self), List.length_cons]

theorem sum_tally {choices : List K} (nodup : choices.Nodup)
    (covered : ∀ r ∈ rows, key r ∈ choices) :
    ((tally choices key rows).map Prod.snd).sum = rows.length := by
  rw [tally_eq covered, List.map_map]
  exact sum_count nodup covered

/-! ## Counts across a write -/

section
variable (p : R → Prop) [DecidablePred p]

theorem countP_insert (rows : List R) (r : R) :
    (Tables.insert rows r).countP (fun r => p r) =
      rows.countP (fun r => p r) + if p r then 1 else 0 := by
  simp [Tables.insert, List.countP_cons]

/-- Overwriting one row takes it out of the count it was in and puts it into the
one it moves to. -/
theorem countP_update {id : R → K} {rows : List R} (nodup : (rows.map id).Nodup) {k : K} {r : R}
    (found : Tables.find id rows k = some r) (f : R → R) :
    ((Tables.update id rows k f).countP (fun r => p r) + if p r then 1 else 0) =
      rows.countP (fun r => p r) + if p (f r) then 1 else 0 := by
  induction rows with
  | nil => cases found
  | cons first rest ih =>
    rw [List.map_cons, List.nodup_cons] at nodup
    by_cases own : id first = k
    · have same : first = r := by simpa [Tables.find, own] using found
      have others : Tables.update id rest k f = rest := by
        refine (List.map_congr_left (fun r' hr' => if_neg (fun hk => nodup.1 ?_))).trans
          (List.map_id _)
        rw [own, ← hk]
        exact List.mem_map_of_mem hr'
      have hcons : Tables.update id (first :: rest) k f = f first :: Tables.update id rest k f := by
        simp [Tables.update, own]
      rw [hcons, others, same, List.countP_cons, List.countP_cons]
      simp only [decide_eq_true_eq]
      omega
    · have further : Tables.find id rest k = some r := by simpa [Tables.find, own] using found
      have hrest := ih nodup.2 further
      have hcons : Tables.update id (first :: rest) k f = first :: Tables.update id rest k f := by
        simp [Tables.update, own]
      rw [hcons, List.countP_cons, List.countP_cons]
      omega

end

end Tallies
