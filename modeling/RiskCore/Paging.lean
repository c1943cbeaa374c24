import Mathlib.Data.List.Nodup
import Mathlib.Order.Lattice

/-!
# Numbered pages of a sorted listing

A paginator counts the rows, and cuts the listing of a later query at multiples of the
page size. The rows before a row decide the page it is on; where rows are only added,
a row moves to later pages, never to earlier ones.
-/

namespace Paging

universe u v

/-! ## The paginator -/

/-- `allow_empty_first_page`: there is always a first page. -/
def numPages (count perPage : Nat) : Nat := (max 1 count + perPage - 1) / perPage

/-- `validate_number`. -/
def validNumber (number count perPage : Nat) : Bool :=
  1 ≤ number && number ≤ numPages count perPage

def hasNext (number count perPage : Nat) : Bool := number < numPages count perPage

def bottom (number perPage : Nat) : Nat := (number - 1) * perPage

/-- The last page ends with the count. -/
def top (number count perPage : Nat) : Nat :=
  if count ≤ bottom number perPage + perPage then count else bottom number perPage + perPage

/-- The rows of the page, by a count that was made before. -/
def page {α : Type u} (number count perPage : Nat) (listing : List α) : List α :=
  (listing.drop (bottom number perPage)).take (top number count perPage - bottom number perPage)

section
variable {number count perPage : Nat}

theorem bottom_succ (h : 1 ≤ number) :
    bottom (number + 1) perPage = bottom number perPage + perPage := by
  obtain ⟨n, rfl⟩ := Nat.exists_eq_add_of_le' h
  simp only [bottom, Nat.add_sub_cancel, Nat.succ_mul]

theorem le_numPages_iff (positive : 0 < perPage) (h : 1 ≤ number) :
    number ≤ numPages count perPage ↔ bottom number perPage < max 1 count := by
  obtain ⟨n, rfl⟩ := Nat.exists_eq_add_of_le' h
  rw [numPages, Nat.le_div_iff_mul_le positive, bottom, Nat.add_sub_cancel, Nat.succ_mul]
  omega

theorem hasNext_iff (positive : 0 < perPage) (h : 1 ≤ number) :
    hasNext number count perPage = true ↔ bottom (number + 1) perPage < count := by
  have further : number + 1 ≤ numPages count perPage ↔
      bottom (number + 1) perPage < max 1 count :=
    le_numPages_iff positive (Nat.le_add_left 1 number)
  have later : 0 < bottom (number + 1) perPage := by
    rw [bottom_succ h]
    omega
  rw [hasNext, decide_eq_true_iff, ← Nat.succ_le_iff, Nat.succ_eq_add_one, further]
  omega

theorem top_le_count : top number count perPage ≤ count := by
  unfold top
  split <;> omega

theorem top_lt_count (positive : 0 < perPage) (h : 1 ≤ number)
    (next : hasNext number count perPage = true) : top number count perPage < count := by
  have further := (hasNext_iff positive h).mp next
  rw [bottom_succ h] at further
  rw [top, if_neg (Nat.not_le.mpr further)]
  exact further

end

/-! ## Where a row stands -/

section
variable {α : Type u} {T : Type v} [LinearOrder T] (key : α → T)

/-- `ORDER BY key DESC`: rows with one key stand in any order. -/
structure Sorted (rows listing : List α) : Prop where
  perm : listing.Perm rows
  newest : listing.Pairwise (fun newer older => key older ≤ key newer)

instance [DecidableEq α] (rows listing : List α) : Decidable (Sorted key rows listing) :=
  decidable_of_iff (listing.Perm rows ∧
      listing.Pairwise (fun newer older => key older ≤ key newer))
    ⟨fun h => ⟨h.1, h.2⟩, fun h => ⟨h.perm, h.newest⟩⟩

/-- How many rows come before those with the key. -/
def rank (rows : List α) (t : T) : Nat := rows.countP (fun r => t < key r)

variable {key}

theorem rank_lt_length {rows : List α} {t : T} (there : ∃ r ∈ rows, key r = t) :
    rank key rows t < rows.length := by
  obtain ⟨r, hr, rfl⟩ := there
  refine Nat.lt_of_le_of_ne List.countP_le_length (fun all => ?_)
  have before := List.countP_eq_length.mp all r hr
  exact lt_irrefl (key r) (of_decide_eq_true before)

theorem getElem?_rank_of_pairwise {listing : List α} {t : T}
    (newest : listing.Pairwise (fun newer older => key older ≤ key newer))
    (there : ∃ r ∈ listing, key r = t) :
    ∃ r, listing[rank key listing t]? = some r ∧ key r = t := by
  induction listing with
  | nil =>
    obtain ⟨r, hr, -⟩ := there
    cases hr
  | cons a listing ih =>
    obtain ⟨first, rest⟩ := List.pairwise_cons.mp newest
    obtain ⟨x, hx, own⟩ := there
    by_cases before : t < key a
    · have later : x ∈ listing := by
        rcases List.mem_cons.mp hx with rfl | later
        · exact absurd own before.ne'
        · exact later
      obtain ⟨r, hr, hkey⟩ := ih rest ⟨x, later, own⟩
      refine ⟨r, ?_, hkey⟩
      have one_more : rank key (a :: listing) t = rank key listing t + 1 :=
        List.countP_cons_of_pos (decide_eq_true before)
      rw [one_more, List.getElem?_cons_succ, hr]
    · -- no later row comes before either, so this one is at the head
      have none_before : rank key (a :: listing) t = 0 := by
        refine List.countP_eq_zero.mpr (fun r hr => ?_)
        rw [decide_eq_true_iff, not_lt]
        rcases List.mem_cons.mp hr with rfl | later
        · exact not_lt.mp before
        · exact (first r later).trans (not_lt.mp before)
      have least : t ≤ key a := by
        rcases List.mem_cons.mp hx with rfl | later
        · exact own.ge
        · exact own ▸ first x later
      exact ⟨a, by rw [none_before]; rfl, le_antisymm (not_lt.mp before) least⟩

theorem Sorted.getElem?_rank {rows listing : List α} (h : Sorted key rows listing) {t : T}
    (there : ∃ r ∈ rows, key r = t) : ∃ r, listing[rank key rows t]? = some r ∧ key r = t := by
  have same : rank key listing t = rank key rows t := h.perm.countP_eq _
  obtain ⟨r, hr, own⟩ := there
  exact same ▸ getElem?_rank_of_pairwise h.newest ⟨r, h.perm.mem_iff.mpr hr, own⟩

theorem rank_le_index {listing : List α}
    (newest : listing.Pairwise (fun newer older => key older ≤ key newer)) {i : Nat} {r : α}
    (hr : listing[i]? = some r) : rank key listing (key r) ≤ i := by
  induction listing generalizing i with
  | nil => cases hr
  | cons a listing ih =>
    obtain ⟨first, rest⟩ := List.pairwise_cons.mp newest
    cases i with
    | zero =>
      cases hr
      refine Nat.le_of_eq (List.countP_eq_zero.mpr (fun x hx => ?_))
      rw [decide_eq_true_iff, not_lt]
      rcases List.mem_cons.mp hx with rfl | later
      · exact le_rfl
      · exact first x later
    | succ i =>
      have before : rank key listing (key r) ≤ i := ih rest hr
      have one_more : rank key (a :: listing) (key r) ≤ rank key listing (key r) + 1 := by
        rw [rank, List.countP_cons]
        split <;> exact Nat.add_le_add_left (by decide) _
      exact Nat.le_trans one_more (Nat.succ_le_succ before)

theorem rank_lt_top {rows listing : List α} (h : Sorted key rows listing)
    {number count perPage : Nat} {r : α} (hr : r ∈ page number count perPage listing) :
    rank key rows (key r) < top number count perPage := by
  obtain ⟨i, hi⟩ := List.mem_iff_getElem?.mp hr
  rw [page, List.getElem?_take, Option.ite_none_right_eq_some, List.getElem?_drop] at hi
  obtain ⟨within, listed⟩ := hi
  have before : rank key listing (key r) ≤ bottom number perPage + i :=
    rank_le_index h.newest listed
  rw [rank, h.perm.countP_eq] at before
  exact Nat.lt_of_le_of_lt before (by omega)

/-- Where no two rows have one key, all but one row come before the oldest. -/
theorem length_le_rank_succ {rows : List α} (distinct : (rows.map key).Nodup) {t : T}
    (least : ∀ r ∈ rows, t ≤ key r) : rows.length ≤ rank key rows t + 1 := by
  have own : rows.countP (fun r => ¬ decide (t < key r) = true) ≤ 1 := by
    have same : rows.countP (fun r => ¬ decide (t < key r) = true) = (rows.map key).count t := by
      rw [List.count, List.countP_map]
      refine List.countP_congr (fun r hr => ?_)
      have bound := least r hr
      simp only [decide_eq_true_eq, Function.comp_apply, beq_iff_eq, not_lt]
      exact ⟨fun h => le_antisymm h bound, fun h => h.le⟩
    rw [same]
    exact List.nodup_iff_count_le_one.mp distinct t
  have parts := List.length_eq_countP_add_countP (fun r => decide (t < key r)) (l := rows)
  rw [rank]
  omega

/-- A row that is not before the page is on it, or, if another follows, behind it. -/
theorem on_page_or_behind {rows listing : List α} (h : Sorted key rows listing) {t : T}
    (there : ∃ r ∈ rows, key r = t) {number count perPage : Nat} (positive : 0 < perPage)
    (numbered : 1 ≤ number) (reached : bottom number perPage ≤ rank key rows t)
    (counted : hasNext number count perPage = true ∨ listing.length = count) :
    (∃ r ∈ page number count perPage listing, key r = t) ∨
      hasNext number count perPage = true ∧ bottom (number + 1) perPage ≤ rank key rows t := by
  obtain ⟨r, hr, hkey⟩ := h.getElem?_rank there
  have listed : rank key rows t < listing.length := h.perm.length_eq ▸ rank_lt_length there
  by_cases within : rank key rows t < top number count perPage
  · refine Or.inl ⟨r, List.mem_of_getElem? (i := rank key rows t - bottom number perPage) ?_, hkey⟩
    rw [page, List.getElem?_take_of_lt (by omega), List.getElem?_drop,
      Nat.add_sub_cancel' reached, hr]
  · have follows : hasNext number count perPage = true ↔ bottom (number + 1) perPage < count :=
      hasNext_iff positive numbered
    rw [bottom_succ numbered] at follows ⊢
    unfold top at within
    split at within
    · rename_i last
      rcases counted with next | same
      · exact absurd (follows.mp next) (Nat.not_lt.mpr last)
      · omega
    · rename_i further
      exact Or.inr ⟨follows.mpr (by omega), by omega⟩

end

end Paging
