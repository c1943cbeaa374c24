import Mathlib.Data.List.Infix

/-!
# Properties of a growing record

A history is a list that a system only appends to. What is asked of an entry may
look at the entries before it, and an entry is added by one rule.
-/

namespace Histories

universe u v
variable {α : Type u} {P : List α → α → Prop} {p : α → Bool} {h : List α} {e : α}

/-- `P` of every entry and of what stands before it. -/
def Each (P : List α → α → Prop) (h : List α) : Prop :=
  ∀ before e after, h = before ++ e :: after → P before e

/-- The entries behind the last one that satisfies `p`, or all of them. -/
def since (p : α → Bool) (h : List α) : List α :=
  (h.reverse.takeWhile (fun e => !p e)).reverse

theorem each_nil : Each P [] := by
  intro before e after hsplit
  exact absurd hsplit.symm (List.append_ne_nil_of_right_ne_nil before (List.cons_ne_nil e after))

theorem each_snoc : Each P (h ++ [e]) ↔ Each P h ∧ P h e := by
  constructor
  · intro each
    refine ⟨fun before d after hsplit => ?_, each h e [] rfl⟩
    refine each before d (after ++ [e]) ?_
    rw [hsplit, List.append_assoc, List.cons_append]
  · rintro ⟨each, last⟩ before d after hsplit
    rcases List.eq_nil_or_concat after with rfl | ⟨init, f, rfl⟩
    · obtain ⟨rfl, hd⟩ := List.append_inj' hsplit rfl
      cases hd
      exact last
    · rw [List.concat_eq_append, ← List.cons_append, ← List.append_assoc] at hsplit
      exact each before d init (List.append_inj' hsplit rfl).1

theorem since_snoc_of_pos (hp : p e = true) : since p (h ++ [e]) = [] := by
  simp [since, hp]

theorem since_snoc_of_neg (hp : p e = false) : since p (h ++ [e]) = since p h ++ [e] := by
  simp [since, hp]

/-! ## One report for each entry -/

/-- The `i`-th report is `f` of the history up to the `i`-th entry, and of that entry. -/
def Reports {β : Type v} (f : List α → α → β) (h : List α) (reports : List β) : Prop :=
  ∀ i e, h[i]? = some e → reports[i]? = some (f (h.take (i + 1)) e)

theorem reports_nil {β : Type v} (f : List α → α → β) : Reports f [] [] := by
  intro i e he
  cases he

theorem reports_snoc {β : Type v} {f : List α → α → β} {reports : List β}
    (hlength : reports.length = h.length) (hreports : Reports f h reports) (e : α) :
    Reports f (h ++ [e]) (reports ++ [f (h ++ [e]) e]) := by
  intro i d hi
  rcases Nat.lt_or_ge i h.length with hlt | hge
  · rw [List.getElem?_append_left hlt] at hi
    rw [List.getElem?_append_left (by omega), List.take_append_of_le_length (by omega)]
    exact hreports i d hi
  · have hlast : i = h.length := by
      have hbound := (List.getElem?_eq_some_iff.mp hi).1
      simp only [List.length_append, List.length_singleton] at hbound
      omega
    subst hlast
    rw [List.getElem?_append_right (Nat.le_refl _), Nat.sub_self] at hi
    cases hi
    rw [List.getElem?_append_right (by omega), hlength, Nat.sub_self,
      List.take_of_length_le (by simp)]
    rfl

/-- Two systems report the same exactly if their reports on every entry agree. -/
theorem reports_eq_iff {β : Type v} {f g : List α → α → β} {xs ys : List β}
    (hx : Reports f h xs) (hy : Reports g h ys) (xlength : xs.length = h.length)
    (ylength : ys.length = h.length) :
    xs = ys ↔ ∀ i e, h[i]? = some e → f (h.take (i + 1)) e = g (h.take (i + 1)) e := by
  constructor
  · rintro rfl i e he
    exact Option.some.inj ((hx i e he).symm.trans (hy i e he))
  · intro same
    refine List.ext_getElem? (fun i => ?_)
    cases he : h[i]? with
    | none =>
      have beyond : h.length ≤ i := List.getElem?_eq_none_iff.mp he
      rw [List.getElem?_eq_none (by omega), List.getElem?_eq_none (by omega)]
    | some e => rw [hx i e he, hy i e he, same i e he]

end Histories
