import RiskCore.Texts

/-!
# Sequential document numbers

`CLM-2025-000001` and `POL-2025-000001`: a stem, then a counter of at least six
digits. The next number is one more than the counter of the greatest number,
as text, that has the stem. Text order is number order up to six digits only.
-/

namespace Numbering

/-- `int(text.split("-")[-1])`, or the text that `int` does not accept. -/
def lastNumber (text : String) : Except String Nat :=
  let part := (text.toList.reverse.takeWhile (fun c => c ≠ '-')).reverse
  match Texts.int part with
  | some n => .ok n
  | none => .error (String.ofList part)

/-- The first of the numbers in descending order. -/
def greatest : List String → Option String
  | [] => none
  | number :: rest =>
    match greatest rest with
    | some best => if number < best then some best else some number
    | none => some number

/-- `f"{stem}{n:06d}"`. -/
def render (stem : String) (n : Nat) : String := stem ++ String.ofList (Digits.padded 6 n)

def next (stem : String) (numbers : List String) : Except String String :=
  match greatest (numbers.filter (fun number => stem.toList.isPrefixOf number.toList)) with
  | some last =>
    match lastNumber last with
    | .ok n => .ok (render stem (n + 1))
    | .error part => .error part
  | none => .ok (render stem 1)

example : next "CLM-2025-" ["CLM-2025-000041", "CLM-2024-000099"] = .ok "CLM-2025-000042" := rfl

/-! ## The greatest number -/

theorem greatest_cons (number : String) (numbers : List String) :
    ∃ g, greatest (number :: numbers) = some g := by
  unfold greatest
  split
  · split <;> exact ⟨_, rfl⟩
  · exact ⟨_, rfl⟩

theorem greatest_mem {numbers : List String} {g : String} (h : greatest numbers = some g) :
    g ∈ numbers := by
  induction numbers generalizing g with
  | nil => cases h
  | cons number rest ih =>
    unfold greatest at h
    split at h
    · rename_i best hbest
      split at h
      · cases h
        exact List.mem_cons_of_mem _ (ih hbest)
      · cases h
        exact List.mem_cons_self
    · cases h
      exact List.mem_cons_self

theorem le_greatest {numbers : List String} {g : String} (h : greatest numbers = some g) :
    ∀ number ∈ numbers, number ≤ g := by
  induction numbers generalizing g with
  | nil => cases h
  | cons first rest ih =>
    intro number hnumber
    unfold greatest at h
    split at h
    · rename_i best hbest
      by_cases hless : first < best
      · rw [if_pos hless] at h
        cases h
        rcases List.mem_cons.mp hnumber with rfl | hrest
        · exact String.lt_asymm hless
        · exact ih hbest number hrest
      · rw [if_neg hless] at h
        cases h
        rcases List.mem_cons.mp hnumber with rfl | hrest
        · exact String.le_refl _
        · exact String.le_trans (ih hbest number hrest) hless
    · rename_i hnone
      cases h
      rcases List.mem_cons.mp hnumber with rfl | hrest
      · exact String.le_refl _
      · cases rest with
        | nil => cases hrest
        | cons second tail =>
          obtain ⟨g, hg⟩ := greatest_cons second tail
          rw [hnone] at hg
          cases hg

/-- An element that no other exceeds is the greatest. -/
theorem greatest_eq {numbers : List String} {g : String} (mem : g ∈ numbers)
    (max : ∀ number ∈ numbers, number ≤ g) : greatest numbers = some g := by
  cases numbers with
  | nil => cases mem
  | cons number rest =>
    obtain ⟨best, hbest⟩ := greatest_cons number rest
    have hle := le_greatest hbest g mem
    have hge := max best (greatest_mem hbest)
    rw [hbest, String.le_antisymm hge hle]

/-! ## Reading a number back -/

theorem render_toList (stem : String) (n : Nat) :
    (render stem n).toList = stem.toList ++ Digits.padded 6 n := by
  simp [render]

theorem stem_isPrefixOf (stem : String) (n : Nat) :
    stem.toList.isPrefixOf (render stem n).toList = true := by
  rw [render_toList, List.isPrefixOf_iff_prefix]
  exact List.prefix_append _ _

theorem dash_not_mem_padded (w n : Nat) : '-' ∉ Digits.padded w n := by
  intro h
  exact absurd (Digits.mem_padded h) (by decide)

/-- What precedes the first occurrence of a character is determined. -/
theorem append_cons_inj {xs ys s t : List Char} {c : Char} (hx : c ∉ xs) (hy : c ∉ ys)
    (h : xs ++ c :: s = ys ++ c :: t) : xs = ys ∧ s = t := by
  induction xs generalizing ys with
  | nil =>
    cases ys with
    | nil => exact ⟨rfl, (List.cons.inj h).2⟩
    | cons y ys => exact absurd ((List.cons.inj h).1 ▸ List.mem_cons_self) hy
  | cons x xs ih =>
    cases ys with
    | nil => exact absurd ((List.cons.inj h).1 ▸ List.mem_cons_self) hx
    | cons y ys =>
      obtain ⟨rfl, htail⟩ := List.cons.inj h
      obtain ⟨rfl, rfl⟩ := ih (fun hc => hx (List.mem_cons_of_mem _ hc))
        (fun hc => hy (List.mem_cons_of_mem _ hc)) htail
      exact ⟨rfl, rfl⟩

/-- What follows the last dash. -/
theorem lastPart_append (stem : String) {counter : List Char} (h : '-' ∉ counter) :
    ((stem ++ "-" ++ String.ofList counter).toList.reverse.takeWhile
      (fun c => c ≠ '-')).reverse = counter := by
  have hdigits : ∀ c ∈ counter.reverse, decide (c ≠ '-') = true := by
    intro c hc
    refine decide_eq_true ?_
    rintro rfl
    exact h (List.mem_reverse.mp hc)
  rw [String.toList_append, String.toList_ofList, List.reverse_append,
    List.takeWhile_append_of_pos hdigits]
  simp

/-- The counter of a rendered number, behind the last dash. -/
theorem lastNumber_render (stem : String) (n : Nat) :
    lastNumber (render (stem ++ "-") n) = .ok n := by
  have hpart := lastPart_append stem (dash_not_mem_padded 6 n)
  have hread : Texts.int (Digits.padded 6 n) = some n :=
    Texts.int_of_decimal (Digits.decimal_padded 6 n)
  simp only [lastNumber, render, hpart, hread]

/-- The numbers of one year are not numbers of another. -/
theorem isPrefixOf_render_iff (kind : String) (year year' n : Nat) :
    (kind ++ Nat.repr year ++ "-").toList.isPrefixOf
      (render (kind ++ Nat.repr year' ++ "-") n).toList = true ↔ year = year' := by
  constructor
  · intro h
    obtain ⟨rest, hrest⟩ := List.isPrefixOf_iff_prefix.mp h
    have hyears : Nat.toDigits 10 year ++ '-' :: rest =
        Nat.toDigits 10 year' ++ '-' :: Digits.padded 6 n := by
      simpa [render_toList] using hrest
    have hno : ∀ y, '-' ∉ Nat.toDigits 10 y := Digits.not_mem_toDigits (by decide)
    exact Digits.toDigits_inj (append_cons_inj (hno _) (hno _) hyears).1
  · rintro rfl
    exact stem_isPrefixOf _ n

/-! ## The order of the numbers of one stem -/

theorem render_lt (stem : String) {n m : Nat} (hm : m < 1000000) (h : n < m) :
    render stem n < render stem m := by
  have six : n < 10 ^ 6 ∧ m < 10 ^ 6 := by omega
  rw [String.lt_iff, render_toList, render_toList, Digits.padded_eq_fixed (by omega) six.1,
    Digits.padded_eq_fixed (by omega) six.2]
  exact Digits.append_lt_append_left (Digits.fixed_lt (by omega) (by omega) six.2 h) _

/-- The first number of seven digits comes before the last one of six. -/
theorem render_million_lt (stem : String) :
    render stem 1000000 < render stem 999999 := by
  rw [String.lt_iff, render_toList, render_toList]
  exact Digits.append_lt_append_left (by decide) _

theorem render_inj {stem : String} {n m : Nat} (h : render stem n = render stem m) : n = m := by
  have hchars : Digits.padded 6 n = Digits.padded 6 m := by
    have hlists := congrArg String.toList h
    rw [render_toList, render_toList] at hlists
    exact List.append_cancel_left hlists
  have hn := Digits.decimal_padded 6 n
  rw [hchars, Digits.decimal_padded] at hn
  exact (Option.some.inj hn).symm

/-! ## The number after the numbers so far -/

section
variable {stem : String} {numbers : List String} {n : Nat}

/-- The table holds exactly the numbers `1 .. n` of the stem. -/
def Holds (stem : String) (numbers : List String) (n : Nat) : Prop :=
  ∀ number, number ∈ numbers.filter (fun t => stem.toList.isPrefixOf t.toList) ↔
    ∃ i, 1 ≤ i ∧ i ≤ n ∧ number = render stem i

theorem next_of_greatest
    (h : greatest (numbers.filter (fun t => (stem ++ "-").toList.isPrefixOf t.toList)) =
      some (render (stem ++ "-") n)) :
    next (stem ++ "-") numbers = .ok (render (stem ++ "-") (n + 1)) := by
  simp only [next, h, lastNumber_render]

/-- Up to six digits the numbers are counted on. -/
theorem next_holds (h : Holds (stem ++ "-") numbers n) (hn : n < 1000000) :
    next (stem ++ "-") numbers = .ok (render (stem ++ "-") (n + 1)) := by
  by_cases hzero : n = 0
  · subst hzero
    have hnone : numbers.filter (fun t => (stem ++ "-").toList.isPrefixOf t.toList) = [] := by
      refine List.eq_nil_iff_forall_not_mem.mpr (fun number hnumber => ?_)
      obtain ⟨i, hpos, hle, _⟩ := (h number).mp hnumber
      omega
    simp only [next, hnone, greatest]
  · refine next_of_greatest (greatest_eq ((h _).mpr ⟨n, by omega, Nat.le_refl n, rfl⟩) ?_)
    intro number hnumber
    obtain ⟨i, _, hle, rfl⟩ := (h number).mp hnumber
    rcases Nat.lt_or_eq_of_le hle with hlt | rfl
    · exact String.lt_asymm (render_lt _ hn hlt)
    · exact String.le_refl _

/-- From seven digits on they are not: the last number is given again. -/
theorem next_million (h : Holds (stem ++ "-") numbers 1000000) :
    next (stem ++ "-") numbers = .ok (render (stem ++ "-") 1000000) := by
  refine next_of_greatest (n := 999999) (greatest_eq ?_ ?_)
  · exact (h _).mpr ⟨999999, by omega, by omega, rfl⟩
  · intro number hnumber
    obtain ⟨i, _, hle, rfl⟩ := (h number).mp hnumber
    rcases Nat.lt_trichotomy i 999999 with hlt | rfl | hgt
    · exact String.lt_asymm (render_lt _ (by omega) hlt)
    · exact String.le_refl _
    · have hlast : i = 1000000 := by omega
      rw [hlast]
      exact String.lt_asymm (render_million_lt _)

theorem holds_nil (stem : String) : Holds stem [] 0 := by
  intro number
  constructor
  · intro hnumber
    cases hnumber
  · rintro ⟨i, hpos, hle, _⟩
    omega

theorem Holds.mem (h : Holds stem numbers n) {i : Nat} (pos : 1 ≤ i) (hle : i ≤ n) :
    render stem i ∈ numbers :=
  (List.mem_filter.mp ((h (render stem i)).mpr ⟨i, pos, hle, rfl⟩)).1

theorem Holds.not_mem_next (h : Holds stem numbers n) : render stem (n + 1) ∉ numbers := by
  intro hmem
  obtain ⟨i, _, hle, heq⟩ :=
    (h _).mp (List.mem_filter.mpr ⟨hmem, stem_isPrefixOf stem (n + 1)⟩)
  have hi := render_inj heq
  omega

/-- If the next number is a new one, it was counted on. -/
theorem next_of_new (h : Holds (stem ++ "-") numbers n) (hn : n ≤ 1000000) {number : String}
    (hnext : next (stem ++ "-") numbers = .ok number) (new : number ∉ numbers) :
    n < 1000000 ∧ number = render (stem ++ "-") (n + 1) := by
  rcases Nat.lt_or_eq_of_le hn with below | rfl
  · rw [next_holds h below] at hnext
    exact ⟨below, (Except.ok.inj hnext).symm⟩
  · rw [next_million h] at hnext
    cases hnext
    exact absurd (h.mem (by omega) (Nat.le_refl _)) new

/-- The next number takes its own year one further and leaves the others. -/
theorem holds_snoc {kind : String} {count : Nat → Nat}
    (h : ∀ year, Holds (kind ++ Nat.repr year ++ "-") numbers (count year)) (own year : Nat) :
    Holds (kind ++ Nat.repr year ++ "-")
      (numbers ++ [render (kind ++ Nat.repr own ++ "-") (count own + 1)])
      (count year + if own = year then 1 else 0) := by
  intro number
  have hnew : number ∈ List.filter
        (fun t => (kind ++ Nat.repr year ++ "-").toList.isPrefixOf t.toList)
      [render (kind ++ Nat.repr own ++ "-") (count own + 1)] ↔
        number = render (kind ++ Nat.repr own ++ "-") (count own + 1) ∧ year = own := by
    rw [List.mem_filter, List.mem_singleton]
    refine and_congr_right (fun hnumber => ?_)
    rw [hnumber]
    exact isPrefixOf_render_iff kind year own _
  rw [List.filter_append, List.mem_append, h year number, hnew]
  by_cases hyear : own = year
  · subst hyear
    rw [if_pos rfl]
    constructor
    · rintro (⟨i, hpos, hle, rfl⟩ | ⟨rfl, _⟩)
      · exact ⟨i, hpos, by omega, rfl⟩
      · exact ⟨_, by omega, Nat.le_refl _, rfl⟩
    · rintro ⟨i, hpos, hle, rfl⟩
      rcases Nat.lt_or_eq_of_le hle with hlt | rfl
      · exact Or.inl ⟨i, hpos, by omega, rfl⟩
      · exact Or.inr ⟨rfl, rfl⟩
  · rw [if_neg hyear, Nat.add_zero]
    exact or_iff_left (fun hnumber => hyear hnumber.2.symm)

end

end Numbering
