import RiskCore.PolicyRecords

/-!
# The sequence behind the policy numbers

Migration `0002_policy_number_sequence` on PostgreSQL, and the calls of
`generate_policy_number` after it. The migration sets the sequence to the highest
counter in the table; from then on a number is drawn by `nextval`, outside all
transactions, so a creation that is rolled back does not give its number back.
-/

namespace PolicySequence

open Values PolicyService

/-! ## PostgreSQL -/

/-- `SPLIT_PART(text, '-', n)`. -/
def splitPart (text : String) (n : Nat) : List Char :=
  (text.toList.splitOn '-').getD (n - 1) []

/-- `CAST(text AS INTEGER)`; signs and blanks, which it allows, do not occur. -/
def castInteger (text : List Char) : Option Nat :=
  match Digits.decimal text with
  | some n => if n < 2 ^ 31 then some n else none
  | none => none

/-- `COALESCE(MAX(...), 0)`. -/
def maxOrZero (values : List Nat) : Nat := values.foldr max 0

/-- `last` is the value handed out last, or set. -/
structure Sequence where
  last : Nat
deriving DecidableEq

/-- `setval(sequence, value)`; the least value of a sequence is 1. -/
def setval (value : Nat) : Option Sequence :=
  if value < 1 then none else some ⟨value⟩

/-- `nextval(sequence)`, with the values that were lost in a crash; it raises at
the end of `bigint`. -/
def Sequence.nextval (s : Sequence) (lost : Nat) : Option (Nat × Sequence) :=
  let value := s.last + 1 + lost
  if value < 2 ^ 63 then some (value, ⟨value⟩) else none

/-! ## The migration and the calls after it -/

/-- `create_sequence`; `none` where a statement raises. -/
def createSequence (policies : List Policy) : Option Sequence := do
  let counters ← policies.mapM (fun policy => castInteger (splitPart policy.policyNumber 3))
  setval (maxOrZero counters)

/-- A creation that has drawn its number is committed or rolled back later. -/
inductive Phase where
  | idle
  | numbered (number : String)
  | done

/-- `issued` is the history of the numbers returned. -/
structure State where
  sequence : Sequence
  policies : List Policy
  calls : Nat → Phase
  issued : List String

inductive Action where
  | generate (n : Nat) (now : DateTime) (lost : Nat)
  | commit (n : Nat) (env : Env) (customer : Customer) (data : PolicyData)
  | abort (n : Nat)

def start (sequence : Sequence) (policies : List Policy) : State :=
  ⟨sequence, policies, fun _ => .idle, []⟩

def step (s : State) : Action → Option State
  | .generate n now lost =>
    match s.calls n with
    | .idle =>
      match s.sequence.nextval lost with
      | some (value, sequence) =>
        match generatePolicyNumber (.postgresql value) s.policies now.date.year with
        | .ok number =>
          some { s with
            sequence := sequence
            calls := Function.update s.calls n (.numbered number)
            issued := s.issued ++ [number] }
        | .error _ => none
      | none => some { s with calls := Function.update s.calls n .done }
    | _ => none
  | .commit n env customer data =>
    match s.calls n with
    | .numbered number =>
      match insertPolicy s.policies (newPolicy env customer number data) with
      | .ok policies =>
        some { s with policies := policies, calls := Function.update s.calls n .done }
      | .error _ => some { s with calls := Function.update s.calls n .done }
    | _ => none
  | .abort n => some { s with calls := Function.update s.calls n .done }

/-! ## Counters -/

/-- `POL-<year>-<n>`; the numeral may be padded or not. -/
def Numbered (number : String) (n : Nat) : Prop :=
  ∃ year counter, Digits.decimal counter = some n ∧
    number = "POL-" ++ Nat.repr year ++ "-" ++ String.ofList counter

/-- A table of numbers `POL-<year>-<n>` with `1 ≤ n < 2^31`. -/
def WellNumbered (policies : List Policy) : Prop :=
  ∀ policy ∈ policies, ∃ n, 1 ≤ n ∧ n < 2 ^ 31 ∧ Numbered policy.policyNumber n

theorem decimal_digits {cs : List Char} {n : Nat} (h : Digits.decimal cs = some n) :
    ∀ c ∈ cs, c.isDigit = true := by
  unfold Digits.decimal at h
  split at h
  · rename_i digits
    exact List.all_eq_true.mp digits.2
  · cases h

theorem dash_not_digit {cs : List Char} (h : ∀ c ∈ cs, c.isDigit = true) : '-' ∉ cs := by
  intro hmem
  exact absurd (h '-' hmem) (by decide)

theorem Numbered.lastNumber {number : String} {n : Nat} (h : Numbered number n) :
    Numbering.lastNumber number = .ok n := by
  obtain ⟨year, counter, hcounter, rfl⟩ := h
  have hpart := Numbering.lastPart_append ("POL-" ++ Nat.repr year)
    (dash_not_digit (decimal_digits hcounter))
  simp only [Numbering.lastNumber, hpart, Texts.int_of_decimal hcounter]

theorem Numbered.splitPart {number : String} {n : Nat} (h : Numbered number n)
    (small : n < 2 ^ 31) :
    castInteger (splitPart number 3) = some n := by
  obtain ⟨year, counter, hcounter, rfl⟩ := h
  have hparts : ("POL-" ++ Nat.repr year ++ "-" ++ String.ofList counter).toList.splitOn '-' =
      [['P', 'O', 'L'], Nat.toDigits 10 year, counter] := by
    have hchars : ("POL-" ++ Nat.repr year ++ "-" ++ String.ofList counter).toList =
        ['P', 'O', 'L'] ++ '-' :: (Nat.toDigits 10 year ++ '-' :: counter) := by
      simp [Nat.repr]
    rw [hchars, List.splitOn_append_cons_self_of_not_mem (by decide),
      List.splitOn_append_cons_self_of_not_mem (Digits.not_mem_toDigits (by decide) year),
      List.splitOn_eq_singleton (dash_not_digit (decimal_digits hcounter))]
  have hpart : PolicySequence.splitPart
      ("POL-" ++ Nat.repr year ++ "-" ++ String.ofList counter) 3 = counter := by
    rw [PolicySequence.splitPart, hparts]
    rfl
  simp only [hpart, castInteger, hcounter, if_pos small]

/-! ## The migration -/

theorem le_maxOrZero {values : List Nat} {n : Nat} (h : n ∈ values) : n ≤ maxOrZero values := by
  induction values with
  | nil => cases h
  | cons value rest ih =>
    rcases List.mem_cons.mp h with rfl | hrest
    · exact Nat.le_max_left _ _
    · exact Nat.le_trans (ih hrest) (Nat.le_max_right _ _)

/-- The migration finds the counter of every number in the table. -/
theorem counters_found {policies : List Policy} (h : WellNumbered policies) :
    ∃ counters, policies.mapM (fun policy => castInteger (splitPart policy.policyNumber 3)) =
        some counters ∧
      ∀ policy ∈ policies, ∃ n ∈ counters, 1 ≤ n ∧ Numbered policy.policyNumber n := by
  induction policies with
  | nil => exact ⟨[], rfl, by simp⟩
  | cons policy rest ih =>
    obtain ⟨n, pos, small, numbered⟩ := h policy List.mem_cons_self
    obtain ⟨counters, hcounters, found⟩ := ih (fun p hp => h p (List.mem_cons_of_mem _ hp))
    refine ⟨n :: counters, ?_, ?_⟩
    · simp [List.mapM_cons, numbered.splitPart small, hcounters]
    · intro p hp
      rcases List.mem_cons.mp hp with rfl | hrest
      · exact ⟨n, List.mem_cons_self, pos, numbered⟩
      · obtain ⟨m, hm, hpos, hnumbered⟩ := found p hrest
        exact ⟨m, List.mem_cons_of_mem _ hm, hpos, hnumbered⟩

/-- It sets the sequence to the highest of them, if there is one. -/
theorem createSequence_some {policies : List Policy} (h : WellNumbered policies)
    (nonempty : policies ≠ []) :
    ∃ sequence, createSequence policies = some sequence ∧
      ∀ policy ∈ policies, ∃ n, n ≤ sequence.last ∧ Numbered policy.policyNumber n := by
  obtain ⟨counters, hcounters, found⟩ := counters_found h
  obtain ⟨first, hfirst⟩ := List.exists_mem_of_ne_nil policies nonempty
  obtain ⟨n, hn, pos, _⟩ := found first hfirst
  have raised : ¬ maxOrZero counters < 1 := by
    have hle := le_maxOrZero hn
    omega
  refine ⟨⟨maxOrZero counters⟩, ?_, ?_⟩
  · simp only [createSequence, hcounters, bind, Option.bind_some, setval, if_neg raised]
  · intro policy hpolicy
    obtain ⟨m, hm, _, numbered⟩ := found policy hpolicy
    exact ⟨m, le_maxOrZero hm, numbered⟩

/-- On an empty table the highest counter is taken to be 0, which is no value of
the sequence. -/
theorem createSequence_empty : createSequence [] = none := rfl

/-! ## The numbers after it -/

/-- The numbers returned carry counters of their own above `base`. -/
structure Fresh (base : Nat) (s : State) : Prop where
  reached : base ≤ s.sequence.last
  counted : ∀ number ∈ s.issued, ∃ n, Numbering.lastNumber number = .ok n ∧ base < n ∧
    n ≤ s.sequence.last
  nodup : s.issued.Nodup

theorem fresh_start (sequence : Sequence) (policies : List Policy) :
    Fresh sequence.last (start sequence policies) where
  reached := Nat.le_refl _
  counted := by
    intro number hnumber
    cases hnumber
  nodup := List.nodup_nil

theorem Fresh.other {base : Nat} {s : State} (h : Fresh base s) (policies : List Policy)
    (calls : Nat → Phase) : Fresh base { s with policies := policies, calls := calls } :=
  ⟨h.reached, h.counted, h.nodup⟩

theorem Fresh.issue {base : Nat} {s : State} (h : Fresh base s) {lost value : Nat}
    {sequence : Sequence} (drawn : s.sequence.nextval lost = some (value, sequence)) (year : Nat)
    (calls : Nat → Phase) :
    Fresh base { s with
      sequence := sequence
      calls := calls
      issued := s.issued ++ [Numbering.render ("POL-" ++ Nat.repr year ++ "-") value] } := by
  have hreached := h.reached
  have hread := Numbering.lastNumber_render ("POL-" ++ Nat.repr year) value
  simp only [Sequence.nextval] at drawn
  split at drawn
  · cases drawn
    refine ⟨?_, ?_, ?_⟩
    · change base ≤ s.sequence.last + 1 + lost
      omega
    · refine Tables.forall_insert ?_ ⟨_, hread, by omega, Nat.le_refl _⟩
      intro number hnumber
      obtain ⟨n, hn, above, below⟩ := h.counted number hnumber
      refine ⟨n, hn, above, ?_⟩
      change n ≤ s.sequence.last + 1 + lost
      omega
    · refine List.nodup_append.mpr ⟨h.nodup, List.nodup_singleton _, ?_⟩
      intro number hnumber new hnew hsame
      obtain ⟨n, hn, _, below⟩ := h.counted number hnumber
      rw [hsame, List.mem_singleton.mp hnew, hread] at hn
      cases hn
      omega
  · cases drawn

theorem fresh_step (base : Nat) : Runs.Inductive step (Fresh base) := by
  intro s a t hs h
  cases a with
  | generate n now lost =>
    simp only [step] at h
    split at h
    · split at h
      · rename_i value sequence drawn
        cases h
        exact hs.issue drawn now.date.year _
      · cases h
        exact hs.other s.policies _
    · cases h
  | commit n env customer data =>
    simp only [step] at h
    split at h
    · split at h
      · cases h
        exact hs.other _ _
      · cases h
        exact hs.other s.policies _
    · cases h
  | abort n =>
    cases h
    exact hs.other s.policies _

/-- The migration completes, and afterwards no number is returned that was stored
before it or returned earlier. -/
def Safe (policies : List Policy) : Prop :=
  ∃ sequence, createSequence policies = some sequence ∧
    ∀ as t, Runs.run step (start sequence policies) as = some t →
      t.issued.Nodup ∧ ∀ policy ∈ policies, policy.policyNumber ∉ t.issued

/-- The migration is safe on every table but the empty one. -/
theorem safe_iff_nonempty {policies : List Policy} (h : WellNumbered policies) :
    Safe policies ↔ policies ≠ [] := by
  constructor
  · rintro ⟨sequence, hcreated, _⟩ rfl
    rw [createSequence_empty] at hcreated
    cases hcreated
  · intro nonempty
    obtain ⟨sequence, hcreated, below⟩ := createSequence_some h nonempty
    refine ⟨sequence, hcreated, fun as t hrun => ?_⟩
    have fresh := (fresh_step sequence.last).run (fresh_start sequence policies) hrun
    refine ⟨fresh.nodup, ?_⟩
    intro policy hpolicy hissued
    obtain ⟨n, hle, numbered⟩ := below policy hpolicy
    obtain ⟨m, hm, above, _⟩ := fresh.counted _ hissued
    rw [numbered.lastNumber] at hm
    cases hm
    omega

open PolicyRecords

def exampleRow (base : Nat) (number : String) : Policy :=
  newPolicy (exampleEnv base) exampleCustomer number exampleData

/-- The highest counter is of an earlier year. -/
def exampleTable : List Policy :=
  [exampleRow 0 "POL-2024-000007", exampleRow 10 "POL-2024-000120",
    exampleRow 20 "POL-2025-000041"]

theorem exampleTable_safe : WellNumbered exampleTable ∧ Safe exampleTable ∧
    createSequence exampleTable = some ⟨120⟩ := by
  have formed : WellNumbered exampleTable := by
    simp only [WellNumbered, exampleTable, List.forall_mem_cons, List.not_mem_nil, false_implies,
      implies_true, and_true]
    exact ⟨⟨7, by decide, by decide, 2024, "000007".toList, rfl, rfl⟩,
      ⟨120, by decide, by decide, 2024, "000120".toList, rfl, rfl⟩,
      ⟨41, by decide, by decide, 2025, "000041".toList, rfl, rfl⟩⟩
  exact ⟨formed, (safe_iff_nonempty formed).mpr (by simp [exampleTable]), rfl⟩

/-- The first deployment migrates an empty table. -/
theorem emptyTable_unsafe : WellNumbered [] ∧ ¬ Safe [] := by
  refine ⟨List.forall_mem_nil _, ?_⟩
  rintro ⟨sequence, hcreated, _⟩
  rw [createSequence_empty] at hcreated
  cases hcreated

end PolicySequence
