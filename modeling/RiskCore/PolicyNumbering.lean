import RiskCore.Histories
import RiskCore.PolicySequence

/-!
# Policy numbers with and without the sequence

`create_policy` served again and again on a table without policies: with the
sequence, which counts all creations, and on any other database, where each year
counts its own. The two give the same numbers as long as the year stays the same.
-/

namespace PolicyNumbering

open Values PolicyService PolicyRecords PolicySequence

/-- `env.connection` is not looked at: the run says which database it is on. -/
structure Creation where
  env : Env
  data : PolicyData
  coverages : List CoverageData

/-- The year `generate_policy_number` reads off the clock. -/
def Creation.year (c : Creation) : Nat := (c.env.now 0).date.year

/-- `PolicyService.create_policy`. -/
def create (db : Store) (c : Creation) (connection : Connection) : Except PolicyError Store := do
  let customer ← getCustomer db c.data.customerId
  createPolicy db { c.env with connection := connection } customer c.data c.coverages

/-- The customers, and no policies. -/
def empty (customers : List Customer) : Store := ⟨customers, [], [], []⟩

/-- On PostgreSQL. A run of this step is a sequence of creations that all succeed. -/
def sequenceStep (s : Sequence × Store) (c : Creation) : Option (Sequence × Store) :=
  match s.1.nextval 0 with
  | some (value, sequence) =>
    ((create s.2 c (.postgresql value)).toOption).map (fun db => (sequence, db))
  | none => none

/-- On a database without sequences. -/
def fallbackStep (db : Store) (c : Creation) : Option Store := (create db c .other).toOption

def numbers (db : Store) : List String := db.policies.map Policy.policyNumber

/-- `POL-<year>-<n>`. -/
def number (year n : Nat) : String := Numbering.render ("POL-" ++ Nat.repr year ++ "-") n

def createdIn (creations : List Creation) (year : Nat) : Nat :=
  creations.countP (fun c => c.year = year)

/-! ## One creation -/

theorem generate_other {policies : List Policy} {year : Nat} {text : String}
    (h : generatePolicyNumber .other policies year = .ok text) :
    Numbering.next ("POL-" ++ Nat.repr year ++ "-") (policies.map Policy.policyNumber) =
      .ok text := by
  simp only [generatePolicyNumber] at h
  split at h
  · rename_i number hnext
    cases h
    exact hnext
  · cases h

theorem insertPolicy_new {policies policies' : List Policy} {policy : Policy}
    (h : insertPolicy policies policy = .ok policies') :
    policy.policyNumber ∉ policies.map Policy.policyNumber := by
  unfold insertPolicy at h
  split at h
  · cases h
  · split at h
    · cases h
    · rename_i unused
      intro used
      obtain ⟨old, hold, same⟩ := List.mem_map.mp used
      exact unused (List.any_eq_true.mpr ⟨old, hold, decide_eq_true same⟩)

/-- A creation that succeeds appends a row, and its number is a new one. -/
theorem create_ok {db db' : Store} {c : Creation} {connection : Connection}
    (h : create db c connection = .ok db') :
    ∃ text, generatePolicyNumber connection db.policies c.year = .ok text ∧
      text ∉ numbers db ∧ numbers db' = numbers db ++ [text] := by
  obtain ⟨customer, _, hcreate⟩ := Requests.bind_ok.mp h
  obtain ⟨text, policies, hgenerate, hinsert, rfl⟩ := createPolicy_steps hcreate
  refine ⟨text, hgenerate, insertPolicy_new hinsert, ?_⟩
  rw [(insertPolicy_ok hinsert).2]
  simp [numbers, Tables.insert, newPolicy]

theorem createdIn_snoc (creations : List Creation) (c : Creation) (year : Nat) :
    createdIn (creations ++ [c]) year =
      createdIn creations year + if c.year = year then 1 else 0 := by
  simp [createdIn, List.countP_append, List.countP_singleton]

theorem sequenceStep_some {s t : Sequence × Store} {c : Creation} (h : sequenceStep s c = some t) :
    t.1.last = s.1.last + 1 ∧ create s.2 c (.postgresql (s.1.last + 1)) = .ok t.2 := by
  simp only [sequenceStep, Sequence.nextval, Nat.add_zero] at h
  split at h
  · rename_i value sequence hnext
    split at hnext
    · cases hnext
      obtain ⟨db, hdb, rfl⟩ := Option.map_eq_some_iff.mp h
      exact ⟨rfl, Requests.toOption_some hdb⟩
    · cases hnext
  · cases h

/-! ## Runs -/

/-- The sequence gives the `n`-th creation the number `n`. -/
structure Counted (creations : List Creation) (s : Sequence × Store) : Prop where
  drawn : s.1.last = creations.length
  stored : (numbers s.2).length = creations.length
  reported : Histories.Reports (fun before c => number c.year before.length) creations
    (numbers s.2)

theorem counted_of_run {start : Store} (fresh : numbers start = []) {creations : List Creation}
    {s : Sequence × Store} (hrun : Runs.run sequenceStep (⟨0⟩, start) creations = some s) :
    Counted creations s := by
  induction creations using List.reverseRecOn generalizing s with
  | nil =>
    cases hrun
    refine ⟨rfl, congrArg List.length fresh, ?_⟩
    rw [fresh]
    exact Histories.reports_nil _
  | append_singleton creations c ih =>
    obtain ⟨before, hbefore, hstep⟩ := Runs.run_snoc.mp hrun
    obtain ⟨drawn, stored, reported⟩ := ih hbefore
    obtain ⟨hlast, hcreate⟩ := sequenceStep_some hstep
    obtain ⟨text, hgenerate, _, hnumbers⟩ := create_ok hcreate
    cases hgenerate
    refine ⟨?_, ?_, ?_⟩
    · rw [hlast, drawn, List.length_append, List.length_singleton]
    · rw [hnumbers, List.length_append, stored, List.length_append]
      rfl
    · have next := Histories.reports_snoc stored reported c
      rw [List.length_append, List.length_singleton, ← drawn] at next
      rw [hnumbers]
      exact next

/-- Without it the `n`-th creation of a year is given the number `n`. -/
structure CountedByYear (creations : List Creation) (db : Store) : Prop where
  below : ∀ year, createdIn creations year ≤ 1000000
  stored : (numbers db).length = creations.length
  holds : ∀ year, Numbering.Holds ("POL-" ++ Nat.repr year ++ "-") (numbers db)
    (createdIn creations year)
  reported : Histories.Reports (fun before c => number c.year (createdIn before c.year)) creations
    (numbers db)

theorem countedByYear_of_run {start : Store} (fresh : numbers start = [])
    {creations : List Creation} {db : Store}
    (hrun : Runs.run fallbackStep start creations = some db) : CountedByYear creations db := by
  induction creations using List.reverseRecOn generalizing db with
  | nil =>
    cases hrun
    refine ⟨fun year => Nat.zero_le _, congrArg List.length fresh, ?_, ?_⟩
    · rw [fresh]
      exact fun year => Numbering.holds_nil _
    · rw [fresh]
      exact Histories.reports_nil _
  | append_singleton creations c ih =>
    obtain ⟨before, hbefore, hstep⟩ := Runs.run_snoc.mp hrun
    obtain ⟨below, stored, holds, reported⟩ := ih hbefore
    obtain ⟨text, hgenerate, new, hnumbers⟩ := create_ok (Requests.toOption_some hstep)
    obtain ⟨room, rfl⟩ := Numbering.next_of_new (holds c.year) (below c.year)
      (generate_other hgenerate) new
    refine ⟨?_, ?_, ?_, ?_⟩
    · intro year
      rw [createdIn_snoc]
      by_cases hyear : c.year = year
      · subst hyear
        rw [if_pos rfl]
        omega
      · rw [if_neg hyear]
        exact below year
    · rw [hnumbers, List.length_append, stored, List.length_append]
      rfl
    · intro year
      rw [hnumbers, createdIn_snoc]
      exact Numbering.holds_snoc holds c.year year
    · have next := Histories.reports_snoc stored reported c
      rw [createdIn_snoc, if_pos rfl] at next
      rw [hnumbers]
      exact next

/-! ## The two backends side by side -/

theorem number_inj {year n m : Nat} : number year n = number year m ↔ n = m :=
  ⟨Numbering.render_inj, congrArg (number year)⟩

/-- A year has all the creations so far if they all fall in it. -/
theorem createdIn_eq_length_iff {creations : List Creation} {year : Nat} :
    creations.length = createdIn creations year ↔ ∀ c ∈ creations, c.year = year := by
  rw [eq_comm, createdIn, List.countP_eq_length]
  simp

theorem same_year_iff {creations : List Creation} :
    (∀ i c, creations[i]? = some c → ∀ d ∈ creations.take (i + 1), d.year = c.year) ↔
      ∀ c ∈ creations, ∀ d ∈ creations, c.year = d.year := by
  constructor
  · intro h c hc d hd
    cases creations with
    | nil => cases hc
    | cons first rest =>
      have withFirst : ∀ e ∈ first :: rest, first.year = e.year := by
        intro e he
        obtain ⟨i, hi⟩ := List.mem_iff_getElem?.mp he
        exact h i e hi first (by simp)
      exact (withFirst c hc).symm.trans (withFirst d hd)
  · intro h i c hi d hd
    exact h d (List.mem_of_mem_take hd) c (List.mem_of_getElem? hi)

/-- The sequence and the other path give the creations the same numbers exactly if
all of them fall in one year. -/
theorem numbers_agree_iff_one_year (customers : List Customer) (creations : List Creation)
    (s : Sequence × Store) (db : Store)
    (hsequence : Runs.run sequenceStep (⟨0⟩, empty customers) creations = some s)
    (hfallback : Runs.run fallbackStep (empty customers) creations = some db) :
    numbers s.2 = numbers db ↔ ∀ c ∈ creations, ∀ d ∈ creations, c.year = d.year := by
  have counted := counted_of_run rfl hsequence
  have byYear := countedByYear_of_run rfl hfallback
  rw [← same_year_iff,
    Histories.reports_eq_iff counted.reported byYear.reported counted.stored byYear.stored]
  refine forall_congr' (fun i => forall_congr' (fun c => imp_congr_right (fun _ => ?_)))
  rw [number_inj, createdIn_eq_length_iff]

def newYear : Date := ⟨2026, 1, 1, by decide⟩

/-- The `i`-th creation, on that day. -/
def exampleCreation (i : Nat) (day : Date) : Creation where
  env := { exampleEnv (10 * i) with now := fun _ => { exampleInstant 10 0 with date := day } }
  data := exampleData
  coverages := []

theorem two_in_one_year_agree : ∃ s db,
    Runs.run sequenceStep (⟨0⟩, empty [exampleCustomer])
      [exampleCreation 0 exampleDay, exampleCreation 1 exampleDay] = some s ∧
    Runs.run fallbackStep (empty [exampleCustomer])
      [exampleCreation 0 exampleDay, exampleCreation 1 exampleDay] = some db ∧
    numbers s.2 = numbers db := by
  obtain ⟨s, hs⟩ : ∃ s, Runs.run sequenceStep (⟨0⟩, empty [exampleCustomer])
      [exampleCreation 0 exampleDay, exampleCreation 1 exampleDay] = some s := ⟨_, rfl⟩
  obtain ⟨db, hdb⟩ : ∃ db, Runs.run fallbackStep (empty [exampleCustomer])
      [exampleCreation 0 exampleDay, exampleCreation 1 exampleDay] = some db := ⟨_, rfl⟩
  refine ⟨s, db, hs, hdb, (numbers_agree_iff_one_year _ _ s db hs hdb).mpr ?_⟩
  simp [exampleCreation, Creation.year]

/-- The first creation of 2026 is number 2 of the sequence and number 1 of its year. -/
theorem new_year_differs : ∃ s db,
    [exampleCreation 0 exampleDay, exampleCreation 1 newYear].Pairwise
      (fun c d => c.year ≤ d.year) ∧
    Runs.run sequenceStep (⟨0⟩, empty [exampleCustomer])
      [exampleCreation 0 exampleDay, exampleCreation 1 newYear] = some s ∧
    Runs.run fallbackStep (empty [exampleCustomer])
      [exampleCreation 0 exampleDay, exampleCreation 1 newYear] = some db ∧
    numbers s.2 = ["POL-2025-000001", "POL-2026-000002"] ∧
    numbers db = ["POL-2025-000001", "POL-2026-000001"] ∧ numbers s.2 ≠ numbers db := by
  refine ⟨_, _, ?_, rfl, rfl, rfl, rfl, ?_⟩
  · decide
  · decide

end PolicyNumbering
