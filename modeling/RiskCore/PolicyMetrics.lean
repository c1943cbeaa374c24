import RiskCore.PolicySnapshots
import RiskCore.Projections
import RiskCore.Tallies
import RiskCore.Trails

/-!
# The policy metrics and the trail of events

`get_metrics` reads the policy table. How many policies are active is also the
number created less the number cancelled; and where updates commit as read, the
figures can be computed from the last event of every policy alone.
-/

namespace PolicyMetrics

open Values Outbox Trails PolicyService PolicyRecords PolicySnapshots

/-- `Policy.PolicyType.values`. -/
def typeValues : List String := ["LIFE", "HEALTH", "AUTO", "HOME", "BUSINESS"]

/-- The characters of an amount of any size. -/
def amountChars (cents : Int) : List Char :=
  (if cents < 0 then ['-'] else []) ++
    (Nat.toDigits 10 (cents.natAbs / 100) ++ '.' :: Digits.fixed 10 2 (cents.natAbs % 100))

structure Metrics where
  activePolicies : Nat
  policiesToday : Nat
  policiesByType : List (String × Nat)
  totalPremiumActive : String
deriving DecidableEq

def isActive (policy : Policy) : Bool := policy.status = .active

/-- Each query sees what is committed when it runs: the grouped one, the sum, the
two counts. The sum is exact, and zero where there is no row. -/
def getMetrics (today : Date) (grouped summed counted created : Store) : Metrics where
  activePolicies := (counted.policies.filter isActive).length
  policiesToday := created.policies.countP (fun p => p.createdAt.date = today)
  policiesByType := Tallies.tally typeValues (fun p => p.policyType.value)
    (grouped.policies.filter isActive)
  totalPremiumActive := String.ofList (amountChars
    ((summed.policies.filter isActive).map (fun p => p.premiumAmount.cents)).sum)

/-! ## What the events say -/

def isCreated (e : String × Json) : Bool := e.1 = "policy.created"

def isCancelled (e : String × Json) : Bool := e.1 = "policy.cancelled"

structure Follows (m : Metrics) (trail : Trail) : Prop where
  activePolicies : m.activePolicies + trail.countP isCancelled = trail.countP isCreated
  byType : (m.policiesByType.map Prod.snd).sum = m.activePolicies

/-- Digits, a point, digits, in hundredths. -/
def unsignedCents (cs : List Char) : Option Nat :=
  match cs.dropWhile (fun c => c ≠ '.') with
  | _ :: cents => do
    let units ← Digits.decimal (cs.takeWhile (fun c => c ≠ '.'))
    let cents ← Digits.decimal cents
    some (units * 100 + cents)
  | [] => none

/-- The number such a text with or without a sign stands for. -/
def centsOf (text : String) : Option Int :=
  match text.toList with
  | '-' :: cs => (unsignedCents cs).map (fun n : Nat => -(n : Int))
  | cs => (unsignedCents cs).map (fun n : Nat => (n : Int))

/-- What the figures take from a policy. -/
structure Shown where
  status : String
  policyType : String
  cents : Int
deriving DecidableEq

def shown (policy : Policy) : Shown :=
  ⟨policy.status.value, policy.policyType.value, policy.premiumAmount.cents⟩

def shownBy (e : OutboxEvent) : Option Shown := do
  let status ← said e.payload "status"
  let policyType ← said e.payload "policy_type"
  let premium ← said e.payload "premium_amount"
  let cents ← centsOf premium
  some ⟨status, policyType, cents⟩

/-- The figures that do not ask for the day. -/
structure Figures where
  activePolicies : Nat
  policiesByType : List (String × Nat)
  totalPremiumActive : String
deriving DecidableEq

def Metrics.figures (m : Metrics) : Figures :=
  ⟨m.activePolicies, m.policiesByType, m.totalPremiumActive⟩

def figuresOf (policies : List Shown) : Figures :=
  let active := policies.filter (fun p => p.status = Policy.Status.active.value)
  ⟨active.length, Tallies.tally typeValues Shown.policyType active,
    String.ofList (amountChars (active.map Shown.cents).sum)⟩

/-- The figures from the last event of each policy. -/
def replayed (outbox : List OutboxEvent) : Figures :=
  figuresOf ((Projections.latest OutboxEvent.aggregateId outbox).filterMap shownBy)

/-! ## Reading an amount back -/

theorem unsignedCents_chars (n : Nat) : unsignedCents
    (Nat.toDigits 10 (n / 100) ++ '.' :: Digits.fixed 10 2 (n % 100)) = some n := by
  have noPoint : ∀ c ∈ Nat.toDigits 10 (n / 100), decide (c ≠ '.') = true := by
    intro c hc
    refine decide_eq_true (fun hpoint => ?_)
    subst hpoint
    exact Digits.not_mem_toDigits (by decide) (n / 100) hc
  have units : Digits.decimal (Nat.toDigits 10 (n / 100)) = some (n / 100) := by
    have hpadded := Digits.decimal_padded 0 (n / 100)
    rwa [Digits.padded, Nat.zero_sub, List.replicate_zero, List.nil_append] at hpadded
  have cents : Digits.decimal (Digits.fixed 10 2 (n % 100)) = some (n % 100) := by
    rw [← Digits.padded_eq_fixed (by omega) (by omega)]
    exact Digits.decimal_padded 2 (n % 100)
  rw [unsignedCents, List.dropWhile_append_of_pos noPoint, List.takeWhile_append_of_pos noPoint]
  simp only [ne_eq, not_true_eq_false, decide_false, Bool.false_eq_true, not_false_eq_true,
    List.dropWhile_cons_of_neg, List.takeWhile_cons_of_neg, List.append_nil, units, cents,
    Option.bind_eq_bind, Option.bind_some]
  have hdivmod := Nat.div_add_mod n 100
  exact congrArg some (by omega)

theorem centsOf_str (a : Amount) : centsOf a.str = some a.cents := by
  have hchars : a.str.toList = a.chars := String.toList_ofList
  rw [centsOf, hchars, Amount.chars]
  by_cases negative : a.cents < 0
  · rw [if_pos negative, List.singleton_append]
    have value : -(a.cents.natAbs : Int) = a.cents := by omega
    simp only [unsignedCents_chars, Option.map_some, value]
  · rw [if_neg negative, List.nil_append]
    split
    · rename_i cs hcs
      exact absurd hcs.symm not_signed
    · have value : (a.cents.natAbs : Int) = a.cents := by omega
      rw [unsignedCents_chars, Option.map_some, value]

theorem shownBy_of_describes {e : OutboxEvent} {policy : Policy} (h : Describes e policy) :
    shownBy e = some (shown policy) := by
  have status := said_of_data (h .status)
  have policyType := said_of_data (h .policyType)
  have premium := said_of_data (h .premiumAmount)
  simp only [Entry.key, Entry.render, Policy.get] at status policyType premium
  simp [shownBy, status, policyType, premium, centsOf_str, shown]

/-! ## The figures of the rows -/

theorem value_mem (t : Policy.PolicyType) : t.value ∈ typeValues := by
  cases t <;> decide

theorem status_value_inj {s t : Policy.Status} : s.value = t.value ↔ s = t := by
  cases s <;> cases t <;> decide

theorem filter_shown (policies : List Policy) :
    (policies.map shown).filter (fun p => p.status = Policy.Status.active.value) =
      (policies.filter isActive).map shown := by
  rw [List.filter_map]
  refine congrArg (List.map shown) (List.filter_congr (fun p _ => ?_))
  simp [shown, isActive, status_value_inj]

theorem figures_getMetrics (today : Date) (db : Store) :
    (getMetrics today db db db db).figures = figuresOf (db.policies.map shown) := by
  have tallies : Tallies.tally typeValues Shown.policyType
        ((db.policies.filter isActive).map shown) =
      Tallies.tally typeValues (fun p => p.policyType.value) (db.policies.filter isActive) := by
    rw [Tallies.tally_eq, Tallies.tally_eq (fun p _ => value_mem p.policyType)]
    · refine List.map_congr_left (fun k _ => ?_)
      simp only [Tallies.count, List.countP_map]
      rfl
    · intro p hp
      obtain ⟨policy, _, rfl⟩ := List.mem_map.mp hp
      exact value_mem policy.policyType
  simp only [figuresOf, filter_shown, tallies, List.length_map, List.map_map]
  rfl

/-- The order of the policies does not matter to the figures. -/
theorem figuresOf_perm {policies policies' : List Shown} (perm : policies.Perm policies')
    (covered : ∀ p ∈ policies', p.policyType ∈ typeValues) :
    figuresOf policies = figuresOf policies' := by
  have active := perm.filter (fun p => p.status = Policy.Status.active.value)
  have covered' : ∀ p ∈ policies'.filter (fun p => p.status = Policy.Status.active.value),
      p.policyType ∈ typeValues := fun p hp => covered p (List.mem_of_mem_filter hp)
  have tallies : Tallies.tally typeValues Shown.policyType
      (policies.filter (fun p => p.status = Policy.Status.active.value)) =
        Tallies.tally typeValues Shown.policyType
          (policies'.filter (fun p => p.status = Policy.Status.active.value)) := by
    rw [Tallies.tally_eq covered', Tallies.tally_eq (fun p hp => covered' p (active.mem_iff.mp hp))]
    refine List.map_congr_left (fun k _ => ?_)
    rw [Tallies.count, Tallies.count, active.countP_eq]
  simp only [figuresOf, active.length_eq, tallies, (active.map Shown.cents).sum_eq]

/-! ## Created less cancelled -/

section
variable {validate : Call → Except PolicyError Unit}

/-- Nothing but a cancellation moves a policy out of ACTIVE. -/
structure Counted (db : Store) : Prop where
  unique : (db.policies.map Policy.id).Nodup
  statuses : ∀ p ∈ db.policies, p.status = .active ∨ p.status = .cancelled
  flow : db.policies.countP (fun p => p.status = .active) +
    (trailOf db.outbox).countP isCancelled = (trailOf db.outbox).countP isCreated

theorem counted_create {db db' : Store} {env : Env} {customer : Customer} {data : PolicyData}
    {coverages : List CoverageData} (h : Counted db)
    (hc : createPolicy db env customer data coverages = .ok db') : Counted db' := by
  obtain ⟨number, fresh, rfl⟩ := createPolicy_ok hc
  have status : (newPolicy env customer number data).status = .active := rfl
  refine ⟨Tables.insert_nodup h.unique fresh, ?_, ?_⟩
  · exact Tables.forall_insert h.statuses (Or.inl status)
  · have count := Tallies.countP_insert (fun p : Policy => p.status = .active) db.policies
      (newPolicy env customer number data)
    have created : (trailOf [createdEvent env coverages.length
        (newPolicy env customer number data)]).countP isCreated = 1 := rfl
    have cancelled : (trailOf [createdEvent env coverages.length
        (newPolicy env customer number data)]).countP isCancelled = 0 := rfl
    have before := h.flow
    rw [if_pos status] at count
    simp only [count, trail_append, List.countP_append, created, cancelled]
    omega

/-- Overwriting one row with another of the same identifier. -/
theorem counted_update {db : Store} (h : Counted db) {k : UUID} {row : Policy} {f : Policy → Policy}
    (found : Tables.find Policy.id db.policies k = some row)
    (keeps : ∀ p, Policy.id p = k → (f p).id = k)
    (status : (f row).status = .active ∨ (f row).status = .cancelled) :
    ((Tables.update Policy.id db.policies k f).map Policy.id).Nodup ∧
      (∀ p ∈ Tables.update Policy.id db.policies k f, p.status = .active ∨ p.status = .cancelled) ∧
      ((Tables.update Policy.id db.policies k f).countP (fun p => p.status = .active) +
          if row.status = .active then 1 else 0) =
        db.policies.countP (fun p => p.status = .active) +
          if (f row).status = .active then 1 else 0 := by
  refine ⟨?_, ?_, Tallies.countP_update (fun p => p.status = .active) h.unique found f⟩
  · rw [Tables.update_map_key keeps]
    exact h.unique
  · exact (Tables.forall_update_iff h.unique found h.statuses).mpr status

theorem saved_id (row read : Policy) (t : DateTime) (data : Data) :
    (row.saveFields (read.updated t data) (changedFields data ++ [.updatedAt])).id = row.id :=
  saveFields_id row (read.updated t data) (id_not_saved data)

theorem saved_status (row read : Policy) (t : DateTime) (data : Data) :
    (row.saveFields (read.updated t data) (changedFields data ++ [.updatedAt])).status =
      row.status := by
  have notSaved : Policy.Column.status ∉ changedFields data ++ [.updatedAt] := by
    rw [mem_savedFields]
    rintro (hc | hc)
    · exact absurd (mem_changedFields.mp hc).1 (by decide)
    · cases hc
  have kept := Policy.get_saveFields row (read.updated t data)
    (changedFields data ++ [.updatedAt]) .status
  rwa [if_neg notSaved] at kept

theorem counted_commit {db db' : Store} {env : Env} {c : Call} {v : View c} (h : Counted db)
    (hc : (service validate).commit db env c v = .ok db') : Counted db' := by
  have before := h.flow
  cases c with
  | create data coverages => exact counted_create h hc
  | update pk filters data =>
    rcases updatePolicy_ok hc with ⟨-, rfl⟩ | ⟨-, row, found, rfl⟩
    · exact h
    · obtain ⟨unique, statuses, count⟩ := counted_update h found
        (f := fun row => row.saveFields (Policy.updated v (env.now 0) data)
          (changedFields data ++ [.updatedAt]))
        (fun p hp => (saved_id p v (env.now 0) data).trans hp)
        (by rw [saved_status]; exact h.statuses row (Tables.find_mem found))
      refine ⟨unique, statuses, ?_⟩
      have created : (trailOf [updatedEvent env (Policy.updated v (env.now 0) data)]).countP
          isCreated = 0 := rfl
      have cancelled : (trailOf [updatedEvent env (Policy.updated v (env.now 0) data)]).countP
          isCancelled = 0 := rfl
      simp only [saved_status] at count
      simp only [trail_append, List.countP_append, created, cancelled]
      omega
  | cancel pk filters reason =>
    obtain ⟨locked, found, hid, cancelable, rfl⟩ := cancelPolicy_ok hc
    have active : locked.status = .active := by
      rcases h.statuses locked (Tables.find_mem found) with active | cancelled
      · exact active
      · rw [cancelled] at cancelable
        exact absurd cancelable (by decide)
    obtain ⟨unique, statuses, count⟩ := counted_update h found
      (f := fun row => row.saveFields (locked.cancelled (env.now 0) reason)
        [.status, .cancellationReason, .updatedAt])
      (fun p hp => hp) (Or.inr rfl)
    refine ⟨unique, statuses, ?_⟩
    have status : (locked.saveFields (locked.cancelled (env.now 0) reason)
        [.status, .cancellationReason, .updatedAt]).status ≠ .active := by
      rw [save_cancelled]
      exact fun h => by cases h
    have created : (trailOf [cancelledEvent env (locked.cancelled (env.now 0) reason)]).countP
        isCreated = 0 := rfl
    have cancelled : (trailOf [cancelledEvent env (locked.cancelled (env.now 0) reason)]).countP
        isCancelled = 1 := rfl
    rw [if_pos active, if_neg status] at count
    simp only [trail_append, List.countP_append, created, cancelled]
    omega

/-! ## The last event of each policy -/

/-- The event is about the policy and shows its row. -/
def Tells (e : OutboxEvent) (policy : Policy) : Prop :=
  e.aggregateId = policy.id ∧ Describes e policy

/-- The last events of the policies show their rows. -/
def Mirrored (db : Store) : Prop :=
  Projections.Mirrors OutboxEvent.aggregateId Tells db.outbox db.policies

theorem tells_about : ∀ e policy, Tells e policy → e.aggregateId = policy.id :=
  fun _ _ h => h.1

theorem mirrored_commit {db db' : Store} {env : Env} {c : Call} {v : View c} (hC : Counted db)
    (h : Mirrored db) (hc : (service validate).commit db env c v = .ok db')
    (asRead : OnUpdate ReportedAsRead db c v db') : Mirrored db' := by
  cases c with
  | create data coverages =>
    obtain ⟨number, fresh, rfl⟩ := createPolicy_ok hc
    exact h.insert tells_about ⟨rfl, createdEvent_describes env _ _⟩ fresh
  | update pk filters data =>
    rcases updatePolicy_ok hc with ⟨-, rfl⟩ | ⟨changed, row, found, rfl⟩
    · exact h
    · have hread := asRead _ (recordOf_found found) changed
      have about :
          (updatedEvent env (Policy.updated v (env.now 0) data)).aggregateId = Policy.id v :=
        updated_id v (env.now 0) data
      have kept : (row.saveFields (Policy.updated v (env.now 0) data)
          (changedFields data ++ [.updatedAt])).id = Policy.id v :=
        (saved_id row v (env.now 0) data).trans (Tables.find_key found)
      exact h.update tells_about hC.unique found ⟨about.trans kept.symm,
        (updated_describes_iff (r := ⟨row, eventsOf db.outbox (Policy.id v)⟩)).mpr hread⟩ kept
  | cancel pk filters reason =>
    obtain ⟨locked, found, hid, cancelable, rfl⟩ := cancelPolicy_ok hc
    refine h.update tells_about hC.unique found ⟨rfl, ?_⟩ hid
    rw [save_cancelled]
    exact cancelledEvent_describes env _

theorem replayed_eq {db : Store} (h : Mirrored db) (today : Date) :
    replayed db.outbox = (getMetrics today db db db db).figures := by
  rw [figures_getMetrics]
  refine figuresOf_perm ?_ ?_
  · exact h.filterMap_perm (fun e policy told => shownBy_of_describes told.2)
  · intro p hp
    obtain ⟨policy, _, rfl⟩ := List.mem_map.mp hp
    exact value_mem policy.policyType

theorem follows_of_counted {db : Store} (h : Counted db) (today : Date) :
    Follows (getMetrics today db db db db) (trailOf db.outbox) := by
  constructor
  · have count : (getMetrics today db db db db).activePolicies =
        db.policies.countP (fun p => p.status = .active) :=
      List.countP_eq_length_filter.symm
    rw [count]
    exact h.flow
  · exact Tallies.sum_tally (by decide) (fun p _ => value_mem p.policyType)

theorem coherent : Runs.Inductive (step validate)
    (Requests.Coherent (service validate) Counted (fun _ _ _ => True)) :=
  Requests.coherent_inductive (fun _ _ _ _ _ _ => trivial)
    (fun _ _ _ _ _ hC _ _ hc => ⟨counted_commit hC hc, fun _ _ _ => trivial⟩)

theorem counted_init (customers : List Customer) : Counted (init customers).db where
  unique := List.nodup_nil
  statuses := fun _ hp => absurd hp List.not_mem_nil
  flow := rfl

end

/-- In every state of a run the active policies are those created less those
cancelled and the types add up to them; and in a run whose updates commit as read
the figures are those of the last event of every policy. -/
theorem metrics_follow_events (validate : Call → Except PolicyError Unit)
    (customers : List Customer) (today : Date) (as : List Action) :
    Runs.Always (step validate) (fun s => Follows (getMetrics today s.db s.db s.db s.db)
        (trailOf s.db.outbox)) (init customers) as ∧
    (Runs.Steps (step validate) (Requests.OnCommit (service validate) (OnUpdate ReportedAsRead))
        (init customers) as →
      Runs.Always (step validate) (fun s => replayed s.db.outbox =
        (getMetrics today s.db s.db s.db s.db).figures) (init customers) as) := by
  have start : Requests.Coherent (service validate) Counted (fun _ _ _ => True) (init customers) :=
    Requests.coherent_init (counted_init customers)
  refine ⟨?_, fun asRead => ?_⟩
  · exact (Runs.always_of_inductive coherent start).mono
      (fun s h => follows_of_counted h.db today)
  · have mirrored : Runs.Always (step validate) (fun s => Mirrored s.db) (init customers) as := by
      refine Runs.always_of_steps coherent (fun s a t hs hM hst hC => ?_) start ⟨[], .nil, .nil⟩
        asRead
      refine Requests.step_keeps_db (P := Mirrored) ?_ hs hM hst hC
      exact fun db env c v db' hCounted _ _ hM hc hread => mirrored_commit hCounted hM hc hread
    exact mirrored.mono (fun s h => replayed_eq h today)

end PolicyMetrics
