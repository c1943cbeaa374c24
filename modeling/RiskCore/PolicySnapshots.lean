import RiskCore.PolicyRecords

/-!
# Policy events as snapshots of the row

Every payload is built from an object in memory. `create_policy` and
`cancel_policy` hold the row they write, but `update_policy` reports an object
read earlier while it writes only the columns it changes. Its event shows the
row exactly when the other reported columns have not moved since the read.
-/

namespace PolicySnapshots

open Values Outbox PolicyService PolicyRecords

variable {validate : Call → Except PolicyError Unit}

/-- The entries of `data` that report a column other than an identifier. -/
inductive Entry where
  | policyType
  | status
  | premiumAmount
  | startDate
  | endDate

def Entry.key : Entry → String
  | .policyType => "policy_type"
  | .status => "status"
  | .premiumAmount => "premium_amount"
  | .startDate => "start_date"
  | .endDate => "end_date"

abbrev Entry.column : Entry → Policy.Column
  | .policyType => .policyType
  | .status => .status
  | .premiumAmount => .premiumAmount
  | .startDate => .startDate
  | .endDate => .endDate

def Entry.render : (x : Entry) → x.column.Value → String
  | .policyType, v => Policy.PolicyType.value v
  | .status, v => Policy.Status.value v
  | .premiumAmount, v => Amount.str v
  | .startDate, v => Date.isoformat v
  | .endDate, v => Date.isoformat v

/-- The event shows the policy row. -/
def Describes (e : OutboxEvent) (policy : Policy) : Prop :=
  ∀ x : Entry, e.data? x.key = some (.str (x.render (policy.get x.column)))

theorem Entry.render_inj {x : Entry} {v w : x.column.Value} (h : x.render v = x.render w) :
    v = w := by
  cases x with
  | policyType =>
    revert h
    cases v <;> cases w <;> decide
  | status =>
    revert h
    cases v <;> cases w <;> decide
  | premiumAmount => exact Amount.str_inj h
  | startDate => exact Date.isoformat_inj h
  | endDate => exact Date.isoformat_inj h

theorem createdEvent_describes (env : Env) (n : Nat) (policy : Policy) :
    Describes (createdEvent env n policy) policy := by
  intro x
  cases x <;> rfl

theorem updatedEvent_describes (env : Env) (policy : Policy) :
    Describes (updatedEvent env policy) policy := by
  intro x
  cases x <;> rfl

theorem cancelledEvent_describes (env : Env) (policy : Policy) :
    Describes (cancelledEvent env policy) policy := by
  have absent : (baseData policy).lookup "cancellation_reason" = none := rfl
  intro x
  have hlookup : (cancelledEvent env policy).data? x.key =
      ((baseData policy).lookup x.key).or (if x.key = "cancellation_reason" then
        some (.str policy.cancellationReason) else none) :=
    Dict.lookup_set_new _ absent x.key
  rw [hlookup]
  cases x <;> rfl

/-- An event built from one object shows another exactly if they agree on the
reported columns: no two values are rendered alike. -/
theorem describes_other_iff {e : OutboxEvent} {policy row : Policy} (h : Describes e policy) :
    Describes e row ↔ ∀ x : Entry, policy.get x.column = row.get x.column := by
  constructor
  · intro hrow x
    have hsame := (h x).symm.trans (hrow x)
    exact Entry.render_inj (Json.str.inj (Option.some.inj hsame))
  · intro hsame x
    rw [h x, hsame x]

/-- Of the reported columns, a committing update that writes finds those it does
not change as it read them. -/
def ReportedAsRead (r : Record) (read : Policy) (data : Data) : Prop :=
  changedFields data ≠ [] →
    ∀ x : Entry, x.column ∈ changedFields data ∨ r.policy.get x.column = read.get x.column

theorem updated_describes_iff {env : Env} {r : Record} {read : Policy} {data : Data} :
    Describes (updatedEvent env (read.updated (env.now 0) data))
        (r.policy.saveFields (read.updated (env.now 0) data)
          (changedFields data ++ [.updatedAt])) ↔
      ∀ x : Entry, x.column ∈ changedFields data ∨
        r.policy.get x.column = read.get x.column := by
  rw [describes_other_iff (updatedEvent_describes env _)]
  refine forall_congr' (fun x => ?_)
  have notClock : x.column ≠ .updatedAt := by
    cases x <;> decide
  rw [Policy.get_saveFields]
  by_cases changed : x.column ∈ changedFields data
  · have saved : x.column ∈ changedFields data ++ [.updatedAt] :=
      mem_savedFields.mpr (Or.inl changed)
    rw [if_pos saved]
    exact iff_of_true rfl (Or.inl changed)
  · have notSaved : x.column ∉ changedFields data ++ [.updatedAt] := fun h =>
      (mem_savedFields.mp h).elim changed notClock
    rw [if_neg notSaved, get_updated notClock, if_neg changed, or_iff_right changed]
    exact eq_comm

/-! ## The last event of a policy -/

/-- The last event of the record shows its row. -/
def LatestDescribes (r : Record) : Prop :=
  ∀ e, r.events.getLast? = some e → Describes e r.policy

theorem latest_snoc {policy : Policy} {events : List OutboxEvent} {e : OutboxEvent} :
    LatestDescribes ⟨policy, events ++ [e]⟩ ↔ Describes e policy := by
  simp [LatestDescribes]

theorem latest_updated_iff {env : Env} {r : Record} {read : Policy} {data : Data}
    (h : LatestDescribes r) :
    LatestDescribes (r.updated env read data) ↔ ReportedAsRead r read data := by
  unfold Record.updated ReportedAsRead
  by_cases unchanged : changedFields data = []
  · rw [if_pos unchanged]
    exact iff_of_true h (fun changed => absurd unchanged changed)
  · rw [if_neg unchanged]
    exact (latest_snoc.trans updated_describes_iff).trans
      ⟨fun h _ => h, fun h => h unchanged⟩

/-! ## The events of one commit -/

/-- Every event a commit adds shows the row of its policy after the commit. -/
def EmitsSnapshots (db : Store) (c : Call) (_ : View c) (db' : Store) : Prop :=
  ∀ id r new, recordOf db' id = some r → r.events = eventsOf db.outbox id ++ new →
    ∀ e ∈ new, Describes e r.policy

theorem recordOf_events {db : Store} {id : UUID} {r : Record} (h : recordOf db id = some r) :
    r.events = eventsOf db.outbox id := by
  obtain ⟨policy, _, rfl⟩ := Option.map_eq_some_iff.mp h
  rfl

/-- A record that was there before and has not changed has no new events. -/
theorem no_new_events {db : Store} {id : UUID} {r : Record} {new : List OutboxEvent}
    (h : recordOf db id = some r) (happ : r.events = eventsOf db.outbox id ++ new) :
    new = [] := by
  rw [recordOf_events h] at happ
  simpa using happ

/-- Only the policy that a commit writes has new events to look at. -/
theorem emits_written_iff {db db' : Store} {c : Call} {v : View c} {id : UUID}
    {written : UUID → Option Record}
    (records : ∀ j, recordOf db' j = if j = id then written j else recordOf db j) :
    EmitsSnapshots db c v db' ↔ ∀ r, written id = some r → ∀ new,
      r.events = eventsOf db.outbox id ++ new → ∀ e ∈ new, Describes e r.policy := by
  have hiff := Tables.forall_written_iff (P := fun j r => ∀ new,
    r.events = eventsOf db.outbox j ++ new → ∀ e ∈ new, Describes e r.policy) records (by
      intro j r _ hr new happ e he
      rw [no_new_events hr happ] at he
      cases he)
  rw [← hiff]
  exact forall₂_congr (fun j r => forall_comm)

theorem emits_create {db db' : Store} {env : Env} {customer : Customer} {data : PolicyData}
    {coverages : List CoverageData} (hI : Integrity db)
    (h : createPolicy db env customer data coverages = .ok db') :
    EmitsSnapshots db (.create data coverages) customer db' := by
  obtain ⟨number, unknown, records⟩ := createPolicy_records hI h
  refine (emits_written_iff records).mpr ?_
  intro r hr new happ e he
  cases hr
  have hmem : e ∈ (createdRecord env coverages.length
      (newPolicy env customer number data)).events := by
    rw [happ]
    exact List.mem_append_right _ he
  rw [List.mem_singleton.mp hmem]
  exact createdEvent_describes env _ _

theorem emits_cancel {db db' : Store} {env : Env} {pk : UUID} {filters : PolicyFilters}
    {read : Policy} {reason : String} (h : cancelPolicy db env read reason = .ok db') :
    EmitsSnapshots db (.cancel pk filters reason) read db' := by
  obtain ⟨_, records⟩ := cancelPolicy_records h
  refine (emits_written_iff records).mpr ?_
  intro r hr new happ e he
  obtain ⟨old, hold, rfl⟩ := Option.map_eq_some_iff.mp hr
  rw [← recordOf_events hold] at happ
  have hnew : new = [cancelledEvent env (old.policy.cancelled (env.now 0) reason)] :=
    (List.append_cancel_left happ).symm
  rw [hnew] at he
  rw [List.mem_singleton.mp he]
  exact cancelledEvent_describes env _

theorem emits_update_iff {db db' : Store} {env : Env} {pk : UUID} {filters : PolicyFilters}
    {read : Policy} {data : Data} (h : updatePolicy db env read data = .ok db') {found : Record}
    (hfound : recordOf db read.id = some found) :
    EmitsSnapshots db (.update pk filters data) read db' ↔ ReportedAsRead found read data := by
  have hevents := recordOf_events hfound
  rw [emits_written_iff (updatePolicy_records h), hfound, Option.map_some]
  by_cases unchanged : changedFields data = []
  · have hrecord : found.updated env read data = found := if_pos unchanged
    refine iff_of_true ?_ (fun changed => absurd unchanged changed)
    intro r hr new happ e he
    cases hr
    rw [hrecord, hevents] at happ
    have hnew : new = [] := by simpa using happ
    rw [hnew] at he
    cases he
  · have hrecord : found.updated env read data =
        ⟨found.policy.saveFields (read.updated (env.now 0) data)
            (changedFields data ++ [.updatedAt]),
          found.events ++ [updatedEvent env (read.updated (env.now 0) data)]⟩ := if_neg unchanged
    rw [hrecord]
    constructor
    · intro hall _
      refine updated_describes_iff.mp (hall _ rfl [updatedEvent env _] ?_ _ List.mem_cons_self)
      rw [hevents]
    · intro hread r hr new happ e he
      cases hr
      rw [← hevents] at happ
      have hnew : new = [updatedEvent env (read.updated (env.now 0) data)] :=
        (List.append_cancel_left happ).symm
      rw [hnew] at he
      rw [List.mem_singleton.mp he]
      exact updated_describes_iff.mpr (hread unchanged)

theorem emits_iff (validate : Call → Except PolicyError Unit) (customers : List Customer)
    (as : List Action) :
    Runs.Steps (step validate) (Requests.OnCommit (service validate) EmitsSnapshots)
        (init customers) as ↔
      Runs.Steps (step validate) (Requests.OnCommit (service validate) (OnUpdate ReportedAsRead))
        (init customers) as := by
  refine Requests.steps_onCommit_congr (coherent validate) ?_ (coherent_start _)
  intro db env c v db' hI hK hpass hc
  cases c with
  | create data coverages => exact iff_of_true (emits_create hI hc) trivial
  | cancel pk filters reason => exact iff_of_true (emits_cancel hc) trivial
  | update pk filters data =>
    obtain ⟨_, found, hfound, _⟩ := hK
    rw [emits_update_iff hc hfound]
    constructor
    · intro h r hr
      cases hfound.symm.trans hr
      exact h
    · exact fun h => h found hfound

theorem latest_iff (validate : Call → Except PolicyError Unit) (customers : List Customer)
    (as : List Action) :
    Runs.Always (step validate) (fun s => AllRecords LatestDescribes s.db) (init customers) as ↔
      Runs.Steps (step validate) (Requests.OnCommit (service validate) (OnUpdate ReportedAsRead))
        (init customers) as := by
  refine always_allRecords_iff ?_ ?_ ?_ ?_ as
  · intro env n customer number data coverages _
    exact (@latest_snoc _ [] _).mpr (createdEvent_describes env n _)
  · intro env r reason _
    exact latest_snoc.mpr (cancelledEvent_describes env _)
  · intro env r read pk filters data hR _ _
    exact latest_updated_iff hR
  · intro id r hr
    cases hr

/-- Every event of a run shows its policy's row at the commit iff every update
that writes finds the other reported columns as it read them; and under the same
condition, and no weaker one, the last event of every policy always shows its
row. -/
theorem snapshots_iff_reported_as_read (validate : Call → Except PolicyError Unit)
    (customers : List Customer) (as : List Action) :
    (Runs.Steps (step validate) (Requests.OnCommit (service validate) EmitsSnapshots)
        (init customers) as ↔
      Runs.Steps (step validate) (Requests.OnCommit (service validate) (OnUpdate ReportedAsRead))
        (init customers) as) ∧
    (Runs.Always (step validate) (fun s => AllRecords LatestDescribes s.db) (init customers) as ↔
      Runs.Steps (step validate) (Requests.OnCommit (service validate) (OnUpdate ReportedAsRead))
        (init customers) as) :=
  ⟨emits_iff validate customers as, latest_iff validate customers as⟩

/-- One request changes the premium, another the type; both read the policy
first. -/
def crossingUpdates : List Action :=
  exampleCreation ++ exampleRead 1 (exampleUpdate (premiumOnly examplePremium)) ++
    exampleRead 2 (exampleUpdate (typeOnly .home)) ++ exampleCommit 1 ++ exampleCommit 2

theorem crossingUpdates_misreport :
    ¬ Runs.Steps (step serializers) (Requests.OnCommit (service serializers) EmitsSnapshots)
        (init [exampleCustomer]) crossingUpdates ∧
      ¬ Runs.Always (step serializers) (fun s => AllRecords LatestDescribes s.db)
        (init [exampleCustomer]) crossingUpdates := by
  have stale : ¬ Runs.Always (step serializers) (fun s => AllRecords LatestDescribes s.db)
      (init [exampleCustomer]) crossingUpdates := by
    refine not_always_records
      (fun r =>
        (r.events.getLast?.bind (fun e => e.data? "premium_amount"), r.policy.premiumAmount))
      (b := (some (.str "350.00"), examplePremium)) rfl ?_
    intro r hr h
    obtain ⟨hreported, hrow⟩ := Prod.mk.inj hr
    obtain ⟨e, he, hdata⟩ := Option.bind_eq_some_iff.mp hreported
    have hshown : e.data? "premium_amount" = some (.str (Amount.str r.policy.premiumAmount)) :=
      h e he .premiumAmount
    rw [hrow] at hshown
    have hsame := Json.str.inj (Option.some.inj (hdata.symm.trans hshown))
    revert hsame
    decide
  exact ⟨fun h => stale ((latest_iff _ _ _).mpr ((emits_iff _ _ _).mp h)), stale⟩

end PolicySnapshots
