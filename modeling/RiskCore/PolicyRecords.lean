import RiskCore.PolicyService

/-!
# One policy's record across the two tables

A policy's row and its outbox rows, in commit order. A committed call opens one
new record, extends the record of one policy, or changes nothing.
-/

namespace PolicyRecords

open Values Outbox PolicyService

structure Record where
  policy : Policy
  events : List OutboxEvent

def recordOf (db : Store) (id : UUID) : Option Record :=
  (Tables.find Policy.id db.policies id).map (fun policy => ⟨policy, eventsOf db.outbox id⟩)

/-- The record `create_policy` opens, with `n` coverages. -/
def createdRecord (env : Env) (n : Nat) (policy : Policy) : Record :=
  ⟨policy, [createdEvent env n policy]⟩

/-- What a committed `update_policy` makes of a record. -/
def Record.updated (r : Record) (env : Env) (read : Policy) (data : Data) : Record :=
  let policy := read.updated (env.now 0) data
  if changedFields data = [] then r
  else ⟨r.policy.saveFields policy (changedFields data ++ [.updatedAt]),
    r.events ++ [updatedEvent env policy]⟩

/-- What a committed `cancel_policy` makes of a record. -/
def Record.cancelled (r : Record) (env : Env) (reason : String) : Record :=
  let policy := r.policy.cancelled (env.now 0) reason
  ⟨policy, r.events ++ [cancelledEvent env policy]⟩

/-- Outbox rows are about policies that exist. -/
structure Integrity (db : Store) : Prop where
  outbox : ∀ e ∈ db.outbox, Tables.find Policy.id db.policies e.aggregateId ≠ none

theorem recordOf_found {db : Store} {id : UUID} {policy : Policy}
    (h : Tables.find Policy.id db.policies id = some policy) :
    recordOf db id = some ⟨policy, eventsOf db.outbox id⟩ := by
  rw [recordOf, h]
  rfl

theorem recordOf_policy {db : Store} {id : UUID} {r : Record} (h : recordOf db id = some r) :
    Tables.find Policy.id db.policies id = some r.policy ∧ r.policy.id = id := by
  obtain ⟨policy, hp, rfl⟩ := Option.map_eq_some_iff.mp h
  exact ⟨hp, Tables.find_key hp⟩

theorem saveFields_id (row obj : Policy) {fields : List Policy.Column} (h : .id ∉ fields) :
    (row.saveFields obj fields).id = row.id :=
  (Policy.get_saveFields row obj fields .id).trans (if_neg h)

/-- `save(update_fields=...)` of an update touches the changed fields and
`updated_at`. -/
theorem mem_savedFields {data : Data} {c : Policy.Column} :
    c ∈ changedFields data ++ [.updatedAt] ↔ c ∈ changedFields data ∨ c = .updatedAt := by
  simp

theorem id_not_saved (data : Data) : .id ∉ changedFields data ++ [.updatedAt] := by
  simp [mem_changedFields, updatableFields]

theorem createPolicy_records {db db' : Store} {env : Env} {customer : Customer}
    {data : PolicyData} {coverages : List CoverageData} (hI : Integrity db)
    (h : createPolicy db env customer data coverages = .ok db') :
    ∃ number, recordOf db (env.uuid4 0) = none ∧
      ∀ id, recordOf db' id = if id = env.uuid4 0 then
          some (createdRecord env coverages.length (newPolicy env customer number data))
        else recordOf db id := by
  obtain ⟨number, fresh, rfl⟩ := createPolicy_ok h
  refine ⟨number, by simp [recordOf, fresh], ?_⟩
  intro id
  have ofPolicy : ∀ e ∈ [createdEvent env coverages.length (newPolicy env customer number data)],
      e.aggregateId = env.uuid4 0 := by
    intro e he
    rw [List.mem_singleton.mp he]
    rfl
  simp only [recordOf, eventsOf, Tables.select_append ofPolicy]
  by_cases hid : id = env.uuid4 0
  · subst hid
    have noEvents : Tables.select OutboxEvent.aggregateId db.outbox (env.uuid4 0) = [] :=
      Tables.select_eq_nil.mpr (fun e he heq => hI.outbox e he (heq ▸ fresh))
    have found : Tables.find Policy.id (Tables.insert db.policies
        (newPolicy env customer number data)) (env.uuid4 0) =
          some (newPolicy env customer number data) :=
      Tables.find_insert_self (r := newPolicy env customer number data) fresh
    simp [found, noEvents, createdRecord]
  · have hother : (newPolicy env customer number data).id ≠ id := fun he => hid he.symm
    simp only [hid, if_false, Tables.find_insert_ne hother]

/-- Rewriting the row of one policy and adding one event of that policy. -/
theorem recordOf_written {db : Store} {id : UUID} {f : Policy → Policy} {e : OutboxEvent}
    (keeps : ∀ row, row.id = id → (f row).id = id) (ofPolicy : e.aggregateId = id) (j : UUID) :
    recordOf { db with
        policies := Tables.update Policy.id db.policies id f
        outbox := db.outbox ++ [e] } j =
      if j = id then (recordOf db j).map (fun r => ⟨f r.policy, r.events ++ [e]⟩)
      else recordOf db j := by
  have ofAll : ∀ e' ∈ [e], e'.aggregateId = id := by
    intro e' he'
    rw [List.mem_singleton.mp he']
    exact ofPolicy
  simp only [recordOf, eventsOf, Tables.select_append ofAll]
  by_cases hj : j = id
  · subst hj
    simp only [Tables.find_update_self keeps, if_true, Option.map_map]
    rfl
  · simp only [if_neg hj, Tables.find_update_ne keeps hj]

theorem updatePolicy_records {db db' : Store} {env : Env} {read : Policy} {data : Data}
    (h : updatePolicy db env read data = .ok db') (id : UUID) :
    recordOf db' id = if id = read.id then (recordOf db id).map (fun r => r.updated env read data)
      else recordOf db id := by
  rcases updatePolicy_ok h with ⟨unchanged, rfl⟩ | ⟨changed, row, found, rfl⟩
  · have same : (fun r : Record => r.updated env read data) = fun r => r := by
      funext r
      exact if_pos unchanged
    rw [same]
    simp
  · rw [recordOf_written (fun row hrow => ?_) (updated_id read (env.now 0) data)]
    · simp only [Record.updated, if_neg changed]
    · rw [saveFields_id row _ (id_not_saved data)]
      exact hrow

theorem cancelPolicy_records {db db' : Store} {env : Env} {read : Policy} {reason : String}
    (h : cancelPolicy db env read reason = .ok db') :
    (∃ r, recordOf db read.id = some r ∧ r.policy.status ∈ cancelableStatuses) ∧
      ∀ id, recordOf db' id =
        if id = read.id then (recordOf db id).map (fun r => r.cancelled env reason)
        else recordOf db id := by
  obtain ⟨locked, found, hlocked, cancelable, rfl⟩ := cancelPolicy_ok h
  refine ⟨⟨_, recordOf_found found, cancelable⟩, fun id => ?_⟩
  have keeps : ∀ row : Policy, row.id = read.id → (row.saveFields
      (locked.cancelled (env.now 0) reason) [.status, .cancellationReason, .updatedAt]).id =
        read.id :=
    fun row hrow => (saveFields_id row _ (by decide)).trans hrow
  have ofPolicy : (cancelledEvent env (locked.cancelled (env.now 0) reason)).aggregateId =
      read.id := hlocked
  rw [recordOf_written keeps ofPolicy]
  by_cases hid : id = read.id
  · subst hid
    simp only [recordOf_found found, if_true, Option.map_some, save_cancelled, Record.cancelled]
  · simp only [if_neg hid]

/-- An update leaves every column outside `UPDATABLE_FIELDS` alone, `updated_at`
excepted. -/
theorem updated_fixed (r : Record) (env : Env) (read : Policy) (data : Data)
    {c : Policy.Column} (fixed : c ∉ updatableFields) (h : c ≠ .updatedAt) :
    (r.updated env read data).policy.get c = r.policy.get c := by
  unfold Record.updated
  by_cases unchanged : changedFields data = []
  · rw [if_pos unchanged]
  · have notSaved : c ∉ changedFields data ++ [.updatedAt] := by
      rw [mem_savedFields]
      rintro (hc | hc)
      · exact fixed (mem_changedFields.mp hc).1
      · exact h hc
    rw [if_neg unchanged, Policy.get_saveFields, if_neg notSaved]

/-- What an update leaves in an updatable column: the value it was given, or the
value of the row. -/
theorem get_written (row read : Policy) (t : DateTime) (data : Data) {c : Policy.Column}
    (h : c ∈ updatableFields) :
    (row.saveFields (read.updated t data) (changedFields data ++ [.updatedAt])).get c =
      (data c).getD (row.get c) := by
  have notClock : c ≠ .updatedAt := by
    rintro rfl
    revert h
    decide
  rw [Policy.get_saveFields]
  by_cases changed : c ∈ changedFields data
  · obtain ⟨v, hv⟩ := Option.isSome_iff_exists.mp (mem_changedFields.mp changed).2
    rw [if_pos (mem_savedFields.mpr (Or.inl changed)), get_updated notClock, if_pos changed, hv]
    rfl
  · have notSaved : c ∉ changedFields data ++ [.updatedAt] := fun hm =>
      (mem_savedFields.mp hm).elim changed notClock
    have absent := data_eq_none h changed
    rw [if_neg notSaved, absent]
    rfl

theorem updated_status (r : Record) (env : Env) (read : Policy) (data : Data) :
    (r.updated env read data).policy.status = r.policy.status :=
  updated_fixed r env read data (c := .status) (by decide) (by decide)

/-! ## Runs of the service -/

section Runs
variable {validate : Call → Except PolicyError Unit}

/-- The policy exists, and since it had this status it has at most been
cancelled. -/
def Since (db : Store) (id : UUID) (status : Policy.Status) : Prop :=
  ∃ r, recordOf db id = some r ∧ (r.policy.status = status ∨ r.policy.status = .cancelled)

/-- What stays true of the views of calls. -/
def Known (validate : Call → Except PolicyError Unit) (db : Store) : (c : Call) → View c → Prop
  | .create data coverages, _ => validate (.create data coverages) = .ok ()
  | .update pk _ _, read => read.id = pk ∧ Since db read.id read.status
  | .cancel pk _ _, read => read.id = pk ∧ Since db read.id read.status

theorem integrity_commit {db db' : Store} {env : Env} {c : Call} {v : View c}
    (hI : Integrity db) (h : (service validate).commit db env c v = .ok db') : Integrity db' := by
  have kept : ∀ {f : Policy → Policy} {id : UUID}, (∀ row, row.id = id → (f row).id = id) →
      ∀ j, Tables.find Policy.id db.policies j ≠ none →
        Tables.find Policy.id (Tables.update Policy.id db.policies id f) j ≠ none :=
    fun keeps _ => mt (Tables.find_update_eq_none keeps).mp
  constructor
  cases c with
  | create data coverages =>
    obtain ⟨number, fresh, rfl⟩ := createPolicy_ok h
    have created : Tables.find Policy.id (Tables.insert db.policies (newPolicy env v number data))
        (env.uuid4 0) = some (newPolicy env v number data) :=
      Tables.find_insert_self (r := newPolicy env v number data) fresh
    refine Tables.forall_insert (fun e he => Tables.find_insert_ne_none _ (hI.outbox e he)) ?_
    exact fun hn => Option.some_ne_none _ (created.symm.trans hn)
  | update pk filters data =>
    rcases updatePolicy_ok h with ⟨_, rfl⟩ | ⟨_, row, found, rfl⟩
    · exact hI.outbox
    · have keeps := kept (fun row (hrow : row.id = Policy.id v) =>
        (saveFields_id row (Policy.updated v (env.now 0) data) (id_not_saved data)).trans hrow)
      refine Tables.forall_insert (fun e he => keeps _ (hI.outbox e he)) (keeps _ ?_)
      have hid : (updatedEvent env (Policy.updated v (env.now 0) data)).aggregateId =
          Policy.id v := updated_id v (env.now 0) data
      rw [hid, found]
      exact Option.some_ne_none row
  | cancel pk filters reason =>
    obtain ⟨locked, found, hlocked, _, rfl⟩ := cancelPolicy_ok h
    have notSaved : Policy.Column.id ∉
        [Policy.Column.status, .cancellationReason, .updatedAt] := by decide
    have keeps := kept (fun row (hrow : row.id = Policy.id v) =>
      (saveFields_id row (locked.cancelled (env.now 0) reason) notSaved).trans hrow)
    refine Tables.forall_insert (fun e he => keeps _ (hI.outbox e he)) (keeps _ ?_)
    have hid : (cancelledEvent env (locked.cancelled (env.now 0) reason)).aggregateId =
        Policy.id v := hlocked
    rw [hid, found]
    exact Option.some_ne_none locked

theorem since_commit {db db' : Store} {env : Env} {c : Call} {v : View c} (hI : Integrity db)
    (h : (service validate).commit db env c v = .ok db') {id : UUID} {status : Policy.Status}
    (hs : Since db id status) : Since db' id status := by
  obtain ⟨r, hr, hstatus⟩ := hs
  cases c with
  | create data coverages =>
    obtain ⟨number, fresh, records⟩ := createPolicy_records hI h
    have hne : id ≠ env.uuid4 0 := by
      rintro rfl
      rw [fresh] at hr
      cases hr
    exact ⟨r, by rw [records id, if_neg hne, hr], hstatus⟩
  | update pk filters data =>
    have hrec := updatePolicy_records h id
    by_cases hid : id = Policy.id v
    · rw [if_pos hid, hr] at hrec
      have same := updated_status r env v data
      exact ⟨r.updated env v data, hrec, by rw [same]; exact hstatus⟩
    · rw [if_neg hid, hr] at hrec
      exact ⟨r, hrec, hstatus⟩
  | cancel pk filters reason =>
    have hrec := (cancelPolicy_records h).2 id
    by_cases hid : id = Policy.id v
    · rw [if_pos hid, hr] at hrec
      exact ⟨_, hrec, Or.inr rfl⟩
    · rw [if_neg hid, hr] at hrec
      exact ⟨r, hrec, hstatus⟩

/-- A creation that has read its customer was validated. -/
theorem read_create {db : Store} {env : Env} {data : PolicyData} {coverages : List CoverageData}
    {customer : Customer}
    (h : (service validate).read db env (.create data coverages) = .ok customer) :
    validate (.create data coverages) = .ok () := by
  obtain ⟨⟨⟩, valid, _⟩ := Requests.bind_ok.mp h
  exact valid

theorem coherent (validate : Call → Except PolicyError Unit) :
    Runs.Inductive (step validate)
      (Requests.Coherent (service validate) Integrity (Known validate)) := by
  apply Requests.coherent_inductive
  · intro db env c v _ hr
    cases c with
    | create data coverages =>
      exact read_create hr
    | update pk filters data =>
      obtain ⟨found, hid⟩ := getObject_ok hr
      exact ⟨hid, _, by rw [hid]; exact recordOf_found found, Or.inl rfl⟩
    | cancel pk filters reason =>
      obtain ⟨found, hid⟩ := getObject_ok hr
      exact ⟨hid, _, by rw [hid]; exact recordOf_found found, Or.inl rfl⟩
  · intro db env c v db' hI _ _ hc
    refine ⟨integrity_commit hI hc, ?_⟩
    intro c' v' hK
    cases c' with
    | create data coverages => exact hK
    | update pk filters data => exact ⟨hK.1, since_commit hI hc hK.2⟩
    | cancel pk filters reason => exact ⟨hK.1, since_commit hI hc hK.2⟩

theorem coherent_start (db : Store) :
    Requests.Coherent (service validate) Integrity (Known validate) (start db) :=
  Requests.coherent_init ⟨by simp⟩

theorem start_events {db : Store} {id : UUID} {r : Record}
    (h : recordOf (start db).db id = some r) : r.events = [] := by
  obtain ⟨policy, _, rfl⟩ := Option.map_eq_some_iff.mp h
  rfl

theorem check_update {pk : UUID} {filters : PolicyFilters} {data : Data} {read : Policy}
    (h : (service validate).check (.update pk filters data) read = .ok ()) :
    validate (.update pk filters data) = .ok () ∧ read.status ∈ updatableStatuses := by
  obtain ⟨⟨⟩, valid, hcheck⟩ := Requests.bind_ok.mp h
  exact ⟨valid, checkUpdatable_ok hcheck⟩

/-! ## Properties of every record -/

def AllRecords (R : Record → Prop) (db : Store) : Prop :=
  ∀ id r, recordOf db id = some r → R r

/-- A condition on a committing update: the record it extends, the policy that
was read, the data. Other calls are not restricted. -/
def OnUpdate (C : Record → Policy → Data → Prop) (db : Store) :
    (c : Call) → View c → Store → Prop
  | .update _ _ data, read, _ => ∀ r, recordOf db (Policy.id read) = some r → C r read data
  | .create _ _, _, _ => True
  | .cancel _ _ _, _, _ => True

instance {C : Record → Policy → Data → Prop} [decide_C : ∀ r read data, Decidable (C r read data)]
    (db : Store) : ∀ c (v : View c) db', Decidable (OnUpdate C db c v db')
  | .update _ _ data, read, _ =>
    match h : recordOf db (Policy.id read) with
    | none => isTrue (fun r hr => by rw [h] at hr; cases hr)
    | some r =>
      have := decide_C r read data
      decidable_of_iff (C r read data)
        ⟨fun hC r' hr' => Option.some.inj (h.symm.trans hr') ▸ hC, fun hall => hall r h⟩
  | .create _ _, _, _ => isTrue trivial
  | .cancel _ _ _, _, _ => isTrue trivial

/-- A record property that creations and cancellations keep, and that an update
keeps exactly when `C` holds of it. -/
theorem always_allRecords_iff {R : Record → Prop} {C : Record → Policy → Data → Prop}
    (opens : ∀ env n customer number data coverages, validate (.create data coverages) = .ok () →
      R (createdRecord env n (newPolicy env customer number data)))
    (cancels : ∀ env r reason, R r → R (r.cancelled env reason))
    (updates_iff : ∀ env r read pk filters data, R r →
      (service validate).check (.update pk filters data) read = .ok () →
      (r.policy.status = read.status ∨ r.policy.status = .cancelled) →
      (R (r.updated env read data) ↔ C r read data))
    {db : Store} (starts : AllRecords R (start db).db) (as : List Action) :
    Runs.Always (step validate) (fun s => AllRecords R s.db) (start db) as ↔
      Runs.Steps (step validate) (Requests.OnCommit (service validate) (OnUpdate C))
        (start db) as := by
  refine Requests.always_db_iff (coherent validate) ?_ (coherent_start db) starts
  intro db env c v db' hI hK hpass hR hc
  cases c with
  | create data coverages =>
    refine iff_of_true ?_ trivial
    obtain ⟨number, _, records⟩ := createPolicy_records hI hc
    refine (Tables.forall_written_some_iff records rfl (fun id r _ => hR id r)).mpr ?_
    exact opens env coverages.length v number data coverages hK
  | cancel pk filters reason =>
    refine iff_of_true ?_ trivial
    obtain ⟨_, records⟩ := cancelPolicy_records hc
    refine (Tables.forall_written_iff records (fun id r _ => hR id r)).mpr ?_
    intro r hr
    obtain ⟨old, hold, rfl⟩ := Option.map_eq_some_iff.mp hr
    exact cancels env old reason (hR _ old hold)
  | update pk filters data =>
    obtain ⟨_, found, hfound, hsince⟩ := hK
    have records := updatePolicy_records hc
    have exact_here : R (found.updated env v data) ↔ C found v data :=
      updates_iff env found v pk filters data (hR _ found hfound) hpass hsince
    have hwritten := Tables.forall_written_some_iff (P := fun _ => R) records
      (by rw [hfound, Option.map_some]) (fun id r _ => hR id r)
    refine (hwritten.trans exact_here).trans ?_
    constructor
    · intro hC r hr
      cases hfound.symm.trans hr
      exact hC
    · exact fun hC => hC found hfound

/-- A record property that every call keeps. -/
theorem always_allRecords {R : Record → Prop}
    (opens : ∀ env n customer number data,
      R (createdRecord env n (newPolicy env customer number data)))
    (cancels : ∀ env r reason, R r → R (r.cancelled env reason))
    (updates : ∀ env r read data, R r → R (r.updated env read data))
    {db : Store} (starts : AllRecords R (start db).db) (as : List Action) :
    Runs.Always (step validate) (fun s => AllRecords R s.db) (start db) as := by
  refine (always_allRecords_iff (C := fun _ _ _ => True)
    (fun env n customer number data _ _ => opens env n customer number data) cancels
    (fun env r read _ _ data hR _ _ => iff_of_true (updates env r read data hR) trivial)
    starts as).mpr (Runs.steps_of_forall ?_)
  intro s a t n env c v db' _ _ _
  cases c with
  | update pk filters data => exact fun _ _ => trivial
  | create data coverages => trivial
  | cancel pk filters reason => trivial

end Runs

/-! ## A concrete policy -/

def exampleEnv (base : Nat) : Env where
  uuid4 k := ⟨BitVec.ofNat 128 (base + k)⟩
  now _ := exampleInstant 10 0
  connection := .postgresql (base + 1)

def exampleCustomer : Customer where
  id := ⟨9⟩
  fullName := "Ana Garcia"
  email := "ana@test.com"
  dni := "12345678A"
  phone := "600000001"
  address := "Calle Mayor 1"
  createdAt := exampleInstant 9 0
  updatedAt := exampleInstant 9 0

def exampleData : PolicyData where
  customerId := ⟨9⟩
  policyType := .auto
  premiumAmount := ⟨35000, by decide⟩
  startDate := ⟨2025, 4, 1, by decide⟩
  endDate := ⟨2026, 4, 1, by decide⟩
  description := none

def examplePremium : Amount := ⟨40000, by decide⟩

def exampleUpdate (data : Data) : Call := .update ⟨0⟩ ⟨none, none, none, none, none⟩ data

def exampleCancel (reason : String) : Call := .cancel ⟨0⟩ ⟨none, none, none, none, none⟩ reason

/-- A `PATCH` body that has only a premium. -/
def premiumOnly (premium : Amount) : Data
  | .premiumAmount => some premium
  | _ => none

/-- A `PATCH` body that has only a type. -/
def typeOnly (policyType : Policy.PolicyType) : Data
  | .policyType => some policyType
  | _ => none

/-- A `PATCH` body that has only an end date. -/
def endOnly (endDate : Date) : Data
  | .endDate => some endDate
  | _ => none

def exampleRead (n : Nat) (c : Call) : List Action := [.call n c, .read n (exampleEnv 0)]

/-- The check and the transaction of call `n`, with identifiers of its own. -/
def exampleCommit (n : Nat) : List Action :=
  [.check n, .commit n (exampleEnv (100 * n))]

/-- Call 0 creates the policy with identifier 0. -/
def exampleCreation : List Action := exampleRead 0 (.create exampleData []) ++ exampleCommit 0

theorem not_always_records {validate : Call → Except PolicyError Unit} {R : Record → Prop}
    {β : Type} {s₀ : State} {as : List Action} (f : Record → β) {b : β}
    (h : (Runs.run (step validate) s₀ as).bind (fun s => (recordOf s.db ⟨0⟩).map f) = some b)
    (bad : ∀ r, f r = b → ¬ R r) :
    ¬ Runs.Always (step validate) (fun s => AllRecords R s.db) s₀ as := by
  refine Runs.not_always_of_run h (fun s hs hall => ?_)
  obtain ⟨r, hrec, hb⟩ := Option.map_eq_some_iff.mp hs
  exact bad r hb (hall ⟨0⟩ r hrec)

end PolicyRecords
