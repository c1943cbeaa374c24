import RiskCore.Numbering
import RiskCore.Outbox
import RiskCore.Requests

/-!
# policy-service: policies and their events

The policy tables, `PolicyEventBuilder`, the serializers that guard the
endpoints, `PolicyService.create_policy`, `update_policy` and `cancel_policy`,
and the views that call them. An update writes the columns it names from the
object it read; a cancellation reads the row again under the lock.
-/

namespace PolicyService

open Values Outbox

inductive Policy.PolicyType where
  | life
  | health
  | auto
  | home
  | business
deriving DecidableEq

def Policy.PolicyType.value : Policy.PolicyType → String
  | .life => "LIFE"
  | .health => "HEALTH"
  | .auto => "AUTO"
  | .home => "HOME"
  | .business => "BUSINESS"

inductive Policy.Status where
  | active
  | suspended
  | cancelled
  | expired
deriving DecidableEq

def Policy.Status.value : Policy.Status → String
  | .active => "ACTIVE"
  | .suspended => "SUSPENDED"
  | .cancelled => "CANCELLED"
  | .expired => "EXPIRED"

structure Customer where
  id : UUID
  fullName : String
  email : String
  dni : String
  phone : String
  address : String
  createdAt : DateTime
  updatedAt : DateTime
deriving DecidableEq

structure Policy where
  id : UUID
  policyNumber : String
  customerId : UUID
  policyType : Policy.PolicyType
  status : Policy.Status
  premiumAmount : Amount
  startDate : Date
  endDate : Date
  description : String
  cancellationReason : String
  createdAt : DateTime
  updatedAt : DateTime
deriving DecidableEq

structure Coverage where
  id : UUID
  policyId : UUID
  coverageType : String
  coverageAmount : Amount
  description : String
deriving DecidableEq

structure Store where
  customers : List Customer
  policies : List Policy
  coverages : List Coverage
  outbox : List OutboxEvent

inductive PolicyError where
  | customerNotFound (customerId : UUID)
  | invalidPolicyStatus (policyId : UUID) (currentStatus : Policy.Status)
      (allowedStatuses : List Policy.Status)
  | validationError (field message : String)
  | http404 (pk : UUID)
  | doesNotExist (policyId : UUID)
  | noRowsUpdated (policyId : UUID)
  | integrityError (column : String)
  | valueError (text : String)
deriving DecidableEq

/-- `connection.vendor`, with what `nextval` returned where there is a sequence. -/
inductive Connection where
  | postgresql (nextval : Nat)
  | other

/-- The results of a call's successive `uuid4()` and `now()` calls, and its
database connection. -/
structure Env where
  uuid4 : Nat → UUID
  now : Nat → DateTime
  connection : Connection

/-! ## Columns -/

inductive Policy.Column where
  | id
  | policyNumber
  | customerId
  | policyType
  | status
  | premiumAmount
  | startDate
  | endDate
  | description
  | cancellationReason
  | createdAt
  | updatedAt
deriving DecidableEq

abbrev Policy.Column.Value : Policy.Column → Type
  | .id => UUID
  | .policyNumber => String
  | .customerId => UUID
  | .policyType => Policy.PolicyType
  | .status => Policy.Status
  | .premiumAmount => Amount
  | .startDate => Date
  | .endDate => Date
  | .description => String
  | .cancellationReason => String
  | .createdAt => DateTime
  | .updatedAt => DateTime

def Policy.get (p : Policy) : (c : Policy.Column) → c.Value
  | .id => p.id
  | .policyNumber => p.policyNumber
  | .customerId => p.customerId
  | .policyType => p.policyType
  | .status => p.status
  | .premiumAmount => p.premiumAmount
  | .startDate => p.startDate
  | .endDate => p.endDate
  | .description => p.description
  | .cancellationReason => p.cancellationReason
  | .createdAt => p.createdAt
  | .updatedAt => p.updatedAt

/-- `setattr(policy, c, v)`. -/
def Policy.set (p : Policy) : (c : Policy.Column) → c.Value → Policy
  | .id, v => { p with id := v }
  | .policyNumber, v => { p with policyNumber := v }
  | .customerId, v => { p with customerId := v }
  | .policyType, v => { p with policyType := v }
  | .status, v => { p with status := v }
  | .premiumAmount, v => { p with premiumAmount := v }
  | .startDate, v => { p with startDate := v }
  | .endDate, v => { p with endDate := v }
  | .description, v => { p with description := v }
  | .cancellationReason, v => { p with cancellationReason := v }
  | .createdAt, v => { p with createdAt := v }
  | .updatedAt, v => { p with updatedAt := v }

/-- A dictionary of column values. Keys that are no column have no effect
anywhere and are left out. -/
abbrev Data := (c : Policy.Column) → Option c.Value

/-- The `setattr` calls for those of the fields that `data` has. -/
def Policy.assign (p : Policy) (data : Data) (fields : List Policy.Column) : Policy :=
  fields.foldl (fun p c =>
    match data c with
    | some v => p.set c v
    | none => p) p

/-- The row after `obj.save(update_fields=fields)`. -/
def Policy.saveFields (row obj : Policy) (fields : List Policy.Column) : Policy :=
  fields.foldl (fun row c => row.set c (obj.get c)) row

@[simp] theorem Policy.get_set_self (p : Policy) (c : Policy.Column) (v : c.Value) :
    (p.set c v).get c = v := by
  cases c <;> rfl

theorem Policy.get_set_ne (p : Policy) {c d : Policy.Column} (v : c.Value) (h : d ≠ c) :
    (p.set c v).get d = p.get d := by
  cases c <;> cases d <;> first | rfl | exact absurd rfl h

theorem Policy.get_saveFields (row obj : Policy) (fields : List Policy.Column)
    (c : Policy.Column) :
    (row.saveFields obj fields).get c = if c ∈ fields then obj.get c else row.get c := by
  induction fields generalizing row with
  | nil => rfl
  | cons d rest ih =>
    have hstep : (row.saveFields obj (d :: rest)).get c =
        if c ∈ rest then obj.get c else (row.set d (obj.get d)).get c := ih _
    rw [hstep]
    by_cases hrest : c ∈ rest
    · simp [hrest]
    · by_cases hd : c = d
      · subst d
        simp [hrest]
      · simp [hrest, hd, Policy.get_set_ne row (obj.get d) hd]

theorem Policy.get_assign (p : Policy) (data : Data) (fields : List Policy.Column)
    (c : Policy.Column) :
    (p.assign data fields).get c = if c ∈ fields then (data c).getD (p.get c) else p.get c := by
  induction fields generalizing p with
  | nil => rfl
  | cons d rest ih =>
    cases hdata : data d with
    | none =>
      have hstep : (p.assign data (d :: rest)).get c = (p.assign data rest).get c := by
        simp [Policy.assign, hdata]
      rw [hstep, ih]
      by_cases hd : c = d
      · subst d
        simp [hdata]
      · simp [hd]
    | some v =>
      have hstep : (p.assign data (d :: rest)).get c = ((p.set d v).assign data rest).get c := by
        simp [Policy.assign, hdata]
      rw [hstep, ih]
      by_cases hd : c = d
      · subst d
        simp [hdata]
      · simp [hd, Policy.get_set_ne p v hd]

/-! ## Events -/

def baseData (policy : Policy) : Dict :=
  [("policy_id", .str policy.id.str),
   ("policy_number", .str policy.policyNumber),
   ("customer_id", .str policy.customerId.str),
   ("policy_type", .str policy.policyType.value),
   ("status", .str policy.status.value),
   ("premium_amount", .str policy.premiumAmount.str),
   ("start_date", .str policy.startDate.isoformat),
   ("end_date", .str policy.endDate.isoformat)]

def base (eventId : UUID) (eventType : String) (occurredAt : DateTime) (data : Dict) : Json :=
  envelope eventId eventType occurredAt "policy-service" data

def buildCreated (eventId : UUID) (occurredAt : DateTime) (policy : Policy) : Json :=
  base eventId "policy.created" occurredAt (baseData policy)

def buildUpdated (eventId : UUID) (occurredAt : DateTime) (policy : Policy) : Json :=
  base eventId "policy.updated" occurredAt (baseData policy)

def buildCancelled (eventId : UUID) (occurredAt : DateTime) (policy : Policy) : Json :=
  base eventId "policy.cancelled" occurredAt
    (Dict.set (baseData policy) "cancellation_reason" (.str policy.cancellationReason))

def emitPolicyEvent (id : UUID) (createdAt : DateTime) (policy : Policy) (eventType : String)
    (payload : Json) : OutboxEvent :=
  OutboxEvent.create id createdAt "policy" policy.id eventType eventType policy.id.str payload

/-! ## Creating -/

/-- The validated body of `POST /policies/`. -/
structure PolicyData where
  customerId : UUID
  policyType : Policy.PolicyType
  premiumAmount : Amount
  startDate : Date
  endDate : Date
  description : Option String
deriving DecidableEq

structure CoverageData where
  coverageType : String
  coverageAmount : Amount
  description : Option String
deriving DecidableEq

def generatePolicyNumber (connection : Connection) (policies : List Policy) (year : Nat) :
    Except PolicyError String :=
  let stem := "POL-" ++ Nat.repr year ++ "-"
  match connection with
  | .postgresql nextval => .ok (Numbering.render stem nextval)
  | .other =>
    match Numbering.next stem (policies.map Policy.policyNumber) with
    | .ok number => .ok number
    | .error part => .error (.valueError part)

/-- The row `Policy.objects.create` builds for `create_policy`. -/
def newPolicy (env : Env) (customer : Customer) (number : String) (data : PolicyData) :
    Policy where
  id := env.uuid4 0
  policyNumber := number
  customerId := customer.id
  policyType := data.policyType
  status := .active
  premiumAmount := data.premiumAmount
  startDate := data.startDate
  endDate := data.endDate
  description := data.description.getD ""
  cancellationReason := ""
  createdAt := env.now 1
  updatedAt := env.now 2

/-- `INSERT` of a policy: both its primary key and its number are unique. -/
def insertPolicy (policies : List Policy) (policy : Policy) : Except PolicyError (List Policy) :=
  if (Tables.find Policy.id policies policy.id).isSome then .error (.integrityError "id")
  else if policies.any (fun p => p.policyNumber = policy.policyNumber) then
    .error (.integrityError "policy_number")
  else .ok (Tables.insert policies policy)

def newCoverages (env : Env) (policy : Policy) (coverages : List CoverageData) : List Coverage :=
  coverages.zipIdx.map (fun (c, i) =>
    ⟨env.uuid4 (1 + i), policy.id, c.coverageType, c.coverageAmount, c.description.getD ""⟩)

/-- `n` identifiers were drawn for the coverages. -/
def createdEvent (env : Env) (n : Nat) (policy : Policy) : OutboxEvent :=
  emitPolicyEvent (env.uuid4 (n + 2)) (env.now 4) policy "policy.created"
    (buildCreated (env.uuid4 (n + 1)) (env.now 3) policy)

/-- The transaction of `PolicyService.create_policy`. -/
def createPolicy (db : Store) (env : Env) (customer : Customer) (data : PolicyData)
    (coverages : List CoverageData) : Except PolicyError Store := do
  let number ← generatePolicyNumber env.connection db.policies (env.now 0).date.year
  let policy := newPolicy env customer number data
  let policies ← insertPolicy db.policies policy
  .ok { db with
    policies := policies
    coverages := db.coverages ++ newCoverages env policy coverages
    outbox := db.outbox ++ [createdEvent env coverages.length policy] }

/-! ## Updating -/

/-- `UPDATABLE_STATUSES`. -/
def updatableStatuses : List Policy.Status := [.active, .suspended]

/-- `UPDATABLE_FIELDS`. -/
def updatableFields : List Policy.Column :=
  [.premiumAmount, .startDate, .endDate, .description, .policyType]

def checkUpdatable (policy : Policy) : Except PolicyError Unit :=
  if policy.status ∉ updatableStatuses then
    .error (.invalidPolicyStatus policy.id policy.status updatableStatuses)
  else .ok ()

def changedFields (data : Data) : List Policy.Column :=
  updatableFields.filter (fun c => (data c).isSome)

/-- The object that was read, with the new values and the new `updated_at`. -/
def Policy.updated (read : Policy) (updatedAt : DateTime) (data : Data) : Policy :=
  { read.assign data (changedFields data) with updatedAt := updatedAt }

def updatedEvent (env : Env) (policy : Policy) : OutboxEvent :=
  emitPolicyEvent (env.uuid4 1) (env.now 2) policy "policy.updated"
    (buildUpdated (env.uuid4 0) (env.now 1) policy)

/-- What `update_policy` does after its check. `read` is the object of the
unlocked read: its columns, not the row's, are written and reported. -/
def updatePolicy (db : Store) (env : Env) (read : Policy) (data : Data) :
    Except PolicyError Store :=
  let changed := changedFields data
  if changed = [] then .ok db
  else
    let policy := read.updated (env.now 0) data
    match Tables.find Policy.id db.policies policy.id with
    | none => .error (.noRowsUpdated policy.id)
    | some _ =>
      .ok { db with
        policies := Tables.update Policy.id db.policies policy.id
          (fun row => row.saveFields policy (changed ++ [.updatedAt]))
        outbox := db.outbox ++ [updatedEvent env policy] }

/-! ## Cancelling -/

/-- `CANCELABLE_STATUSES`. -/
def cancelableStatuses : List Policy.Status := [.active, .suspended]

def checkCancelable (policy : Policy) : Except PolicyError Unit :=
  if policy.status ∉ cancelableStatuses then
    .error (.invalidPolicyStatus policy.id policy.status cancelableStatuses)
  else .ok ()

/-- The locked row after the assignments. -/
def Policy.cancelled (policy : Policy) (updatedAt : DateTime) (reason : String) : Policy :=
  { policy with status := .cancelled, cancellationReason := reason, updatedAt := updatedAt }

def cancelledEvent (env : Env) (policy : Policy) : OutboxEvent :=
  emitPolicyEvent (env.uuid4 1) (env.now 2) policy "policy.cancelled"
    (buildCancelled (env.uuid4 0) (env.now 1) policy)

/-- The transaction of `PolicyService.cancel_policy`, with the second check on
the locked row. -/
def cancelPolicy (db : Store) (env : Env) (read : Policy) (reason : String) :
    Except PolicyError Store :=
  match Tables.find Policy.id db.policies read.id with
  | none => .error (.doesNotExist read.id)
  | some locked => do
    checkCancelable locked
    let policy := locked.cancelled (env.now 0) reason
    .ok { db with
      policies := Tables.update Policy.id db.policies policy.id
        (fun row => row.saveFields policy [.status, .cancellationReason, .updatedAt])
      outbox := db.outbox ++ [cancelledEvent env policy] }

/-! ## The endpoints as concurrent calls -/

/-- The query parameters `get_policies_queryset` filters on. -/
structure PolicyFilters where
  status : Option String
  policyType : Option String
  customerId : Option UUID
  startDateFrom : Option Date
  startDateTo : Option Date
deriving DecidableEq

def PolicyFilters.matches (f : PolicyFilters) (policy : Policy) : Bool :=
  passes f.status policy.status.value && passes f.policyType policy.policyType.value &&
    (f.customerId.getD policy.customerId = policy.customerId) &&
    (f.startDateFrom.getD policy.startDate ≤ policy.startDate) &&
    (policy.startDate ≤ f.startDateTo.getD policy.startDate)

/-- `PolicyViewSet.get_object`. -/
def getObject (db : Store) (filters : PolicyFilters) (pk : UUID) : Except PolicyError Policy :=
  match Tables.find Policy.id db.policies pk with
  | some policy => if filters.matches policy then .ok policy else .error (.http404 pk)
  | none => .error (.http404 pk)

def getCustomer (db : Store) (customerId : UUID) : Except PolicyError Customer :=
  match Tables.find Customer.id db.customers customerId with
  | some customer => .ok customer
  | none => .error (.customerNotFound customerId)

inductive Call where
  | create (data : PolicyData) (coverages : List CoverageData)
  | update (pk : UUID) (filters : PolicyFilters) (data : Data)
  | cancel (pk : UUID) (filters : PolicyFilters) (reason : String)

abbrev View : Call → Type
  | .create _ _ => Customer
  | .update _ _ _ => Policy
  | .cancel _ _ _ => Policy

/-- `PolicySerializer.validate_premium_amount`. -/
def validatePremiumAmount (value : Amount) : Except PolicyError Unit :=
  if value.cents ≤ 0 then
    .error (.validationError "premium_amount" "El monto de prima debe ser mayor a cero.")
  else .ok ()

/-- `PolicySerializer.validate`: it sees the dates of the request only. -/
def validateDates (startDate endDate : Option Date) : Except PolicyError Unit :=
  match startDate, endDate with
  | some start, some finish =>
    if finish ≤ start then
      .error (.validationError "end_date"
        "La fecha de fin debe ser posterior a la fecha de inicio.")
    else .ok ()
  | _, _ => .ok ()

/-- What the serializers of `PolicyViewSet` require of a request. -/
def serializers : Call → Except PolicyError Unit
  | .create data _ => do
    validatePremiumAmount data.premiumAmount
    validateDates (some data.startDate) (some data.endDate)
  | .update _ _ data => do
    match data .premiumAmount with
    | some value => validatePremiumAmount value
    | none => .ok ()
    validateDates (data .startDate) (data .endDate)
  | .cancel _ _ reason =>
    if reason = "" then .error (.validationError "reason" "This field may not be blank.")
    else .ok ()

/-- The calls of `PolicyService`, each behind a validation of the request. -/
def service (validate : Call → Except PolicyError Unit) :
    Requests.Service Store Call View PolicyError Env where
  read db _
    | .create data coverages => do
      validate (.create data coverages)
      getCustomer db data.customerId
    | .update pk filters _ => getObject db filters pk
    | .cancel pk filters _ => getObject db filters pk
  check
    | .create _ _, _ => .ok ()
    | .update pk filters data, policy => do
      validate (.update pk filters data)
      checkUpdatable policy
    | .cancel pk filters reason, policy => do
      validate (.cancel pk filters reason)
      checkCancelable policy
  commit db env
    | .create data coverages, customer => createPolicy db env customer data coverages
    | .update _ _ data, policy => updatePolicy db env policy data
    | .cancel _ _ reason, policy => cancelPolicy db env policy reason

abbrev State := Requests.State Store Call View PolicyError
abbrev Action := Requests.Action Call Env

def step (validate : Call → Except PolicyError Unit) : State → Action → Option State :=
  Requests.step (service validate)

/-- Any tables from before the first event, and no calls. -/
def start (db : Store) : State := Requests.init { db with outbox := [] }

/-- Some customers and nothing else. -/
def init (customers : List Customer) : State := start ⟨customers, [], [], []⟩

/-! ## What the functions do -/

theorem insertPolicy_ok {policies policies' : List Policy} {policy : Policy}
    (h : insertPolicy policies policy = .ok policies') :
    Tables.find Policy.id policies policy.id = none ∧
      policies' = Tables.insert policies policy := by
  unfold insertPolicy at h
  split at h
  · cases h
  · rename_i fresh
    split at h
    · cases h
    · cases h
      exact ⟨by simpa using fresh, rfl⟩

theorem createPolicy_steps {db db' : Store} {env : Env} {customer : Customer} {data : PolicyData}
    {coverages : List CoverageData}
    (h : createPolicy db env customer data coverages = .ok db') :
    ∃ number policies,
      generatePolicyNumber env.connection db.policies (env.now 0).date.year = .ok number ∧
      insertPolicy db.policies (newPolicy env customer number data) = .ok policies ∧
      db' = { db with
        policies := policies
        coverages := db.coverages ++
          newCoverages env (newPolicy env customer number data) coverages
        outbox := db.outbox ++
          [createdEvent env coverages.length (newPolicy env customer number data)] } := by
  obtain ⟨number, hnumber, hrest⟩ := Requests.bind_ok.mp h
  obtain ⟨policies, hinsert, hdone⟩ := Requests.bind_ok.mp hrest
  exact ⟨number, policies, hnumber, hinsert, (Except.ok.inj hdone).symm⟩

theorem createPolicy_ok {db db' : Store} {env : Env} {customer : Customer} {data : PolicyData}
    {coverages : List CoverageData}
    (h : createPolicy db env customer data coverages = .ok db') :
    ∃ number, Tables.find Policy.id db.policies (env.uuid4 0) = none ∧
      db' = { db with
        policies := Tables.insert db.policies (newPolicy env customer number data)
        coverages := db.coverages ++
          newCoverages env (newPolicy env customer number data) coverages
        outbox := db.outbox ++
          [createdEvent env coverages.length (newPolicy env customer number data)] } := by
  obtain ⟨number, policies, _, hinsert, rfl⟩ := createPolicy_steps h
  obtain ⟨fresh, rfl⟩ := insertPolicy_ok hinsert
  exact ⟨number, fresh, rfl⟩

theorem mem_changedFields {data : Data} {c : Policy.Column} :
    c ∈ changedFields data ↔ c ∈ updatableFields ∧ (data c).isSome := by
  simp [changedFields]

theorem data_eq_none {data : Data} {c : Policy.Column} (h : c ∈ updatableFields)
    (unchanged : c ∉ changedFields data) : data c = none := by
  by_contra given
  exact unchanged (mem_changedFields.mpr ⟨h, Option.isSome_iff_ne_none.mpr given⟩)

theorem get_updated {read : Policy} {t : DateTime} {data : Data} {c : Policy.Column}
    (h : c ≠ .updatedAt) :
    (read.updated t data).get c =
      if c ∈ changedFields data then (data c).getD (read.get c) else read.get c := by
  have same : (read.updated t data).get c = (read.assign data (changedFields data)).get c := by
    cases c <;> first | rfl | exact absurd rfl h
  rw [same, Policy.get_assign]

/-- A column outside `UPDATABLE_FIELDS` stays as it was read. -/
theorem get_updated_fixed {read : Policy} {t : DateTime} {data : Data} {c : Policy.Column}
    (h : c ≠ .updatedAt) (fixed : c ∉ updatableFields) :
    (read.updated t data).get c = read.get c := by
  rw [get_updated h, if_neg (fun hc => fixed (mem_changedFields.mp hc).1)]

theorem updated_id (read : Policy) (t : DateTime) (data : Data) :
    (read.updated t data).id = read.id :=
  get_updated_fixed (c := .id) (by decide) (by decide)

theorem updatePolicy_ok {db db' : Store} {env : Env} {read : Policy} {data : Data}
    (h : updatePolicy db env read data = .ok db') :
    (changedFields data = [] ∧ db' = db) ∨
      changedFields data ≠ [] ∧ ∃ row, Tables.find Policy.id db.policies read.id = some row ∧
        db' = { db with
          policies := Tables.update Policy.id db.policies read.id
            (fun row => row.saveFields (read.updated (env.now 0) data)
              (changedFields data ++ [.updatedAt]))
          outbox := db.outbox ++ [updatedEvent env (read.updated (env.now 0) data)] } := by
  simp only [updatePolicy, updated_id] at h
  by_cases none_changed : changedFields data = []
  · rw [if_pos none_changed] at h
    exact Or.inl ⟨none_changed, (Except.ok.inj h).symm⟩
  · rw [if_neg none_changed] at h
    split at h
    · cases h
    · rename_i row found
      exact Or.inr ⟨none_changed, row, found, (Except.ok.inj h).symm⟩

theorem checkCancelable_ok {policy : Policy} (h : checkCancelable policy = .ok ()) :
    policy.status ∈ cancelableStatuses := by
  unfold checkCancelable at h
  split at h
  · cases h
  · rename_i cancelable
    exact not_not.mp cancelable

theorem checkCancelable_error {policy : Policy} {e : PolicyError}
    (h : checkCancelable policy = .error e) :
    policy.status ∉ cancelableStatuses ∧
      e = .invalidPolicyStatus policy.id policy.status cancelableStatuses := by
  unfold checkCancelable at h
  split at h
  · rename_i refused
    exact ⟨refused, (Except.error.inj h).symm⟩
  · cases h

theorem checkUpdatable_ok {policy : Policy} (h : checkUpdatable policy = .ok ()) :
    policy.status ∈ updatableStatuses := by
  unfold checkUpdatable at h
  split at h
  · cases h
  · rename_i updatable
    exact not_not.mp updatable

theorem save_cancelled (locked : Policy) (t : DateTime) (reason : String) :
    locked.saveFields (locked.cancelled t reason) [.status, .cancellationReason, .updatedAt] =
      locked.cancelled t reason := rfl

theorem cancelPolicy_ok {db db' : Store} {env : Env} {read : Policy} {reason : String}
    (h : cancelPolicy db env read reason = .ok db') :
    ∃ locked, Tables.find Policy.id db.policies read.id = some locked ∧ locked.id = read.id ∧
      locked.status ∈ cancelableStatuses ∧
      db' = { db with
        policies := Tables.update Policy.id db.policies read.id
          (fun row => row.saveFields (locked.cancelled (env.now 0) reason)
            [.status, .cancellationReason, .updatedAt])
        outbox := db.outbox ++ [cancelledEvent env (locked.cancelled (env.now 0) reason)] } := by
  unfold cancelPolicy at h
  split at h
  · cases h
  · rename_i locked found
    have hid : locked.id = read.id := Tables.find_key found
    have hid' : (locked.cancelled (env.now 0) reason).id = read.id := hid
    obtain ⟨⟨⟩, hcheck, hdone⟩ := Requests.bind_ok.mp h
    simp only [hid'] at hdone
    exact ⟨locked, found, hid, checkCancelable_ok hcheck, (Except.ok.inj hdone).symm⟩

theorem cancelPolicy_error {db : Store} {env : Env} {read : Policy} {reason : String}
    {e : PolicyError} (h : cancelPolicy db env read reason = .error e) :
    Tables.find Policy.id db.policies read.id = none ∨
      ∃ status, status ∉ cancelableStatuses ∧
        e = .invalidPolicyStatus read.id status cancelableStatuses := by
  unfold cancelPolicy at h
  split at h
  · rename_i missing
    exact Or.inl missing
  · rename_i locked found
    cases hc : checkCancelable locked with
    | error e' =>
      simp only [hc, bind, Except.bind] at h
      obtain ⟨refused, he⟩ := checkCancelable_error hc
      have hid : locked.id = read.id := Tables.find_key found
      exact Or.inr ⟨locked.status, refused, by rw [← Except.error.inj h, he, hid]⟩
    | ok u =>
      simp only [hc, bind, Except.bind] at h
      cases h

theorem getObject_ok {db : Store} {filters : PolicyFilters} {pk : UUID} {policy : Policy}
    (h : getObject db filters pk = .ok policy) :
    Tables.find Policy.id db.policies pk = some policy ∧ policy.id = pk := by
  unfold getObject at h
  split at h
  · rename_i found hf
    split at h
    · cases h
      exact ⟨hf, Tables.find_key hf⟩
    · cases h
  · cases h

end PolicyService
