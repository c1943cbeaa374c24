import Mathlib.Data.List.Sort
import RiskCore.PolicyRecords
import RiskCore.TransitionEndpoint

/-!
# POST /policies/ and GET of the policy it made

A body as documented goes through `PolicySerializer` and `create_policy` into the
tables, and comes back through `PolicySerializer`. The coverages are read-only
there, so those of the request never reach the service.
-/

namespace PolicyReadback

open Values PolicyService PolicyRecords
open TransitionEndpoint (strip)

/-! ## The endpoints -/

structure PolicyBody where
  customerId : UUID
  policyType : Policy.PolicyType
  premiumAmount : Amount
  startDate : Date
  endDate : Date
  description : Option String
  coverages : List CoverageData

/-- The `CharField` of the description. -/
def validateDescription : Option String → Except PolicyError (Option String)
  | none => .ok none
  | some data =>
    let value := strip data
    if '\x00' ∈ value.toList then
      .error (.validationError "description" "Null characters are not allowed.")
    else .ok (some value)

/-- `serializer.validated_data`; read-only fields are not in it. -/
def validatedData (body : PolicyBody) : Except PolicyError PolicyData := do
  validatePremiumAmount body.premiumAmount
  let description ← validateDescription body.description
  validateDates (some body.startDate) (some body.endDate)
  return {
    customerId := body.customerId
    policyType := body.policyType
    premiumAmount := body.premiumAmount
    startDate := body.startDate
    endDate := body.endDate
    description := description }

/-- `CoverageSerializer`. -/
structure CoverageResponse where
  id : UUID
  coverageType : String
  coverageAmount : Amount
  description : String
deriving DecidableEq

/-- `PolicySerializer`; the customer is write-only. -/
structure PolicyResponse where
  id : UUID
  policyNumber : String
  policyType : Policy.PolicyType
  status : Policy.Status
  premiumAmount : Amount
  startDate : Date
  endDate : Date
  description : String
  cancellationReason : String
  coverages : List CoverageResponse
  createdAt : DateTime
  updatedAt : DateTime
deriving DecidableEq

/-- `policy.coverages.all()`, ordered by type. -/
def coveragesOf (db : Store) (policyId : UUID) : List Coverage :=
  (db.coverages.filter (fun c => c.policyId = policyId)).insertionSort
    (fun c d => c.coverageType ≤ d.coverageType)

def serialize (db : Store) (policy : Policy) : PolicyResponse where
  id := policy.id
  policyNumber := policy.policyNumber
  policyType := policy.policyType
  status := policy.status
  premiumAmount := policy.premiumAmount
  startDate := policy.startDate
  endDate := policy.endDate
  description := policy.description
  cancellationReason := policy.cancellationReason
  coverages := (coveragesOf db policy.id).map (fun c =>
    ⟨c.id, c.coverageType, c.coverageAmount, c.description⟩)
  createdAt := policy.createdAt
  updatedAt := policy.updatedAt

/-- `PolicyViewSet.create`: `create_policy` is called without its second argument. -/
def create (db : Store) (env : Env) (body : PolicyBody) :
    Except PolicyError (PolicyResponse × Store) := do
  let data ← validatedData body
  let customer ← getCustomer db data.customerId
  let number ← generatePolicyNumber env.connection db.policies (env.now 0).date.year
  let db' ← createPolicy db env customer data []
  return (serialize db' (newPolicy env customer number data), db')

/-- `GET /policies/{id}/`. -/
def retrieve (db : Store) (pk : UUID) : Except PolicyError PolicyResponse := do
  let policy ← getObject db ⟨none, none, none, none, none⟩ pk
  return serialize db policy

/-! ## What is asked of them -/

/-- The foreign key of the coverages. -/
structure ForeignKeys (db : Store) : Prop where
  coverages : ∀ c ∈ db.coverages, Tables.find Policy.id db.policies c.policyId ≠ none

/-- Nothing given is the empty text. -/
def PolicyBody.text (body : PolicyBody) : String := body.description.getD ""

structure AsRequested (body : PolicyBody) (response : PolicyResponse) : Prop where
  policyType : response.policyType = body.policyType
  premiumAmount : response.premiumAmount = body.premiumAmount
  startDate : response.startDate = body.startDate
  endDate : response.endDate = body.endDate
  description : response.description = body.text
  coverages : (response.coverages.map (fun c =>
    (c.coverageType, c.coverageAmount, c.description))).Perm
      (body.coverages.map (fun c => (c.coverageType, c.coverageAmount, c.description.getD "")))

/-! ## What comes back -/

theorem validateDescription_ok {given : Option String} {description : Option String}
    (h : validateDescription given = .ok description) :
    description.getD "" = strip (given.getD "") := by
  cases given with
  | none =>
    cases h
    rfl
  | some data =>
    simp only [validateDescription] at h
    split at h
    · cases h
    · cases h
      rfl

theorem validatedData_ok {body : PolicyBody} {data : PolicyData}
    (h : validatedData body = .ok data) :
    data.policyType = body.policyType ∧ data.premiumAmount = body.premiumAmount ∧
      data.startDate = body.startDate ∧ data.endDate = body.endDate ∧
      data.description.getD "" = strip body.text := by
  obtain ⟨_, _, h⟩ := Requests.bind_ok.mp h
  obtain ⟨description, hdescription, h⟩ := Requests.bind_ok.mp h
  obtain ⟨_, _, h⟩ := Requests.bind_ok.mp h
  cases h
  exact ⟨rfl, rfl, rfl, rfl, validateDescription_ok hdescription⟩

/-- Where no coverages are added, a policy that is new has none. -/
theorem coveragesOf_new {db db' : Store} (keys : ForeignKeys db)
    (unchanged : db'.coverages = db.coverages) {id : UUID}
    (fresh : Tables.find Policy.id db.policies id = none) : coveragesOf db' id = [] := by
  have unowned : db'.coverages.filter (fun c => c.policyId = id) = [] := by
    rw [unchanged]
    refine List.filter_eq_nil_iff.mpr (fun c hc owned => ?_)
    rw [decide_eq_true_iff] at owned
    exact keys.coverages c hc (owned ▸ fresh)
  rw [coveragesOf, unowned]
  rfl

theorem retrieve_stored {db : Store} {policy : Policy}
    (stored : Tables.find Policy.id db.policies policy.id = some policy) :
    retrieve db policy.id = .ok (serialize db policy) := by
  have hget : getObject db ⟨none, none, none, none, none⟩ policy.id = .ok policy := by
    have sameDay : policy.startDate ≤ policy.startDate := Nat.le_refl policy.startDate.key
    simp [getObject, stored, PolicyFilters.matches, passes, sameDay]
  exact Requests.bind_ok.mpr ⟨policy, hget, rfl⟩

/-- The answer to the request is what is read afterwards: the fields of the body, the
description without the blanks around it, and no coverages. -/
theorem retrieve_created {db db' : Store} {env : Env} {body : PolicyBody}
    {response : PolicyResponse} (keys : ForeignKeys db)
    (h : create db env body = .ok (response, db')) :
    retrieve db' response.id = .ok response ∧ response.policyType = body.policyType ∧
      response.premiumAmount = body.premiumAmount ∧ response.startDate = body.startDate ∧
      response.endDate = body.endDate ∧ response.description = strip body.text ∧
      response.coverages = [] := by
  obtain ⟨data, hdata, h⟩ := Requests.bind_ok.mp h
  obtain ⟨customer, _, h⟩ := Requests.bind_ok.mp h
  obtain ⟨number, hnumber, h⟩ := Requests.bind_ok.mp h
  obtain ⟨created, hcreate, h⟩ := Requests.bind_ok.mp h
  cases h
  obtain ⟨number', policies, hnumber', hinsert, hdb'⟩ := createPolicy_steps hcreate
  rw [hnumber] at hnumber'
  cases hnumber'
  obtain ⟨fresh, hpolicies⟩ := insertPolicy_ok hinsert
  obtain ⟨policyType, premiumAmount, startDate, endDate, description⟩ := validatedData_ok hdata
  have stored : Tables.find Policy.id db'.policies (newPolicy env customer number data).id =
      some (newPolicy env customer number data) := by
    rw [hdb', hpolicies]
    exact Tables.find_insert_self fresh
  have unchanged : db'.coverages = db.coverages := by
    rw [hdb']
    exact List.append_nil db.coverages
  refine ⟨retrieve_stored stored, policyType, premiumAmount, startDate, endDate, description, ?_⟩
  simp only [serialize, coveragesOf_new keys unchanged fresh, List.map_nil]

/-- A created policy reads back as requested exactly if the body has no coverages, and
no blanks around the description. -/
theorem reads_back_iff (db : Store) (env : Env) (body : PolicyBody) (response : PolicyResponse)
    (db' : Store) (keys : ForeignKeys db) (h : create db env body = .ok (response, db')) :
    (∃ got, retrieve db' response.id = .ok got ∧ AsRequested body got) ↔
      body.coverages = [] ∧ strip body.text = body.text := by
  obtain ⟨hget, policyType, premiumAmount, startDate, endDate, description, coverages⟩ :=
    retrieve_created keys h
  constructor
  · rintro ⟨got, hgot, asRequested⟩
    rw [hget] at hgot
    cases hgot
    have hcoverages := asRequested.coverages
    rw [coverages, List.map_nil, List.nil_perm, List.map_eq_nil_iff] at hcoverages
    exact ⟨hcoverages, description.symm.trans asRequested.description⟩
  · rintro ⟨none_requested, unpadded⟩
    refine ⟨response, hget, policyType, premiumAmount, startDate, endDate,
      description.trans unpadded, ?_⟩
    rw [coverages, none_requested]
    exact List.Perm.refl _

def exampleBody (coverages : List CoverageData) : PolicyBody where
  customerId := ⟨9⟩
  policyType := .life
  premiumAmount := ⟨15000, by decide⟩
  startDate := ⟨2025, 2, 1, by decide⟩
  endDate := ⟨2026, 2, 1, by decide⟩
  description := some "Seguro de vida"
  coverages := coverages

def exampleCoverage : CoverageData :=
  ⟨"LIFE", ⟨10000000, by decide⟩, some "Cobertura por fallecimiento del asegurado"⟩

def exampleOlder : Policy :=
  newPolicy (exampleEnv 10) exampleCustomer "POL-2025-000011" PolicyRecords.exampleData

/-- One customer, and a policy with a coverage that was added elsewhere. -/
def exampleStore : Store :=
  ⟨[exampleCustomer], [exampleOlder],
    newCoverages (exampleEnv 20) exampleOlder [exampleCoverage], []⟩

theorem exampleStore_keys : ForeignKeys exampleStore where
  coverages := List.forall_mem_singleton.mpr (by decide)

theorem bare_policy_reads_back : ∃ response db',
    create exampleStore (exampleEnv 0) (exampleBody []) = .ok (response, db') ∧
    ∃ got, retrieve db' response.id = .ok got ∧ AsRequested (exampleBody []) got := by
  obtain ⟨response, db', h⟩ : ∃ response db',
      create exampleStore (exampleEnv 0) (exampleBody []) = .ok (response, db') := ⟨_, _, rfl⟩
  exact ⟨response, db', h, (reads_back_iff _ _ _ response db' exampleStore_keys h).mpr ⟨rfl, rfl⟩⟩

/-- The documented request with one coverage: it is accepted, and read back without. -/
theorem coverage_is_lost : ForeignKeys exampleStore ∧ ∃ response db',
    create exampleStore (exampleEnv 0) (exampleBody [exampleCoverage]) = .ok (response, db') ∧
    retrieve db' response.id = .ok response ∧ response.coverages = [] ∧
    ¬ AsRequested (exampleBody [exampleCoverage]) response := by
  refine ⟨exampleStore_keys, _, _, rfl, rfl, rfl, ?_⟩
  intro asRequested
  have none_requested := asRequested.coverages.length_eq
  exact absurd none_requested (by decide)

end PolicyReadback
