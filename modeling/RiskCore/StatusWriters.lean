import RiskCore.Atomicity
import RiskCore.ClaimLifecycle
import RiskCore.PolicyRecords

/-!
# Every writer of a status

The service methods and the two admin change forms, one call after the other on
the tables of both services. A service method that changes a status adds the
history row and the event that tell it; `ClaimAdmin` and `PolicyAdmin` leave
`status` editable and only save the row.
-/

namespace StatusWriters

open Values Outbox Atomicity
open ClaimService (Claim ClaimData TransitionRequest)
open PolicyService (Policy PolicyData CoverageData)

/-! ## The change forms -/

/-- The editable fields of `Claim` that `ClaimAdmin.readonly_fields` leaves. -/
structure ClaimForm where
  claimantName : String
  claimantEmail : String
  incidentDate : Date
  incidentType : Claim.IncidentType
  description : String
  estimatedDamage : Amount
  approvedAmount : Option Amount
  location : String
  status : Claim.Status

/-- The editable fields of `Policy` that `PolicyAdmin.readonly_fields` leaves. -/
structure PolicyForm where
  customerId : UUID
  policyType : Policy.PolicyType
  status : Policy.Status
  premiumAmount : Amount
  startDate : Date
  endDate : Date
  description : String
  cancellationReason : String

def claimEdited (row : Claim) (form : ClaimForm) (updatedAt : DateTime) : Claim :=
  { row with
    claimantName := form.claimantName
    claimantEmail := form.claimantEmail
    incidentDate := form.incidentDate
    incidentType := form.incidentType
    description := form.description
    estimatedDamage := form.estimatedDamage
    approvedAmount := form.approvedAmount
    location := form.location
    status := form.status
    updatedAt := updatedAt }

def policyEdited (row : Policy) (form : PolicyForm) (updatedAt : DateTime) : Policy :=
  { row with
    customerId := form.customerId
    policyType := form.policyType
    status := form.status
    premiumAmount := form.premiumAmount
    startDate := form.startDate
    endDate := form.endDate
    description := form.description
    cancellationReason := form.cancellationReason
    updatedAt := updatedAt }

/-- `Model.save` of the row the form was filled in for. -/
def saveClaim (db : ClaimService.Store) (pk : UUID) (form : ClaimForm) (updatedAt : DateTime) :
    ClaimService.Store :=
  { db with
    claims := Tables.update Claim.id db.claims pk (fun row => claimEdited row form updatedAt) }

def savePolicy (db : PolicyService.Store) (pk : UUID) (form : PolicyForm)
    (updatedAt : DateTime) : PolicyService.Store :=
  { db with
    policies := Tables.update Policy.id db.policies pk
      (fun row => policyEdited row form updatedAt) }

/-! ## The writers -/

structure State where
  claims : ClaimService.Store
  policies : PolicyService.Store

inductive Action where
  | fileClaim (env : ClaimService.Env) (data : ClaimData)
  | transitionStatus (env : ClaimService.Env) (pk : UUID) (req : TransitionRequest)
  | createPolicy (env : PolicyService.Env) (data : PolicyData) (coverages : List CoverageData)
  | updatePolicy (env : PolicyService.Env) (pk : UUID) (data : PolicyService.Data)
  | cancelPolicy (env : PolicyService.Env) (pk : UUID) (reason : String)
  | claimAdmin (pk : UUID) (form : ClaimForm) (updatedAt : DateTime)
  | policyAdmin (pk : UUID) (form : PolicyForm) (updatedAt : DateTime)

/-- A call that raises is rolled back. -/
def settled {E D : Type} (result : Except E D) (db : D) : D :=
  match result with
  | .ok db' => db'
  | .error _ => db

def callClaims (s : State) (env : ClaimService.Env) (op : ClaimOperation) : State :=
  { s with claims := settled (op.result env s.claims) s.claims }

def callPolicies (s : State) (env : PolicyService.Env) (op : PolicyOperation) : State :=
  { s with policies := settled (op.result env s.policies) s.policies }

/-- A service method works on the row its view has just read; a form is saved on
an existing row only, and names an existing customer. -/
def step (s : State) : Action → Option State
  | .fileClaim env data => some (callClaims s env (.fileClaim data))
  | .transitionStatus env pk req =>
    match Tables.find Claim.id s.claims.claims pk with
    | none => some s
    | some claim => some (callClaims s env (.transitionStatus claim req))
  | .createPolicy env data coverages => some (callPolicies s env (.createPolicy data coverages))
  | .updatePolicy env pk data =>
    match Tables.find Policy.id s.policies.policies pk with
    | none => some s
    | some policy => some (callPolicies s env (.updatePolicy policy data))
  | .cancelPolicy env pk reason =>
    match Tables.find Policy.id s.policies.policies pk with
    | none => some s
    | some policy => some (callPolicies s env (.cancelPolicy policy reason))
  | .claimAdmin pk form updatedAt =>
    match Tables.find Claim.id s.claims.claims pk with
    | none => none
    | some _ => some { s with claims := saveClaim s.claims pk form updatedAt }
  | .policyAdmin pk form updatedAt =>
    match Tables.find Policy.id s.policies.policies pk,
        Tables.find PolicyService.Customer.id s.policies.customers form.customerId with
    | some _, some _ => some { s with policies := savePolicy s.policies pk form updatedAt }
    | _, _ => none

/-- Some customers, and neither policies nor claims. -/
def init (customers : List PolicyService.Customer) : State :=
  ⟨⟨[], [], []⟩, ⟨customers, [], [], []⟩⟩

/-! ## What should be told of a status -/

/-- `data.status` of the latest event. -/
def reported (events : List OutboxEvent) : Option Json :=
  events.getLast?.bind (fun e => e.data? "status")

/-- The history is a walk of `VALID_TRANSITIONS` to the claim's status, which
the latest event reports. -/
def ClaimRecorded (r : ClaimRecords.Record) : Prop :=
  ClaimLifecycle.FollowsTransitions r ∧ reported r.events = some (.str r.claim.status.value)

def PolicyRecorded (r : PolicyRecords.Record) : Prop :=
  reported r.events = some (.str r.policy.status.value)

structure Recorded (s : State) : Prop where
  claims : ClaimRecords.AllRecords ClaimRecorded s.claims
  policies : PolicyRecords.AllRecords PolicyRecorded s.policies

/-- No form that is saved changes a status. -/
def AdminKeepsStatus (s : State) (a : Action) (_ : State) : Prop :=
  match a with
  | .claimAdmin pk form _ =>
    ∀ row, Tables.find Claim.id s.claims.claims pk = some row → form.status = row.status
  | .policyAdmin pk form _ =>
    ∀ row, Tables.find Policy.id s.policies.policies pk = some row → form.status = row.status
  | _ => True

theorem reported_snoc (events : List OutboxEvent) (e : OutboxEvent) :
    reported (events ++ [e]) = e.data? "status" := by
  simp [reported]

/-! ## Claims -/

theorem filed_recorded (env : ClaimService.Env) {claim : Claim} (h : claim.status = .filed) :
    ClaimRecorded (ClaimRecords.filedRecord env claim) :=
  ⟨ClaimLifecycle.filed_follows h, (ClaimService.filedEvent_data env claim).1⟩

theorem reported_transitioned (r : ClaimRecords.Record) (env : ClaimService.Env)
    (fromStatus : Claim.Status) (req : TransitionRequest) :
    reported (r.transitioned env fromStatus req).events =
      some (.str (r.transitioned env fromStatus req).claim.status.value) := by
  simp only [ClaimRecords.Record.transitioned]
  have hchanged := (ClaimService.statusChangedEvent_data env
    (r.claim.transitioned (env.now 0) req) fromStatus req).1
  by_cases resolving : req.newStatus = .resolved
  · obtain ⟨e, he, hstatus, -⟩ := ClaimService.resolvedEvents_resolving env
      (r.claim.transitioned (env.now 0) req) resolving
    rw [he, List.append_cons, reported_snoc]
    exact hstatus
  · have hnone : ClaimService.resolvedEvents env (r.claim.transitioned (env.now 0) req) req = [] :=
      if_neg resolving
    rw [hnone, reported_snoc, hchanged]

/-- A transition from the status the row has keeps the claim recorded. -/
theorem transitioned_recorded {env : ClaimService.Env} {r : ClaimRecords.Record}
    {req : TransitionRequest} (h : ClaimRecorded r)
    (hcheck : ClaimService.checkTransition r.claim req = .ok ()) :
    ClaimRecorded (r.transitioned env r.claim.status req) :=
  ⟨(ClaimLifecycle.transitioned_follows_iff h.1 hcheck).mpr rfl,
    reported_transitioned r env r.claim.status req⟩

theorem claimEdited_keeps (form : ClaimForm) (t : DateTime) (pk : UUID) :
    ∀ row : Claim, row.id = pk → (claimEdited row form t).id = pk := fun _ h => h

theorem saveClaim_records (db : ClaimService.Store) (pk : UUID) (form : ClaimForm)
    (t : DateTime) (id : UUID) :
    ClaimRecords.recordOf (saveClaim db pk form t) id = if id = pk then
        (ClaimRecords.recordOf db id).map (fun r => { r with claim := claimEdited r.claim form t })
      else ClaimRecords.recordOf db id := by
  by_cases hid : id = pk
  · subst hid
    simp only [ClaimRecords.recordOf, saveClaim,
      Tables.find_update_self (claimEdited_keeps form t id),
      if_true, Option.map_map]
    rfl
  · simp only [ClaimRecords.recordOf, saveClaim, if_neg hid,
      Tables.find_update_ne (claimEdited_keeps form t pk) hid]

/-- A form keeps a claim recorded exactly if it keeps its status: it adds
nothing to the history and no event. -/
theorem claimEdited_recorded_iff {r : ClaimRecords.Record} (h : ClaimRecorded r)
    (form : ClaimForm) (t : DateTime) :
    ClaimRecorded { r with claim := claimEdited r.claim form t } ↔
      form.status = r.claim.status := by
  have hlast := h.1.last
  constructor
  · intro hedited
    have hlast' := hedited.1.last
    exact Option.some.inj (hlast'.symm.trans hlast)
  · intro same
    have hstatus : (claimEdited r.claim form t).status = r.claim.status := same
    refine ⟨?_, ?_⟩
    · rw [ClaimLifecycle.FollowsTransitions, hstatus]
      exact h.1
    · rw [hstatus]
      exact h.2

theorem saveClaim_integrity {db : ClaimService.Store} (h : ClaimRecords.Integrity db) (pk : UUID)
    (form : ClaimForm) (t : DateTime) : ClaimRecords.Integrity (saveClaim db pk form t) := by
  have kept : ∀ id, Tables.find Claim.id db.claims id ≠ none →
      Tables.find Claim.id (saveClaim db pk form t).claims id ≠ none :=
    fun _ => mt (Tables.find_update_eq_none (claimEdited_keeps form t pk)).mp
  exact ⟨fun r hr => kept _ (h.history r hr), fun e he => kept _ (h.outbox e he)⟩

theorem saveClaim_allRecords_iff {db : ClaimService.Store} {pk : UUID} {row : Claim}
    (found : Tables.find Claim.id db.claims pk = some row) (form : ClaimForm) (t : DateTime)
    (h : ClaimRecords.AllRecords ClaimRecorded db) :
    ClaimRecords.AllRecords ClaimRecorded (saveClaim db pk form t) ↔ form.status = row.status := by
  have hrec := ClaimRecords.recordOf_found found
  have hedited := claimEdited_recorded_iff (h pk _ hrec) form t
  refine (Tables.forall_written_some_iff (saveClaim_records db pk form t) ?_
    (fun id r _ => h id r)).trans hedited
  rw [hrec, Option.map_some]

/-- The claim a call works on, if any, is the current row. -/
def CurrentClaim (db : ClaimService.Store) : ClaimOperation → Prop
  | .fileClaim _ => True
  | .transitionStatus claim _ => Tables.find Claim.id db.claims claim.id = some claim

/-- A call of claims-service on the current row keeps its tables in order. -/
theorem claimCall_keeps {db : ClaimService.Store} (env : ClaimService.Env) {op : ClaimOperation}
    (hI : ClaimRecords.Integrity db) (current : CurrentClaim db op) :
    ClaimRecords.Integrity (settled (op.result env db) db) ∧
      (ClaimRecords.AllRecords ClaimRecorded db →
        ClaimRecords.AllRecords ClaimRecorded (settled (op.result env db) db)) := by
  cases hresult : op.result env db with
  | error e => exact ⟨hI, fun h => h⟩
  | ok db' =>
    simp only [settled]
    cases op with
    | fileClaim data =>
      simp only [ClaimOperation.result, bind] at hresult
      cases hv : env.verifyPolicy data.policyId with
      | error e =>
        rw [hv] at hresult
        cases hresult
      | ok _ =>
        rw [hv] at hresult
        exact ⟨ClaimRecords.fileClaim_integrity hI hresult,
          ClaimRecords.allRecords_file hI hresult (fun _ hs _ => filed_recorded env hs)⟩
    | transitionStatus claim req =>
      simp only [ClaimOperation.result, bind] at hresult
      cases hc : ClaimService.checkTransition claim req with
      | error e =>
        rw [hc] at hresult
        cases hresult
      | ok _ =>
        rw [hc] at hresult
        have hrec := ClaimRecords.recordOf_found current
        refine ⟨ClaimRecords.transitionStatus_integrity hI hresult, fun h =>
          (ClaimRecords.allRecords_transition hresult h).mpr ?_⟩
        intro r hr
        cases hrec.symm.trans hr
        exact transitioned_recorded (h claim.id _ hrec) hc

/-! ## Policies -/

theorem policyEdited_keeps (form : PolicyForm) (t : DateTime) (pk : UUID) :
    ∀ row : Policy, row.id = pk → (policyEdited row form t).id = pk := fun _ h => h

theorem savePolicy_records (db : PolicyService.Store) (pk : UUID) (form : PolicyForm)
    (t : DateTime) (id : UUID) :
    PolicyRecords.recordOf (savePolicy db pk form t) id = if id = pk then
        (PolicyRecords.recordOf db id).map
          (fun r => { r with policy := policyEdited r.policy form t })
      else PolicyRecords.recordOf db id := by
  by_cases hid : id = pk
  · subst hid
    simp only [PolicyRecords.recordOf, savePolicy,
      Tables.find_update_self (policyEdited_keeps form t id), if_true, Option.map_map]
    rfl
  · simp only [PolicyRecords.recordOf, savePolicy, if_neg hid,
      Tables.find_update_ne (policyEdited_keeps form t pk) hid]

theorem policy_value_inj {a b : Policy.Status} (h : a.value = b.value) : a = b := by
  revert h
  cases a <;> cases b <;> decide

theorem policyEdited_recorded_iff {r : PolicyRecords.Record} (h : PolicyRecorded r)
    (form : PolicyForm) (t : DateTime) :
    PolicyRecorded { r with policy := policyEdited r.policy form t } ↔
      form.status = r.policy.status := by
  constructor
  · intro hedited
    have hsame := hedited.symm.trans h
    exact policy_value_inj (Json.str.inj (Option.some.inj hsame))
  · intro same
    have hstatus : (policyEdited r.policy form t).status = r.policy.status := same
    rw [PolicyRecorded, hstatus]
    exact h

theorem savePolicy_integrity {db : PolicyService.Store} (h : PolicyRecords.Integrity db)
    (pk : UUID) (form : PolicyForm) (t : DateTime) :
    PolicyRecords.Integrity (savePolicy db pk form t) := by
  have kept : ∀ id, Tables.find Policy.id db.policies id ≠ none →
      Tables.find Policy.id (savePolicy db pk form t).policies id ≠ none :=
    fun _ => mt (Tables.find_update_eq_none (policyEdited_keeps form t pk)).mp
  exact ⟨fun e he => kept _ (h.outbox e he)⟩

theorem savePolicy_allRecords_iff {db : PolicyService.Store} {pk : UUID} {row : Policy}
    (found : Tables.find Policy.id db.policies pk = some row) (form : PolicyForm) (t : DateTime)
    (h : PolicyRecords.AllRecords PolicyRecorded db) :
    PolicyRecords.AllRecords PolicyRecorded (savePolicy db pk form t) ↔
      form.status = row.status := by
  have hrec := PolicyRecords.recordOf_found found
  have hedited := policyEdited_recorded_iff (h pk _ hrec) form t
  refine (Tables.forall_written_some_iff (savePolicy_records db pk form t) ?_
    (fun id r _ => h id r)).trans hedited
  rw [hrec, Option.map_some]

theorem created_recorded (env : PolicyService.Env) (n : Nat) (policy : Policy) :
    PolicyRecorded (PolicyRecords.createdRecord env n policy) := rfl

theorem cancelled_recorded (env : PolicyService.Env) (r : PolicyRecords.Record) (reason : String) :
    PolicyRecorded (r.cancelled env reason) := by
  simp only [PolicyRecorded, PolicyRecords.Record.cancelled, reported_snoc]
  rfl

/-- An update reports the status it read, which is the row's. -/
theorem updated_recorded (env : PolicyService.Env) {r : PolicyRecords.Record}
    (h : PolicyRecorded r) (data : PolicyService.Data) :
    PolicyRecorded (r.updated env r.policy data) := by
  have hstatus := PolicyRecords.updated_status r env r.policy data
  rw [PolicyRecorded, hstatus]
  unfold PolicyRecords.Record.updated
  by_cases none_changed : PolicyService.changedFields data = []
  · rw [if_pos none_changed]
    exact h
  · have hread : (r.policy.updated (env.now 0) data).status = r.policy.status :=
      PolicyService.get_updated_fixed (c := .status) (by decide) (by decide)
    rw [if_neg none_changed, reported_snoc, ← hread]
    rfl

/-- The policy an update works on is the current row; the others read it again. -/
def CurrentPolicy (db : PolicyService.Store) : PolicyOperation → Prop
  | .updatePolicy policy _ => Tables.find Policy.id db.policies policy.id = some policy
  | .createPolicy _ _ => True
  | .cancelPolicy _ _ => True

/-- A call of policy-service on the current row keeps its tables in order. -/
theorem policyCall_keeps {db : PolicyService.Store} (env : PolicyService.Env)
    {op : PolicyOperation} (hI : PolicyRecords.Integrity db) (current : CurrentPolicy db op) :
    PolicyRecords.Integrity (settled (op.result env db) db) ∧
      (PolicyRecords.AllRecords PolicyRecorded db →
        PolicyRecords.AllRecords PolicyRecorded (settled (op.result env db) db)) := by
  cases hresult : op.result env db with
  | error e => exact ⟨hI, fun h => h⟩
  | ok db' =>
    simp only [settled]
    cases op with
    | createPolicy data coverages =>
      simp only [PolicyOperation.result, bind] at hresult
      cases hc : PolicyService.getCustomer db data.customerId with
      | error e =>
        rw [hc] at hresult
        cases hresult
      | ok customer =>
        rw [hc] at hresult
        have hcommit : (PolicyService.service PolicyService.serializers).commit db env
            (.create data coverages) customer = .ok db' := hresult
        refine ⟨PolicyRecords.integrity_commit hI hcommit, fun h => ?_⟩
        obtain ⟨number, -, records⟩ := PolicyRecords.createPolicy_records hI hresult
        refine (Tables.forall_written_some_iff records rfl (fun id r _ => h id r)).mpr ?_
        exact created_recorded env coverages.length _
    | updatePolicy policy data =>
      simp only [PolicyOperation.result, bind] at hresult
      cases hc : PolicyService.checkUpdatable policy with
      | error e =>
        rw [hc] at hresult
        cases hresult
      | ok _ =>
        rw [hc] at hresult
        have hcommit : (PolicyService.service PolicyService.serializers).commit db env
            (.update policy.id ⟨none, none, none, none, none⟩ data) policy = .ok db' := hresult
        refine ⟨PolicyRecords.integrity_commit hI hcommit, fun h => ?_⟩
        have hrec := PolicyRecords.recordOf_found current
        refine (Tables.forall_written_some_iff (PolicyRecords.updatePolicy_records hresult) ?_
          (fun id r _ => h id r)).mpr (updated_recorded env (h policy.id _ hrec) data)
        rw [hrec, Option.map_some]
    | cancelPolicy policy reason =>
      simp only [PolicyOperation.result, bind] at hresult
      cases hc : PolicyService.checkCancelable policy with
      | error e =>
        rw [hc] at hresult
        cases hresult
      | ok _ =>
        rw [hc] at hresult
        have hcommit : (PolicyService.service PolicyService.serializers).commit db env
            (.cancel policy.id ⟨none, none, none, none, none⟩ reason) policy = .ok db' := hresult
        refine ⟨PolicyRecords.integrity_commit hI hcommit, fun h => ?_⟩
        obtain ⟨-, records⟩ := PolicyRecords.cancelPolicy_records hresult
        refine (Tables.forall_written_iff records (fun id r _ => h id r)).mpr ?_
        intro r hr
        obtain ⟨old, -, rfl⟩ := Option.map_eq_some_iff.mp hr
        exact cancelled_recorded env old reason

/-! ## Runs -/

structure Sound (s : State) : Prop where
  claims : ClaimRecords.Integrity s.claims
  policies : PolicyRecords.Integrity s.policies

theorem init_sound (customers : List PolicyService.Customer) : Sound (init customers) :=
  ⟨ClaimRecords.integrity_empty, ⟨by simp [init]⟩⟩

theorem init_recorded (customers : List PolicyService.Customer) : Recorded (init customers) where
  claims := by
    intro id r h
    cases h
  policies := by
    intro id r h
    cases h

/-- One step keeps the tables sound, and keeps every status told exactly if it
is no form that changes one. -/
theorem step_exact {s t : State} {a : Action} (hs : Sound s) (h : step s a = some t) :
    Sound t ∧ (Recorded s → (Recorded t ↔ AdminKeepsStatus s a t)) := by
  have claimsStep : ∀ env op, t = callClaims s env op → CurrentClaim s.claims op →
      Sound t ∧ (Recorded s → Recorded t) := by
    rintro env op rfl current
    have hkeeps := claimCall_keeps env hs.claims current
    exact ⟨⟨hkeeps.1, hs.policies⟩, fun hr => ⟨hkeeps.2 hr.claims, hr.policies⟩⟩
  have policiesStep : ∀ env op, t = callPolicies s env op → CurrentPolicy s.policies op →
      Sound t ∧ (Recorded s → Recorded t) := by
    rintro env op rfl current
    have hkeeps := policyCall_keeps env hs.policies current
    exact ⟨⟨hs.claims, hkeeps.1⟩, fun hr => ⟨hr.claims, hkeeps.2 hr.policies⟩⟩
  have unrestricted : Sound t ∧ (Recorded s → Recorded t) → AdminKeepsStatus s a t →
      Sound t ∧ (Recorded s → (Recorded t ↔ AdminKeepsStatus s a t)) :=
    fun ht keeps => ⟨ht.1, fun hr => iff_of_true (ht.2 hr) keeps⟩
  cases a with
  | fileClaim env data =>
    exact unrestricted (claimsStep env (.fileClaim data) (Option.some.inj h).symm trivial) trivial
  | transitionStatus env pk req =>
    refine unrestricted ?_ trivial
    simp only [step] at h
    split at h
    · cases h
      exact ⟨hs, fun hr => hr⟩
    · rename_i claim found
      have hid : claim.id = pk := Tables.find_key found
      have current : CurrentClaim s.claims (.transitionStatus claim req) := by
        rw [CurrentClaim, hid]
        exact found
      exact claimsStep env _ (Option.some.inj h).symm current
  | createPolicy env data coverages =>
    exact unrestricted (policiesStep env (.createPolicy data coverages) (Option.some.inj h).symm
      trivial) trivial
  | updatePolicy env pk data =>
    refine unrestricted ?_ trivial
    simp only [step] at h
    split at h
    · cases h
      exact ⟨hs, fun hr => hr⟩
    · rename_i policy found
      have hid : policy.id = pk := Tables.find_key found
      have current : CurrentPolicy s.policies (.updatePolicy policy data) := by
        rw [CurrentPolicy, hid]
        exact found
      exact policiesStep env _ (Option.some.inj h).symm current
  | cancelPolicy env pk reason =>
    refine unrestricted ?_ trivial
    simp only [step] at h
    split at h
    · cases h
      exact ⟨hs, fun hr => hr⟩
    · rename_i policy found
      exact policiesStep env (.cancelPolicy policy reason) (Option.some.inj h).symm trivial
  | claimAdmin pk form updatedAt =>
    simp only [step] at h
    split at h
    · cases h
    · rename_i row found
      cases h
      refine ⟨⟨saveClaim_integrity hs.claims pk form updatedAt, hs.policies⟩, fun hr => ?_⟩
      have hexact := saveClaim_allRecords_iff found form updatedAt hr.claims
      constructor
      · intro ht row' found'
        cases found.symm.trans found'
        exact hexact.mp ht.claims
      · exact fun keeps => ⟨hexact.mpr (keeps row found), hr.policies⟩
  | policyAdmin pk form updatedAt =>
    simp only [step] at h
    split at h
    · rename_i row customer found _
      cases h
      refine ⟨⟨hs.claims, savePolicy_integrity hs.policies pk form updatedAt⟩, fun hr => ?_⟩
      have hexact := savePolicy_allRecords_iff found form updatedAt hr.policies
      constructor
      · intro ht row' found'
        cases found.symm.trans found'
        exact hexact.mp ht.policies
      · exact fun keeps => ⟨hr.claims, hexact.mpr (keeps row found)⟩
    · cases h

/-- Along a run every status is told, by the history and by the events, exactly
as long as no admin form that is saved changes one. -/
theorem statuses_recorded_iff_admin_keeps (customers : List PolicyService.Customer)
    (as : List Action) :
    Runs.Always step Recorded (init customers) as ↔
      Runs.Steps step AdminKeepsStatus (init customers) as :=
  Runs.always_iff_steps (fun _ _ _ hs h => (step_exact hs h).1)
    (fun _ _ _ hs hr h => (step_exact hs h).2 hr) (init_sound customers) (init_recorded customers)

/-- The form of a claim as it stands, with another status. -/
def exampleForm (claim : Claim) (status : Claim.Status) : ClaimForm where
  claimantName := claim.claimantName
  claimantEmail := claim.claimantEmail
  incidentDate := claim.incidentDate
  incidentType := claim.incidentType
  description := claim.description
  estimatedDamage := claim.estimatedDamage
  approvedAmount := claim.approvedAmount
  location := claim.location
  status := status

/-- A claim is filed, and the admin sets it to RESOLVED. -/
def adminResolves : List Action :=
  [.fileClaim (ClaimRecords.exampleEnv 0) ClaimRecords.exampleData,
    .claimAdmin ⟨0⟩ (exampleForm (ClaimService.newClaim (ClaimRecords.exampleEnv 0)
      "CLM-2025-000001" ClaimRecords.exampleData) .resolved) (exampleInstant 11 0)]

theorem adminResolves_unrecorded : ¬ Runs.Always step Recorded (init []) adminResolves := by
  refine Runs.not_always_of_run (f := fun s => (ClaimRecords.recordOf s.claims ⟨0⟩).map
    (fun r => (ClaimRecords.changes r, r.claim.status))) (b := ([(none, .filed)], .resolved)) rfl ?_
  intro s hs hrecorded
  obtain ⟨r, hrec, hr⟩ := Option.map_eq_some_iff.mp hs
  have hlast := (hrecorded.claims ⟨0⟩ r hrec).1.last
  rw [(Prod.mk.inj hr).1, (Prod.mk.inj hr).2] at hlast
  cases hlast

end StatusWriters
