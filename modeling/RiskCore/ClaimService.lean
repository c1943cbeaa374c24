import RiskCore.Numbering
import RiskCore.Outbox
import RiskCore.Requests

/-!
# claims-service: claims, their history and their events

The claim tables, `ClaimEventBuilder`, the two serializers that guard the
endpoints, `ClaimService.file_claim` and `ClaimService.transition_status`, and
the two views that call them. The views make up a `Requests.Service`: an
unlocked read, a check against what was read, one transaction.
-/

namespace ClaimService

open Values Outbox

inductive Claim.IncidentType where
  | accidente
  | robo
  | incendio
  | inundacion
  | otro
deriving DecidableEq

def Claim.IncidentType.value : Claim.IncidentType → String
  | .accidente => "ACCIDENTE"
  | .robo => "ROBO"
  | .incendio => "INCENDIO"
  | .inundacion => "INUNDACION"
  | .otro => "OTRO"

inductive Claim.Status where
  | filed
  | underReview
  | approved
  | rejected
  | resolved
deriving DecidableEq

def Claim.Status.value : Claim.Status → String
  | .filed => "FILED"
  | .underReview => "UNDER_REVIEW"
  | .approved => "APPROVED"
  | .rejected => "REJECTED"
  | .resolved => "RESOLVED"

structure Claim where
  id : UUID
  claimNumber : String
  policyId : UUID
  claimantName : String
  claimantEmail : String
  incidentDate : Date
  incidentType : Claim.IncidentType
  description : String
  estimatedDamage : Amount
  approvedAmount : Option Amount
  location : String
  status : Claim.Status
  filedAt : DateTime
  updatedAt : DateTime
deriving DecidableEq

/-- `fromStatus = none` is the empty string written when a claim is filed. -/
structure ClaimStatusHistory where
  id : UUID
  claimId : UUID
  fromStatus : Option Claim.Status
  toStatus : Claim.Status
  changedAt : DateTime
  notes : String
deriving DecidableEq

structure Store where
  claims : List Claim
  history : List ClaimStatusHistory
  outbox : List OutboxEvent

inductive ClaimError where
  | claimNotFound (claimId : UUID)
  | doesNotExist (claimId : UUID)
  | invalidClaimStatus (claimId : UUID) (currentStatus : Claim.Status)
      (allowedTransitions : List Claim.Status)
  | validationError (field message : String)
  | policyInactive (policyId : UUID) (policyStatus : Option String)
  | policyServiceUnavailable (policyId : UUID)
  | integrityError (column : String)
  | dataError (column : String)
  | valueError (text : String)
deriving DecidableEq

/-- What a call gets from outside: the results of its successive `uuid4()` and
`now()` calls, the date of the day, and policy-service's answer. -/
structure Env where
  uuid4 : Nat → UUID
  now : Nat → DateTime
  today : Date
  verifyPolicy : UUID → Except ClaimError Unit

/-! ## Events -/

def baseData (claim : Claim) : Dict :=
  [("claim_id", .str claim.id.str),
   ("claim_number", .str claim.claimNumber),
   ("policy_id", .str claim.policyId.str),
   ("status", .str claim.status.value),
   ("incident_type", .str claim.incidentType.value),
   ("claimant_email", .str claim.claimantEmail)]

def payloadOf (eventId : UUID) (eventType : String) (occurredAt : DateTime) (data : Dict) : Json :=
  envelope eventId eventType occurredAt "claims-service" data

/-- The optional last entry of `build_status_changed` and `build_resolved`. -/
def withApprovedAmount (claim : Claim) (data : Dict) : Dict :=
  match claim.approvedAmount with
  | some amount => data.set "approved_amount" (.str amount.str)
  | none => data

def buildFiled (eventId : UUID) (occurredAt : DateTime) (claim : Claim) : Json :=
  payloadOf eventId "claim.filed" occurredAt
    (Dict.set (baseData claim) "estimated_damage" (.str claim.estimatedDamage.str))

def buildStatusChanged (eventId : UUID) (occurredAt : DateTime) (claim : Claim)
    (fromStatus toStatus : Claim.Status) : Json :=
  payloadOf eventId "claim.status_changed" occurredAt
    (withApprovedAmount claim
      (Dict.set (Dict.set (baseData claim) "from_status" (.str fromStatus.value))
        "to_status" (.str toStatus.value)))

def buildResolved (eventId : UUID) (occurredAt : DateTime) (claim : Claim) : Json :=
  payloadOf eventId "claim.resolved" occurredAt (withApprovedAmount claim (baseData claim))

def emitClaimEvent (id : UUID) (createdAt : DateTime) (claim : Claim) (eventType : String)
    (payload : Json) : OutboxEvent :=
  OutboxEvent.create id createdAt "claim" claim.id eventType eventType claim.id.str payload

/-! ## Filing -/

/-- The validated body of `POST /claims/`. -/
structure ClaimData where
  policyId : UUID
  claimantName : String
  claimantEmail : String
  incidentDate : Date
  incidentType : Claim.IncidentType
  description : String
  estimatedDamage : Amount
  location : Option String
deriving DecidableEq

/-- `ClaimSerializer.validate_incident_date`. -/
def validateIncidentDate (today value : Date) : Except ClaimError Unit :=
  if today < value then
    .error (.validationError "incident_date" "La fecha del incidente no puede ser futura.")
  else .ok ()

def generateClaimNumber (claims : List Claim) (year : Nat) : Except ClaimError String :=
  match Numbering.next ("CLM-" ++ Nat.repr year ++ "-") (claims.map Claim.claimNumber) with
  | .ok number => .ok number
  | .error part => .error (.valueError part)

/-- The row `Claim.objects.create` builds for `file_claim`. -/
def newClaim (env : Env) (number : String) (data : ClaimData) : Claim where
  id := env.uuid4 0
  claimNumber := number
  policyId := data.policyId
  claimantName := data.claimantName
  claimantEmail := data.claimantEmail
  incidentDate := data.incidentDate
  incidentType := data.incidentType
  description := data.description
  estimatedDamage := data.estimatedDamage
  approvedAmount := none
  location := data.location.getD ""
  status := .filed
  filedAt := env.now 1
  updatedAt := env.now 2

/-- `max_length` of `claim_number`. -/
def Claim.numberMaxLength : Nat := 20

/-- `INSERT` of a claim: its number fits into the column, and both its primary key and
its number are unique. -/
def insertClaim (claims : List Claim) (claim : Claim) : Except ClaimError (List Claim) :=
  if Claim.numberMaxLength < claim.claimNumber.length then .error (.dataError "claim_number")
  else if (Tables.find Claim.id claims claim.id).isSome then .error (.integrityError "id")
  else if claims.any (fun c => c.claimNumber = claim.claimNumber) then
    .error (.integrityError "claim_number")
  else .ok (Tables.insert claims claim)

def filedHistory (env : Env) (claim : Claim) : ClaimStatusHistory :=
  ⟨env.uuid4 1, claim.id, none, .filed, env.now 3, "Siniestro reportado"⟩

def filedEvent (env : Env) (claim : Claim) : OutboxEvent :=
  emitClaimEvent (env.uuid4 3) (env.now 5) claim "claim.filed"
    (buildFiled (env.uuid4 2) (env.now 4) claim)

/-- The transaction of `ClaimService.file_claim`. -/
def fileClaim (db : Store) (env : Env) (data : ClaimData) : Except ClaimError Store := do
  let number ← generateClaimNumber db.claims (env.now 0).date.year
  let claim := newClaim env number data
  let claims ← insertClaim db.claims claim
  .ok ⟨claims, db.history ++ [filedHistory env claim], db.outbox ++ [filedEvent env claim]⟩

/-! ## Transitions -/

def validTransitions : Claim.Status → List Claim.Status
  | .filed => [.underReview]
  | .underReview => [.approved, .rejected]
  | .approved => [.resolved]
  | .rejected => [.resolved]
  | .resolved => []

/-- The query parameters `get_queryset` filters on. -/
structure ClaimFilters where
  status : Option String
  policyId : Option UUID
  incidentType : Option String
deriving DecidableEq

def ClaimFilters.matches (f : ClaimFilters) (claim : Claim) : Bool :=
  passes f.status claim.status.value && (f.policyId.getD claim.policyId = claim.policyId) &&
    passes f.incidentType claim.incidentType.value

/-- `POST /claims/{pk}/transition/` with its parsed body; a missing and a null
amount are the same to the code. -/
structure TransitionRequest where
  pk : UUID
  filters : ClaimFilters
  newStatus : Claim.Status
  notes : String
  approvedAmount : Option Amount
deriving DecidableEq

/-- `ClaimViewSet.get_object`. -/
def getObject (db : Store) (filters : ClaimFilters) (pk : UUID) : Except ClaimError Claim :=
  match Tables.find Claim.id db.claims pk with
  | some claim => if filters.matches claim then .ok claim else .error (.claimNotFound pk)
  | none => .error (.claimNotFound pk)

/-- `ClaimTransitionSerializer.validate`: a null or zero amount is falsy. -/
def validateTransition (req : TransitionRequest) : Except ClaimError Unit :=
  if req.newStatus = .approved ∧
      (req.approvedAmount = none ∨ req.approvedAmount.map Amount.cents = some 0) then
    .error (.validationError "approved_amount"
      "El monto aprobado es obligatorio al aprobar un siniestro.")
  else .ok ()

/-- The checks of `transition_status` before its transaction, on the claim that
was read without a lock. -/
def checkTransition (claim : Claim) (req : TransitionRequest) : Except ClaimError Unit :=
  let currentStatus := claim.status
  let allowed := validTransitions currentStatus
  if req.newStatus ∉ allowed then
    .error (.invalidClaimStatus claim.id currentStatus allowed)
  else if req.newStatus = .approved ∧ req.approvedAmount = none then
    .error (.validationError "approved_amount"
      "El monto aprobado es requerido para aprobar un siniestro.")
  else .ok ()

/-- The locked claim after the assignments and `save(update_fields=...)`. -/
def Claim.transitioned (claim : Claim) (updatedAt : DateTime) (req : TransitionRequest) : Claim :=
  { claim with
    status := req.newStatus
    approvedAmount :=
      if req.newStatus = .approved ∧ req.approvedAmount ≠ none then req.approvedAmount
      else claim.approvedAmount
    updatedAt := updatedAt }

def transitionHistory (env : Env) (claim : Claim) (fromStatus : Claim.Status)
    (req : TransitionRequest) : ClaimStatusHistory :=
  ⟨env.uuid4 0, claim.id, some fromStatus, req.newStatus, env.now 1, req.notes⟩

def statusChangedEvent (env : Env) (claim : Claim) (fromStatus : Claim.Status)
    (req : TransitionRequest) : OutboxEvent :=
  emitClaimEvent (env.uuid4 2) (env.now 3) claim "claim.status_changed"
    (buildStatusChanged (env.uuid4 1) (env.now 2) claim fromStatus req.newStatus)

def resolvedEvents (env : Env) (claim : Claim) (req : TransitionRequest) : List OutboxEvent :=
  if req.newStatus = .resolved then
    [emitClaimEvent (env.uuid4 4) (env.now 5) claim "claim.resolved"
      (buildResolved (env.uuid4 3) (env.now 4) claim)]
  else []

/-- The transaction of `ClaimService.transition_status`. `read` is the claim of
the unlocked read: its status, not the locked row's, goes into the history. -/
def transitionStatus (db : Store) (env : Env) (read : Claim) (req : TransitionRequest) :
    Except ClaimError Store :=
  match Tables.find Claim.id db.claims read.id with
  | none => .error (.doesNotExist read.id)
  | some locked =>
    let claim := locked.transitioned (env.now 0) req
    .ok ⟨Tables.update Claim.id db.claims read.id (fun row => row.transitioned (env.now 0) req),
      db.history ++ [transitionHistory env claim read.status req],
      db.outbox ++ statusChangedEvent env claim read.status req :: resolvedEvents env claim req⟩

/-! ## The endpoints as concurrent calls -/

inductive Call where
  | file (data : ClaimData)
  | transition (req : TransitionRequest)

abbrev View : Call → Type
  | .file _ => Unit
  | .transition _ => Claim

/-- `ClaimViewSet.create` and `ClaimViewSet.transition`. -/
def service : Requests.Service Store Call View ClaimError Env where
  read db env
    | .file data => do
      validateIncidentDate env.today data.incidentDate
      env.verifyPolicy data.policyId
    | .transition req => getObject db req.filters req.pk
  check
    | .file _, _ => .ok ()
    | .transition req, claim => do
      validateTransition req
      checkTransition claim req
  commit db env
    | .file data, _ => fileClaim db env data
    | .transition req, claim => transitionStatus db env claim req

abbrev State := Requests.State Store Call View ClaimError
abbrev Action := Requests.Action Call Env

def step : State → Action → Option State := Requests.step service

/-- No claims, no calls. -/
def init : State := Requests.init ⟨[], [], []⟩

/-! ## What the functions do -/

@[simp] theorem newClaim_id (env : Env) (number : String) (data : ClaimData) :
    (newClaim env number data).id = env.uuid4 0 := rfl

@[simp] theorem newClaim_status (env : Env) (number : String) (data : ClaimData) :
    (newClaim env number data).status = .filed := rfl

@[simp] theorem newClaim_approvedAmount (env : Env) (number : String) (data : ClaimData) :
    (newClaim env number data).approvedAmount = none := rfl

@[simp] theorem transitioned_id (claim : Claim) (t : DateTime) (req : TransitionRequest) :
    (claim.transitioned t req).id = claim.id := rfl

@[simp] theorem transitioned_status (claim : Claim) (t : DateTime) (req : TransitionRequest) :
    (claim.transitioned t req).status = req.newStatus := rfl

theorem insertClaim_ok {claims claims' : List Claim} {claim : Claim}
    (h : insertClaim claims claim = .ok claims') :
    Tables.find Claim.id claims claim.id = none ∧ claims' = Tables.insert claims claim := by
  unfold insertClaim at h
  split at h
  · cases h
  · split at h
    · cases h
    · rename_i fresh
      split at h
      · cases h
      · cases h
        exact ⟨by simpa using fresh, rfl⟩

theorem fileClaim_ok {db db' : Store} {env : Env} {data : ClaimData}
    (h : fileClaim db env data = .ok db') :
    ∃ number, Tables.find Claim.id db.claims (env.uuid4 0) = none ∧
      db' = ⟨Tables.insert db.claims (newClaim env number data),
        db.history ++ [filedHistory env (newClaim env number data)],
        db.outbox ++ [filedEvent env (newClaim env number data)]⟩ := by
  obtain ⟨number, _, hrest⟩ := Requests.bind_ok.mp h
  obtain ⟨claims, hinsert, hdone⟩ := Requests.bind_ok.mp hrest
  obtain ⟨fresh, rfl⟩ := insertClaim_ok hinsert
  exact ⟨number, fresh, (Except.ok.inj hdone).symm⟩

/-- Once it has its number, a filing depends on its insert. -/
theorem fileClaim_of_number {db : Store} {env : Env} {data : ClaimData} {number : String}
    (h : generateClaimNumber db.claims (env.now 0).date.year = .ok number) :
    fileClaim db env data = (insertClaim db.claims (newClaim env number data)).map (fun claims =>
      ⟨claims, db.history ++ [filedHistory env (newClaim env number data)],
        db.outbox ++ [filedEvent env (newClaim env number data)]⟩) := by
  simp only [fileClaim, h, bind, Except.bind]
  cases insertClaim db.claims (newClaim env number data) <;> rfl

theorem insertClaim_fresh {claims : List Claim} (claim : Claim)
    (fits : claim.claimNumber.length ≤ Claim.numberMaxLength)
    (newId : Tables.find Claim.id claims claim.id = none)
    (newNumber : claim.claimNumber ∉ claims.map Claim.claimNumber) :
    insertClaim claims claim = .ok (Tables.insert claims claim) := by
  have hunused : ¬ claims.any (fun c => c.claimNumber = claim.claimNumber) = true := by
    intro hany
    obtain ⟨c, hc, heq⟩ := List.any_eq_true.mp hany
    exact newNumber (of_decide_eq_true heq ▸ List.mem_map_of_mem hc)
  simp only [insertClaim, if_neg (Nat.not_lt.mpr fits), newId, Option.isSome_none,
    Bool.false_eq_true, if_false, if_neg hunused]

theorem insertClaim_long {claims : List Claim} {claim : Claim}
    (long : Claim.numberMaxLength < claim.claimNumber.length) :
    insertClaim claims claim = .error (.dataError "claim_number") := by
  rw [insertClaim, if_pos long]

theorem insertClaim_used {claims : List Claim} (claim : Claim)
    (used : claim.claimNumber ∈ claims.map Claim.claimNumber) :
    ∃ e, insertClaim claims claim = .error e := by
  obtain ⟨c, hc, heq⟩ := List.mem_map.mp used
  have hany : claims.any (fun c => c.claimNumber = claim.claimNumber) = true :=
    List.any_eq_true.mpr ⟨c, hc, decide_eq_true heq⟩
  by_cases long : Claim.numberMaxLength < claim.claimNumber.length
  · exact ⟨_, insertClaim_long long⟩
  · by_cases hid : (Tables.find Claim.id claims claim.id).isSome = true
    · exact ⟨.integrityError "id", by simp only [insertClaim, if_neg long, hid, if_true]⟩
    · exact ⟨.integrityError "claim_number", by
        simp only [insertClaim, if_neg long, if_neg hid, if_pos hany]⟩

theorem insertClaim_ok_number {claims claims' : List Claim} {claim : Claim}
    (h : insertClaim claims claim = .ok claims') :
    claim.claimNumber ∉ claims.map Claim.claimNumber := by
  intro used
  obtain ⟨e, refused⟩ := insertClaim_used claim used
  rw [refused] at h
  cases h

theorem insertClaim_ok_fits {claims claims' : List Claim} {claim : Claim}
    (h : insertClaim claims claim = .ok claims') :
    claim.claimNumber.length ≤ Claim.numberMaxLength := by
  refine Nat.not_lt.mp (fun long => ?_)
  rw [insertClaim_long long] at h
  cases h

theorem transitionStatus_ok {db db' : Store} {env : Env} {read : Claim}
    {req : TransitionRequest} (h : transitionStatus db env read req = .ok db') :
    ∃ locked, Tables.find Claim.id db.claims read.id = some locked ∧ locked.id = read.id ∧
      db' = ⟨Tables.update Claim.id db.claims read.id
          (fun row => row.transitioned (env.now 0) req),
        db.history ++ [transitionHistory env (locked.transitioned (env.now 0) req) read.status req],
        db.outbox ++ statusChangedEvent env (locked.transitioned (env.now 0) req) read.status req ::
          resolvedEvents env (locked.transitioned (env.now 0) req) req⟩ := by
  unfold transitionStatus at h
  split at h
  · cases h
  · rename_i locked found
    exact ⟨locked, found, Tables.find_key found, (Except.ok.inj h).symm⟩

theorem getObject_ok {db : Store} {filters : ClaimFilters} {pk : UUID} {claim : Claim}
    (h : getObject db filters pk = .ok claim) :
    Tables.find Claim.id db.claims pk = some claim ∧ claim.id = pk := by
  unfold getObject at h
  split at h
  · rename_i found hf
    split at h
    · cases h
      exact ⟨hf, Tables.find_key hf⟩
    · cases h
  · cases h

theorem checkTransition_ok {claim : Claim} {req : TransitionRequest}
    (h : checkTransition claim req = .ok ()) :
    req.newStatus ∈ validTransitions claim.status ∧
      (req.newStatus = .approved → req.approvedAmount ≠ none) := by
  simp only [checkTransition] at h
  by_cases edge : req.newStatus ∈ validTransitions claim.status
  · rw [if_neg (not_not.mpr edge)] at h
    refine ⟨edge, fun approve missing => ?_⟩
    rw [if_pos ⟨approve, missing⟩] at h
    cases h
  · rw [if_pos edge] at h
    cases h

theorem service_check_transition {req : TransitionRequest} {claim : Claim}
    (h : service.check (.transition req) claim = .ok ()) :
    validateTransition req = .ok () ∧ checkTransition claim req = .ok () := by
  obtain ⟨⟨⟩, valid, hcheck⟩ := Requests.bind_ok.mp h
  exact ⟨valid, hcheck⟩

/-! ## What the events carry -/

@[simp] theorem emit_data (id : UUID) (t : DateTime) (claim : Claim) (eventType : String)
    (eventId : UUID) (kind : String) (occurredAt : DateTime) (data : Dict) (k : String) :
    (emitClaimEvent id t claim eventType (payloadOf eventId kind occurredAt data)).data? k =
      data.lookup k := rfl

theorem withApprovedAmount_amount {claim : Claim} {data : Dict}
    (absent : data.lookup "approved_amount" = none) :
    (withApprovedAmount claim data).lookup "approved_amount" =
      claim.approvedAmount.map (fun amount => Json.str amount.str) := by
  unfold withApprovedAmount
  split
  · rename_i amount h
    simp [Dict.lookup_set_new _ absent, absent, h]
  · rename_i h
    simp [absent, h]

theorem withApprovedAmount_other {claim : Claim} {data : Dict} {k : String}
    (absent : data.lookup "approved_amount" = none) (other : k ≠ "approved_amount") :
    (withApprovedAmount claim data).lookup k = data.lookup k := by
  unfold withApprovedAmount
  split
  · simp [Dict.lookup_set_new _ absent, other]
  · rfl

theorem baseData_status (claim : Claim) :
    (baseData claim).lookup "status" = some (.str claim.status.value) := rfl

/-- The keys the builders add are not among the base ones. -/
theorem baseData_absent (claim : Claim) {k : String}
    (h : k ∈ ["estimated_damage", "from_status", "to_status", "approved_amount"]) :
    (baseData claim).lookup k = none := by
  simp only [List.mem_cons, List.not_mem_nil, or_false] at h
  rcases h with rfl | rfl | rfl | rfl <;> rfl

/-- The dictionary `build_status_changed` extends with the amount. -/
theorem lookup_statusChanged (claim : Claim) (fromStatus toStatus : Claim.Status) (k : String) :
    (Dict.set (Dict.set (baseData claim) "from_status" (.str fromStatus.value))
      "to_status" (.str toStatus.value)).lookup k =
      ((baseData claim).lookup k).or
        ((if k = "from_status" then some (.str fromStatus.value) else none).or
          (if k = "to_status" then some (.str toStatus.value) else none)) := by
  have noFrom := baseData_absent claim (k := "from_status") (by decide)
  have noTo : (Dict.set (baseData claim) "from_status" (.str fromStatus.value)).lookup
      "to_status" = none := by
    rw [Dict.lookup_set_new _ noFrom, baseData_absent claim (by decide)]
    rfl
  rw [Dict.lookup_set_new _ noTo, Dict.lookup_set_new _ noFrom, Option.or_assoc]

theorem filedEvent_data (env : Env) (claim : Claim) :
    (filedEvent env claim).data? "status" = some (.str claim.status.value) ∧
      (filedEvent env claim).data? "approved_amount" = none := by
  have absent := baseData_absent claim (k := "estimated_damage") (by decide)
  simp only [filedEvent, buildFiled, emit_data, Dict.lookup_set_new _ absent]
  rw [baseData_status, baseData_absent claim (by decide)]
  exact ⟨rfl, rfl⟩

theorem statusChangedEvent_data (env : Env) (claim : Claim) (fromStatus : Claim.Status)
    (req : TransitionRequest) :
    (statusChangedEvent env claim fromStatus req).data? "status" =
        some (.str claim.status.value) ∧
      (statusChangedEvent env claim fromStatus req).data? "from_status" =
        some (.str fromStatus.value) ∧
      (statusChangedEvent env claim fromStatus req).data? "to_status" =
        some (.str req.newStatus.value) ∧
      (statusChangedEvent env claim fromStatus req).data? "approved_amount" =
        claim.approvedAmount.map (fun amount => Json.str amount.str) := by
  simp only [statusChangedEvent, buildStatusChanged, emit_data]
  have absent : (Dict.set (Dict.set (baseData claim) "from_status" (.str fromStatus.value))
      "to_status" (.str req.newStatus.value)).lookup "approved_amount" = none := by
    rw [lookup_statusChanged, baseData_absent claim (by decide)]
    rfl
  refine ⟨?_, ?_, ?_, withApprovedAmount_amount absent⟩
  · rw [withApprovedAmount_other absent (by decide), lookup_statusChanged, baseData_status]
    rfl
  · rw [withApprovedAmount_other absent (by decide), lookup_statusChanged,
      baseData_absent claim (by decide)]
    rfl
  · rw [withApprovedAmount_other absent (by decide), lookup_statusChanged,
      baseData_absent claim (by decide)]
    rfl

theorem resolvedEvents_resolving (env : Env) (claim : Claim) {req : TransitionRequest}
    (resolving : req.newStatus = .resolved) :
    ∃ e, resolvedEvents env claim req = [e] ∧
      e.data? "status" = some (.str claim.status.value) ∧
      e.data? "approved_amount" =
        claim.approvedAmount.map (fun amount => Json.str amount.str) := by
  have absent := baseData_absent claim (k := "approved_amount") (by decide)
  refine ⟨_, if_pos resolving, ?_⟩
  simp only [buildResolved, emit_data]
  refine ⟨?_, withApprovedAmount_amount absent⟩
  rw [withApprovedAmount_other absent (by decide), baseData_status]

end ClaimService
