import RiskCore.FilingVerification
import RiskCore.NotificationConsumer
import RiskCore.Parsers
import RiskCore.Querysets

/-!
# Lookups by the identifier in the path

`ClaimViewSet.get_object`, `NotificationViewSet.get_object` and
`PolicyService.verify_policy` on the texts of a request. All three catch that there
is no row, and none of them what an identifier that is no UUID raises.
-/

namespace Lookups

open Values Querysets

/-- `toPython` is `UUIDField.to_python`, which raises `ValidationError` where it
answers `none`. -/
structure Services where
  backend : Backend
  toPython : String → Option UUID
  claims : Table ClaimService.Claim.id
  notifications : Table NotificationConsumer.Notification.id
  policies : Table PolicyService.Policy.id

/-- `unhandled` is any exception the view does not turn into an error of its own. -/
inductive Raised where
  | claimNotFound (claimId : String)
  | notificationNotFound (notificationId : String)
  | policyNotFound (policyId : String)
  | unhandled (e : Exception)
deriving DecidableEq

/-- The query parameters of the claims. -/
structure ClaimParams where
  status : Option String
  policyId : Option String
  incidentType : Option String

structure NotificationParams where
  status : Option String
  eventType : Option String

/-- `except (DoesNotExist, ValueError)`. -/
def caughtByViews (e : Exception) : Bool := e = .doesNotExist || e = .valueError

/-- `except DoesNotExist`. -/
def caughtByService (e : Exception) : Bool := e = .doesNotExist

/-! ## The three lookups -/

/-- `ClaimService.get_claims_queryset`. -/
def getClaimsQueryset (S : Services) (params : ClaimParams) :
    Except Exception (QuerySet ClaimService.Claim) := do
  let queryset := (all S.claims.rows).filterText S.backend (fun c => c.status.value) params.status
  let queryset ← queryset.filterKeyIf S.toPython ClaimService.Claim.policyId params.policyId
  return queryset.filterText S.backend (fun c => c.incidentType.value) params.incidentType

/-- `ClaimViewSet.get_object`, with which `retrieve` and `transition` begin. The
queryset is made before the `try`. -/
def claimObject (S : Services) (params : ClaimParams) (pk : String) :
    Except Raised ClaimService.Claim :=
  match getClaimsQueryset S params with
  | .ok queryset =>
    queryset.getOr S.toPython ClaimService.Claim.id caughtByViews (.claimNotFound pk) .unhandled pk
  | .error e => .error (.unhandled e)

/-- `NotificationViewSet.get_queryset`. -/
def notificationQueryset (S : Services) (params : NotificationParams) :
    QuerySet NotificationConsumer.Notification :=
  ((all S.notifications.rows).filterText S.backend (fun n => n.status.value)
    params.status).filterText S.backend NotificationConsumer.Notification.eventType params.eventType

/-- `NotificationViewSet.get_object`. -/
def notificationObject (S : Services) (params : NotificationParams) (pk : String) :
    Except Raised NotificationConsumer.Notification :=
  (notificationQueryset S params).getOr S.toPython NotificationConsumer.Notification.id
    caughtByViews (.notificationNotFound pk) .unhandled pk

/-- What `verify_policy` returns of a policy. -/
def verification (policy : PolicyService.Policy) : FilingVerification.Verification where
  policyId := policy.id
  status := policy.status
  isValid := policy.status = .active
  customerId := policy.customerId
  policyType := policy.policyType

/-- `PolicyService.verify_policy`. -/
def verifyPolicy (S : Services) (policyId : String) :
    Except Raised FilingVerification.Verification :=
  ((all S.policies.rows).getOr S.toPython PolicyService.Policy.id caughtByService
    (.policyNotFound policyId) .unhandled policyId).map verification

/-! ## What is asked of them -/

/-- The claim is in the table, has the identifier and passes the filters. -/
def ClaimThere (S : Services) (params : ClaimParams) (pk : String) (c : ClaimService.Claim) :
    Prop :=
  c ∈ S.claims.rows ∧
    (passesText params.status c.status.value && passesKey S.toPython params.policyId c.policyId &&
      passesText params.incidentType c.incidentType.value) = true ∧
    S.toPython pk = some c.id

def NotificationThere (S : Services) (params : NotificationParams) (pk : String)
    (n : NotificationConsumer.Notification) : Prop :=
  n ∈ S.notifications.rows ∧
    (passesText params.status n.status.value && passesText params.eventType n.eventType) = true ∧
    S.toPython pk = some n.id

def PolicyThere (S : Services) (pk : String) (p : PolicyService.Policy) : Prop :=
  p ∈ S.policies.rows ∧ S.toPython pk = some p.id

/-- The texts of identifiers are UUIDs, and the database takes the others. -/
structure ClaimShaped (S : Services) (params : ClaimParams) (pk : String) : Prop where
  pk : (S.toPython pk).isSome
  policyId : Readable S.toPython params.policyId
  status : params.status.any S.backend.refuses = false
  incidentType : params.incidentType.any S.backend.refuses = false

structure NotificationShaped (S : Services) (params : NotificationParams) (pk : String) : Prop where
  pk : (S.toPython pk).isSome
  status : params.status.any S.backend.refuses = false
  eventType : params.eventType.any S.backend.refuses = false

/-! ## When they answer -/

variable (S : Services)

theorem getClaimsQueryset_of_readable {params : ClaimParams}
    (h : Readable S.toPython params.policyId) : getClaimsQueryset S params =
      .ok ⟨S.claims.rows.filter (fun c =>
          passesText params.status c.status.value &&
            passesKey S.toPython params.policyId c.policyId &&
            passesText params.incidentType c.incidentType.value),
        params.status.any S.backend.refuses || params.incidentType.any S.backend.refuses⟩ := by
  simp only [getClaimsQueryset, filterText_eq, filterKeyIf_of_readable h, all, bind, Except.bind,
    pure, Except.pure, List.filter_filter, Bool.false_or]
  congr 3
  funext c
  ac_rfl

theorem getClaimsQueryset_of_not_readable {params : ClaimParams}
    (h : ¬ Readable S.toPython params.policyId) :
    ∃ text, getClaimsQueryset S params = .error (.validationError text) := by
  obtain ⟨text, herror⟩ := filterKeyIf_of_not_readable h ClaimService.Claim.policyId
    ((all S.claims.rows).filterText S.backend (fun c => c.status.value) params.status)
  exact ⟨text, by simp [getClaimsQueryset, herror, bind, Except.bind]⟩

theorem notificationQueryset_eq (params : NotificationParams) : notificationQueryset S params =
    ⟨S.notifications.rows.filter (fun n =>
        passesText params.status n.status.value && passesText params.eventType n.eventType),
      params.status.any S.backend.refuses || params.eventType.any S.backend.refuses⟩ := by
  simp only [notificationQueryset, filterText_eq, all, List.filter_filter, Bool.false_or]
  congr 2
  funext n
  ac_rfl

theorem claimObject_answered_iff (params : ClaimParams) (pk : String) :
    Answered (ClaimThere S params pk) id (.claimNotFound pk) (claimObject S params pk) ↔
      ClaimShaped S params pk := by
  by_cases readable : Readable S.toPython params.policyId
  · have answered := getOr_answered_iff S.toPython caughtByViews (Raised.claimNotFound pk)
      .unhandled pk id S.claims (fun c => passesText params.status c.status.value &&
        passesKey S.toPython params.policyId c.policyId &&
        passesText params.incidentType c.incidentType.value)
      (params.status.any S.backend.refuses || params.incidentType.any S.backend.refuses)
      rfl rfl rfl (fun e => by simp)
    rw [Except.map_id, id_eq] at answered
    simp only [claimObject, getClaimsQueryset_of_readable S readable]
    refine answered.trans ?_
    rw [Bool.or_eq_false_iff]
    exact ⟨fun h => ⟨h.1, readable, h.2.1, h.2.2⟩, fun h => ⟨h.pk, h.status, h.incidentType⟩⟩
  · obtain ⟨text, herror⟩ := getClaimsQueryset_of_not_readable S readable
    have hraised : claimObject S params pk = .error (.unhandled (.validationError text)) := by
      simp only [claimObject, herror]
    exact iff_of_false (not_answered hraised (by simp)) (fun h => readable h.policyId)

theorem notificationObject_answered_iff (params : NotificationParams) (pk : String) :
    Answered (NotificationThere S params pk) id (.notificationNotFound pk)
      (notificationObject S params pk) ↔ NotificationShaped S params pk := by
  have answered := getOr_answered_iff S.toPython caughtByViews (Raised.notificationNotFound pk)
    .unhandled pk id S.notifications
    (fun n => passesText params.status n.status.value && passesText params.eventType n.eventType)
    (params.status.any S.backend.refuses || params.eventType.any S.backend.refuses)
    rfl rfl rfl (fun e => by simp)
  rw [Except.map_id, id_eq] at answered
  simp only [notificationObject, notificationQueryset_eq]
  refine answered.trans ?_
  rw [Bool.or_eq_false_iff]
  exact ⟨fun h => ⟨h.1, h.2.1, h.2.2⟩, fun h => ⟨h.pk, h.status, h.eventType⟩⟩

theorem verifyPolicy_answered_iff (pk : String) :
    Answered (PolicyThere S pk) verification (.policyNotFound pk) (verifyPolicy S pk) ↔
      (S.toPython pk).isSome := by
  have answered := getOr_answered_iff S.toPython caughtByService (Raised.policyNotFound pk)
    .unhandled pk verification S.policies (fun _ => true) false rfl rfl rfl (fun e => by simp)
  rw [List.filter_true] at answered
  simp only [true_and, and_true] at answered
  exact answered

/-! ## The lookups on identifiers that were read -/

/-- The filters of a request whose texts are as they should be. -/
def ClaimParams.read (params : ClaimParams) : ClaimService.ClaimFilters where
  status := params.status
  policyId := params.policyId.bind (fun text => if text = "" then none else S.toPython text)
  incidentType := params.incidentType

theorem passesText_eq (value : Option String) (text : String) :
    passesText value text = passes value text := by
  cases value <;> rfl

theorem matches_read {params : ClaimParams} (h : Readable S.toPython params.policyId)
    (c : ClaimService.Claim) : (params.read S).matches c =
      (passesText params.status c.status.value && passesKey S.toPython params.policyId c.policyId &&
        passesText params.incidentType c.incidentType.value) := by
  have hpolicy : decide ((params.read S).policyId.getD c.policyId = c.policyId) =
      passesKey S.toPython params.policyId c.policyId := by
    cases hid : params.policyId with
    | none => simp [ClaimParams.read, passesKey, hid]
    | some text =>
      by_cases blank : text = ""
      · simp [ClaimParams.read, passesKey, hid, blank]
      · obtain ⟨id, hread⟩ := Option.isSome_iff_exists.mp (h text hid blank)
        simp [ClaimParams.read, passesKey, hid, blank, hread]
  simp only [ClaimService.ClaimFilters.matches, hpolicy, passesText_eq]
  rfl

/-- On such a request the view looks a claim up as `getObject` does. -/
theorem claimObject_read {params : ClaimParams} {pk : String} {id : UUID}
    (hpk : S.toPython pk = some id) (shaped : ClaimShaped S params pk) {db : ClaimService.Store}
    (rows : db.claims = S.claims.rows) :
    (claimObject S params pk).toOption =
      (ClaimService.getObject db (params.read S) id).toOption := by
  obtain ⟨found, missing⟩ := (claimObject_answered_iff S params pk).mpr shaped
  have there : ∀ c, ClaimThere S params pk c ↔
      c ∈ S.claims.rows ∧ (params.read S).matches c = true ∧ c.id = id := by
    intro c
    rw [ClaimThere, matches_read S shaped.policyId, hpk, Option.some.injEq, eq_comm (a := id)]
  cases hfind : Tables.find ClaimService.Claim.id db.claims id with
  | none =>
    have absent : ∀ c, ¬ ClaimThere S params pk c := by
      intro c hc
      obtain ⟨hmem, _, hid⟩ := (there c).mp hc
      exact Tables.find_eq_none.mp hfind c (rows ▸ hmem) hid
    simp [missing absent, ClaimService.getObject, hfind, Except.toOption]
  | some c =>
    have hmem : c ∈ S.claims.rows := rows ▸ Tables.find_mem hfind
    have hid : c.id = id := Tables.find_key hfind
    cases passed : (params.read S).matches c with
    | true =>
      have hc := found c ((there c).mpr ⟨hmem, passed, hid⟩)
      simp [hc, ClaimService.getObject, hfind, passed, Except.toOption]
    | false =>
      have absent : ∀ d, ¬ ClaimThere S params pk d := by
        intro d hd
        obtain ⟨hd, dpassed, did⟩ := (there d).mp hd
        have same : d = c := List.inj_on_of_nodup_map S.claims.unique hd hmem (did.trans hid.symm)
        rw [same, passed] at dpassed
        cases dpassed
      simp [missing absent, ClaimService.getObject, hfind, passed, Except.toOption]

/-- The verification other services ask for is this one on an identifier that was read. -/
theorem verifyPolicy_read {pk : String} {id : UUID} (hpk : S.toPython pk = some id) :
    (verifyPolicy S pk).toOption =
      (FilingVerification.verifyPolicy S.policies.rows id).toOption := by
  have shaped : (S.toPython pk).isSome := by rw [hpk]; rfl
  obtain ⟨found, missing⟩ := (verifyPolicy_answered_iff S pk).mpr shaped
  cases hfind : Tables.find PolicyService.Policy.id S.policies.rows id with
  | none =>
    have absent : ∀ p, ¬ PolicyThere S pk p := by
      rintro p ⟨hmem, hid⟩
      rw [hpk] at hid
      exact Tables.find_eq_none.mp hfind p hmem (Option.some.inj hid).symm
    simp [missing absent, FilingVerification.verifyPolicy, hfind, Except.toOption]
  | some p =>
    have hp := found p ⟨Tables.find_mem hfind, by rw [hpk, Tables.find_key hfind]⟩
    simp [hp, FilingVerification.verifyPolicy, hfind, verification, Except.toOption]

/-! ## Every request -/

/-- A lookup answers with the object, or with the error of a missing one, exactly if
every text that should be a UUID is one and the database takes the others. -/
theorem lookups_answer_iff_shaped :
    (∀ params pk, Answered (ClaimThere S params pk) id (.claimNotFound pk)
      (claimObject S params pk) ↔ ClaimShaped S params pk) ∧
    (∀ params pk, Answered (NotificationThere S params pk) id (.notificationNotFound pk)
      (notificationObject S params pk) ↔ NotificationShaped S params pk) ∧
    ∀ pk, Answered (PolicyThere S pk) verification (.policyNotFound pk) (verifyPolicy S pk) ↔
      (S.toPython pk).isSome :=
  ⟨claimObject_answered_iff S, notificationObject_answered_iff S, verifyPolicy_answered_iff S⟩

/-- Empty tables. -/
def emptyServices : Services where
  backend := .postgresql
  toPython := Parsers.parseUuid
  claims := ⟨[], List.nodup_nil⟩
  notifications := ⟨[], List.nodup_nil⟩
  policies := ⟨[], List.nodup_nil⟩

/-- `GET /claims/not-a-uuid/` and its like raise what is not handled. -/
theorem not_a_uuid_unhandled :
    claimObject emptyServices ⟨none, none, none⟩ "not-a-uuid" =
      .error (.unhandled (.validationError "not-a-uuid")) ∧
    notificationObject emptyServices ⟨none, none⟩ "not-a-uuid" =
      .error (.unhandled (.validationError "not-a-uuid")) ∧
    verifyPolicy emptyServices "not-a-uuid" =
      .error (.unhandled (.validationError "not-a-uuid")) ∧
    ¬ Answered (ClaimThere emptyServices ⟨none, none, none⟩ "not-a-uuid") id
      (.claimNotFound "not-a-uuid")
      (claimObject emptyServices ⟨none, none, none⟩ "not-a-uuid") := by
  have raised : claimObject emptyServices ⟨none, none, none⟩ "not-a-uuid" =
      .error (.unhandled (.validationError "not-a-uuid")) := rfl
  exact ⟨raised, rfl, rfl, not_answered raised (by simp)⟩

end Lookups
