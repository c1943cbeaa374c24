import RiskCore.ClaimService
import RiskCore.OutboxRelay
import RiskCore.PolicyService

/-!
# The events on the wire

The six payloads `PolicyEventBuilder` and `ClaimEventBuilder` return, each on the
topic named after its event type, which is where `emit_policy_event` and
`emit_claim_event` address it.
-/

namespace Events

open Values Outbox OutboxRelay

inductive Built : String → Json → Prop where
  | policyCreated (eventId occurredAt policy) :
      Built "policy.created" (PolicyService.buildCreated eventId occurredAt policy)
  | policyUpdated (eventId occurredAt policy) :
      Built "policy.updated" (PolicyService.buildUpdated eventId occurredAt policy)
  | policyCancelled (eventId occurredAt policy) :
      Built "policy.cancelled" (PolicyService.buildCancelled eventId occurredAt policy)
  | claimFiled (eventId occurredAt claim) :
      Built "claim.filed" (ClaimService.buildFiled eventId occurredAt claim)
  | claimStatusChanged (eventId occurredAt claim fromStatus toStatus) :
      Built "claim.status_changed"
        (ClaimService.buildStatusChanged eventId occurredAt claim fromStatus toStatus)
  | claimResolved (eventId occurredAt claim) :
      Built "claim.resolved" (ClaimService.buildResolved eventId occurredAt claim)

/-- Every builder fills the same envelope, and names the topic in it. -/
theorem Built.eq_envelope {topic : String} {payload : Json} (h : Built topic payload) :
    ∃ eventId occurredAt service data,
      payload = envelope eventId topic occurredAt service data := by
  cases h <;> exact ⟨_, _, _, _, rfl⟩

/-- A call of one of the builders: what it is given besides the identifier and the
time it draws. -/
inductive Build where
  | policyCreated (policy : PolicyService.Policy)
  | policyUpdated (policy : PolicyService.Policy)
  | policyCancelled (policy : PolicyService.Policy)
  | claimFiled (claim : ClaimService.Claim)
  | claimStatusChanged (claim : ClaimService.Claim)
      (fromStatus toStatus : ClaimService.Claim.Status)
  | claimResolved (claim : ClaimService.Claim)

namespace Build

def eventType : Build → String
  | .policyCreated _ => "policy.created"
  | .policyUpdated _ => "policy.updated"
  | .policyCancelled _ => "policy.cancelled"
  | .claimFiled _ => "claim.filed"
  | .claimStatusChanged _ _ _ => "claim.status_changed"
  | .claimResolved _ => "claim.resolved"

def payload (b : Build) (eventId : UUID) (occurredAt : DateTime) : Json :=
  match b with
  | .policyCreated policy => PolicyService.buildCreated eventId occurredAt policy
  | .policyUpdated policy => PolicyService.buildUpdated eventId occurredAt policy
  | .policyCancelled policy => PolicyService.buildCancelled eventId occurredAt policy
  | .claimFiled claim => ClaimService.buildFiled eventId occurredAt claim
  | .claimStatusChanged claim fromStatus toStatus =>
    ClaimService.buildStatusChanged eventId occurredAt claim fromStatus toStatus
  | .claimResolved claim => ClaimService.buildResolved eventId occurredAt claim

def service : Build → String
  | .policyCreated _ | .policyUpdated _ | .policyCancelled _ => "policy-service"
  | .claimFiled _ | .claimStatusChanged _ _ _ | .claimResolved _ => "claims-service"

/-- What the event is about. -/
def entity : Build → String × UUID
  | .policyCreated policy | .policyUpdated policy | .policyCancelled policy => ("policy", policy.id)
  | .claimFiled claim | .claimStatusChanged claim _ _ | .claimResolved claim => ("claim", claim.id)

/-- The row `emit_policy_event` and `emit_claim_event` create. -/
def emit (b : Build) (id : UUID) (createdAt : DateTime) (eventId : UUID) (occurredAt : DateTime) :
    OutboxEvent :=
  match b with
  | .policyCreated policy | .policyUpdated policy | .policyCancelled policy =>
    PolicyService.emitPolicyEvent id createdAt policy b.eventType (b.payload eventId occurredAt)
  | .claimFiled claim | .claimStatusChanged claim _ _ | .claimResolved claim =>
    ClaimService.emitClaimEvent id createdAt claim b.eventType (b.payload eventId occurredAt)

@[simp] theorem emit_payload (b : Build) (id : UUID) (createdAt : DateTime) (eventId : UUID)
    (occurredAt : DateTime) :
    (b.emit id createdAt eventId occurredAt).payload = b.payload eventId occurredAt := by
  cases b <;> rfl

@[simp] theorem emit_topic (b : Build) (id : UUID) (createdAt : DateTime) (eventId : UUID)
    (occurredAt : DateTime) : (b.emit id createdAt eventId occurredAt).topic = b.eventType := by
  cases b <;> rfl

theorem payload_eq (b : Build) : ∃ data, ∀ eventId occurredAt,
    b.payload eventId occurredAt = envelope eventId b.eventType occurredAt b.service data := by
  cases b <;> exact ⟨_, fun _ _ => rfl⟩

end Build

/-- A row that one of the builders' callers creates. -/
def FromBuilder (e : OutboxEvent) : Prop :=
  ∃ (b : Build) (id : UUID) (createdAt : DateTime) (eventId : UUID) (occurredAt : DateTime),
    e = b.emit id createdAt eventId occurredAt

theorem Built.exists_build {topic : String} {payload : Json} (h : Built topic payload) :
    ∃ (b : Build) (eventId : UUID) (occurredAt : DateTime), topic = b.eventType ∧
      payload = b.payload eventId occurredAt := by
  cases h with
  | policyCreated eventId occurredAt policy =>
    exact ⟨.policyCreated policy, eventId, occurredAt, rfl, rfl⟩
  | policyUpdated eventId occurredAt policy =>
    exact ⟨.policyUpdated policy, eventId, occurredAt, rfl, rfl⟩
  | policyCancelled eventId occurredAt policy =>
    exact ⟨.policyCancelled policy, eventId, occurredAt, rfl, rfl⟩
  | claimFiled eventId occurredAt claim =>
    exact ⟨.claimFiled claim, eventId, occurredAt, rfl, rfl⟩
  | claimStatusChanged eventId occurredAt claim fromStatus toStatus =>
    exact ⟨.claimStatusChanged claim fromStatus toStatus, eventId, occurredAt, rfl, rfl⟩
  | claimResolved eventId occurredAt claim =>
    exact ⟨.claimResolved claim, eventId, occurredAt, rfl, rfl⟩

/-- A message the relay makes of a builder's event. -/
structure Relayed where
  message : Message
  built : Built message.topic message.value

end Events
