import RiskCore.AuditConsumer
import RiskCore.NotificationConsumer
import RiskCore.PolicyRecords

/-!
# Committed offsets and stored events

Neither consumer commits the offset of a message it failed on, but the next
success of the same session commits past it. Events below the committed offset
are stored exactly in the runs in which that never happens to an unstored event.
-/

namespace ConsumerOffsets

open Values Payloads Events OutboxRelay

def audit (rt : Runtime) : Offsets.Handler Relayed AuditConsumer.Store AuditConsumer.Point
    AuditConsumer.Outcome :=
  (AuditConsumer.handler rt).comap Relayed.message

def notification (rt : Runtime) (defaultFromEmail : String) : Offsets.Handler Relayed
    NotificationConsumer.Store NotificationConsumer.Point NotificationConsumer.Outcome :=
  (NotificationConsumer.handler rt defaultFromEmail).comap Relayed.message

/-- The event of the message is an `AuditEvent` row. -/
def Audited (store : AuditConsumer.Store) (m : Relayed) : Prop :=
  AuditConsumer.Recorded store m.message

/-- The event of the message is a `Notification` row. -/
def Notified (store : NotificationConsumer.Store) (m : Relayed) : Prop :=
  NotificationConsumer.Recorded store m.message

instance (store : AuditConsumer.Store) (m : Relayed) : Decidable (Audited store m) :=
  inferInstanceAs (Decidable (AuditConsumer.Recorded store m.message))

instance (store : NotificationConsumer.Store) (m : Relayed) : Decidable (Notified store m) :=
  inferInstanceAs (Decidable (NotificationConsumer.Recorded store m.message))

/-- For both consumers, on any log of builders' events: in every state of a run
each event below the committed offset is stored iff no commit of the run passes
over a message that failed before it in the session and is still unstored. -/
theorem stored_iff_no_failure_passed (rt : Runtime) (defaultFromEmail : String)
    (auditStore : AuditConsumer.Store) (notificationStore : NotificationConsumer.Store)
    (as : List (Offsets.Action Relayed AuditConsumer.Outcome))
    (ns : List (Offsets.Action Relayed NotificationConsumer.Outcome)) :
    (Runs.Always (Offsets.step (audit rt)) (Offsets.Stored Audited)
        (Offsets.init auditStore) as ↔
      Runs.Steps (Offsets.step (audit rt)) (Offsets.FailuresRecorded (audit rt) Audited)
        (Offsets.init auditStore) as) ∧
    (Runs.Always (Offsets.step (notification rt defaultFromEmail)) (Offsets.Stored Notified)
        (Offsets.init notificationStore) ns ↔
      Runs.Steps (Offsets.step (notification rt defaultFromEmail))
        (Offsets.FailuresRecorded (notification rt defaultFromEmail) Notified)
        (Offsets.init notificationStore) ns) :=
  ⟨Offsets.stored_iff_failures_recorded (AuditConsumer.sound rt) auditStore as,
    Offsets.stored_iff_failures_recorded (NotificationConsumer.sound rt defaultFromEmail)
      notificationStore ns⟩

open PolicyService PolicyRecords

/-- The `policy.created` message of a policy created in the environment `base`. -/
def exampleCreated (base : Nat) : Relayed where
  message := message (createdEvent (exampleEnv base) 0
    (newPolicy (exampleEnv base) exampleCustomer "POL-2025-000001" exampleData))
  built := .policyCreated _ _ _

def exampleRuntime : Runtime where
  str _ := ""
  parseDatetime s :=
    if s = (exampleInstant 10 0).isoformat then some (some (exampleInstant 10 0)) else some none
  parseUuid s := if s = UUID.str ⟨100⟩ then some ⟨100⟩ else none

/-- The database is away for the first message and back for the second. -/
def auditOutage : List (Offsets.Action Relayed AuditConsumer.Outcome) :=
  [.append (exampleCreated 0), .append (exampleCreated 100), .poll, .call .raised,
    .poll, .call (.created ⟨1000⟩ (exampleInstant 10 0) (exampleInstant 10 0)), .call .done,
    .call .done]

/-- The Celery broker is away for the first message and back for the second. -/
def brokerOutage : List (Offsets.Action Relayed NotificationConsumer.Outcome) :=
  [.append (exampleCreated 0), .append (exampleCreated 100),
    .poll, .call (.created ⟨1000⟩ (exampleInstant 10 0)), .call .raised,
    .poll, .call (.created ⟨1001⟩ (exampleInstant 10 0)), .call .done, .call .done, .call .done]

theorem outages_skip_first :
    ¬ Runs.Always (Offsets.step (audit exampleRuntime)) (Offsets.Stored Audited)
      (Offsets.init ⟨[], []⟩) auditOutage ∧
    ¬ Runs.Always (Offsets.step (notification exampleRuntime "noreply@riskcore.com"))
      (Offsets.Stored Notified) (Offsets.init ⟨[], []⟩) brokerOutage :=
  ⟨by decide, by decide⟩

end ConsumerOffsets
