import RiskCore.Tables
import RiskCore.Values

/-!
# The outbox table

`OutboxEvent` is the same model in policy-service and claims-service. A row is
created next to the aggregate change it reports, with every column the caller
does not give at its default, and is later moved on by the relay.
-/

namespace Outbox

open Values

inductive OutboxEvent.Status where
  | pending
  | published
  | failed
deriving DecidableEq

structure OutboxEvent where
  id : UUID
  aggregateType : String
  aggregateId : UUID
  eventType : String
  topic : String
  key : String
  payload : Json
  status : OutboxEvent.Status
  attempts : Nat
  lastError : String
  createdAt : DateTime
  publishedAt : Option DateTime

/-- `OutboxEvent.objects.create`; the identifier and the creation time are
drawn by the model's own defaults. -/
def OutboxEvent.create (id : UUID) (createdAt : DateTime) (aggregateType : String)
    (aggregateId : UUID) (eventType topic key : String) (payload : Json) : OutboxEvent where
  id := id
  aggregateType := aggregateType
  aggregateId := aggregateId
  eventType := eventType
  topic := topic
  key := key
  payload := payload
  status := .pending
  attempts := 0
  lastError := ""
  createdAt := createdAt
  publishedAt := none

/-- The payload every event builder of both services returns. -/
def envelope (eventId : UUID) (eventType : String) (occurredAt : DateTime) (service : String)
    (data : Dict) : Json :=
  .obj [("event_id", .str eventId.str),
    ("event_type", .str eventType),
    ("occurred_at", .str occurredAt.isoformat),
    ("service", .str service),
    ("data", .obj data)]

/-- The entry `k` of the payload's `data` object. -/
def OutboxEvent.data? (e : OutboxEvent) (k : String) : Option Json :=
  (e.payload.get? "data").bind (fun data => data.get? k)

@[simp] theorem create_data (id : UUID) (createdAt : DateTime) (aggregateType : String)
    (aggregateId : UUID) (eventType topic key : String) (eventId : UUID) (kind : String)
    (occurredAt : DateTime) (service : String) (data : Dict) (k : String) :
    (OutboxEvent.create id createdAt aggregateType aggregateId eventType topic key
      (envelope eventId kind occurredAt service data)).data? k = data.lookup k := rfl

/-- The rows about one aggregate, in insertion order. -/
def eventsOf (outbox : List OutboxEvent) (id : UUID) : List OutboxEvent :=
  Tables.select OutboxEvent.aggregateId outbox id

end Outbox
