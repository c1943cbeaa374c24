import RiskCore.Events
import RiskCore.Offsets
import RiskCore.Payloads
import RiskCore.Tables

/-!
# The consumer of audit-service

`AuditKafkaConsumer._handle` and `AuditService.process_event` on one decoded
message. The row is committed by `AuditEvent.objects.create` itself, before the
broadcast and before the offset.
-/

namespace AuditConsumer

open Values Payloads OutboxRelay

structure AuditEvent where
  id : UUID
  eventId : String
  eventType : String
  kafkaTopic : String
  entityType : String
  entityId : UUID
  service : String
  occurredAt : DateTime
  receivedAt : DateTime
  payload : Json

/-- `_extract_entity`. -/
def extractEntity (rt : Runtime) (payload : Json) : Option (String × String) := do
  let data ← get payload "data" (.obj [])
  if ← contains data "claim_id" then
    return ("claim", rt.text (← item data "claim_id"))
  if ← contains data "policy_id" then
    return ("policy", rt.text (← item data "policy_id"))
  match ← get payload "event_type" (.str "") with
  | .str eventType => return (if startsWith eventType "claim" then "claim" else "policy", "")
  | _ => none

/-- `parse_datetime(payload.get("occurred_at", "")) or timezone.now()`. -/
def occurredAt (rt : Runtime) (payload : Json) (now : DateTime) : Option DateTime := do
  match ← get payload "occurred_at" (.str "") with
  | .str s => return (← rt.parseDatetime s).getD now
  | _ => none

def noEntity : String := "00000000-0000-0000-0000-000000000000"

/-- `process_event` up to its broadcast. -/
def processEvent (rt : Runtime) (rows : List AuditEvent) (payload : Json) (topic : String)
    (id : UUID) (now receivedAt : DateTime) : Except Raised AuditEvent := do
  let (entityType, entityId) ← orRaise (extractEntity rt payload)
  let occurredAt ← orRaise (occurredAt rt payload now)
  let eventId ← orRaise (item payload "event_id")
  let eventType ← orRaise (get payload "event_type" (.str ""))
  let service ← orRaise (get payload "service" (.str ""))
  let entityId ← orRaise (rt.parseUuid (if entityId = "" then noEntity else entityId))
  let eventId ← notNull (rt.column eventId)
  let eventType ← notNull (rt.column eventType)
  let service ← notNull (rt.column service)
  match Tables.find AuditEvent.eventId rows eventId with
  | some _ => .error .integrityError
  | none => return {
      id := id
      eventId := eventId
      eventType := eventType
      kafkaTopic := topic
      entityType := entityType
      entityId := entityId
      service := service
      occurredAt := occurredAt
      receivedAt := receivedAt
      payload := payload }

/-- The table, and the history of what was sent to the `audit_events` group. -/
structure Store where
  rows : List AuditEvent
  sent : List AuditEvent

/-- Before each call of `_handle`. -/
inductive Point where
  | process
  | broadcast (event : AuditEvent)
  | commit
  | commitDuplicate

/-- `created` is an answer of the database with the defaults the row would get;
`raised` is any exception but `IntegrityError`. -/
inductive Outcome where
  | created (id : UUID) (now receivedAt : DateTime)
  | done
  | raised

/-- `_handle`. A payload that is no `dict` and a failing commit in the
`IntegrityError` branch raise outside its `try`. -/
def handler (rt : Runtime) : Offsets.Handler Message Store Point Outcome where
  start := .process
  next m p o store :=
    match p, o with
    | .process, .created id now receivedAt =>
      match m.value with
      | .obj _ =>
        match processEvent rt store.rows m.value m.topic id now receivedAt with
        | .ok event =>
          some ({ store with rows := Tables.insert store.rows event }, .goto (.broadcast event))
        | .error .integrityError => some (store, .goto .commitDuplicate)
        | .error .other => some (store, .leave)
      | _ => some (store, .die)
    | .process, .raised =>
      match m.value with
      | .obj _ => some (store, .leave)
      | _ => some (store, .die)
    | .broadcast event, .done =>
      some ({ store with sent := store.sent ++ [event] }, .goto .commit)
    | .broadcast _, .raised => some (store, .leave)
    | .commit, .done => some (store, .commit)
    | .commit, .raised => some (store, .leave)
    | .commitDuplicate, .done => some (store, .commit)
    | .commitDuplicate, .raised => some (store, .die)
    | _, _ => none

/-- What one call of `_handle` can do, case by case. -/
inductive Handled (rt : Runtime) (m : Message) (store : Store) :
    Point → Outcome → Store → Offsets.Next Point → Prop where
  | stored {id now receivedAt event}
      (ok : processEvent rt store.rows m.value m.topic id now receivedAt = .ok event) :
      Handled rt m store .process (.created id now receivedAt)
        { store with rows := Tables.insert store.rows event } (.goto (.broadcast event))
  | duplicate {id now receivedAt}
      (taken : processEvent rt store.rows m.value m.topic id now receivedAt =
        .error .integrityError) :
      Handled rt m store .process (.created id now receivedAt) store (.goto .commitDuplicate)
  | rejected {id now receivedAt}
      (error : processEvent rt store.rows m.value m.topic id now receivedAt = .error .other) :
      Handled rt m store .process (.created id now receivedAt) store .leave
  | raised {fields} (dict : m.value = .obj fields) :
      Handled rt m store .process .raised store .leave
  | noDict {o} (other : ∀ fields, m.value ≠ .obj fields) :
      Handled rt m store .process o store .die
  | sent {event} : Handled rt m store (.broadcast event) .done
      { store with sent := store.sent ++ [event] } (.goto .commit)
  | unsent {event} : Handled rt m store (.broadcast event) .raised store .leave
  | committed : Handled rt m store .commit .done store .commit
  | commitFailed : Handled rt m store .commit .raised store .leave
  | duplicateCommitted : Handled rt m store .commitDuplicate .done store .commit
  | duplicateCommitFailed : Handled rt m store .commitDuplicate .raised store .die

theorem next_handled {rt : Runtime} {m : Message} {p : Point} {o : Outcome}
    {store store' : Store} {next : Offsets.Next Point}
    (h : (handler rt).next m p o store = some (store', next)) :
    Handled rt m store p o store' next := by
  cases p with
  | process =>
    cases o with
    | created id now receivedAt =>
      simp only [handler] at h
      split at h
      · split at h
        · rename_i ok
          cases h
          exact .stored ok
        · rename_i taken
          cases h
          exact .duplicate taken
        · rename_i error
          cases h
          exact .rejected error
      · rename_i other
        cases h
        exact .noDict other
    | done => cases h
    | raised =>
      simp only [handler] at h
      split at h
      · rename_i dict
        cases h
        exact .raised dict
      · rename_i other
        cases h
        exact .noDict other
  | broadcast event =>
    cases o with
    | created id now receivedAt => cases h
    | done =>
      cases h
      exact .sent
    | raised =>
      cases h
      exact .unsent
  | commit =>
    cases o with
    | created id now receivedAt => cases h
    | done =>
      cases h
      exact .committed
    | raised =>
      cases h
      exact .commitFailed
  | commitDuplicate =>
    cases o with
    | created id now receivedAt => cases h
    | done =>
      cases h
      exact .duplicateCommitted
    | raised =>
      cases h
      exact .duplicateCommitFailed

/-- The event of the message is in the table. -/
def Recorded (store : Store) (m : Message) : Prop :=
  ∃ row ∈ store.rows, eventId? m.value = some row.eventId

instance (store : Store) (m : Message) : Decidable (Recorded store m) :=
  inferInstanceAs (Decidable (∃ row ∈ store.rows, _ = _))

open Outbox in
/-- A builder's payload meets the table with the event's identifier, if it gets
that far. -/
theorem processEvent_envelope (rt : Runtime) (rows : List AuditEvent) (eventId : UUID)
    (eventType service topic : String) (t now receivedAt : DateTime) (data : Dict) (id : UUID) :
    match processEvent rt rows (envelope eventId eventType t service data) topic id now
      receivedAt with
    | .ok event => event.eventId = eventId.str
    | .error .integrityError => ∃ row ∈ rows, row.eventId = eventId.str
    | .error .other => True := by
  simp only [processEvent]
  cases extractEntity rt (envelope eventId eventType t service data) with
  | none => trivial
  | some entity =>
    cases occurredAt rt (envelope eventId eventType t service data) now with
    | none => trivial
    | some occurredAt =>
      simp only [item_eventId, get_eventType, get_service, orRaise, bind, Except.bind]
      cases rt.parseUuid (if entity.2 = "" then noEntity else entity.2) with
      | none => trivial
      | some entityId =>
        simp only [Runtime.column_str, notNull]
        cases hf : Tables.find AuditEvent.eventId rows eventId.str with
        | none => rfl
        | some row => exact ⟨row, Tables.find_mem hf, Tables.find_key hf⟩

open Events

/-- What holds at a point of `_handle`: past `create` the event has its row, made
now or found. -/
def Ready (store : Store) (m : Relayed) : Point → Prop
  | .process => True
  | _ => Recorded store m.message

theorem recorded_insert {store : Store} {event : AuditEvent} {m : Message}
    (h : Recorded store m) :
    Recorded { store with rows := Tables.insert store.rows event } m := by
  obtain ⟨row, hrow, hid⟩ := h
  exact ⟨row, List.mem_append_left _ hrow, hid⟩

/-- The row of a builder's message has its identifier. -/
theorem stored_eventId (m : Relayed) {rt : Runtime} {rows : List AuditEvent} {id : UUID}
    {now receivedAt : DateTime} {event : AuditEvent}
    (ok : processEvent rt rows m.message.value m.message.topic id now receivedAt = .ok event) :
    eventId? m.message.value = some event.eventId := by
  obtain ⟨eventId, t, service, data, hvalue⟩ := m.built.eq_envelope
  have hevent := processEvent_envelope rt rows eventId m.message.topic service m.message.topic t
    now receivedAt data id
  rw [hvalue] at ok ⊢
  rw [ok] at hevent
  rw [hevent]
  rfl

theorem duplicate_recorded (m : Relayed) {rt : Runtime} {store : Store} {id : UUID}
    {now receivedAt : DateTime}
    (taken : processEvent rt store.rows m.message.value m.message.topic id now receivedAt =
      .error .integrityError) : Recorded store m.message := by
  obtain ⟨eventId, t, service, data, hvalue⟩ := m.built.eq_envelope
  have hrow := processEvent_envelope rt store.rows eventId m.message.topic service
    m.message.topic t now receivedAt data id
  rw [hvalue] at taken
  rw [taken] at hrow
  obtain ⟨row, hmem, hid⟩ := hrow
  refine ⟨row, hmem, ?_⟩
  rw [hvalue, hid]
  rfl

theorem sound (rt : Runtime) : Offsets.Sound ((handler rt).comap Relayed.message)
    (fun store m => Recorded store m.message) Ready where
  start := fun _ _ => trivial
  call := by
    intro m p o store store' next ready h
    cases next_handled h with
    | @stored id now receivedAt event ok =>
      refine .goto (fun _ => recorded_insert) ⟨event, ?_, stored_eventId m ok⟩
      exact List.mem_append_right _ (List.mem_singleton_self _)
    | duplicate taken => exact .goto (fun _ hm => hm) (duplicate_recorded m taken)
    | sent => exact .goto (fun _ hm => hm) ready
    | committed => exact .commit ready
    | duplicateCommitted => exact .commit ready
    | noDict => exact .stop (Or.inr rfl)
    | duplicateCommitFailed => exact .stop (Or.inr rfl)
    | _ => exact .stop (Or.inl rfl)

end AuditConsumer
