import RiskCore.ConsumerOffsets
import RiskCore.Deliveries
import RiskCore.Parsers

/-!
# Redelivered and reordered events

Builders' events reach the two consumers in any order, again and again, with the
process going down at any point of a handler. While the database, the channel
layer and the broker answer, the tables depend on the set of events only.
-/

namespace Redelivery

open Values Outbox Payloads Parsers Events OutboxRelay ConsumerOffsets

/-- The identifier of the event a message carries. -/
def eventId (m : Relayed) : Option String := eventId? m.message.value

/-! ## audit-service -/

section Audit
open AuditConsumer

/-- What an `AuditEvent` says of its event. -/
structure AuditContent where
  eventId : String
  eventType : String
  kafkaTopic : String
  entityType : String
  entityId : UUID
  service : String
  occurredAt : DateTime
  payload : Json

def contentOf (row : AuditEvent) : AuditContent :=
  ⟨row.eventId, row.eventType, row.kafkaTopic, row.entityType, row.entityId, row.service,
    row.occurredAt, row.payload⟩

/-- The row with this content. -/
def AuditContent.row (c : AuditContent) (id : UUID) (receivedAt : DateTime) : AuditEvent :=
  ⟨id, c.eventId, c.eventType, c.kafkaTopic, c.entityType, c.entityId, c.service, c.occurredAt,
    receivedAt, c.payload⟩

theorem extractEntity_claim {data : Dict} {text : String}
    (h : data.lookup "claim_id" = some (.str text)) (rt : Runtime) (eventId : UUID)
    (eventType service : String) (t : DateTime) :
    extractEntity rt (envelope eventId eventType t service data) = some ("claim", text) := by
  simp only [extractEntity, get_data, contains, item, h, Option.isSome_some, bind,
    Option.bind_some, if_true]
  rfl

/-- A builder's payload names what the event is about. -/
theorem extractEntity_build (rt : Runtime) (b : Build) (eventId : UUID) (occurredAt : DateTime) :
    extractEntity rt (b.payload eventId occurredAt) = some (b.entity.1, b.entity.2.str) := by
  cases b with
  | policyCreated policy => rfl
  | policyUpdated policy => rfl
  | policyCancelled policy => rfl
  | claimFiled claim => rfl
  | claimStatusChanged claim fromStatus toStatus =>
    refine extractEntity_claim ?_ rt _ _ _ _
    have absent : (Dict.set (Dict.set (ClaimService.baseData claim) "from_status"
        (.str fromStatus.value)) "to_status" (.str toStatus.value)).lookup "approved_amount" =
          none := by
      rw [ClaimService.lookup_statusChanged, ClaimService.baseData_absent claim (by decide)]
      rfl
    rw [ClaimService.withApprovedAmount_other absent (by decide),
      ClaimService.lookup_statusChanged]
    rfl
  | claimResolved claim =>
    refine extractEntity_claim ?_ rt _ _ _ _
    rw [ClaimService.withApprovedAmount_other
      (ClaimService.baseData_absent claim (by decide)) (by decide)]
    rfl

theorem built_entity {topic : String} {payload : Json} (h : Built topic payload) :
    ∃ kind, ∃ id : UUID, ∀ rt, extractEntity rt payload = some (kind, id.str) := by
  obtain ⟨b, eventId, occurredAt, -, rfl⟩ := h.exists_build
  exact ⟨b.entity.1, b.entity.2, fun rt => extractEntity_build rt b eventId occurredAt⟩

/-- `process_event` on the envelope of an event about one thing. -/
theorem processEvent_about {rt : Runtime} (faithful : Faithful rt) {eventId entityId : UUID}
    {eventType service kind : String} {t : DateTime} {data : Dict}
    (about : extractEntity rt (envelope eventId eventType t service data) =
      some (kind, entityId.str))
    (rows : List AuditEvent) (topic : String) (id : UUID) (now receivedAt : DateTime) :
    processEvent rt rows (envelope eventId eventType t service data) topic id now receivedAt =
      match Tables.find AuditEvent.eventId rows eventId.str with
      | some _ => .error .integrityError
      | none => .ok ⟨id, eventId.str, eventType, topic, kind, entityId, service, t, receivedAt,
          envelope eventId eventType t service data⟩ := by
  simp only [processEvent, about, orRaise, bind, Except.bind]
  simp only [occurredAt, get_occurredAt, item_eventId, get_eventType, get_service, bind,
    Option.bind_some, faithful.datetime, faithful.uuid, if_neg (str_ne_empty entityId),
    Runtime.column_str, notNull, Option.getD_some]
  rfl

/-- What the event of a message puts into its row, with nothing in the table. -/
def auditOf (rt : Runtime) (m : Relayed) : Option AuditContent :=
  match processEvent rt [] m.message.value m.message.topic ⟨0⟩ (exampleInstant 0 0)
    (exampleInstant 0 0) with
  | .ok row => some (contentOf row)
  | .error _ => none

/-- `process_event` on a builder's message: a row that depends on the message
alone, identifier and time of receipt apart, unless its event has one. -/
theorem processEvent_built {rt : Runtime} (faithful : Faithful rt) (m : Relayed) :
    ∃ c, eventId m = some c.eventId ∧ auditOf rt m = some c ∧ ∀ rows id now receivedAt,
      processEvent rt rows m.message.value m.message.topic id now receivedAt =
        match Tables.find AuditEvent.eventId rows c.eventId with
        | some _ => .error .integrityError
        | none => .ok (c.row id receivedAt) := by
  obtain ⟨kind, entityId, hentity⟩ := built_entity m.built
  obtain ⟨eventId, t, service, data, hvalue⟩ := m.built.eq_envelope
  have hprocess : ∀ rows id now receivedAt,
      processEvent rt rows m.message.value m.message.topic id now receivedAt =
        match Tables.find AuditEvent.eventId rows eventId.str with
        | some _ => .error .integrityError
        | none => .ok (AuditContent.row ⟨eventId.str, m.message.topic, m.message.topic, kind,
            entityId, service, t, m.message.value⟩ id receivedAt) := by
    intro rows id now receivedAt
    have about := hentity rt
    rw [hvalue] at about ⊢
    exact processEvent_about faithful about rows m.message.topic id now receivedAt
  refine ⟨⟨eventId.str, m.message.topic, m.message.topic, kind, entityId, service, t,
    m.message.value⟩, ?_, ?_, hprocess⟩
  · rw [Redelivery.eventId, hvalue]
    rfl
  · rw [auditOf, hprocess]
    rfl

/-- The database and the channel layer answer; the broker's commit may fail. -/
def AuditAvailable (_ : Store) (p : Point) (o : Outcome) : Prop :=
  match p, o with
  | .process, .raised => False
  | .broadcast _, .raised => False
  | _, _ => True

instance (store : Store) : ∀ p o, Decidable (AuditAvailable store p o)
  | .process, .raised => isFalse id
  | .broadcast _, .raised => isFalse id
  | .process, .created _ _ _ | .process, .done => isTrue trivial
  | .broadcast _, .created _ _ _ | .broadcast _, .done => isTrue trivial
  | .commit, _ | .commitDuplicate, _ => isTrue trivial

/-- One row for an event, and each what some event of `E` asks for. -/
structure AuditRows (rt : Runtime) (E : List Relayed) (store : Store) : Prop where
  distinct : (store.rows.map AuditEvent.eventId).Nodup
  asked : ∀ row ∈ store.rows, ∃ m ∈ E, auditOf rt m = some (contentOf row)

theorem audit_keeps {rt : Runtime} (faithful : Faithful rt) (E : List Relayed) :
    Deliveries.Keeps (audit rt) (fun m => m ∈ E) AuditAvailable (AuditRows rt E) Ready
      Audited where
  start := fun _ _ => trivial
  call := by
    intro m p o store store' next hI hm ready available h
    obtain ⟨c, hid, hasked, hprocess⟩ := processEvent_built faithful m
    cases next_handled h with
    | @stored id now receivedAt event ok =>
      rw [hprocess] at ok
      cases hf : Tables.find AuditEvent.eventId store.rows c.eventId with
      | some row =>
        rw [hf] at ok
        cases ok
      | none =>
        rw [hf] at ok
        cases ok
        refine ⟨⟨Tables.insert_nodup hI.distinct hf, ?_⟩, fun _ => recorded_insert, ?_⟩
        · exact Tables.forall_insert hI.asked ⟨m, hm, hasked⟩
        · exact ⟨c.row id receivedAt, List.mem_append_right _ (List.mem_singleton_self _), hid⟩
    | duplicate taken => exact ⟨hI, fun _ hm' => hm', duplicate_recorded m taken⟩
    | @rejected id now receivedAt error =>
      rw [hprocess] at error
      cases hf : Tables.find AuditEvent.eventId store.rows c.eventId <;> rw [hf] at error <;>
        cases error
    | raised => exact absurd available id
    | noDict other =>
      obtain ⟨eventId, t, service, data, hvalue⟩ := m.built.eq_envelope
      exact absurd hvalue (other _)
    | sent => exact ⟨⟨hI.distinct, hI.asked⟩, fun _ hm' => hm', ready⟩
    | unsent => exact absurd available id
    | _ => exact ⟨hI, fun _ hm' => hm', ready⟩

end Audit

/-! ## notification-service -/

section Notification
open NotificationConsumer

/-- `NOTIFICATION_TOPICS`. -/
def notificationTopics : List String :=
  ["policy.created", "policy.cancelled", "claim.filed", "claim.status_changed", "claim.resolved"]

/-- The messages on the topics the consumer subscribes to. -/
def subscribed (E : List Relayed) : List Relayed :=
  E.filter (fun m => m.message.topic ∈ notificationTopics)

/-- What a `Notification` takes from its event. -/
structure NotificationContent where
  eventId : String
  eventType : String
  recipientEmail : String
  subject : String
  context : Dict

def takenBy (row : Notification) : NotificationContent :=
  ⟨row.eventId, row.eventType, row.recipientEmail, row.subject, row.context⟩

/-- The new row with this content. -/
def NotificationContent.row (c : NotificationContent) (id : UUID) (now : DateTime) :
    Notification :=
  ⟨id, c.eventId, c.eventType, c.recipientEmail, c.subject, c.context, .pending, now, none⟩

/-- What the event of a message puts into its row, with nothing in the table. -/
def notificationOf (rt : Runtime) (defaultFromEmail : String) (m : Relayed) :
    Option NotificationContent := do
  let d ← draft defaultFromEmail m.message.value
  let row ← create rt [] d ⟨0⟩ (exampleInstant 0 0)
  return takenBy row

/-- The row of a builder's message depends on the message alone, identifier and
time apart, unless its event has one. -/
theorem create_built (rt : Runtime) (defaultFromEmail : String) (m : Relayed) :
    ∃ c d, eventId m = some c.eventId ∧ notificationOf rt defaultFromEmail m = some c ∧
      draft defaultFromEmail m.message.value = some d ∧ ∀ rows id now,
        create rt rows d id now = match Tables.find Notification.eventId rows c.eventId with
          | some _ => none
          | none => some (c.row id now) := by
  obtain ⟨eventId, t, service, data, hvalue⟩ := m.built.eq_envelope
  obtain ⟨recipient, hrecipient⟩ :=
    extractRecipient_obj defaultFromEmail m.message.topic data
  obtain ⟨context, hcontext⟩ := buildContext_obj m.message.topic data
  obtain ⟨text, htext⟩ := rt.column_isSome (extractRecipient_ne_null hrecipient)
  have hdraft : draft defaultFromEmail m.message.value =
      some ⟨.str eventId.str, m.message.topic, recipient, buildSubject m.message.topic,
        context⟩ := by
    rw [hvalue]
    exact draft_envelope hrecipient hcontext eventId t service
  have hcreate : ∀ rows id now, create rt rows ⟨.str eventId.str, m.message.topic, recipient,
      buildSubject m.message.topic, context⟩ id now =
        match Tables.find Notification.eventId rows eventId.str with
        | some _ => none
        | none => some (NotificationContent.row ⟨eventId.str, m.message.topic, text,
            buildSubject m.message.topic, context⟩ id now) := by
    exact create_eq rt (rt.column_str eventId.str) htext
  refine ⟨⟨eventId.str, m.message.topic, text, buildSubject m.message.topic, context⟩,
    ⟨.str eventId.str, m.message.topic, recipient, buildSubject m.message.topic, context⟩,
    ?_, ?_, hdraft, hcreate⟩
  · rw [Redelivery.eventId, hvalue]
    rfl
  · simp only [notificationOf, hdraft, bind, Option.bind_some, hcreate]
    rfl

/-- The database and the Celery broker answer, and `uuid4` draws an identifier no
task names yet; Kafka's commit may fail. -/
def NotificationAvailable (store : Store) (p : Point) (o : Outcome) : Prop :=
  match p, o with
  | .create, .created id _ => id.str ∉ store.tasks
  | .create, .raised => False
  | .delay _, .raised => False
  | .commitRow _, .raised => False
  | _, _ => True

instance (store : Store) : ∀ p o, Decidable (NotificationAvailable store p o)
  | .create, .created id _ => inferInstanceAs (Decidable (id.str ∉ store.tasks))
  | .create, .raised => isFalse id
  | .delay _, .raised => isFalse id
  | .commitRow _, .raised => isFalse id
  | .create, .done => isTrue trivial
  | .delay _, .created _ _ | .delay _, .done => isTrue trivial
  | .commitRow _, .created _ _ | .commitRow _, .done => isTrue trivial
  | .commit, _ | .commitDuplicate, _ => isTrue trivial

/-- One row for an event, each what some event of `E` asks for, and one task for
each row. -/
structure NotificationRows (rt : Runtime) (defaultFromEmail : String) (E : List Relayed)
    (store : Store) : Prop where
  distinct : (store.rows.map Notification.eventId).Nodup
  asked : ∀ row ∈ store.rows, ∃ m ∈ E, notificationOf rt defaultFromEmail m = some (takenBy row)
  ids : (store.rows.map Notification.id).Nodup
  tasks : ∀ row ∈ store.rows, store.tasks.count row.id.str = 1

/-- Inside the transaction the new row is the event's and new to the table; its
task comes with the call of `delay`. -/
def Underway (rt : Runtime) (defaultFromEmail : String) (store : Store) (m : Relayed) :
    Point → Prop
  | .create => True
  | .delay notification =>
    notificationOf rt defaultFromEmail m = some (takenBy notification) ∧
      Tables.find Notification.eventId store.rows notification.eventId = none ∧
      notification.id.str ∉ store.tasks
  | .commitRow notification =>
    notificationOf rt defaultFromEmail m = some (takenBy notification) ∧
      Tables.find Notification.eventId store.rows notification.eventId = none ∧
      Tables.find Notification.id store.rows notification.id = none ∧
      store.tasks.count notification.id.str = 1
  | .commit => Notified store m
  | .commitDuplicate => Notified store m

/-- The task of a new identifier is its only one, and no other row's. -/
theorem notification_delay {rt : Runtime} {defaultFromEmail : String} {E : List Relayed}
    {m : Relayed} {store : Store} {row : Notification}
    (hI : NotificationRows rt defaultFromEmail E store)
    (underway : Underway rt defaultFromEmail store m (.delay row)) :
    NotificationRows rt defaultFromEmail E
        { store with tasks := store.tasks ++ [row.id.str] } ∧
      Underway rt defaultFromEmail { store with tasks := store.tasks ++ [row.id.str] } m
        (.commitRow row) := by
  obtain ⟨hasked, hnew, hfresh⟩ := underway
  have others : ∀ r ∈ store.rows, r.id.str ≠ row.id.str := by
    intro r hr heq
    have hcount := hI.tasks r hr
    rw [heq, List.count_eq_zero_of_not_mem hfresh] at hcount
    cases hcount
  refine ⟨⟨hI.distinct, hI.asked, hI.ids, ?_⟩, hasked, hnew, ?_, ?_⟩
  · intro r hr
    rw [List.count_append, hI.tasks r hr, List.count_singleton]
    simp [(others r hr).symm]
  · exact Tables.find_eq_none.mpr (fun r hr heq => others r hr (by rw [heq]))
  · rw [List.count_append, List.count_eq_zero_of_not_mem hfresh, List.count_singleton]
    simp

theorem notification_commitRow {rt : Runtime} {defaultFromEmail : String} {E : List Relayed}
    {m : Relayed} {store : Store} {row : Notification}
    (hI : NotificationRows rt defaultFromEmail E store) (hm : m ∈ E)
    (underway : Underway rt defaultFromEmail store m (.commitRow row)) :
    NotificationRows rt defaultFromEmail E
        { store with rows := Tables.insert store.rows row } ∧
      (∀ m', Notified store m' → Notified { store with rows := Tables.insert store.rows row } m') ∧
      Notified { store with rows := Tables.insert store.rows row } m := by
  obtain ⟨hasked, hnew, hid, htask⟩ := underway
  obtain ⟨c, d, heventId, hc, -⟩ := create_built rt defaultFromEmail m
  have hrow : eventId m = some row.eventId := by
    rw [heventId, Option.some.inj (hc.symm.trans hasked)]
    rfl
  refine ⟨⟨Tables.insert_nodup hI.distinct hnew, ?_, Tables.insert_nodup hI.ids hid, ?_⟩, ?_, ?_⟩
  · exact Tables.forall_insert hI.asked ⟨m, hm, hasked⟩
  · exact Tables.forall_insert hI.tasks htask
  · rintro m' ⟨r, hr, hrId⟩
    exact ⟨r, List.mem_append_left _ hr, hrId⟩
  · exact ⟨row, List.mem_append_right _ (List.mem_singleton_self _), hrow⟩

theorem notification_keeps (rt : Runtime) (defaultFromEmail : String) (E : List Relayed) :
    Deliveries.Keeps (notification rt defaultFromEmail) (fun m => m ∈ E) NotificationAvailable
      (NotificationRows rt defaultFromEmail E) (Underway rt defaultFromEmail) Notified where
  start := fun _ _ => trivial
  call := by
    intro m p o store store' next hI hm underway available h
    obtain ⟨c, d, hid, hasked, hdraft, hcreate⟩ := create_built rt defaultFromEmail m
    cases next_handled h with
    | @inserting d' id now notification drafted ok =>
      cases hdraft.symm.trans drafted
      rw [hcreate] at ok
      cases hf : Tables.find Notification.eventId store.rows c.eventId with
      | some row =>
        rw [hf] at ok
        cases ok
      | none =>
        rw [hf] at ok
        cases ok
        exact ⟨hI, fun _ hm' => hm', hasked, hf, available⟩
    | @duplicate d' id now drafted taken =>
      cases hdraft.symm.trans drafted
      rw [hcreate] at taken
      cases hf : Tables.find Notification.eventId store.rows c.eventId with
      | some row =>
        exact ⟨hI, fun _ hm' => hm', row, Tables.find_mem hf,
          hid.trans (congrArg some (Tables.find_key hf).symm)⟩
      | none =>
        rw [hf] at taken
        cases taken
    | undrafted undrafted => cases hdraft.symm.trans undrafted
    | delayed =>
      obtain ⟨hrows, hnext⟩ := notification_delay hI underway
      exact ⟨hrows, fun _ hm' => hm', hnext⟩
    | inserted => exact notification_commitRow hI hm underway
    | raised => exact absurd available id
    | delayFailed => exact absurd available id
    | insertFailed => exact absurd available id
    | _ => exact ⟨hI, fun _ hm' => hm', underway⟩

end Notification

/-- Where distinct messages have distinct events, so have those of a part. -/
theorem subscribed_nodup {E : List Relayed} (distinct : (E.map eventId).Nodup) :
    ((subscribed E).map eventId).Nodup :=
  List.Nodup.sublist (List.filter_sublist.map eventId) distinct

/-- The rows with the events of `E`, each once and with what its event says, are what
the events of `E` ask for. -/
theorem contents_perm {R C : Type*} {rows : List R} {E : List Relayed} {content : R → C}
    {key : C → String} {asked : Relayed → Option C}
    (named : ∀ m, (asked m).map key = eventId m) (distinct : (E.map eventId).Nodup)
    (once : (rows.map (fun row => key (content row))).Nodup)
    (sound : ∀ row ∈ rows, ∃ m ∈ E, asked m = some (content row))
    (complete : ∀ m ∈ E, ∃ row ∈ rows, eventId m = some (key (content row))) :
    (rows.map (fun row => some (content row))).Perm (E.map asked) := by
  refine Deliveries.rows_perm (Option.map key) ?_ ?_ ?_ ?_
  · have hnodup := once.map (Option.some_injective String)
    rw [List.map_map] at hnodup
    exact hnodup
  · simpa only [named] using distinct
  · intro row hrow
    obtain ⟨m, hm, hasked⟩ := sound row hrow
    exact ⟨m, hm, hasked.symm⟩
  · intro m hm
    obtain ⟨row, hrow, hid⟩ := complete m hm
    exact ⟨row, hrow, (named m ▸ hid.symm)⟩

/-- However the events of `E` are delivered, when each has been handled to the end
the audit table has one row for each, with what the event says, and the
notification table one for each event on its topics and one task for each row. -/
theorem tables_depend_on_events {rt : Runtime} (faithful : Faithful rt)
    (defaultFromEmail : String) {E : List Relayed} (distinct : (E.map eventId).Nodup) :
    (∀ as s,
      Runs.Steps (Deliveries.step (audit rt)) (Deliveries.Permitted (fun m => m ∈ E)
        AuditAvailable) (Deliveries.init ⟨[], []⟩) as →
      Runs.run (Deliveries.step (audit rt)) (Deliveries.init ⟨[], []⟩) as = some s →
      (∀ m ∈ E, m ∈ s.ended) →
      (s.store.rows.map (fun row => some (contentOf row))).Perm (E.map (auditOf rt))) ∧
    ∀ as s,
      Runs.Steps (Deliveries.step (notification rt defaultFromEmail)) (Deliveries.Permitted
        (fun m => m ∈ subscribed E) NotificationAvailable) (Deliveries.init ⟨[], []⟩) as →
      Runs.run (Deliveries.step (notification rt defaultFromEmail)) (Deliveries.init ⟨[], []⟩) as =
        some s →
      (∀ m ∈ subscribed E, m ∈ s.ended) →
      (s.store.rows.map (fun row => some (takenBy row))).Perm
          ((subscribed E).map (notificationOf rt defaultFromEmail)) ∧
        (s.store.rows.map NotificationConsumer.Notification.id).Nodup ∧
        ∀ row ∈ s.store.rows, s.store.tasks.count row.id.str = 1 := by
  constructor
  · intro as s permitted hrun hended
    have start : AuditRows rt E ⟨[], []⟩ := ⟨List.nodup_nil, by simp⟩
    obtain ⟨hI, hrecorded⟩ :=
      Deliveries.run_consistent (audit_keeps faithful E) start permitted hrun
    have hkey : ∀ m, (auditOf rt m).map AuditContent.eventId = eventId m := by
      intro m
      obtain ⟨c, hid, hasked, -⟩ := processEvent_built faithful m
      rw [hasked, hid]
      rfl
    exact contents_perm hkey distinct hI.distinct hI.asked
      (fun m hm => hrecorded m (hended m hm))
  · intro as s permitted hrun hended
    have start : NotificationRows rt defaultFromEmail (subscribed E) ⟨[], []⟩ :=
      ⟨List.nodup_nil, by simp, List.nodup_nil, by simp⟩
    obtain ⟨hI, hrecorded⟩ := Deliveries.run_consistent
      (notification_keeps rt defaultFromEmail (subscribed E)) start permitted hrun
    have hkey : ∀ m, (notificationOf rt defaultFromEmail m).map NotificationContent.eventId =
        eventId m := by
      intro m
      obtain ⟨c, d, hid, hasked, -⟩ := create_built rt defaultFromEmail m
      rw [hasked, hid]
      rfl
    refine ⟨?_, hI.ids, hI.tasks⟩
    exact contents_perm hkey (subscribed_nodup distinct) hI.distinct hI.asked
      (fun m hm => hrecorded m (hended m hm))

/-- Two events; the process goes down once the first has its row, and the first is
delivered again after the second. -/
def auditDeliveries : List (Deliveries.Action Relayed AuditConsumer.Outcome) :=
  [.deliver (exampleCreated 0),
    .call (.created ⟨1000⟩ (exampleInstant 10 0) (exampleInstant 10 0)), .crash,
    .deliver (exampleCreated 100),
    .call (.created ⟨1001⟩ (exampleInstant 10 0) (exampleInstant 10 0)), .call .done, .call .raised,
    .deliver (exampleCreated 0),
    .call (.created ⟨1002⟩ (exampleInstant 10 0) (exampleInstant 10 0)), .call .done]

/-- The same with the process down between the task and the commit of its row. -/
def notificationDeliveries : List (Deliveries.Action Relayed NotificationConsumer.Outcome) :=
  [.deliver (exampleCreated 0), .call (.created ⟨1000⟩ (exampleInstant 10 0)), .call .done, .crash,
    .deliver (exampleCreated 100), .call (.created ⟨1001⟩ (exampleInstant 10 0)), .call .done,
    .call .done, .call .done,
    .deliver (exampleCreated 0), .call (.created ⟨1002⟩ (exampleInstant 10 0)), .call .done,
    .call .done, .call .raised]

/-- The two events of the examples are on topics of the notification consumer. -/
theorem subscribed_example : subscribed [exampleCreated 0, exampleCreated 100] =
    [exampleCreated 0, exampleCreated 100] := by
  rfl

theorem auditDeliveries_ended :
    (Runs.run (Deliveries.step (audit runtime)) (Deliveries.init ⟨[], []⟩)
      auditDeliveries).map Deliveries.State.ended =
    some [exampleCreated 100, exampleCreated 0] := by
  rfl

theorem notificationDeliveries_ended :
    (Runs.run (Deliveries.step (notification runtime "noreply@riskcore.com"))
      (Deliveries.init ⟨[], []⟩) notificationDeliveries).map Deliveries.State.ended =
        some [exampleCreated 100, exampleCreated 0] := by
  rfl

theorem exampleDeliveries_tables :
    (∃ s, Runs.run (Deliveries.step (audit runtime)) (Deliveries.init ⟨[], []⟩) auditDeliveries =
        some s ∧
      (s.store.rows.map (fun row => some (contentOf row))).Perm
        ([exampleCreated 0, exampleCreated 100].map (auditOf runtime))) ∧
    ∃ s, Runs.run (Deliveries.step (notification runtime "noreply@riskcore.com"))
        (Deliveries.init ⟨[], []⟩) notificationDeliveries = some s ∧
      ∀ row ∈ s.store.rows, s.store.tasks.count row.id.str = 1 := by
  have distinct : ([exampleCreated 0, exampleCreated 100].map eventId).Nodup := by decide +kernel
  have htables := tables_depend_on_events runtime_faithful "noreply@riskcore.com" distinct
  constructor
  · obtain ⟨s, hs, hended⟩ := Option.map_eq_some_iff.mp auditDeliveries_ended
    refine ⟨s, hs, htables.1 auditDeliveries s (Deliveries.steps_permitted ?_ (by decide +kernel))
      hs ?_⟩
    · intro m hm
      simpa [auditDeliveries, or_comm] using hm
    · intro m hm
      simpa [hended, or_comm] using hm
  · obtain ⟨s, hs, hended⟩ := Option.map_eq_some_iff.mp notificationDeliveries_ended
    refine ⟨s, hs, (htables.2 notificationDeliveries s
      (Deliveries.steps_permitted ?_ (by decide +kernel)) hs ?_).2.2⟩
    · intro m hm
      rw [subscribed_example]
      simpa [notificationDeliveries, or_comm] using hm
    · intro m hm
      rw [subscribed_example] at hm
      simpa [hended, or_comm] using hm

end Redelivery
