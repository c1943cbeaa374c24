import RiskCore.ConsumerOffsets
import RiskCore.Insertions

/-!
# What the consumers take for duplicates

Both consumers take every `IntegrityError` for a repeated event. A null in a
column raises one too, and so does the row of another event with the same text
for an identifier: an empty one by default, or a value that is not a string.
-/

namespace Duplicates

open Values Payloads OutboxRelay

/-! ## audit-service -/

section Audit
open AuditConsumer

/-- The text of the `event_id`, if no column of the row would be null. -/
def auditKey (rt : Runtime) (m : Message) : Option String := do
  let eventId ← rt.column (← item m.value "event_id")
  let _ ← rt.column (← get m.value "event_type" (.str ""))
  let _ ← rt.column (← get m.value "service" (.str ""))
  return eventId

/-- A row whose identifier is the message's. -/
def AuditMet (rt : Runtime) (store : Store) (m : Message) : Prop :=
  ∃ row ∈ store.rows, auditKey rt m = some row.eventId

/-- What holds at a point of `_handle`, for any payload. -/
def AuditReady (rt : Runtime) (store : Store) (m : Message) : Point → Prop
  | .process => True
  | .broadcast _ => AuditMet rt store m
  | .commit => AuditMet rt store m
  | .commitDuplicate => auditKey rt m = none ∨ AuditMet rt store m

theorem processEvent_key (rt : Runtime) (rows : List AuditEvent) (m : Message) (id : UUID)
    (now receivedAt : DateTime) :
    match processEvent rt rows m.value m.topic id now receivedAt with
    | .ok event => auditKey rt m = some event.eventId ∧ ∀ row ∈ rows, row.eventId ≠ event.eventId
    | .error .integrityError =>
      auditKey rt m = none ∨ ∃ row ∈ rows, auditKey rt m = some row.eventId
    | .error .other => True := by
  simp only [processEvent, auditKey]
  rcases extractEntity rt m.value with _ | entity
  · trivial
  rcases occurredAt rt m.value now with _ | occurredAt
  · trivial
  rcases item m.value "event_id" with _ | eventId
  · trivial
  rcases get m.value "event_type" (.str "") with _ | eventType
  · trivial
  rcases get m.value "service" (.str "") with _ | service
  · trivial
  simp only [orRaise, bind, Except.bind, Option.bind_some]
  rcases rt.parseUuid (if entity.2 = "" then noEntity else entity.2) with _ | entityId
  · trivial
  -- from here on what fails is the insert
  rcases rt.column eventId with _ | idText
  · exact Or.inl rfl
  rcases rt.column eventType with _ | typeText
  · exact Or.inl rfl
  rcases rt.column service with _ | serviceText
  · exact Or.inl rfl
  simp only [notNull]
  cases hf : Tables.find AuditEvent.eventId rows idText with
  | none => exact ⟨rfl, Tables.find_eq_none.mp hf⟩
  | some row => exact Or.inr ⟨row, Tables.find_mem hf, by rw [Tables.find_key hf]; rfl⟩

theorem auditKeyed (rt : Runtime) : Insertions.Keyed (handler rt) Store.rows AuditEvent.eventId
    (auditKey rt) (AuditReady rt) where
  start := fun _ _ => trivial
  call := by
    intro m p o store store' next ready h
    cases next_handled h with
    | @stored id now receivedAt event ok =>
      have hkey := processEvent_key rt store.rows m id now receivedAt
      rw [ok] at hkey
      refine .insert rfl hkey.1 hkey.2 ⟨event, ?_, hkey.1⟩
      exact List.mem_append_right _ (List.mem_singleton_self _)
    | @duplicate id now receivedAt taken =>
      have hkey := processEvent_key rt store.rows m id now receivedAt
      rw [taken] at hkey
      exact .goto rfl hkey
    | sent => exact .goto rfl ready
    | committed => exact .commit (Or.inr ready)
    | duplicateCommitted => exact .commit ready
    | noDict => exact .stop (Or.inr rfl)
    | duplicateCommitFailed => exact .stop (Or.inr rfl)
    | _ => exact .stop (Or.inl rfl)

/-! The runs of the consumer, with the message each row was made from. -/

def auditStep (rt : Runtime) := Offsets.step (Insertions.logged (handler rt) Store.rows)

def auditInit : Offsets.State Message (Store × List (AuditEvent × Message)) Point :=
  Offsets.init (⟨[], []⟩, [])

/-- A message whose offset the step commits has a row made from its payload. -/
def AuditRecorded (rt : Runtime) := Insertions.CommitRecorded (handler rt) Store.rows Message.value

/-- A message whose offset the step commits has no null column, and no other payload
has taken the text of its identifier. -/
def AuditApart (rt : Runtime) :=
  Insertions.CommitApart (handler rt) Store.rows AuditEvent.eventId (auditKey rt) Message.value

theorem auditKey_congr (rt : Runtime) (m m' : Message) (h : m.value = m'.value) :
    auditKey rt m = auditKey rt m' := by
  simp only [auditKey, h]

end Audit

/-! ## notification-service -/

section Notification
open NotificationConsumer

/-- The text of the `event_id`, unless it is null. -/
def notificationKey (rt : Runtime) (m : Message) : Option String := do
  rt.column (← get m.value "event_id" (.str ""))

def NotificationMet (rt : Runtime) (store : Store) (m : Message) : Prop :=
  ∃ row ∈ store.rows, notificationKey rt m = some row.eventId

/-- The row that is to come in has the message's identifier, which is free. -/
def Coming (rt : Runtime) (store : Store) (m : Message) (notification : Notification) : Prop :=
  notificationKey rt m = some notification.eventId ∧
    ∀ row ∈ store.rows, row.eventId ≠ notification.eventId

/-- What holds at a point of `_handle_message`, for any payload. -/
def NotificationReady (rt : Runtime) (store : Store) (m : Message) : Point → Prop
  | .create => True
  | .delay notification => Coming rt store m notification
  | .commitRow notification => Coming rt store m notification
  | .commit => NotificationMet rt store m
  | .commitDuplicate => notificationKey rt m = none ∨ NotificationMet rt store m

theorem draft_some {defaultFromEmail : String} {payload : Json} {d : Draft}
    (h : draft defaultFromEmail payload = some d) :
    get payload "event_id" (.str "") = some d.eventId ∧ d.recipient ≠ .null := by
  simp only [draft, Option.bind_eq_bind, Option.bind_eq_some_iff] at h
  obtain ⟨eventType, _, eventId, hid, data, _, h⟩ := h
  cases eventType with
  | str eventType =>
    simp only [Option.bind_eq_some_iff] at h
    obtain ⟨recipient, hrecipient, context, _, hd⟩ := h
    cases hd
    exact ⟨hid, extractRecipient_ne_null hrecipient⟩
  | _ => cases h

theorem create_key (rt : Runtime) {defaultFromEmail : String} {m : Message} {d : Draft}
    (h : draft defaultFromEmail m.value = some d) (store : Store) (id : UUID) (now : DateTime) :
    match create rt store.rows d id now with
    | some notification => Coming rt store m notification
    | none => notificationKey rt m = none ∨ NotificationMet rt store m := by
  obtain ⟨hid, hrecipient⟩ := draft_some h
  obtain ⟨recipient, hcolumn⟩ := rt.column_isSome hrecipient
  have hkey : notificationKey rt m = rt.column d.eventId := by
    simp only [notificationKey, hid, Option.bind_eq_bind, Option.bind_some]
  simp only [Coming, NotificationMet, hkey]
  cases htext : rt.column d.eventId with
  | none =>
    simp [create, htext]
  | some text =>
    rw [create_eq rt htext hcolumn]
    cases hf : Tables.find Notification.eventId store.rows text with
    | none => exact ⟨rfl, Tables.find_eq_none.mp hf⟩
    | some row => exact Or.inr ⟨row, Tables.find_mem hf, by rw [Tables.find_key hf]⟩

theorem notificationKeyed (rt : Runtime) (defaultFromEmail : String) :
    Insertions.Keyed (handler rt defaultFromEmail) Store.rows Notification.eventId
      (notificationKey rt) (NotificationReady rt) where
  start := fun _ _ => trivial
  call := by
    intro m p o store store' next ready h
    cases next_handled h with
    | @inserting d id now notification drafted ok =>
      have hkey := create_key rt drafted store id now
      rw [ok] at hkey
      exact .goto rfl hkey
    | @duplicate d id now drafted taken =>
      have hkey := create_key rt drafted store id now
      rw [taken] at hkey
      exact .goto rfl hkey
    | delayed => exact .goto rfl ready
    | @inserted notification =>
      refine .insert rfl ready.1 ready.2 ⟨notification, ?_, ready.1⟩
      exact List.mem_append_right _ (List.mem_singleton_self _)
    | committed => exact .commit (Or.inr ready)
    | duplicateCommitted => exact .commit ready
    | undrafted => exact .stop (Or.inr rfl)
    | duplicateCommitFailed => exact .stop (Or.inr rfl)
    | _ => exact .stop (Or.inl rfl)

/-! The runs of the consumer, with the message each row was made from. -/

def notificationStep (rt : Runtime) (defaultFromEmail : String) :=
  Offsets.step (Insertions.logged (handler rt defaultFromEmail) Store.rows)

def notificationInit : Offsets.State Message (Store × List (Notification × Message)) Point :=
  Offsets.init (⟨[], []⟩, [])

/-- A message whose offset the step commits has a row made from its payload. -/
def NotificationRecorded (rt : Runtime) (defaultFromEmail : String) :=
  Insertions.CommitRecorded (handler rt defaultFromEmail) Store.rows Message.value

/-- A message whose offset the step commits has no null identifier, and no other
payload has taken the text of it. -/
def NotificationApart (rt : Runtime) (defaultFromEmail : String) :=
  Insertions.CommitApart (handler rt defaultFromEmail) Store.rows Notification.eventId
    (notificationKey rt) Message.value

theorem notificationKey_congr (rt : Runtime) (m m' : Message) (h : m.value = m'.value) :
    notificationKey rt m = notificationKey rt m' := by
  simp only [notificationKey, h]

end Notification

/-- For both consumers, on any log of any messages: in every step of a run that
commits an offset the table has a row made from the payload iff in every such step
the message has no null column and its identifier's text is taken by no other
payload. -/
theorem duplicates_recorded_iff (rt : Runtime) (defaultFromEmail : String)
    (as : List (Offsets.Action Message AuditConsumer.Outcome))
    (ns : List (Offsets.Action Message NotificationConsumer.Outcome)) :
    (Runs.Steps (auditStep rt) (AuditRecorded rt) auditInit as ↔
      Runs.Steps (auditStep rt) (AuditApart rt) auditInit as) ∧
    (Runs.Steps (notificationStep rt defaultFromEmail) (NotificationRecorded rt defaultFromEmail)
        notificationInit ns ↔
      Runs.Steps (notificationStep rt defaultFromEmail) (NotificationApart rt defaultFromEmail)
        notificationInit ns) :=
  ⟨Insertions.recorded_iff_apart (auditKeyed rt) (auditKey_congr rt) rfl as,
    Insertions.recorded_iff_apart (notificationKeyed rt defaultFromEmail)
      (notificationKey_congr rt) rfl ns⟩

/-- `{"event_id": null, ...}` -/
def exampleNull : Message where
  topic := "policy.created"
  key := ""
  value := .obj [("event_id", .null), ("event_type", .str "policy.created"),
    ("service", .str "policy-service"), ("data", .obj [("policy_id", .str (UUID.str ⟨100⟩))])]

def nullAudited : List (Offsets.Action Message AuditConsumer.Outcome) :=
  [.append exampleNull, .poll, .call (.created ⟨1000⟩ (exampleInstant 10 0) (exampleInstant 10 0)),
    .call .done]

def nullNotified : List (Offsets.Action Message NotificationConsumer.Outcome) :=
  [.append exampleNull, .poll, .call (.created ⟨1000⟩ (exampleInstant 10 0)), .call .done]

/-- The one message of the log is committed as a duplicate, and the tables are
empty. -/
theorem null_committed_unrecorded :
    ¬ Runs.Steps (auditStep ConsumerOffsets.exampleRuntime)
      (AuditRecorded ConsumerOffsets.exampleRuntime) auditInit nullAudited ∧
    ¬ Runs.Steps (notificationStep ConsumerOffsets.exampleRuntime "noreply@riskcore.com")
      (NotificationRecorded ConsumerOffsets.exampleRuntime "noreply@riskcore.com")
      notificationInit nullNotified := by
  constructor
  · intro h
    exact absurd (Insertions.made_of_recorded h) (by decide)
  · intro h
    exact absurd (Insertions.made_of_recorded h) (by decide)

/-! ## Messages with identifiers of their own -/

/-- A message with an identifier that is text, and no null beside it. -/
structure Named (m : Message) : Prop where
  eventId : ∃ id, item m.value "event_id" = some (.str id)
  eventType : get m.value "event_type" (.str "") ≠ some .null
  service : get m.value "service" (.str "") ≠ some .null

theorem get_of_item {value : Json} {k : String} {v : Json} (h : item value k = some v)
    (default : Json) : get value k default = some v := by
  cases value with
  | obj fields => exact get_found h default
  | _ => cases h

theorem get_isSome {value : Json} {k : String} {v : Json} (h : item value k = some v) (j : String)
    (default : Json) : ∃ w, get value j default = some w := by
  cases value with
  | obj fields => exact ⟨_, rfl⟩
  | _ => cases h

theorem Named.keys {m : Message} (named : Named m) (rt : Runtime) :
    ∃ id, eventId? m.value = some id ∧ auditKey rt m = some id ∧
      notificationKey rt m = some id := by
  obtain ⟨id, hid⟩ := named.eventId
  obtain ⟨eventType, htype⟩ := get_isSome hid "event_type" (.str "")
  obtain ⟨service, hservice⟩ := get_isSome hid "service" (.str "")
  have typeSet : eventType ≠ .null := fun he => named.eventType (he ▸ htype)
  have serviceSet : service ≠ .null := fun he => named.service (he ▸ hservice)
  obtain ⟨typeText, hcolumn⟩ := rt.column_isSome typeSet
  obtain ⟨serviceText, hcolumn'⟩ := rt.column_isSome serviceSet
  refine ⟨id, ?_, ?_, ?_⟩
  · cases hv : m.value with
    | obj fields =>
      rw [hv] at hid
      have hlookup : fields.lookup "event_id" = some (.str id) := hid
      simp only [eventId?, Json.get?, hlookup]
    | _ =>
      rw [hv] at hid
      cases hid
  · simp only [auditKey, hid, htype, hservice, hcolumn, hcolumn', Option.bind_eq_bind,
      Option.bind_some, Runtime.column_str]
    rfl
  · simp only [notificationKey, get_of_item hid, Option.bind_eq_bind, Option.bind_some,
      Runtime.column_str]

/-- Where messages that share an identifier share their payload, what the consumers
take for a duplicate of a named message is one. -/
theorem named_recorded (rt : Runtime) (defaultFromEmail : String)
    {as : List (Offsets.Action Message AuditConsumer.Outcome)}
    {ns : List (Offsets.Action Message NotificationConsumer.Outcome)} {sent : Message → Prop}
    (named : ∀ m, sent m → Named m)
    (shared : ∀ m m', sent m → sent m' → eventId? m.value = eventId? m'.value → m.value = m'.value)
    (audited : ∀ m, .append m ∈ as → sent m) (notified : ∀ m, .append m ∈ ns → sent m) :
    Runs.Steps (auditStep rt) (AuditRecorded rt) auditInit as ∧
      Runs.Steps (notificationStep rt defaultFromEmail) (NotificationRecorded rt defaultFromEmail)
        notificationInit ns := by
  constructor
  · refine Insertions.recorded_of_own_keys (auditKeyed rt) (auditKey_congr rt) rfl ?_ ?_ audited
    · intro m hm
      obtain ⟨id, _, hkey, _⟩ := (named m hm).keys rt
      rw [hkey]
      exact Option.some_ne_none id
    · intro m m' hm hm' hkeys
      obtain ⟨id, hid, hkey, _⟩ := (named m hm).keys rt
      obtain ⟨id', hid', hkey', _⟩ := (named m' hm').keys rt
      exact shared m m' hm hm' (by rw [hid, hid', ← hkey, ← hkey', hkeys])
  · refine Insertions.recorded_of_own_keys (notificationKeyed rt defaultFromEmail)
      (notificationKey_congr rt) rfl ?_ ?_ notified
    · intro m hm
      obtain ⟨id, _, _, hkey⟩ := (named m hm).keys rt
      rw [hkey]
      exact Option.some_ne_none id
    · intro m m' hm hm' hkeys
      obtain ⟨id, hid, _, hkey⟩ := (named m hm).keys rt
      obtain ⟨id', hid', _, hkey'⟩ := (named m' hm').keys rt
      exact shared m m' hm hm' (by rw [hid, hid', ← hkey, ← hkey', hkeys])

end Duplicates
