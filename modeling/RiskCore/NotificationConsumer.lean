import RiskCore.Events
import RiskCore.Offsets
import RiskCore.Payloads
import RiskCore.Tables

/-!
# The consumer of notification-service

`NotificationKafkaConsumer._handle_message` on one decoded message. The row and
the e-mail task are made inside one transaction, but the task reaches the broker
before the transaction commits.
-/

namespace NotificationConsumer

open Values Payloads OutboxRelay

inductive Notification.Status where
  | pending
  | sent
  | failed
deriving DecidableEq

def Notification.Status.value : Notification.Status → String
  | .pending => "PENDING"
  | .sent => "SENT"
  | .failed => "FAILED"

structure Notification where
  id : UUID
  eventId : String
  eventType : String
  recipientEmail : String
  subject : String
  context : Dict
  status : Notification.Status
  createdAt : DateTime
  sentAt : Option DateTime

def buildSubject (eventType : String) : String :=
  if eventType = "policy.created" then "Póliza creada"
  else if eventType = "policy.cancelled" then "Póliza cancelada"
  else if eventType = "claim.filed" then "Siniestro registrado"
  else if eventType = "claim.status_changed" then "Siniestro actualizado"
  else if eventType = "claim.resolved" then "Siniestro resuelto"
  else "Notificación RiskCore"

def buildContext (eventType : String) (data : Json) : Option Dict := do
  if startsWith eventType "policy." then
    return [("policy_number", ← get data "policy_number" (.str ""))]
  else if startsWith eventType "claim." then
    let claimNumber ← get data "claim_number" (.str "")
    if eventType = "claim.status_changed" then
      return [("claim_number", claimNumber), ("new_status", ← get data "to_status" (.str ""))]
    else if eventType = "claim.resolved" then
      return [("claim_number", claimNumber),
        ("approved_amount", ← get data "approved_amount" (.str ""))]
    else return [("claim_number", claimNumber)]
  else return []

def extractRecipient (defaultFromEmail : String) (data : Json) (eventType : String) :
    Option Json :=
  let email := if startsWith eventType "claim." then get data "claimant_email" .null
    else get data "customer_email" .null
  email.map (fun e => if truthy e then e else .str defaultFromEmail)

/-- The arguments of `Notification.objects.create`. -/
structure Draft where
  eventId : Json
  eventType : String
  recipient : Json
  subject : String
  context : Dict

/-- The part of `_handle_message` before its `try`. -/
def draft (defaultFromEmail : String) (payload : Json) : Option Draft := do
  let eventType ← get payload "event_type" (.str "")
  let eventId ← get payload "event_id" (.str "")
  let data ← get payload "data" (.obj [])
  match eventType with
  | .str eventType =>
    let recipient ← extractRecipient defaultFromEmail data eventType
    let context ← buildContext eventType data
    return ⟨eventId, eventType, recipient, buildSubject eventType, context⟩
  | _ => none

/-- The row of a draft, or an `IntegrityError`. -/
def create (rt : Runtime) (rows : List Notification) (d : Draft) (id : UUID) (now : DateTime) :
    Option Notification := do
  let eventId ← rt.column d.eventId
  let recipient ← rt.column d.recipient
  match Tables.find Notification.eventId rows eventId with
  | some _ => none
  | none => return {
      id := id
      eventId := eventId
      eventType := d.eventType
      recipientEmail := recipient
      subject := d.subject
      context := d.context
      status := .pending
      createdAt := now
      sentAt := none }

/-- The committed table, and the history of the `send_email_notification` tasks
enqueued. -/
structure Store where
  rows : List Notification
  tasks : List String

/-- Before each call of `_handle_message`. -/
inductive Point where
  | create
  | delay (notification : Notification)
  | commitRow (notification : Notification)
  | commit
  | commitDuplicate

/-- `created` is an answer of the database with the defaults the row would get;
`raised` is any exception but `IntegrityError`. -/
inductive Outcome where
  | created (id : UUID) (now : DateTime)
  | done
  | raised

/-- `_handle_message`. A payload that cannot be drafted and a failing commit in
the `IntegrityError` branch raise outside its `try`. -/
def handler (rt : Runtime) (defaultFromEmail : String) :
    Offsets.Handler Message Store Point Outcome where
  start := .create
  next m p o store :=
    match p, o with
    | .create, .created id now =>
      match draft defaultFromEmail m.value with
      | some d =>
        match create rt store.rows d id now with
        | some notification => some (store, .goto (.delay notification))
        | none => some (store, .goto .commitDuplicate)
      | none => some (store, .die)
    | .create, .raised =>
      match draft defaultFromEmail m.value with
      | some _ => some (store, .leave)
      | none => some (store, .die)
    | .delay notification, .done =>
      some ({ store with tasks := store.tasks ++ [notification.id.str] },
        .goto (.commitRow notification))
    | .delay _, .raised => some (store, .leave)
    | .commitRow notification, .done =>
      some ({ store with rows := Tables.insert store.rows notification }, .goto .commit)
    | .commitRow _, .raised => some (store, .leave)
    | .commit, .done => some (store, .commit)
    | .commit, .raised => some (store, .leave)
    | .commitDuplicate, .done => some (store, .commit)
    | .commitDuplicate, .raised => some (store, .die)
    | _, _ => none

/-- What one call of `_handle_message` can do, case by case. -/
inductive Handled (rt : Runtime) (defaultFromEmail : String) (m : Message) (store : Store) :
    Point → Outcome → Store → Offsets.Next Point → Prop where
  | inserting {d id now notification} (drafted : draft defaultFromEmail m.value = some d)
      (ok : create rt store.rows d id now = some notification) :
      Handled rt defaultFromEmail m store .create (.created id now) store
        (.goto (.delay notification))
  | duplicate {d id now} (drafted : draft defaultFromEmail m.value = some d)
      (taken : create rt store.rows d id now = none) :
      Handled rt defaultFromEmail m store .create (.created id now) store (.goto .commitDuplicate)
  | raised {d} (drafted : draft defaultFromEmail m.value = some d) :
      Handled rt defaultFromEmail m store .create .raised store .leave
  | undrafted {o} (undrafted : draft defaultFromEmail m.value = none) :
      Handled rt defaultFromEmail m store .create o store .die
  | delayed {notification} : Handled rt defaultFromEmail m store (.delay notification) .done
      { store with tasks := store.tasks ++ [notification.id.str] } (.goto (.commitRow notification))
  | delayFailed {notification} :
      Handled rt defaultFromEmail m store (.delay notification) .raised store .leave
  | inserted {notification} : Handled rt defaultFromEmail m store (.commitRow notification) .done
      { store with rows := Tables.insert store.rows notification } (.goto .commit)
  | insertFailed {notification} :
      Handled rt defaultFromEmail m store (.commitRow notification) .raised store .leave
  | committed : Handled rt defaultFromEmail m store .commit .done store .commit
  | commitFailed : Handled rt defaultFromEmail m store .commit .raised store .leave
  | duplicateCommitted : Handled rt defaultFromEmail m store .commitDuplicate .done store .commit
  | duplicateCommitFailed :
      Handled rt defaultFromEmail m store .commitDuplicate .raised store .die

theorem next_handled {rt : Runtime} {defaultFromEmail : String} {m : Message} {p : Point}
    {o : Outcome} {store store' : Store} {next : Offsets.Next Point}
    (h : (handler rt defaultFromEmail).next m p o store = some (store', next)) :
    Handled rt defaultFromEmail m store p o store' next := by
  cases p with
  | create =>
    cases o with
    | created id now =>
      simp only [handler] at h
      split at h
      · rename_i drafted
        split at h
        · rename_i ok
          cases h
          exact .inserting drafted ok
        · rename_i taken
          cases h
          exact .duplicate drafted taken
      · rename_i undrafted
        cases h
        exact .undrafted undrafted
    | done => cases h
    | raised =>
      simp only [handler] at h
      split at h
      · rename_i drafted
        cases h
        exact .raised drafted
      · rename_i undrafted
        cases h
        exact .undrafted undrafted
  | delay notification =>
    cases o with
    | created id now => cases h
    | done =>
      cases h
      exact .delayed
    | raised =>
      cases h
      exact .delayFailed
  | commitRow notification =>
    cases o with
    | created id now => cases h
    | done =>
      cases h
      exact .inserted
    | raised =>
      cases h
      exact .insertFailed
  | commit =>
    cases o with
    | created id now => cases h
    | done =>
      cases h
      exact .committed
    | raised =>
      cases h
      exact .commitFailed
  | commitDuplicate =>
    cases o with
    | created id now => cases h
    | done =>
      cases h
      exact .duplicateCommitted
    | raised =>
      cases h
      exact .duplicateCommitFailed

/-- The event of the message is in the table. -/
def Recorded (store : Store) (m : Message) : Prop :=
  ∃ row ∈ store.rows, eventId? m.value = some row.eventId

instance (store : Store) (m : Message) : Decidable (Recorded store m) :=
  inferInstanceAs (Decidable (∃ row ∈ store.rows, _ = _))

open Events Outbox

theorem extractRecipient_ne_null {defaultFromEmail eventType : String} {data recipient : Json}
    (h : extractRecipient defaultFromEmail data eventType = some recipient) :
    recipient ≠ .null := by
  obtain ⟨email, _, rfl⟩ := Option.map_eq_some_iff.mp h
  by_cases ht : truthy email
  · rw [if_pos ht]
    rintro rfl
    cases ht
  · rw [if_neg ht]
    intro hnull
    cases hnull

theorem extractRecipient_obj (defaultFromEmail eventType : String) (data : Dict) :
    ∃ recipient, extractRecipient defaultFromEmail (.obj data) eventType = some recipient := by
  unfold extractRecipient
  split
  · exact ⟨_, rfl⟩
  · exact ⟨_, rfl⟩

theorem buildContext_obj (eventType : String) (data : Dict) :
    ∃ context, buildContext eventType (.obj data) = some context := by
  unfold buildContext
  split_ifs
  · exact ⟨_, rfl⟩
  · exact ⟨_, rfl⟩
  · exact ⟨_, rfl⟩
  · exact ⟨_, rfl⟩
  · exact ⟨_, rfl⟩

theorem draft_envelope {defaultFromEmail eventType : String} {data context : Dict}
    {recipient : Json}
    (hrecipient : extractRecipient defaultFromEmail (.obj data) eventType = some recipient)
    (hcontext : buildContext eventType (.obj data) = some context) (eventId : UUID) (t : DateTime)
    (service : String) :
    draft defaultFromEmail (envelope eventId eventType t service data) =
      some ⟨.str eventId.str, eventType, recipient, buildSubject eventType, context⟩ := by
  simp only [draft, get_eventType, get_eventId, get_data, bind, Option.bind_some, hrecipient,
    hcontext]
  rfl

/-- The row of a draft whose columns are not NULL. -/
theorem create_eq (rt : Runtime) {d : Draft} {eventId recipient : String}
    (hid : rt.column d.eventId = some eventId) (hrecipient : rt.column d.recipient = some recipient)
    (rows : List Notification) (id : UUID) (now : DateTime) :
    create rt rows d id now = match Tables.find Notification.eventId rows eventId with
      | some _ => none
      | none => some ⟨id, eventId, d.eventType, recipient, d.subject, d.context, .pending, now,
          none⟩ := by
  simp only [create, hid, hrecipient, bind, Option.bind_some]
  cases Tables.find Notification.eventId rows eventId <;> rfl

/-- A builder's payload meets the table with the event's identifier. -/
theorem create_draft (rt : Runtime) (rows : List Notification) {defaultFromEmail : String}
    {eventId : UUID} {eventType service : String} {t : DateTime} {data : Dict} {d : Draft}
    (h : draft defaultFromEmail (envelope eventId eventType t service data) = some d)
    (id : UUID) (now : DateTime) :
    match create rt rows d id now with
    | some notification => notification.eventId = eventId.str
    | none => ∃ row ∈ rows, row.eventId = eventId.str := by
  simp only [draft, get_eventType, get_eventId, get_data, Option.bind_eq_bind, Option.bind_some,
    Option.bind_eq_some_iff] at h
  obtain ⟨recipient, hrecipient, context, _, hd⟩ := h
  cases hd
  obtain ⟨text, htext⟩ := rt.column_isSome (extractRecipient_ne_null hrecipient)
  rw [create_eq rt (rt.column_str eventId.str) htext]
  cases hf : Tables.find Notification.eventId rows eventId.str with
  | none => rfl
  | some row => exact ⟨row, Tables.find_mem hf, Tables.find_key hf⟩

/-- What holds at a point of `_handle_message`: inside the transaction the new row
is the event's, and past it the event has its row. -/
def Ready (store : Store) (m : Relayed) : Point → Prop
  | .create => True
  | .delay notification => eventId? m.message.value = some notification.eventId
  | .commitRow notification => eventId? m.message.value = some notification.eventId
  | _ => Recorded store m.message

theorem sound (rt : Runtime) (defaultFromEmail : String) :
    Offsets.Sound ((handler rt defaultFromEmail).comap Relayed.message)
      (fun store m => Recorded store m.message) Ready where
  start := fun _ _ => trivial
  call := by
    intro m p o store store' next ready h
    obtain ⟨eventId, t, service, data, hvalue⟩ := m.built.eq_envelope
    have hid : eventId? m.message.value = some eventId.str := by
      rw [hvalue]
      rfl
    cases next_handled h with
    | @inserting d id now notification drafted ok =>
      have hrow := create_draft rt store.rows (hvalue ▸ drafted) id now
      rw [ok] at hrow
      exact .goto (fun _ hm => hm) (hid.trans (congrArg some hrow.symm))
    | @duplicate d id now drafted taken =>
      have hrow := create_draft rt store.rows (hvalue ▸ drafted) id now
      rw [taken] at hrow
      obtain ⟨row, hmem, hrowId⟩ := hrow
      exact .goto (fun _ hm => hm) ⟨row, hmem, by rw [hid, hrowId]⟩
    | delayed => exact .goto (fun _ hm => hm) ready
    | @inserted notification =>
      refine .goto ?_ ⟨notification, List.mem_append_right _ (List.mem_singleton_self _), ready⟩
      rintro m' ⟨row, hrow, hrowId⟩
      exact ⟨row, List.mem_append_left _ hrow, hrowId⟩
    | committed => exact .commit ready
    | duplicateCommitted => exact .commit ready
    | undrafted => exact .stop (Or.inr rfl)
    | duplicateCommitFailed => exact .stop (Or.inr rfl)
    | _ => exact .stop (Or.inl rfl)

end NotificationConsumer
