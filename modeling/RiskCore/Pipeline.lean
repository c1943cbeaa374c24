import RiskCore.Outlets
import RiskCore.Duplicates
import RiskCore.Recorders

/-!
# The whole pipeline

policy-service and claims-service, each with the relays of its outbox, the
broker's log of what the relays had acknowledged, and the consumers of
audit-service and notification-service, which are handed the messages of the log
in any order and again and again, and go down wherever they are. The audit log
and the notification table are ledgers of the committed events.
-/

namespace Pipeline

open Values Outbox Events OutboxRelay

/-- The settings of the deployment: what the endpoints of policy-service validate,
`str()` of values that are not strings, `DEFAULT_FROM_EMAIL`. -/
structure Config where
  validate : PolicyService.Call → Except PolicyService.PolicyError Unit
  str : Json → String
  defaultFromEmail : String

abbrev Config.runtime (c : Config) : Payloads.Runtime := AuditFrames.runtime c.str

abbrev Policies (k : Nat) := Outlets.State PolicyService.Store PolicyService.Call
  PolicyService.View PolicyService.PolicyError k

abbrev Claims (k : Nat) := Outlets.State ClaimService.Store ClaimService.Call
  ClaimService.View ClaimService.ClaimError k

abbrev Audit := Deliveries.State Message AuditConsumer.Store AuditConsumer.Point

abbrev Notifications :=
  Deliveries.State Message NotificationConsumer.Store NotificationConsumer.Point

structure State (j k : Nat) where
  policies : Policies j
  claims : Claims k
  audit : Audit
  notification : Notifications

inductive Action (j k : Nat) where
  | policies (a : Outlets.Action PolicyService.Call PolicyService.Env j)
  | claims (a : Outlets.Action ClaimService.Call ClaimService.Env k)
  | audit (f : Deliveries.Feed AuditConsumer.Outcome)
  | notification (f : Deliveries.Feed NotificationConsumer.Outcome)

variable {j k : Nat}

def State.acked (s : State j k) : List Message := s.policies.relay.acked ++ s.claims.relay.acked

/-- The events the two services have committed. -/
def State.stored (s : State j k) : List OutboxEvent :=
  s.policies.requests.db.outbox ++ s.claims.requests.db.outbox

def onTopic (topic : String) : Bool := topic ∈ Redelivery.notificationTopics

/-- What the consumer of notification-service is handed. -/
def State.subscribed (s : State j k) : List Message := s.acked.filter (fun m => onTopic m.topic)

def init (customers : List PolicyService.Customer) : State j k where
  policies := ⟨PolicyService.init customers, OutboxRelay.init⟩
  claims := ⟨ClaimService.init, OutboxRelay.init⟩
  audit := Deliveries.init ⟨[], []⟩
  notification := Deliveries.init ⟨[], []⟩

section
variable (c : Config)

def step (s : State j k) : Action j k → Option (State j k)
  | .policies a =>
    (Outlets.step (PolicyService.service c.validate) PolicyService.Store.outbox s.policies a).map
      (fun t => { s with policies := t })
  | .claims a =>
    (Outlets.step ClaimService.service ClaimService.Store.outbox s.claims a).map
      (fun t => { s with claims := t })
  | .audit f =>
    ((Deliveries.feed s.acked f).bind
      (Deliveries.step (AuditConsumer.handler c.runtime) s.audit)).map
        (fun t => { s with audit := t })
  | .notification f =>
    ((Deliveries.feed s.subscribed f).bind
      (Deliveries.step (NotificationConsumer.handler c.runtime c.defaultFromEmail)
        s.notification)).map (fun t => { s with notification := t })

/-- What one step can do, case by case. -/
inductive Step (s : State j k) : Action j k → State j k → Prop where
  | policies {a t} (moved : Outlets.step (PolicyService.service c.validate)
      PolicyService.Store.outbox s.policies a = some t) :
      Step s (.policies a) { s with policies := t }
  | claims {a t} (moved : Outlets.step ClaimService.service ClaimService.Store.outbox s.claims a =
      some t) : Step s (.claims a) { s with claims := t }
  | audit {f t} (moved : (Deliveries.feed s.acked f).bind
      (Deliveries.step (AuditConsumer.handler c.runtime) s.audit) = some t) :
      Step s (.audit f) { s with audit := t }
  | notification {f t} (moved : (Deliveries.feed s.subscribed f).bind (Deliveries.step
      (NotificationConsumer.handler c.runtime c.defaultFromEmail) s.notification) = some t) :
      Step s (.notification f) { s with notification := t }

end

variable {c : Config}

theorem step_sound {s t : State j k} {a : Action j k} (h : step c s a = some t) : Step c s a t := by
  cases a with
  | policies a =>
    obtain ⟨r, hr, rfl⟩ := Option.map_eq_some_iff.mp h
    exact .policies hr
  | claims a =>
    obtain ⟨r, hr, rfl⟩ := Option.map_eq_some_iff.mp h
    exact .claims hr
  | audit f =>
    obtain ⟨r, hr, rfl⟩ := Option.map_eq_some_iff.mp h
    exact .audit hr
  | notification f =>
    obtain ⟨r, hr, rfl⟩ := Option.map_eq_some_iff.mp h
    exact .notification hr

/-! ## What the services add -/

theorem policies_append : Outlets.Appends (PolicyService.service c.validate)
    PolicyService.Store.outbox where
  kept := by
    intro db env call v db' hc
    cases call with
    | create data coverages =>
      obtain ⟨number, _, rfl⟩ := PolicyService.createPolicy_ok hc
      exact List.prefix_append _ _
    | update pk filters data =>
      rcases PolicyService.updatePolicy_ok hc with ⟨_, rfl⟩ | ⟨_, row, _, rfl⟩
      · exact List.prefix_refl _
      · exact List.prefix_append _ _
    | cancel pk filters reason =>
      obtain ⟨locked, _, _, _, rfl⟩ := PolicyService.cancelPolicy_ok hc
      exact List.prefix_append _ _
  built := fun hc => AuditFrames.policy_commit_builds hc

theorem claims_append : Outlets.Appends ClaimService.service ClaimService.Store.outbox where
  kept := by
    intro db env call v db' hc
    cases call with
    | file data =>
      obtain ⟨number, _, rfl⟩ := ClaimService.fileClaim_ok hc
      exact List.prefix_append _ _
    | transition req =>
      obtain ⟨locked, _, _, rfl⟩ := ClaimService.transitionStatus_ok hc
      exact List.prefix_append _ _
  built := fun hc => AuditFrames.claim_commit_builds hc

/-- What a step adds to the committed events. -/
theorem step_stored {s t : State j k} {a : Action j k} (h : step c s a = some t) :
    ∃ new, t.stored.Perm (s.stored ++ new) := by
  cases step_sound h with
  | policies moved =>
    obtain ⟨new, hnew⟩ := Outlets.step_outbox policies_append moved
    refine ⟨new, ?_⟩
    simp only [State.stored, hnew, List.append_assoc]
    exact List.perm_append_comm.append_left _
  | claims moved =>
    obtain ⟨new, hnew⟩ := Outlets.step_outbox claims_append moved
    refine ⟨new, ?_⟩
    simp only [State.stored, hnew, List.append_assoc]
    exact List.Perm.refl _
  | audit moved => exact ⟨[], by simp [State.stored]⟩
  | notification moved => exact ⟨[], by simp [State.stored]⟩

/-! ## What the consumers make of a message -/

/-- `process_event` makes this row of the message. -/
def Stores (rt : Payloads.Runtime) (row : AuditConsumer.AuditEvent) (m : Message) : Prop :=
  ∃ rows id now receivedAt,
    AuditConsumer.processEvent rt rows m.value m.topic id now receivedAt = .ok row

theorem audit_records (rt : Payloads.Runtime) :
    Recorders.Records (AuditConsumer.handler rt) AuditConsumer.Store.rows
      (fun row => some row.eventId) (Stores rt) (fun _ _ _ => True) where
  start := fun _ _ => trivial
  call := by
    intro m p o store store' next _ h
    refine ⟨?_, fun _ _ => trivial⟩
    cases AuditConsumer.next_handled h with
    | @stored id now receivedAt event ok =>
      refine Or.inr ⟨event, rfl, ⟨_, _, _, _, ok⟩, ?_⟩
      have hkey := Duplicates.processEvent_key rt store.rows m id now receivedAt
      rw [ok] at hkey
      exact fun row hrow hsame => hkey.2 row hrow (Option.some.inj hsame)
    | _ => exact Or.inl rfl

/-- `_handle_message` makes this row of the payload. -/
def Drafts (c : Config) (n : NotificationConsumer.Notification) (payload : Json) : Prop :=
  ∃ d, NotificationConsumer.draft c.defaultFromEmail payload = some d ∧
    c.runtime.column d.eventId = some n.eventId ∧
    c.runtime.column d.recipient = some n.recipientEmail ∧
    n.eventType = d.eventType ∧ n.subject = d.subject ∧ n.context = d.context

theorem create_drafts {payload : Json} {d : NotificationConsumer.Draft}
    (drafted : NotificationConsumer.draft c.defaultFromEmail payload = some d)
    {rows : List NotificationConsumer.Notification} {id : UUID} {now : DateTime}
    {n : NotificationConsumer.Notification}
    (h : NotificationConsumer.create c.runtime rows d id now = some n) :
    Drafts c n payload ∧ ∀ row ∈ rows, row.eventId ≠ n.eventId := by
  simp only [NotificationConsumer.create, Option.bind_eq_bind, Option.bind_eq_some_iff] at h
  obtain ⟨eventId, hid, recipient, hrecipient, hrow⟩ := h
  cases hf : Tables.find NotificationConsumer.Notification.eventId rows eventId with
  | some row =>
    rw [hf] at hrow
    cases hrow
  | none =>
    rw [hf] at hrow
    cases hrow
    exact ⟨⟨d, drafted, hid, hrecipient, rfl, rfl, rfl⟩, Tables.find_eq_none.mp hf⟩

/-- Inside the transaction the new row is what the message asks for, and new. -/
def Underway (c : Config) (store : NotificationConsumer.Store) (m : Message) :
    NotificationConsumer.Point → Prop
  | .delay n => Drafts c n m.value ∧ ∀ row ∈ store.rows, row.eventId ≠ n.eventId
  | .commitRow n => Drafts c n m.value ∧ ∀ row ∈ store.rows, row.eventId ≠ n.eventId
  | _ => True

theorem notification_records (c : Config) :
    Recorders.Records (NotificationConsumer.handler c.runtime c.defaultFromEmail)
      NotificationConsumer.Store.rows (fun n => some n.eventId) (fun n m => Drafts c n m.value)
      (Underway c) where
  start := fun _ _ => trivial
  call := by
    intro m p o store store' next underway h
    cases NotificationConsumer.next_handled h with
    | inserting drafted ok =>
      refine ⟨Or.inl rfl, fun p he => ?_⟩
      cases he
      exact create_drafts drafted ok
    | duplicate drafted taken =>
      refine ⟨Or.inl rfl, fun p he => ?_⟩
      cases he
      trivial
    | delayed =>
      refine ⟨Or.inl rfl, fun p he => ?_⟩
      cases he
      exact underway
    | @inserted n =>
      refine ⟨Or.inr ⟨n, rfl, underway.1, ?_⟩, fun p he => ?_⟩
      · exact fun row hrow hsame => underway.2 row hrow (Option.some.inj hsame)
      · cases he
        trivial
    | _ => exact ⟨Or.inl rfl, fun p he => by cases he⟩

/-! ## What a row says of its event -/

/-- The identifier an event has on the wire. -/
def eventId (e : OutboxEvent) : Option String := Payloads.eventId? e.payload

/-- The audit row says what the committed event says. -/
structure Tells (row : AuditConsumer.AuditEvent) (e : OutboxEvent) : Prop where
  eventId : eventId e = some row.eventId
  eventType : row.eventType = e.eventType
  topic : row.kafkaTopic = e.topic
  entityType : row.entityType = e.aggregateType
  entityId : row.entityId = e.aggregateId
  service : e.payload.get? "service" = some (.str row.service)
  occurredAt : e.payload.get? "occurred_at" = some (.str row.occurredAt.isoformat)
  payload : row.payload = e.payload

theorem emit_entity (b : Build) (id : UUID) (createdAt : DateTime) (eventId : UUID)
    (occurredAt : DateTime) :
    ((b.emit id createdAt eventId occurredAt).aggregateType,
      (b.emit id createdAt eventId occurredAt).aggregateId) = b.entity := by
  cases b <;> rfl

theorem emit_eventType (b : Build) (id : UUID) (createdAt : DateTime) (eventId : UUID)
    (occurredAt : DateTime) : (b.emit id createdAt eventId occurredAt).eventType = b.eventType := by
  cases b <;> rfl

theorem tells_of_stores {row : AuditConsumer.AuditEvent} {e : OutboxEvent}
    (built : FromBuilder e) (stores : Stores c.runtime row (message e)) : Tells row e := by
  obtain ⟨b, id, createdAt, eventId, occurredAt, rfl⟩ := built
  obtain ⟨rows, rowId, now, receivedAt, ok⟩ := stores
  obtain ⟨data, hpayload⟩ := b.payload_eq
  have about := Redelivery.extractEntity_build c.runtime b eventId occurredAt
  have hvalue : (message (b.emit id createdAt eventId occurredAt)).value =
      envelope eventId b.eventType occurredAt b.service data :=
    (Build.emit_payload b id createdAt eventId occurredAt).trans (hpayload eventId occurredAt)
  rw [hpayload] at about
  rw [hvalue, Redelivery.processEvent_about (AuditFrames.runtime_faithful c.str) about] at ok
  have hentity := emit_entity b id createdAt eventId occurredAt
  cases hf : Tables.find AuditConsumer.AuditEvent.eventId rows eventId.str with
  | some found =>
    rw [hf] at ok
    cases ok
  | none =>
    rw [hf] at ok
    cases ok
    have hstored : (b.emit id createdAt eventId occurredAt).payload =
        envelope eventId b.eventType occurredAt b.service data := hvalue
    constructor
    case eventType => exact (emit_eventType b id createdAt eventId occurredAt).symm
    case topic => rfl
    case entityType => exact (congrArg Prod.fst hentity).symm
    case entityId => exact (congrArg Prod.snd hentity).symm
    case payload => exact hstored.symm
    case eventId =>
      rw [Pipeline.eventId, hstored]
      rfl
    all_goals
      rw [hstored]
      rfl

theorem eventId_of_drafts {n : NotificationConsumer.Notification} {e : OutboxEvent}
    (built : FromBuilder e) (drafts : Drafts c n e.payload) : eventId e = some n.eventId := by
  obtain ⟨b, id, createdAt, eventId, occurredAt, rfl⟩ := built
  obtain ⟨d, hdraft, hid, -⟩ := drafts
  obtain ⟨data, hpayload⟩ := b.payload_eq
  rw [Build.emit_payload, hpayload] at hdraft
  have heventId := (Duplicates.draft_some hdraft).1
  rw [Payloads.get_eventId] at heventId
  rw [Pipeline.eventId, Build.emit_payload, hpayload, Payloads.eventId?_envelope, ← hid,
    ← Option.some.inj heventId]
  rfl

/-! ## Two ledgers -/

structure Inv (c : Config) (s : State j k) : Prop where
  policies : Outlets.Coherent PolicyService.Store.outbox s.policies
  claims : Outlets.Coherent ClaimService.Store.outbox s.claims
  audit : Recorders.Fed (fun _ _ _ => True) s.acked s.audit
  notification : Recorders.Fed (Underway c) s.subscribed s.notification

theorem step_acked {s t : State j k} {a : Action j k} (h : step c s a = some t) :
    s.acked ⊆ t.acked := by
  cases step_sound h with
  | policies moved =>
    refine List.append_subset.mpr ⟨fun m hm => ?_, List.subset_append_right _ _⟩
    exact List.mem_append_left _ ((Outlets.step_acked moved).subset hm)
  | claims moved =>
    refine List.append_subset.mpr ⟨List.subset_append_left _ _, fun m hm => ?_⟩
    exact List.mem_append_right _ ((Outlets.step_acked moved).subset hm)
  | audit moved => exact List.Subset.refl _
  | notification moved => exact List.Subset.refl _

theorem step_subscribed {s t : State j k} {a : Action j k} (h : step c s a = some t) :
    s.subscribed ⊆ t.subscribed := by
  intro m hm
  obtain ⟨hacked, htopic⟩ := List.mem_filter.mp hm
  exact List.mem_filter.mpr ⟨step_acked h hacked, htopic⟩

theorem inv_step : Runs.Inductive (step (j := j) (k := k) c) (Inv c) := by
  intro s a t hs h
  have audit := hs.audit.grow (step_acked h)
  have notification := hs.notification.grow (step_subscribed h)
  cases step_sound h with
  | policies moved =>
    exact ⟨Outlets.coherent policies_append s.policies _ _ hs.policies moved, hs.claims, audit,
      notification⟩
  | claims moved =>
    exact ⟨hs.policies, Outlets.coherent claims_append s.claims _ _ hs.claims moved, audit,
      notification⟩
  | audit moved =>
    exact ⟨hs.policies, hs.claims,
      (Recorders.step_rows (audit_records c.runtime) hs.audit moved).1, notification⟩
  | notification moved =>
    exact ⟨hs.policies, hs.claims, audit,
      (Recorders.step_rows (notification_records c) hs.notification moved).1⟩

theorem inv_init (customers : List PolicyService.Customer) :
    Inv c (init customers : State j k) where
  policies := Outlets.coherent_init rfl
  claims := Outlets.coherent_init rfl
  audit := fun m p hm => by cases hm
  notification := fun m p hm => by cases hm

theorem Inv.built {s : State j k} (h : Inv c s) {e : OutboxEvent} (he : e ∈ s.stored) :
    FromBuilder e := by
  rcases List.mem_append.mp he with he | he
  · exact h.policies.built e he
  · exact h.claims.built e he

theorem Inv.acked {s : State j k} (h : Inv c s) {m : Message} (hm : m ∈ s.acked) :
    ∃ e ∈ s.stored, message e = m := by
  rcases List.mem_append.mp hm with hm | hm
  · obtain ⟨e, he, hmessage⟩ := h.policies.acked hm
    exact ⟨e, List.mem_append_left _ he, hmessage⟩
  · obtain ⟨e, he, hmessage⟩ := h.claims.acked hm
    exact ⟨e, List.mem_append_right _ he, hmessage⟩

/-- The consumer's rows are a ledger of the committed events that `p` picks. -/
structure Keeps {B : Type} (c : Config) (p : OutboxEvent → Bool) (asks : B → Message → Prop)
    (rows : State j k → List B) (s : State j k) (l : Ledgers.Ledger OutboxEvent) : Prop where
  inv : Inv c s
  sound : Ledgers.Sound eventId l
  emitted : l.emitted.Perm (s.stored.filter p)
  kept : Recorders.Kept asks message (rows s) l

theorem keeps_init {B : Type} {p : OutboxEvent → Bool} {asks : B → Message → Prop}
    {rows : State j k → List B} (customers : List PolicyService.Customer)
    (empty : rows (init customers) = []) : Keeps c p asks rows (init customers) ⟨[], []⟩ where
  inv := inv_init customers
  sound := Ledgers.sound_empty
  emitted := List.Perm.refl _
  kept := by
    rw [Recorders.Kept, empty]
    exact .nil

/-- The ledger emits what a step commits, and records what it adds to the rows. -/
theorem simulates {B : Type} {p : OutboxEvent → Bool} {asks : B → Message → Prop}
    {rows : State j k → List B}
    (consumes : ∀ s a t l, Keeps c p asks rows s l → step c s a = some t →
      rows t = rows s ∨ ∃ bs l', Runs.run (Ledgers.step eventId) l bs = some l' ∧
        l'.emitted = l.emitted ∧ Recorders.Kept asks message (rows t) l' ∧
        t.stored = s.stored) :
    Components.Simulates (step (j := j) (k := k) c) (Ledgers.step eventId)
      (Keeps c p asks rows) := by
  intro s a t l h hst
  have inv := inv_step s a t h.inv hst
  rcases consumes s a t l h hst with same | ⟨bs, l', hrun, hemitted, hkept, hstored⟩
  · obtain ⟨new, hnew⟩ := step_stored hst
    refine ⟨(new.filter p).map .emit, _, Ledgers.emit_run l _, inv,
      Ledgers.sound.run h.sound (Ledgers.emit_run l _), ?_, ?_⟩
    · refine (h.emitted.append_right _).trans ?_
      rw [← List.filter_append]
      exact (hnew.filter p).symm
    · rw [Recorders.Kept, same]
      exact h.kept
  · refine ⟨bs, l', hrun, inv, Ledgers.sound.run h.sound hrun, ?_, hkept⟩
    rw [hemitted, hstored]
    exact h.emitted

abbrev auditRows (s : State j k) : List AuditConsumer.AuditEvent := s.audit.store.rows

abbrev notificationRows (s : State j k) : List NotificationConsumer.Notification :=
  s.notification.store.rows

def announced (e : OutboxEvent) : Bool := onTopic e.topic

theorem audit_simulates : Components.Simulates (step (j := j) (k := k) c) (Ledgers.step eventId)
    (Keeps c (fun _ => true) (Stores c.runtime) auditRows) := by
  refine simulates (fun s a t l h hst => ?_)
  have hstored : l.emitted.Perm s.stored := by simpa using h.emitted
  cases step_sound hst with
  | audit moved =>
    obtain ⟨bs, l', hrun, hemitted, hkept⟩ := Recorders.step_records
      (audit_records c.runtime) h.inv.audit
      (fun m hm => by
        obtain ⟨e, he, hmessage⟩ := h.inv.acked hm
        exact ⟨e, hstored.mem_iff.mpr he, hmessage⟩)
      (fun row e he hasks =>
        (tells_of_stores (h.inv.built (hstored.mem_iff.mp he)) hasks).eventId)
      h.sound h.kept moved
    exact Or.inr ⟨bs, l', hrun, hemitted, hkept, rfl⟩
  | _ => exact Or.inl rfl

/-- The audit rows tell the recorded events. -/
theorem tells_kept {s : State j k} {l : Ledgers.Ledger OutboxEvent}
    (h : Keeps c (fun _ => true) (Stores c.runtime) auditRows s l) :
    List.Forall₂ Tells s.audit.store.rows l.recorded := by
  have built : ∀ e ∈ l.recorded, FromBuilder e := fun e he =>
    h.inv.built (List.mem_of_mem_filter (h.emitted.mem_iff.mp (h.sound.emitted he)))
  have flipped : List.Forall₂ (fun e row => Stores c.runtime row (message e)) l.recorded
      (auditRows s) := List.Forall₂.flip h.kept
  have both := (List.forall₂_and_left l.recorded (auditRows s)).mpr ⟨built, flipped⟩
  exact List.Forall₂.flip (both.imp (fun e row hrow => tells_of_stores hrow.1 hrow.2))

theorem notification_simulates :
    Components.Simulates (step (j := j) (k := k) c) (Ledgers.step eventId)
      (Keeps c announced (fun n m => Drafts c n m.value) notificationRows) := by
  refine simulates (fun s a t l h hst => ?_)
  have hemitted : ∀ e, e ∈ l.emitted ↔ e ∈ s.stored ∧ announced e = true := fun e =>
    h.emitted.mem_iff.trans List.mem_filter
  cases step_sound hst with
  | notification moved =>
    obtain ⟨bs, l', hrun, hemitted, hkept⟩ := Recorders.step_records
      (notification_records c) h.inv.notification
      (fun m hm => by
        obtain ⟨hacked, htopic⟩ := List.mem_filter.mp hm
        obtain ⟨e, he, rfl⟩ := h.inv.acked hacked
        exact ⟨e, (hemitted e).mpr ⟨he, htopic⟩, rfl⟩)
      (fun n e he hasks => eventId_of_drafts (h.inv.built ((hemitted e).mp he).1) hasks)
      h.sound h.kept moved
    exact Or.inr ⟨bs, l', hrun, hemitted, hkept, rfl⟩
  | _ => exact Or.inl rfl

/-- Whatever the order of steps, and wherever relays and consumers go down: the
pipeline implements a ledger of the events the services commit, whose recorded
entries the audit rows tell one by one, and a ledger of those on the topics of
notification-service, whose recorded entries its rows were drafted from. -/
theorem consumers_implement_ledgers (c : Config) (customers : List PolicyService.Customer) :
    Components.Implements (step (j := j) (k := k) c) (init customers) (Ledgers.step eventId)
        ⟨[], []⟩ (fun s l => l.emitted.Perm s.stored ∧
          List.Forall₂ Tells s.audit.store.rows l.recorded) ∧
      Components.Implements (step (j := j) (k := k) c) (init customers) (Ledgers.step eventId)
        ⟨[], []⟩ (fun s l => l.emitted.Perm (s.stored.filter announced) ∧
          List.Forall₂ (fun n e => Drafts c n e.payload) s.notification.store.rows l.recorded) := by
  constructor
  · refine ⟨_, keeps_init customers rfl, audit_simulates, fun s l h => ?_⟩
    have hstored : l.emitted.Perm s.stored := by simpa using h.emitted
    exact ⟨hstored, tells_kept h⟩
  · exact ⟨_, keeps_init customers rfl, notification_simulates, fun s l h => ⟨h.emitted, h.kept⟩⟩

end Pipeline
