import RiskCore.Pipeline

/-!
# Every event arrives once

When the relays have published every row, with the broker's acknowledgement, and
the consumers have come to the end of every message while their databases, the
channel layer and Celery's broker answered, nothing is missing from the ledgers:
the audit log is the committed events, and the notifications are those on the
consumer's topics.
-/

namespace PipelineDelivery

open Values Outbox Events OutboxRelay Pipeline

variable {j k : Nat} {c : Config}

/-- What the consumers call answers; Kafka's commits may fail. -/
def Available (s : State j k) (a : Action j k) (_ : State j k) : Prop :=
  match a with
  | .audit (.call o) => Deliveries.Permitted (fun _ => True) Redelivery.AuditAvailable s.audit
      (.call o) s.audit
  | .notification (.call o) => Deliveries.Permitted (fun _ => True)
      Redelivery.NotificationAvailable s.notification (.call o) s.notification
  | _ => True

instance (s : State j k) : ∀ a t, Decidable (Available s a t)
  | .audit (.call o), _ => inferInstanceAs (Decidable (Deliveries.Permitted (fun _ => True)
      Redelivery.AuditAvailable s.audit (.call o) s.audit))
  | .notification (.call o), _ => inferInstanceAs (Decidable (Deliveries.Permitted (fun _ => True)
      Redelivery.NotificationAvailable s.notification (.call o) s.notification))
  | .policies _, _ | .claims _, _ => isTrue trivial
  | .audit (.deliver _), _ | .audit .crash, _ => isTrue trivial
  | .notification (.deliver _), _ | .notification .crash, _ => isTrue trivial

/-- Every row is published and what is published is acknowledged; every
acknowledged message has been handled to its end; no two events share an
identifier. -/
structure Settled (s : State j k) : Prop where
  published : ∀ row ∈ s.policies.relay.rows ++ s.claims.relay.rows, row.status = .published
  policies : RelayDelivery.AckedWhenPublished s.policies.relay
  claims : RelayDelivery.AckedWhenPublished s.claims.relay
  audited : ∀ m ∈ s.acked, m ∈ s.audit.ended
  notified : ∀ m ∈ s.subscribed, m ∈ s.notification.ended
  distinct : (s.stored.map eventId).Nodup

theorem Settled.acked {s : State j k} (h : Settled s) (inv : Inv c s) {e : OutboxEvent}
    (he : e ∈ s.stored) : message e ∈ s.acked := by
  have published := List.forall_mem_append.mp h.published
  rcases List.mem_append.mp he with he | he
  · exact List.mem_append_left _ (inv.policies.all_acked h.policies published.1 he)
  · exact List.mem_append_right _ (inv.claims.all_acked h.claims published.2 he)

/-! ## The consumers on their own -/

/-- The messages with the proof that a builder made them. -/
def relayed (log : List Message) (built : ∀ m ∈ log, Built m.topic m.value) : List Relayed :=
  log.pmap Relayed.mk built

theorem mem_relayed {log : List Message} {built : ∀ m ∈ log, Built m.topic m.value}
    {r : Relayed} : r ∈ relayed log built ↔ r.message ∈ log := by
  rw [relayed, List.mem_pmap]
  constructor
  · rintro ⟨m, hm, rfl⟩
    exact hm
  · exact fun hr => ⟨r.message, hr, rfl⟩

/-- A consumer handed messages of a log of builders' events keeps what its handler
keeps of such messages. -/
theorem consumer_keeps {D P O : Type} {h : Offsets.Handler Message D P O} {log : List Message}
    (built : ∀ m ∈ log, Built m.topic m.value) {allowed : D → P → O → Prop} {I : D → Prop}
    {ready : D → Relayed → P → Prop} {recorded : D → Relayed → Prop}
    (keeps : Deliveries.Keeps (h.comap Relayed.message) (fun r => r ∈ relayed log built) allowed I
      ready recorded)
    {store : D} (start : I store) {as : List (Deliveries.Action Message O)}
    {t : Deliveries.State Message D P} (fromLog : ∀ m, .deliver m ∈ as → m ∈ log)
    (hrun : Runs.run (Deliveries.step h) (Deliveries.init store) as = some t)
    (hcalls : Runs.Steps (Deliveries.step h) (Deliveries.Permitted (fun _ => True) allowed)
      (Deliveries.init store) as) :
    I t.store ∧ ∀ m ∈ t.ended, ∃ r : Relayed, r.message = m ∧ recorded t.store r := by
  obtain ⟨as', t', hrun', rfl, hcalls', hdeliver⟩ :=
    Deliveries.exists_lift (f := Relayed.message) (r := Deliveries.init store)
      (fun m hm => ⟨⟨m, built m (fromLog m hm)⟩, rfl⟩) hrun hcalls
  have permitted : Runs.Steps (Deliveries.step (h.comap Relayed.message))
      (Deliveries.Permitted (fun r => r ∈ relayed log built) allowed) _ as' :=
    Deliveries.steps_permitted (fun r hr => mem_relayed.mpr (fromLog _ (hdeliver r hr))) hcalls'
  obtain ⟨hI, hended⟩ := Deliveries.run_consistent keeps start permitted hrun'
  refine ⟨hI, fun m hm => ?_⟩
  obtain ⟨r, hr, rfl⟩ := List.mem_map.mp hm
  exact ⟨r, rfl, hended r hr⟩

/-- What a step of the pipeline is to a consumer. -/
def auditActs (s : State j k) : Action j k → List (Deliveries.Action Message AuditConsumer.Outcome)
  | .audit f => (Deliveries.feed s.acked f).toList
  | _ => []

def notificationActs (s : State j k) :
    Action j k → List (Deliveries.Action Message NotificationConsumer.Outcome)
  | .notification f => (Deliveries.feed s.subscribed f).toList
  | _ => []

section
variable {D P O : Type} {h : Offsets.Handler Message D P O} {log : List Message}
  {s t : Deliveries.State Message D P} {f : Deliveries.Feed O}

theorem run_feed (hst : (Deliveries.feed log f).bind (Deliveries.step h s) = some t) :
    Runs.run (Deliveries.step h) s (Deliveries.feed log f).toList = some t := by
  obtain ⟨a, ha, hst⟩ := Option.bind_eq_some_iff.mp hst
  rw [ha]
  exact Runs.run_cons.mpr ⟨t, hst, rfl⟩

theorem steps_feed {allowed : D → P → O → Prop}
    (calls : ∀ o, f = .call o → Deliveries.Permitted (fun _ => True) allowed s (.call o) s) :
    Runs.Steps (Deliveries.step h) (Deliveries.Permitted (fun _ => True) allowed) s
      (Deliveries.feed log f).toList := by
  cases f with
  | deliver i =>
    cases hi : log[i]? with
    | none => simp [Deliveries.feed, hi, Runs.Steps]
    | some m =>
      simp only [Deliveries.feed, hi, Option.map_some, Option.toList_some]
      exact fun _ _ => ⟨trivial, trivial⟩
  | call o => exact fun _ _ => ⟨calls o rfl, trivial⟩
  | crash => exact fun _ _ => ⟨trivial, trivial⟩

end

theorem audit_part : Components.Part (step (j := j) (k := k) c)
    (Deliveries.step (AuditConsumer.handler c.runtime)) State.audit auditActs := by
  intro s a t hst
  cases step_sound hst with
  | audit moved => exact run_feed moved
  | _ => rfl

theorem notification_part : Components.Part (step (j := j) (k := k) c)
    (Deliveries.step (NotificationConsumer.handler c.runtime c.defaultFromEmail))
    State.notification notificationActs := by
  intro s a t hst
  cases step_sound hst with
  | notification moved => exact run_feed moved
  | _ => rfl

theorem built_acked {s : State j k} (inv : Inv c s) : ∀ m ∈ s.acked, Built m.topic m.value := by
  intro m hm
  obtain ⟨e, he, rfl⟩ := inv.acked hm
  obtain ⟨b, id, createdAt, eventId, occurredAt, rfl⟩ := inv.built he
  cases b <;> constructor

theorem audit_recorded {customers : List PolicyService.Customer} {as : List (Action j k)}
    {s : State j k} (hrun : Runs.run (step c) (init customers) as = some s)
    (answers : Runs.Steps (step c) Available (init customers) as) :
    ∀ m ∈ s.audit.ended, AuditConsumer.Recorded s.audit.store m := by
  have inv := inv_step.run (inv_init customers) hrun
  have fromLog := Components.forall_journal auditActs
    (fun s b => ∀ m, b = .deliver m → m ∈ s.acked) (fun s a t hst b hb m he => by
      cases a with
      | audit f =>
        subst he
        exact step_acked hst (Deliveries.feed_deliver (Option.mem_toList.mp hb))
      | _ => cases hb) (fun s a t b hst hb m he => step_acked hst (hb m he)) hrun
  have calls := audit_part.steps hrun (Q := Deliveries.Permitted (fun _ => True)
    Redelivery.AuditAvailable) (Runs.steps_mono (I := fun _ => True) (fun _ _ _ _ _ => trivial)
      (fun s a t _ _ hanswers => by
        cases a with
        | audit f =>
          refine steps_feed (fun o he => ?_)
          subst he
          exact hanswers
        | _ => trivial) trivial answers)
  have start : Redelivery.AuditRows c.runtime (relayed s.acked (built_acked inv)) ⟨[], []⟩ :=
    ⟨List.nodup_nil, by simp⟩
  obtain ⟨-, hended⟩ := consumer_keeps (built_acked inv)
    (Redelivery.audit_keeps (AuditFrames.runtime_faithful c.str) _) start
    (fun m hm => fromLog _ hm m rfl) (audit_part.run hrun) calls
  intro m hm
  obtain ⟨r, rfl, hrecorded⟩ := hended m hm
  exact hrecorded

theorem built_subscribed {s : State j k} (inv : Inv c s) :
    ∀ m ∈ s.subscribed, Built m.topic m.value :=
  fun m hm => built_acked inv m (List.mem_of_mem_filter hm)

theorem notification_recorded {customers : List PolicyService.Customer} {as : List (Action j k)}
    {s : State j k} (hrun : Runs.run (step c) (init customers) as = some s)
    (answers : Runs.Steps (step c) Available (init customers) as) :
    (∀ m ∈ s.notification.ended, NotificationConsumer.Recorded s.notification.store m) ∧
      (s.notification.store.rows.map NotificationConsumer.Notification.id).Nodup ∧
      ∀ row ∈ s.notification.store.rows, s.notification.store.tasks.count row.id.str = 1 := by
  have inv := inv_step.run (inv_init customers) hrun
  have fromLog := Components.forall_journal notificationActs
    (fun s b => ∀ m, b = .deliver m → m ∈ s.subscribed) (fun s a t hst b hb m he => by
      cases a with
      | notification f =>
        subst he
        exact step_subscribed hst (Deliveries.feed_deliver (Option.mem_toList.mp hb))
      | _ => cases hb) (fun s a t b hst hb m he => step_subscribed hst (hb m he)) hrun
  have calls := notification_part.steps hrun (Q := Deliveries.Permitted (fun _ => True)
    Redelivery.NotificationAvailable) (Runs.steps_mono (I := fun _ => True)
      (fun _ _ _ _ _ => trivial) (fun s a t _ _ hanswers => by
        cases a with
        | notification f =>
          refine steps_feed (fun o he => ?_)
          subst he
          exact hanswers
        | _ => trivial) trivial answers)
  have start : Redelivery.NotificationRows c.runtime c.defaultFromEmail
      (relayed s.subscribed (built_subscribed inv)) ⟨[], []⟩ :=
    ⟨List.nodup_nil, by simp, List.nodup_nil, by simp⟩
  obtain ⟨hI, hended⟩ := consumer_keeps (built_subscribed inv)
    (Redelivery.notification_keeps c.runtime c.defaultFromEmail _) start
    (fun m hm => fromLog _ hm m rfl) (notification_part.run hrun) calls
  refine ⟨fun m hm => ?_, hI.ids, hI.tasks⟩
  obtain ⟨r, rfl, hrecorded⟩ := hended m hm
  exact hrecorded

/-! ## Nothing is missing -/

/-- Where every emitted event's message is recorded, the ledger is complete. -/
theorem kept_perm {B : Type} {p : OutboxEvent → Bool} {asks : B → Message → Prop}
    {rows : State j k → List B} (rowId : B → String) {s : State j k}
    {l : Ledgers.Ledger OutboxEvent} (h : Keeps c p asks rows s l)
    (named : ∀ row, ∀ e ∈ l.emitted, asks row (message e) → eventId e = some (rowId row))
    (distinct : (s.stored.map eventId).Nodup)
    (recorded : ∀ e ∈ l.emitted, ∃ row ∈ rows s, eventId e = some (rowId row)) :
    l.recorded.Perm l.emitted := by
  refine h.sound.perm ?_ (fun e he => ?_)
  · exact (h.emitted.map eventId).nodup_iff.mpr
      (distinct.sublist ((List.filter_sublist).map eventId))
  · rw [Recorders.keys_eq (fun row e he => named row e (h.sound.emitted he)) h.kept]
    obtain ⟨row, hrow, hid⟩ := recorded e he
    rw [hid]
    exact List.mem_map.mpr ⟨row, hrow, rfl⟩

theorem audit_complete {customers : List PolicyService.Customer} {as : List (Action j k)}
    {s : State j k} (hrun : Runs.run (step c) (init customers) as = some s)
    (answers : Runs.Steps (step c) Available (init customers) as) (settled : Settled s) :
    ∃ es, es.Perm s.stored ∧ List.Forall₂ Tells s.audit.store.rows es := by
  have inv := inv_step.run (inv_init customers) hrun
  obtain ⟨_, l, -, hl⟩ := audit_simulates.run (keeps_init customers rfl) hrun
  have hstored : l.emitted.Perm s.stored := by simpa using hl.emitted
  refine ⟨l.recorded, ?_, tells_kept hl⟩
  refine (kept_perm AuditConsumer.AuditEvent.eventId hl ?_ settled.distinct ?_).trans
    hstored
  · exact fun row e he hasks =>
      (tells_of_stores (inv.built (hstored.mem_iff.mp he)) hasks).eventId
  · exact fun e he => audit_recorded hrun answers _
      (settled.audited _ (settled.acked inv (hstored.mem_iff.mp he)))

/-- Once the pipeline has settled, the audit rows tell the committed events, each
once; the notifications are drafted from those on the consumer's topics, each once,
and every notification has one e-mail task. -/
theorem every_event_arrives_once {customers : List PolicyService.Customer}
    {as : List (Action j k)} {s : State j k}
    (hrun : Runs.run (step c) (init customers) as = some s)
    (answers : Runs.Steps (step c) Available (init customers) as) (settled : Settled s) :
    (∃ es, es.Perm s.stored ∧ List.Forall₂ Tells s.audit.store.rows es) ∧
      (∃ es, es.Perm (s.stored.filter announced) ∧
        List.Forall₂ (fun n e => Drafts c n e.payload) s.notification.store.rows es) ∧
      (s.notification.store.rows.map NotificationConsumer.Notification.id).Nodup ∧
      ∀ row ∈ s.notification.store.rows, s.notification.store.tasks.count row.id.str = 1 := by
  have inv := inv_step.run (inv_init customers) hrun
  obtain ⟨notified, ids, tasks⟩ := notification_recorded hrun answers
  refine ⟨audit_complete hrun answers settled, ?_, ids, tasks⟩
  obtain ⟨_, l, -, hl⟩ := notification_simulates.run (keeps_init customers rfl) hrun
  have hemitted : ∀ e ∈ l.emitted, e ∈ s.stored ∧ announced e = true := fun e he =>
    List.mem_filter.mp (hl.emitted.mem_iff.mp he)
  refine ⟨l.recorded, ?_, hl.kept⟩
  refine (kept_perm NotificationConsumer.Notification.eventId hl ?_ settled.distinct
    ?_).trans hl.emitted
  · exact fun n e he hasks => eventId_of_drafts (inv.built (hemitted e he).1) hasks
  · intro e he
    obtain ⟨hstored, htopic⟩ := hemitted e he
    exact notified _ (settled.notified _
      (List.mem_filter.mpr ⟨settled.acked inv hstored, htopic⟩))

def exampleConfig : Config where
  validate := PolicyService.serializers
  str _ := ""
  defaultFromEmail := "noreply@riskcore.com"

/-- Claims-service an hour later. -/
def exampleLater (base : Nat) : ClaimService.Env :=
  { ClaimRecords.exampleEnv base with now := fun _ => exampleInstant 11 0 }

def exampleReview : ClaimService.TransitionRequest :=
  { ClaimRecords.exampleRequest .underReview none with pk := ⟨100⟩ }

/-- A policy is created and its event relayed. -/
def examplePolicies : List (Outlets.Action PolicyService.Call PolicyService.Env 1) :=
  PolicyRecords.exampleCreation.map .request ++
    [.relay (.select solo (fun _ => 0)), .relay (.produced solo (exampleInstant 11 1)),
      .relay (.ack solo 0), .relay (.flush solo), .relay (.commit solo)]

/-- A claim is filed on the policy, taken under review an hour later, and its events
relayed. -/
def exampleClaims : List (Outlets.Action ClaimService.Call ClaimService.Env 1) :=
  [.request (.call 0 (.file { ClaimRecords.exampleData with policyId := ⟨0⟩ })),
    .request (.read 0 (ClaimRecords.exampleEnv 100)), .request (.check 0),
    .request (.commit 0 (ClaimRecords.exampleEnv 100)),
    .request (.call 1 (.transition exampleReview)), .request (.read 1 (exampleLater 200)),
    .request (.check 1), .request (.commit 1 (exampleLater 200)),
    .relay (.select solo (fun _ => 0)), .relay (.produced solo (exampleInstant 11 1)),
    .relay (.produced solo (exampleInstant 11 2)), .relay (.ack solo 0), .relay (.ack solo 0),
    .relay (.flush solo), .relay (.commit solo)]

/-- The audit consumer goes down after an insert, is handed the claim's events in the wrong
order, and then the first message again. -/
def exampleRun : List (Action 1 1) :=
  examplePolicies.map .policies ++ exampleClaims.map .claims ++
    [.audit (.deliver 0),
      .audit (.call (.created ⟨1000⟩ (exampleInstant 11 2) (exampleInstant 11 2))),
      .audit .crash, .audit (.deliver 2),
      .audit (.call (.created ⟨1001⟩ (exampleInstant 11 2) (exampleInstant 11 2))),
      .audit (.call .done), .audit (.call .done), .audit (.deliver 1),
      .audit (.call (.created ⟨1002⟩ (exampleInstant 11 3) (exampleInstant 11 3))),
      .audit (.call .done), .audit (.call .done), .audit (.deliver 0),
      .audit (.call (.created ⟨1003⟩ (exampleInstant 11 3) (exampleInstant 11 3))),
      .audit (.call .done)] ++
    (List.range 3).flatMap (fun i => [.notification (.deliver i),
      .notification (.call (.created ⟨BitVec.ofNat 128 (2000 + i)⟩ (exampleInstant 11 3))),
      .notification (.call .done), .notification (.call .done), .notification (.call .done)])

def examplePolicy : PolicyService.Policy :=
  PolicyService.newPolicy (PolicyRecords.exampleEnv 0) PolicyRecords.exampleCustomer
    "POL-2025-000001" PolicyRecords.exampleData

def exampleCreated : OutboxEvent :=
  PolicyService.createdEvent (PolicyRecords.exampleEnv 0) 0 examplePolicy

def exampleClaim : ClaimService.Claim :=
  ClaimService.newClaim (ClaimRecords.exampleEnv 100) "CLM-2025-000001"
    { ClaimRecords.exampleData with policyId := ⟨0⟩ }

def exampleFiled : OutboxEvent := ClaimService.filedEvent (ClaimRecords.exampleEnv 100) exampleClaim

def exampleReviewed : OutboxEvent :=
  ClaimService.statusChangedEvent (exampleLater 200)
    (exampleClaim.transitioned (exampleInstant 11 0) exampleReview) .filed exampleReview

theorem exampleRun_ends :
    (Runs.run (step exampleConfig) (init [PolicyRecords.exampleCustomer]) exampleRun).map
      (fun s => (s.stored, s.policies.relay.rows, s.claims.relay.rows, s.policies.relay.acked,
        s.claims.relay.acked, s.audit.ended, s.notification.ended)) =
      some ([exampleCreated, exampleFiled, exampleReviewed],
        [published exampleCreated (exampleInstant 11 1)],
        [published exampleFiled (exampleInstant 11 1),
          published exampleReviewed (exampleInstant 11 2)],
        [message exampleCreated], [message exampleFiled, message exampleReviewed],
        [message exampleReviewed, message exampleFiled, message exampleCreated],
        [message exampleCreated, message exampleFiled, message exampleReviewed]) := by
  rfl

theorem exampleRun_settled {s : State 1 1}
    (hs : Runs.run (step exampleConfig) (init [PolicyRecords.exampleCustomer]) exampleRun =
      some s) : Settled s := by
  have hends := exampleRun_ends
  rw [hs, Option.map_some, Option.some.injEq] at hends
  simp only [Prod.mk.injEq] at hends
  obtain ⟨hstored, hpolicies, hclaims, hcreated, hfiled, haudited, hnotified⟩ := hends
  have hall : s.acked =
      [message exampleCreated, message exampleFiled, message exampleReviewed] := by
    simp [Pipeline.State.acked, hcreated, hfiled]
  constructor
  case published =>
    rw [hpolicies, hclaims]
    simp [published]
  case policies =>
    refine RelayDelivery.ackedWhenPublished_of_map ?_
    rw [hpolicies, hcreated]
    rfl
  case claims =>
    refine RelayDelivery.ackedWhenPublished_of_map ?_
    rw [hclaims, hfiled]
    rfl
  case audited =>
    rw [hall, haudited]
    simp
  case notified =>
    intro m hm
    rw [hnotified, ← hall]
    exact List.mem_of_mem_filter hm
  case distinct =>
    rw [hstored]
    decide +kernel

theorem exampleRun_answers : Runs.Steps (step exampleConfig) Available
    (init [PolicyRecords.exampleCustomer]) exampleRun := by
  decide +kernel

theorem exampleRun_arrives : ∃ s, Runs.run (step exampleConfig)
      (init [PolicyRecords.exampleCustomer]) exampleRun = some s ∧
    (∃ es, es.Perm s.stored ∧ List.Forall₂ Tells s.audit.store.rows es) ∧
    (∃ es, es.Perm (s.stored.filter announced) ∧ List.Forall₂
      (fun n e => Drafts exampleConfig n e.payload) s.notification.store.rows es) ∧
    ∀ row ∈ s.notification.store.rows, s.notification.store.tasks.count row.id.str = 1 := by
  obtain ⟨s, hs, -⟩ := Option.map_eq_some_iff.mp exampleRun_ends
  obtain ⟨audit, notification, -, tasks⟩ :=
    every_event_arrives_once hs exampleRun_answers (exampleRun_settled hs)
  exact ⟨s, hs, audit, notification, tasks⟩

end PipelineDelivery
